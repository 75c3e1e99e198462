import PtaasBench.Py.Dict
import PtaasBench.Py.Json
import PtaasBench.Py.Text

/-!
# PtaasBench.BenchCollector.Correlations — pending outbound-fetch hints (`correlations.py`)

The registry keeps its entries in the order in which their ids first came.  The clock and the
fresh id of a registration are arguments, and so is the way a clock value is written in a JSON
record.
-/

namespace PtaasBench.BenchCollector

open Py

/-- A stored hint: the record as published, and the two stamps the registry compares. -/
structure Hint where
  record : Obj
  registeredAt : ℚ
  expiresAt : ℚ

/-- A scalar id as a dictionary key: numbers are equal by value. -/
inductive IdKey where
  | text (s : String)
  | number (q : ℚ)
  | infinity (neg : Bool)
  | nan
deriving DecidableEq

def idKey : Json → IdKey
  | .str s => .text s
  | .int n => .number n
  | .float f => .number f.value
  | .bool b => .number (if b then 1 else 0)
  | .infinity neg => .infinity neg
  | .nan => .nan
  | _ => .text ""

structure CorrelationRegistry where
  ttl : ℚ
  maxEntries : ℕ
  entries : Dict IdKey Hint := Dict.empty
  registered : ℕ := 0
  expired : ℕ := 0
  overflowed : ℕ := 0

/-- `a or b or c` for optional numbers. -/
def firstNonzero (xs : List (Option ℚ)) (default : ℚ) : ℚ :=
  ((xs.filterMap id).find? (· ≠ 0)).getD default

namespace CorrelationRegistry

/-- `_evict` -/
def evict (reg : CorrelationRegistry) (now : ℚ) : CorrelationRegistry :=
  { reg with
    entries := ⟨reg.entries.items.filter fun e => now < e.2.expiresAt,
      reg.entries.nodup.sublist (List.filter_sublist.map _)⟩
    expired := reg.expired + reg.entries.items.countP fun e => e.2.expiresAt ≤ now }

/-- The record as `register` stores and returns it. -/
def stamped (reg : CorrelationRegistry) (clock : ℚ → FloatLit) (now : ℚ) (newId : String)
    (record : Obj) (ttl : Option ℚ) : Hint :=
  let entry :=
    if (record.get "correlation_id").truthy then record
    else record.set "correlation_id" (.str newId)
  let expiresAt := now + firstNonzero [ttl, (entry.get "ttl").asNum?] reg.ttl
  { record := (entry.set "registered_at" (.float (clock now))).set "expires_at"
      (.float (clock expiresAt))
    registeredAt := now
    expiresAt := expiresAt }

/-- `register`: the oldest hints make room when there are too many. -/
def register (reg : CorrelationRegistry) (clock : ℚ → FloatLit) (now : ℚ) (newId : String)
    (record : Obj) (ttl : Option ℚ) : CorrelationRegistry × Obj :=
  let hint := reg.stamped clock now newId record ttl
  let reg := reg.evict now
  let entries := reg.entries.set (idKey (hint.record.get "correlation_id")) hint
  let excess := entries.items.length - reg.maxEntries
  ({ reg with
    entries := ⟨entries.items.drop excess, entries.nodup.sublist ((List.drop_sublist _ _).map _)⟩
    registered := reg.registered + 1
    overflowed := reg.overflowed + excess }, hint.record)

/-! ## Reading -/

section Pending

variable [Runtime]

/-- `_host_matches`: the registered host, or one of the two a subdomain of the other. -/
def hostMatches (entry : Hint) (wanted : String) : Bool :=
  let host := ((entry.record.get "destination_host").orElse (.str "")).pyStr
  host ≠ "" && (wanted = host || endsWith wanted ("." ++ host) || endsWith host ("." ++ wanted))

/-- `pending` -/
def pending (reg : CorrelationRegistry) (now : ℚ) (destinationHost : Option String)
    (registeredAfter : Option ℚ) : CorrelationRegistry × List Hint :=
  let reg := reg.evict now
  let entries := reg.entries.items.map Prod.snd
  let entries :=
    if given destinationHost then
      let wanted := lower (rstripDot (strip (destinationHost.getD "")))
      entries.filter (hostMatches · wanted)
    else entries
  (reg, match registeredAfter with
    | some after => entries.filter (after < ·.registeredAt)
    | none => entries)

/-- One turn of the loop of `wait_for`, with `remaining` time left: `none` goes on waiting. -/
def waitTurn (reg : CorrelationRegistry) (now : ℚ) (destinationHost : Option String)
    (registeredAfter : Option ℚ) (remaining : ℚ) : CorrelationRegistry × Option (List Hint) :=
  let matched := reg.pending now destinationHost registeredAfter
  (matched.1, if !matched.2.isEmpty || remaining ≤ 0 then some matched.2 else none)

end Pending

/-- `get` -/
def get (reg : CorrelationRegistry) (now : ℚ) (correlationId : String) :
    CorrelationRegistry × Option Hint :=
  let reg := reg.evict now
  (reg, reg.entries.get? (.text correlationId))

/-- `discard` -/
def discard (reg : CorrelationRegistry) (correlationId : String) :
    CorrelationRegistry × Option Hint :=
  ({ reg with entries := reg.entries.pop (.text correlationId) },
    reg.entries.get? (.text correlationId))

/-! ## What is stored -/

/-- The stamped record is a dictionary. -/
theorem distinct_register (reg : CorrelationRegistry) (clock : ℚ → FloatLit) (now : ℚ)
    (newId : String) {record : Obj} (h : record.Distinct) (ttl : Option ℚ) :
    Obj.Distinct (reg.register clock now newId record ttl).2 := by
  refine Obj.Distinct.set (Obj.Distinct.set ?_ _ (Json.distinct_float _)) _ (Json.distinct_float _)
  split_ifs
  · exact h
  · exact h.set _ (Json.distinct_str newId)

/-- Stamping a record writes no other field. -/
theorem get_register (reg : CorrelationRegistry) (clock : ℚ → FloatLit) (now : ℚ) (newId : String)
    (record : Obj) (ttl : Option ℚ) {k : String}
    (hk : k ∉ ["correlation_id", "registered_at", "expires_at"]) :
    (reg.register clock now newId record ttl).2.get k = record.get k := by
  simp only [List.mem_cons, List.not_mem_nil, or_false, not_or] at hk
  obtain ⟨hid, hreg, hexp⟩ := hk
  show ((Obj.set _ "registered_at" _).set "expires_at" _).get k = _
  rw [Obj.get_set_of_ne _ _ hexp, Obj.get_set_of_ne _ _ hreg]
  split_ifs
  · rfl
  · rw [Obj.get_set_of_ne _ _ hid]

end CorrelationRegistry

end PtaasBench.BenchCollector
