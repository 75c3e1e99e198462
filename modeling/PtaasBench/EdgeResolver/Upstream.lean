import Mathlib.Data.Rat.Defs
import PtaasBench.EdgeResolver.DnsHostile
import PtaasBench.Lib.Addresses
import PtaasBench.Lib.Machine
import PtaasBench.Lib.Semaphore
import PtaasBench.Lib.Threads
import PtaasBench.Py.Dict

/-!
# PtaasBench.EdgeResolver.Upstream — does anybody claim a name? (`upstream.py`)

Lookups that run beside each other in one event loop, with a cache and a semaphore between them.  A lookup runs from one
`await` to the next in one step; the datagrams, the timeouts and the clock are whatever they are.
-/

namespace PtaasBench.EdgeResolver.Upstream

open Py Lib DnsWire List

/-- What the upstream said about a name. -/
structure Claim extends DnsListener.Claim where
  rcode : ℕ := rcodeNoerror
  reason : String := "answered"

def unclaimed : Claim := { claimed := false, reason := "unclaimed" }

def busy : Claim := { claimed := false, reason := "busy" }

/-- `socket.inet_ntoa`, of four bytes -/
def inetNtoa (rdata : Bytes) : String := String.ofList (dotted (BitVec.ofNat 32 (beNat rdata)))

/-- `Response.addresses` -/
def addresses (response : Response) : List String :=
  (response.answers.filter fun r => r.rrtype = typeA ∧ r.rdata.length = 4).map fun r => inetNtoa r.rdata

structure StubResolver where
  servers : List (String × ℕ)
  claimNetworks : List Prefix
  positiveTtl : ℚ := 30
  negativeTtl : ℚ := 5
  concurrency : ℕ := 128

/-- What comes of one exchange with a server. -/
inductive Reply where
  | timedOut
  | failed (exc : String)
  | datagram (data : Bytes)

/-- What `_ask` makes of a reply: it returns, or keeps it as `last` and goes on to the next server. -/
inductive Verdict where
  | final (claim : Claim)
  | last (claim : Claim)

def Verdict.claim : Verdict → Claim
  | .final claim => claim
  | .last claim => claim

/-- Replies, each with the identifier of its query. -/
abbrev Heard := List (UInt16 × Reply)

/-- Where a lookup waits, and what it has heard from the servers. -/
inductive Phase where
  | waiting
  | opening (txid : UInt16) (left : List (String × ℕ)) (heard : Heard)
  | asking (txid : UInt16) (left : List (String × ℕ)) (heard : Heard)
  | replied (txid : UInt16) (reply : Reply) (left : List (String × ℕ)) (heard : Heard)
  | done (claim : Claim) (time : ℚ) (heard : Heard)
  | raised (error : String)

structure Task where
  key : String
  critical : Bool
  phase : Phase

abbrev Cache := Dict String (Claim × ℚ)

structure State where
  cache : Cache
  slots : Semaphore ℕ
  tasks : List Task

/-- What happens to a lookup. -/
inductive Event where
  /-- It was given a slot and runs on. -/
  | resume (now : ℚ) (txid : UInt16)
  /-- The endpoint is there, and the query is sent. -/
  | opened
  | arrive (reply : Reply)
  /-- Its exchange has a result, and it runs on. -/
  | proceed (now : ℚ) (txid : UInt16)

inductive Op where
  /-- Somebody awaits `claim(name, critical)`. -/
  | call (now : ℚ) (name : String) (critical : Bool) (txid : UInt16)
  | turn (i : ℕ) (event : Event)

/-- `cached` -/
def cached (cache : Cache) (now : ℚ) (name : String) : Option Claim × Cache :=
  match cache.get? name with
  | none => (none, cache)
  | some (claim, expiry) => if expiry ≤ now then (none, cache.pop name) else (some claim, cache)

/-- `datagram_received`: a datagram with another identifier is ignored. -/
def accepts (txid : UInt16) (reply : Reply) : Prop :=
  ∀ data, reply = .datagram data → 2 ≤ data.length → word data 0 = txid.toNat

instance (txid : UInt16) (reply : Reply) : Decidable (accepts txid reply) :=
  match reply with
  | .timedOut => isTrue nofun
  | .failed _ => isTrue nofun
  | .datagram data =>
    decidable_of_iff (2 ≤ data.length → word data 0 = txid.toNat)
      ⟨fun h data' heq hlong => by cases heq; exact h hlong, fun h => h data rfl⟩

namespace StubResolver

variable (r : StubResolver)

/-- `is_local`, of a dotted decimal -/
def isLocal (address : String) : Bool :=
  r.claimNetworks.isEmpty ||
    ((parseDotted address.toList).map fun bits => r.claimNetworks.any (·.contains (.v4 bits))).getD false

/-- The lifetime of an entry. -/
def ttl (claim : Claim) : ℚ := if claim.claimed then r.positiveTtl else r.negativeTtl

/-- `_remember` -/
def remember (cache : Cache) (now : ℚ) (name : String) (claim : Claim) : Cache :=
  (if 8192 < cache.items.length then Dict.empty else cache).set name (claim, now + r.ttl claim)

variable [Runtime]

/-- The turn of the loop of `_ask` behind the exchange. -/
def verdict : Reply → Verdict
  | .timedOut => .last { claimed := false, reason := "timeout" }
  | .failed exc => .last { claimed := false, reason := "error: " ++ exc }
  | .datagram data =>
    match parseResponse data with
    | .error _ => .last { claimed := false, reason := "unparseable" }
    | .ok response =>
      if response.rcode = rcodeNoerror ∧ response.answers ≠ [] then
        let near := (addresses response).filter r.isLocal
        if addresses response ≠ [] ∧ near = [] then
          .final { claimed := false, rcode := response.rcode, reason := "answered off-network" }
        else
          .final
            { claimed := true
              addresses := if near = [] then addresses response else near
              rcode := response.rcode }
      else if response.rcode = rcodeNxdomain then
        .final { claimed := false, rcode := response.rcode, reason := "nxdomain" }
      else .last { claimed := false, rcode := response.rcode, reason := "rcode " ++ toString response.rcode }

end StubResolver

namespace State

variable (s : State)

def add (task : Task) : State := { s with tasks := s.tasks ++ [task] }

def move (i : ℕ) (task : Task) (phase : Phase) : State :=
  { s with tasks := s.tasks.set i { task with phase := phase } }

/-- A lookup leaves `async with self._semaphore` for good. -/
def leave (i : ℕ) (task : Task) (phase : Phase) : State :=
  { s with slots := s.slots.release }.move i task phase

end State

def fresh (r : StubResolver) : State := ⟨.empty, ⟨r.concurrency, []⟩, []⟩

variable (r : StubResolver)

/-- The body of `async with self._semaphore`, up to the first exchange. -/
def enter (s : State) (now : ℚ) (i : ℕ) (task : Task) (txid : UInt16) : State :=
  match cached s.cache now task.key with
  | (some claim, cache) => { s with cache := cache }.leave i task (.done claim now [])
  | (none, cache) => { s with cache := cache }.move i task (.opening txid r.servers.tail [])

/-- The end of the body: the claim is remembered and returned. -/
def finish (s : State) (now : ℚ) (i : ℕ) (task : Task) (claim : Claim) (heard : Heard) : State :=
  { s with cache := r.remember s.cache now task.key claim }.leave i task (.done claim now heard)

/-- The loop of `_ask` behind a verdict: it is over, or the next server is asked. -/
def goOn (s : State) (now : ℚ) (i : ℕ) (task : Task) : Verdict → List (String × ℕ) → Heard → UInt16 → State
  | .final claim, _, heard, _ => finish r s now i task claim heard
  | .last claim, [], heard, _ => finish r s now i task claim heard
  | .last _, _ :: left, heard, txid => s.move i task (.opening txid left heard)

variable [Runtime]

/-- `claim` -/
def claim (s : State) (now : ℚ) (name : String) (critical : Bool) (txid : UInt16) : State :=
  let key := lower (stripBy (· == '.') name)
  if key = "" ∨ r.servers = [] then s.add ⟨key, critical, .done unclaimed now []⟩
  else
    match cached s.cache now key with
    | (some claim, cache) => { s with cache := cache }.add ⟨key, critical, .done claim now []⟩
    | (none, cache) =>
      if critical = false ∧ s.slots.locked = true then
        { s with cache := cache }.add ⟨key, critical, .done busy now []⟩
      else if s.slots.locked = true then
        { s with cache := cache, slots := s.slots.join s.tasks.length }.add ⟨key, critical, .waiting⟩
      else
        enter r ({ s with cache := cache, slots := s.slots.take }.add ⟨key, critical, .waiting⟩) now s.tasks.length
          ⟨key, critical, .waiting⟩ txid

/-- What an unfinished lookup does. -/
def stepTask (s : State) (i : ℕ) (task : Task) : Phase → Event → State
  | .waiting, .resume now txid =>
    if (i, true) ∈ s.slots.waiters then enter r { s with slots := s.slots.resume i } now i task txid else s
  | .opening txid left heard, .opened =>
    match buildQuery task.key typeA txid.toNat with
    | .error e => s.leave i task (.raised e)
    | .ok _ => s.move i task (.asking txid left heard)
  | .opening _ _ _, .arrive (.datagram _) => s
  | .opening txid left heard, .arrive reply => s.move i task (.replied txid reply left heard)
  | .asking txid left heard, .arrive reply =>
    if accepts txid reply then s.move i task (.replied txid reply left heard) else s
  | .replied txid reply left heard, .proceed now txid' =>
    goOn r s now i task (r.verdict reply) left (heard ++ [(txid, reply)]) txid'
  | _, _ => s

def step (s : State) : Op → State
  | .call now name critical txid => claim r s now name critical txid
  | .turn i event => (s.tasks[i]?.map fun task => stepTask r s i task task.phase event).getD s

/-! ## What a step does -/

omit [Runtime] in
/-- Less is cached, and nothing new. -/
structure Within (cache' cache : Cache) : Prop where
  entries : ∀ key entry, cache'.get? key = some entry → cache.get? key = some entry
  length : cache'.items.length ≤ cache.items.length

omit [Runtime] in
theorem cached_cases (cache : Cache) (now : ℚ) (key : String) :
    (∃ claim expiry, cached cache now key = (some claim, cache) ∧ cache.get? key = some (claim, expiry) ∧
      now < expiry) ∨
    ∃ cache', cached cache now key = (none, cache') ∧ Within cache' cache ∧ cache'.get? key = none := by
  unfold cached
  cases hget : cache.get? key with
  | none => exact Or.inr ⟨cache, rfl, ⟨fun _ _ h => h, le_rfl⟩, hget⟩
  | some entry =>
    obtain ⟨claim, expiry⟩ := entry
    by_cases hold : expiry ≤ now
    · refine Or.inr ⟨cache.pop key, if_pos hold, ⟨fun key' e h => ?_, length_filter_le _ _⟩, ?_⟩
      · rw [Dict.get?_pop] at h
        split_ifs at h
        exact h
      · rw [Dict.get?_pop, if_pos rfl]
    · exact Or.inl ⟨claim, expiry, if_neg hold, rfl, not_le.mp hold⟩

omit [Runtime] in
theorem cached_of_none {cache : Cache} {key : String} (h : cache.get? key = none) (now : ℚ) :
    cached cache now key = (none, cache) := by
  rw [cached, h]

omit [Runtime] in
/-- A lookup that is answered at once. -/
def AtOnce (s : State) (task : Task) (claim : Claim) (time : ℚ) : Prop :=
  claim = unclaimed ∧ (task.key = "" ∨ r.servers = []) ∨ claim = busy ∧ task.critical = false ∨
    ∃ expiry, s.cache.get? task.key = some (claim, expiry) ∧ time < expiry

/-- The transitions of the resolver. -/
inductive Moves (s : State) : State → Prop where
  | still : Moves s s
  | atOnce {task claim time} (hphase : task.phase = .done claim time []) (h : AtOnce r s task claim time) {cache}
      (hcache : Within cache s.cache) : Moves s ({ s with cache := cache }.add task)
  | queued (key critical) {cache} (hcache : Within cache s.cache) (hservers : r.servers ≠ [])
      (hlocked : s.slots.locked = true) :
      Moves s ({ s with cache := cache, slots := s.slots.join s.tasks.length }.add ⟨key, critical, .waiting⟩)
  | begun (key critical txid) {cache} (hcache : Within cache s.cache) (hservers : r.servers ≠ [])
      (hlocked : s.slots.locked = false) :
      Moves s ({ s with cache := cache, slots := s.slots.take }.add
        ⟨key, critical, .opening txid r.servers.tail []⟩)
  | filled {i task} (htask : s.tasks[i]? = some task) (hphase : task.phase = .waiting)
      (hgiven : (i, true) ∈ s.slots.waiters) {claim time expiry}
      (hentry : s.cache.get? task.key = some (claim, expiry)) (htime : time < expiry) :
      Moves s ({ s with slots := s.slots.resume i }.leave i task (.done claim time []))
  | resumed {i task} (htask : s.tasks[i]? = some task) (hphase : task.phase = .waiting)
      (hgiven : (i, true) ∈ s.slots.waiters) (txid) {cache} (hcache : Within cache s.cache) :
      Moves s ({ s with cache := cache, slots := s.slots.resume i }.move i task (.opening txid r.servers.tail []))
  | sent {i task txid left heard} (htask : s.tasks[i]? = some task) (hphase : task.phase = .opening txid left heard) :
      Moves s (s.move i task (.asking txid left heard))
  | failed {i task txid left heard} (htask : s.tasks[i]? = some task)
      (hphase : task.phase = .opening txid left heard) (e) : Moves s (s.leave i task (.raised e))
  | heard {i task txid left heard} (htask : s.tasks[i]? = some task)
      (hphase : task.phase = .opening txid left heard ∨ task.phase = .asking txid left heard) {reply}
      (haccepts : accepts txid reply) : Moves s (s.move i task (.replied txid reply left heard))
  | next {i task txid reply server left heard claim} (htask : s.tasks[i]? = some task)
      (hphase : task.phase = .replied txid reply (server :: left) heard) (hverdict : r.verdict reply = .last claim)
      (txid') : Moves s (s.move i task (.opening txid' left (heard ++ [(txid, reply)])))
  | finished {i task txid reply left heard claim} (htask : s.tasks[i]? = some task)
      (hphase : task.phase = .replied txid reply left heard)
      (hverdict : r.verdict reply = .final claim ∨ r.verdict reply = .last claim ∧ left = []) (now) :
      Moves s (finish r s now i task claim (heard ++ [(txid, reply)]))

theorem moves_claim (s : State) (now : ℚ) (name : String) (critical : Bool) (txid : UInt16) :
    Moves r s (claim r s now name critical txid) := by
  have hsame : Within s.cache s.cache := ⟨fun _ _ h => h, le_rfl⟩
  unfold claim
  dsimp only
  by_cases hnone : lower (stripBy (· == '.') name) = "" ∨ r.servers = []
  · rw [if_pos hnone]
    exact .atOnce rfl (Or.inl ⟨rfl, hnone⟩) hsame
  · rw [if_neg hnone]
    rw [not_or] at hnone
    rcases cached_cases s.cache now (lower (stripBy (· == '.') name)) with
      ⟨claim, expiry, hcached, hentry, htime⟩ | ⟨cache, hcached, hcache, hmiss⟩
    · rw [hcached]
      exact .atOnce rfl (Or.inr (Or.inr ⟨expiry, hentry, htime⟩)) hsame
    · rw [hcached]
      dsimp only
      by_cases hbusy : critical = false ∧ s.slots.locked = true
      · rw [if_pos hbusy]
        exact .atOnce rfl (Or.inr (Or.inl ⟨rfl, hbusy.1⟩)) hcache
      · rw [if_neg hbusy]
        by_cases hlocked : s.slots.locked = true
        · rw [if_pos hlocked]
          exact .queued _ _ hcache hnone.2 hlocked
        · have henter (s' : State) (task : Task) (hc : s'.cache = cache)
              (hkey : task.key = lower (stripBy (· == '.') name)) :
              enter r s' now s.tasks.length task txid =
                s'.move s.tasks.length task (.opening txid r.servers.tail []) := by
            subst hc
            rw [enter, hkey, cached_of_none hmiss]
          rw [if_neg hlocked, henter _ _ rfl rfl, State.move, State.add]
          dsimp only
          rw [set_append_right _ _ le_rfl, Nat.sub_self, set_cons_zero]
          exact .begun _ _ _ hcache hnone.2 (by simpa using hlocked)

theorem moves_stepTask {s : State} {i : ℕ} {task : Task} (htask : s.tasks[i]? = some task) (event : Event) :
    Moves r s (stepTask r s i task task.phase event) := by
  cases hphase : task.phase with
  | waiting =>
    cases event with
    | resume now txid =>
      rw [stepTask]
      split_ifs with hgiven
      · unfold enter
        rcases cached_cases s.cache now task.key with
          ⟨claim, expiry, hcached, hentry, htime⟩ | ⟨cache, hcached, hcache, -⟩
        · rw [hcached]
          exact .filled htask hphase hgiven hentry htime
        · rw [hcached]
          exact .resumed htask hphase hgiven txid hcache
      · exact .still
    | opened => exact .still
    | arrive reply => exact .still
    | proceed now txid => exact .still
  | opening txid left heard =>
    cases event with
    | resume now txid' => exact .still
    | opened =>
      rw [stepTask]
      cases buildQuery task.key typeA txid.toNat with
      | error e => exact .failed htask hphase e
      | ok query => exact .sent htask hphase
    | arrive reply =>
      cases reply with
      | timedOut => exact .heard htask (Or.inl hphase) nofun
      | failed exc => exact .heard htask (Or.inl hphase) nofun
      | datagram data => exact .still
    | proceed now txid' => exact .still
  | asking txid left heard =>
    cases event with
    | resume now txid' => exact .still
    | opened => exact .still
    | arrive reply =>
      rw [stepTask]
      split_ifs with haccepts
      · exact .heard htask (Or.inr hphase) haccepts
      · exact .still
    | proceed now txid' => exact .still
  | replied txid reply left heard =>
    cases event with
    | resume now txid' => exact .still
    | opened => exact .still
    | arrive reply' => exact .still
    | proceed now txid' =>
      rw [stepTask]
      cases hverdict : r.verdict reply with
      | final claim => exact .finished htask hphase (Or.inl hverdict) now
      | last claim =>
        cases left with
        | nil => exact .finished htask hphase (Or.inr ⟨hverdict, rfl⟩) now
        | cons server left => exact .next htask hphase hverdict txid'
  | done claim time heard => exact .still
  | raised error => exact .still

theorem moves_step (s : State) (op : Op) : Moves r s (step r s op) := by
  cases op with
  | call now name critical txid => exact moves_claim r s now name critical txid
  | turn i event =>
    rw [step]
    cases htask : s.tasks[i]? with
    | none => exact .still
    | some task => exact moves_stepTask r htask event

/-! ## What the lookups answer -/

/-- Replies behind which the loop went on. -/
def Passed (heard : Heard) : Prop :=
  ∀ x ∈ heard, accepts x.1 x.2 ∧ ∃ claim, r.verdict x.2 = .last claim

/-- What `_ask` returns if one server after the other says this. -/
def Said (heard : Heard) (claim : Claim) : Prop :=
  ∃ before x, heard = before ++ [x] ∧ Passed r before ∧ accepts x.1 x.2 ∧
    (r.verdict x.2 = .final claim ∨ r.verdict x.2 = .last claim ∧ heard.length = r.servers.length)

/-- A lookup of this name asked the servers itself, and this is what they said. -/
def Asked (tasks : List Task) (key : String) (claim : Claim) (time : ℚ) : Prop :=
  ∃ asked ∈ tasks, asked.key = key ∧ ∃ heard, asked.phase = .done claim time heard ∧ Said r heard claim

/-- What a lookup is answered: nothing to ask, no slot, or what the servers said to a lookup of the name, not longer ago
than such an answer lives. -/
def Answered (tasks : List Task) (task : Task) (claim : Claim) (time : ℚ) : Prop :=
  claim = unclaimed ∧ (task.key = "" ∨ r.servers = []) ∨ claim = busy ∧ task.critical = false ∨
    ∃ time', Asked r tasks task.key claim time' ∧ (time' = time ∨ time < time' + r.ttl claim)

/-- The place of a lookup in the loop. -/
def Sound : Phase → Prop
  | .waiting => r.servers ≠ []
  | .opening _ left heard => heard.length + left.length + 1 = r.servers.length ∧ Passed r heard
  | .asking _ left heard => heard.length + left.length + 1 = r.servers.length ∧ Passed r heard
  | .replied txid reply left heard =>
    heard.length + left.length + 1 = r.servers.length ∧ Passed r heard ∧ accepts txid reply
  | .done _ _ _ => True
  | .raised _ => True

structure Honest (s : State) : Prop where
  sound : ∀ task ∈ s.tasks, Sound r task.phase
  answered : ∀ task ∈ s.tasks, ∀ claim time heard, task.phase = .done claim time heard →
    Answered r s.tasks task claim time
  cached : ∀ key claim expiry, s.cache.get? key = some (claim, expiry) →
    ∃ time, Asked r s.tasks key claim time ∧ expiry = time + r.ttl claim
  few : s.cache.items.length ≤ 8193

omit [Runtime] in
/-- Answered lookups stay as they are. -/
def Keeps (tasks tasks' : List Task) : Prop :=
  ∀ task ∈ tasks, ∀ claim time heard, task.phase = .done claim time heard → task ∈ tasks'

section Honest

variable {r} {s s' : State}

theorem Asked.keeps {tasks tasks' : List Task} (h : Keeps tasks tasks') {key : String} {claim : Claim} {time : ℚ}
    (hasked : Asked r tasks key claim time) : Asked r tasks' key claim time := by
  obtain ⟨asked, hmem, hkey, heard, hphase, hsaid⟩ := hasked
  exact ⟨asked, h asked hmem _ _ _ hphase, hkey, heard, hphase, hsaid⟩

theorem Answered.keeps {tasks tasks' : List Task} (h : Keeps tasks tasks') {task : Task} {claim : Claim} {time : ℚ}
    (hanswered : Answered r tasks task claim time) : Answered r tasks' task claim time := by
  rcases hanswered with hnone | hbusy | ⟨time', hasked, htime⟩
  · exact Or.inl hnone
  · exact Or.inr (Or.inl hbusy)
  · exact Or.inr (Or.inr ⟨time', hasked.keeps h, htime⟩)

/-- A step that adds or changes one lookup. -/
theorem Honest.grow (hs : Honest r s) (hkeeps : Keeps s.tasks s'.tasks) (task : Task)
    (hmem : ∀ t ∈ s'.tasks, t ∈ s.tasks ∨ t = task) (hsound : Sound r task.phase)
    (hanswered : ∀ claim time heard, task.phase = .done claim time heard → Answered r s'.tasks task claim time)
    (hcached : ∀ key claim expiry, s'.cache.get? key = some (claim, expiry) →
      s.cache.get? key = some (claim, expiry) ∨
        ∃ time, Asked r s'.tasks key claim time ∧ expiry = time + r.ttl claim)
    (hfew : s'.cache.items.length ≤ 8193) : Honest r s' := by
  constructor
  · intro t ht
    rcases hmem t ht with hold | rfl
    · exact hs.sound t hold
    · exact hsound
  · intro t ht claim time heard hphase
    rcases hmem t ht with hold | rfl
    · exact (hs.answered t hold claim time heard hphase).keeps hkeeps
    · exact hanswered claim time heard hphase
  · intro key claim expiry hget
    rcases hcached key claim expiry hget with hold | hnew
    · obtain ⟨time, hasked, hexpiry⟩ := hs.cached key claim expiry hold
      exact ⟨time, hasked.keeps hkeeps, hexpiry⟩
    · exact hnew
  · exact hfew

omit [Runtime] in
theorem keeps_add (s : State) (task : Task) : Keeps s.tasks (s.add task).tasks :=
  fun _ ht _ _ _ _ => mem_append_left _ ht

omit [Runtime] in
theorem mem_add {s : State} {task t : Task} (h : t ∈ (s.add task).tasks) : t ∈ s.tasks ∨ t = task := by
  simpa [State.add] using h

omit [Runtime] in
/-- A lookup that goes on was not answered yet. -/
theorem keeps_set {tasks : List Task} {i : ℕ} {task : Task} (htask : tasks[i]? = some task)
    (hopen : ∀ claim time heard, task.phase ≠ .done claim time heard) (new : Task) :
    Keeps tasks (tasks.set i new) := by
  intro t ht claim time heard hphase
  obtain ⟨j, hj⟩ := mem_iff_getElem?.mp ht
  have hne : i ≠ j := by
    rintro rfl
    rw [htask] at hj
    exact hopen claim time heard (Option.some.inj hj ▸ hphase)
  exact mem_iff_getElem?.mpr ⟨j, by rw [List.getElem?_set_ne hne, hj]⟩

/-- A step after which one lookup has gone on, and nothing new is cached. -/
theorem Honest.set (hs : Honest r s) {i : ℕ} {task : Task} (htask : s.tasks[i]? = some task)
    (hopen : ∀ claim time heard, task.phase ≠ .done claim time heard) (phase : Phase) (hsound : Sound r phase)
    (hanswered : ∀ claim time heard, phase = .done claim time heard → Answered r s.tasks task claim time)
    (htasks : s'.tasks = s.tasks.set i { task with phase := phase }) (hcache : Within s'.cache s.cache) :
    Honest r s' := by
  have hkeeps : Keeps s.tasks s'.tasks := htasks ▸ keeps_set htask hopen _
  refine hs.grow hkeeps { task with phase := phase } (fun t ht => ?_) hsound (fun claim time heard hphase => ?_)
    (fun key claim expiry hget => Or.inl (hcache.entries _ _ hget)) (hcache.length.trans hs.few)
  · rw [htasks] at ht
    exact mem_or_eq_of_mem_set ht
  · exact (hanswered claim time heard hphase).keeps hkeeps

omit [Runtime] in
theorem get?_remember {cache : Cache} {now : ℚ} {name key : String} {claim : Claim} {entry : Claim × ℚ}
    (h : (r.remember cache now name claim).get? key = some entry) :
    cache.get? key = some entry ∨ key = name ∧ entry = (claim, now + r.ttl claim) := by
  rw [StubResolver.remember, Dict.get?_set] at h
  split_ifs at h with hkey hfull
  · exact Or.inr ⟨hkey, (Option.some.inj h).symm⟩
  · rw [Dict.get?_empty] at h
    cases h
  · exact Or.inl h

omit [Runtime] in
theorem length_set_le (d : Cache) (key : String) (entry : Claim × ℚ) :
    (d.set key entry).items.length ≤ d.items.length + 1 := by
  by_cases h : key ∈ d.keys
  · simp [Dict.set, h]
  · rw [Dict.items_set_of_notMem h]
    simp

omit [Runtime] in
theorem length_remember (cache : Cache) (now : ℚ) (name : String) (claim : Claim) :
    (r.remember cache now name claim).items.length ≤ 8193 := by
  refine (length_set_le _ _ _).trans ?_
  split_ifs with hfull
  · simp [Dict.empty]
  · omega

theorem honest_moves (h : Moves r s s') (hs : Honest r s) : Honest r s' := by
  have hsame : Within s.cache s.cache := ⟨fun _ _ h => h, le_rfl⟩
  have hold {task : Task} {i : ℕ} (htask : s.tasks[i]? = some task) : Sound r task.phase :=
    hs.sound task (mem_of_getElem? htask)
  cases h with
  | still => exact hs
  | @atOnce task claim time hphase h cache hcache =>
    refine hs.grow (keeps_add _ task) task (fun t ht => mem_add ht) (by rw [hphase]; trivial)
      (fun c t heard hdone => ?_) (fun key c expiry hget => Or.inl (hcache.entries _ _ hget))
      (hcache.length.trans hs.few)
    obtain ⟨rfl, rfl, -⟩ := Phase.done.inj (hphase.symm.trans hdone)
    rcases h with hnone | hbusy | ⟨expiry, hentry, htime⟩
    · exact Or.inl hnone
    · exact Or.inr (Or.inl hbusy)
    · obtain ⟨time', hasked, rfl⟩ := hs.cached _ _ _ hentry
      exact Or.inr (Or.inr ⟨time', hasked.keeps (keeps_add _ _), Or.inr htime⟩)
  | queued key critical hcache hservers hlocked =>
    exact hs.grow (keeps_add _ _) _ (fun t ht => mem_add ht) hservers nofun
      (fun key c expiry hget => Or.inl (hcache.entries _ _ hget)) (hcache.length.trans hs.few)
  | begun key critical txid hcache hservers hlocked =>
    refine hs.grow (keeps_add _ _) _ (fun t ht => mem_add ht) ⟨?_, forall_mem_nil _⟩ nofun
      (fun key c expiry hget => Or.inl (hcache.entries _ _ hget)) (hcache.length.trans hs.few)
    have hpos := length_pos_iff.mpr hservers
    simp only [length_nil, length_tail]
    omega
  | @filled i task htask hphase hgiven claim time expiry hentry htime =>
    refine hs.set htask (by simp [hphase]) (.done claim time []) trivial (fun c t heard hdone => ?_) rfl hsame
    obtain ⟨rfl, rfl, -⟩ := Phase.done.inj hdone
    obtain ⟨time', hasked, rfl⟩ := hs.cached _ _ _ hentry
    exact Or.inr (Or.inr ⟨time', hasked, Or.inr htime⟩)
  | @resumed i task htask hphase hgiven txid cache hcache =>
    refine hs.set htask (by simp [hphase]) (.opening txid r.servers.tail []) ⟨?_, forall_mem_nil _⟩ nofun
      rfl hcache
    have hservers : Sound r .waiting := hphase ▸ hold htask
    have hpos := length_pos_iff.mpr hservers
    simp only [length_nil, length_tail]
    omega
  | @sent i task txid left heard htask hphase =>
    have hsound : Sound r (.opening txid left heard) := hphase ▸ hold htask
    exact hs.set htask (by simp [hphase]) (.asking txid left heard) hsound nofun rfl hsame
  | @failed i task txid left heard htask hphase e =>
    exact hs.set htask (by simp [hphase]) (.raised e) trivial nofun rfl hsame
  | @heard i task txid left heard htask hphase reply haccepts =>
    have hsound : heard.length + left.length + 1 = r.servers.length ∧ Passed r heard := by
      have hopen := hold htask
      rcases hphase with hphase | hphase
      · rw [hphase] at hopen
        exact hopen
      · rw [hphase] at hopen
        exact hopen
    have hopen : ∀ claim time heard, task.phase ≠ .done claim time heard := by
      rcases hphase with hphase | hphase <;> simp [hphase]
    exact hs.set htask hopen (.replied txid reply left heard) ⟨hsound.1, hsound.2, haccepts⟩ nofun rfl hsame
  | @next i task txid reply server left heard claim htask hphase hverdict txid' =>
    have hsound : Sound r (.replied txid reply (server :: left) heard) := hphase ▸ hold htask
    obtain ⟨hlength, hpassed, haccepts⟩ := hsound
    refine hs.set htask (by simp [hphase]) (.opening txid' left (heard ++ [(txid, reply)])) ⟨?_, ?_⟩ nofun rfl hsame
    · simp only [length_append, length_cons, length_nil] at hlength ⊢
      omega
    · exact forall_mem_append.mpr ⟨hpassed, forall_mem_singleton.mpr ⟨haccepts, claim, hverdict⟩⟩
  | @finished i task txid reply left heard claim htask hphase hverdict now =>
    have hsound : Sound r (.replied txid reply left heard) := hphase ▸ hold htask
    obtain ⟨hlength, hpassed, haccepts⟩ := hsound
    have hsaid : Said r (heard ++ [(txid, reply)]) claim := by
      refine ⟨heard, (txid, reply), rfl, hpassed, haccepts, ?_⟩
      rcases hverdict with hfinal | ⟨hlast, rfl⟩
      · exact Or.inl hfinal
      · exact Or.inr ⟨hlast, by simpa using hlength⟩
    have hi : i < s.tasks.length := (List.getElem?_eq_some_iff.mp htask).1
    have hasked : Asked r (finish r s now i task claim (heard ++ [(txid, reply)])).tasks task.key claim now :=
      ⟨_, List.mem_set hi _, rfl, _, rfl, hsaid⟩
    refine hs.grow (keeps_set htask (by simp [hphase]) _)
      { task with phase := .done claim now (heard ++ [(txid, reply)]) }
      (fun t ht => mem_or_eq_of_mem_set ht) trivial
      (fun c t h hdone => ?_) (fun key c expiry hget => ?_) (length_remember _ _ _ _)
    · obtain ⟨rfl, rfl, -⟩ := Phase.done.inj hdone
      exact Or.inr (Or.inr ⟨now, hasked, Or.inl rfl⟩)
    · rcases get?_remember hget with hget | ⟨rfl, hentry⟩
      · exact Or.inl hget
      · obtain ⟨rfl, rfl⟩ := Prod.mk.inj hentry
        exact Or.inr ⟨now, hasked, rfl⟩

theorem honest_run (ops : List Op) : Honest r (run (step r) (fresh r) ops) := by
  refine run_invariant (step r) ?_ (fun s op => honest_moves (moves_step r s op)) ops
  refine ⟨forall_mem_nil _, forall_mem_nil _, fun key claim expiry hget => ?_, Nat.zero_le _⟩
  cases hget

/-- A name is claimed by an answer to the query about it, of NOERROR and with a record; its addresses are those of the
answer that lie in the deployment. -/
theorem claimed_of_said {heard : Heard} {claim : Claim} (h : Said r heard claim)
    (hclaimed : claim.claimed = true) :
    ∃ txid data response, (txid, Reply.datagram data) ∈ heard ∧ word data 0 = txid.toNat ∧
      parseResponse data = .ok response ∧ response.rcode = rcodeNoerror ∧ response.answers ≠ [] ∧
      claim.addresses = (addresses response).filter r.isLocal ∧
      (claim.addresses = [] → addresses response = []) := by
  obtain ⟨before, ⟨txid, reply⟩, rfl, -, haccepts, hverdict⟩ := h
  have heither : (r.verdict reply).claim = claim := by
    rcases hverdict with h | ⟨h, -⟩
    · rw [h]
      rfl
    · rw [h]
      rfl
  cases reply with
  | timedOut =>
    obtain rfl := heither
    cases hclaimed
  | failed exc =>
    obtain rfl := heither
    cases hclaimed
  | datagram data =>
    rw [StubResolver.verdict] at heither
    cases hparse : parseResponse data with
    | error e =>
      rw [hparse] at heither
      obtain rfl := heither
      cases hclaimed
    | ok response =>
      have hlong : 2 ≤ data.length := by
        unfold parseResponse at hparse
        split_ifs at hparse with hshort
        omega
      rw [hparse] at heither
      dsimp only at heither
      split_ifs at heither with hgood hfar hempty hnx
      · obtain rfl := heither
        cases hclaimed
      · obtain rfl := heither
        have hnone : addresses response = [] := by
          by_contra hsome
          exact hfar ⟨hsome, hempty⟩
        exact ⟨txid, data, response, by simp, haccepts data rfl hlong, hparse, hgood.1, hgood.2,
          by simp [Verdict.claim, hnone], fun _ => hnone⟩
      · obtain rfl := heither
        exact ⟨txid, data, response, by simp, haccepts data rfl hlong, hparse, hgood.1, hgood.2, rfl,
          fun h => absurd h hempty⟩
      · obtain rfl := heither
        cases hclaimed
      · obtain rfl := heither
        cases hclaimed

variable (r)

/-- A lookup of the name asked, not longer ago than a claim lives; and an answer to its own query claims the name. -/
def Vouched (tasks : List Task) (key : String) (claim : Claim) (time : ℚ) (response : Response) : Prop :=
  ∃ asked ∈ tasks, asked.key = key ∧
    ∃ time' heard, asked.phase = .done claim time' heard ∧ (time' = time ∨ time < time' + r.positiveTtl) ∧
      ∃ txid data, (txid, Reply.datagram data) ∈ heard ∧ word data 0 = txid.toNat ∧
        parseResponse data = .ok response ∧ response.rcode = rcodeNoerror ∧ response.answers ≠ [] ∧
        claim.addresses = (addresses response).filter r.isLocal ∧ (claim.addresses = [] → addresses response = [])

theorem exists_vouched (ops : List Op) {task : Task} (htask : task ∈ (run (step r) (fresh r) ops).tasks)
    {claim : Claim} {time : ℚ} {heard : Heard} (hdone : task.phase = .done claim time heard)
    (hclaimed : claim.claimed = true) :
    ∃ response, Vouched r (run (step r) (fresh r) ops).tasks task.key claim time response := by
  rcases (honest_run ops).answered task htask claim time heard hdone with
    ⟨rfl, -⟩ | ⟨rfl, -⟩ | ⟨time', ⟨asked, hmem, hkey, heard', hphase, hsaid⟩, htime⟩
  · cases hclaimed
  · cases hclaimed
  · rw [StubResolver.ttl, if_pos hclaimed] at htime
    obtain ⟨txid, data, response, hanswer⟩ := claimed_of_said hsaid hclaimed
    exact ⟨response, asked, hmem, hkey, time', heard', hphase, htime, txid, data, hanswer⟩

/-- Whatever lookups run beside each other and whatever arrives, a lookup is answered what the servers said to a lookup
of that name; and a claimed name was claimed by an answer to the query itself. -/
theorem lookup_truthful (ops : List Op) {task : Task} (htask : task ∈ (run (step r) (fresh r) ops).tasks)
    {claim : Claim} {time : ℚ} {heard : Heard} (hdone : task.phase = .done claim time heard) :
    Answered r (run (step r) (fresh r) ops).tasks task claim time ∧
      (claim.claimed = true →
        ∃ response, Vouched r (run (step r) (fresh r) ops).tasks task.key claim time response) :=
  ⟨(honest_run ops).answered task htask claim time heard hdone, exists_vouched r ops htask hdone⟩

/-- One server, and a network that lies in 10.0.0.0/8. -/
def embedded : StubResolver where
  servers := [("127.0.0.11", 53)]
  claimNetworks := [⟨.v4 (BitVec.ofNat 32 0x0a000000), 8⟩]

/-- `db` is at 10.0.0.7. -/
def answer : Bytes :=
  [0, 7, 0x81, 0x80, 0, 1, 0, 1, 0, 0, 0, 0, 2, 100, 98, 0, 0, 1, 0, 1,
    0xc0, 12, 0, 1, 0, 1, 0, 0, 0, 30, 0, 4, 10, 0, 0, 7]

/-- One lookup from the call to its answer. -/
def lookup : List Op :=
  [.call 0 "db." false 7, .turn 0 .opened, .turn 0 (.arrive (.datagram answer)), .turn 0 (.proceed 1 0)]

def looked : Task := ⟨"db", false, .done { claimed := true, addresses := ["10.0.0.7"] } 1 [(7, .datagram answer)]⟩

omit [Runtime] in
theorem lookup_truthful_db :
    let _ := Runtime.ascii
    Answered embedded (run (step embedded) (fresh embedded) lookup).tasks looked
      { claimed := true, addresses := ["10.0.0.7"] } 1 := by
  have hlooked : let _ := Runtime.ascii
      (run (step embedded) (fresh embedded) lookup).tasks[0]? = some looked := by rfl
  exact (@lookup_truthful embedded Runtime.ascii lookup looked (mem_of_getElem? hlooked) _ _ _ rfl).1

end Honest

/-! ## Slots and the line -/

omit [Runtime] in
/-- The slots a lookup works with. -/
def holding (task : Task) : ℕ :=
  match task.phase with
  | .opening _ _ _ => 1
  | .asking _ _ _ => 1
  | .replied _ _ _ _ => 1
  | _ => 0

omit [Runtime] in
/-- A lookup that has no slot yet. -/
def Waits (tasks : List Task) (i : ℕ) : Prop := ∃ task, tasks[i]? = some task ∧ task.phase = .waiting

omit [Runtime] in
structure Manned (s : State) : Prop where
  slots : s.slots.idle + total holding s.tasks = r.concurrency
  fair : s.slots.Fair
  keys : (s.slots.waiters.map Prod.fst).Nodup
  lined : ∀ i, i ∈ s.slots.waiters.map Prod.fst ↔ Waits s.tasks i

section Manned

omit [Runtime]

variable {tasks : List Task} {i j : ℕ} {task new : Task}

theorem waits_append (h : new.phase ≠ .waiting) : Waits (tasks ++ [new]) i ↔ Waits tasks i := by
  unfold Waits
  rw [List.getElem?_append]
  split_ifs with hi
  · exact Iff.rfl
  · rw [List.getElem?_eq_none (not_lt.mp hi)]
    constructor
    · rintro ⟨task, htask, hphase⟩
      obtain rfl := mem_singleton.mp (mem_of_getElem? htask)
      exact absurd hphase h
    · rintro ⟨task, htask, -⟩
      cases htask

theorem waits_append_waiting (h : new.phase = .waiting) :
    Waits (tasks ++ [new]) i ↔ Waits tasks i ∨ i = tasks.length := by
  unfold Waits
  rw [List.getElem?_append]
  split_ifs with hi
  · exact ⟨Or.inl, fun h => h.resolve_right (by omega)⟩
  · rw [List.getElem?_eq_none (not_lt.mp hi), List.getElem?_singleton]
    split_ifs with hzero
    · exact ⟨fun _ => Or.inr (by omega), fun _ => ⟨new, rfl, h⟩⟩
    · simp
      omega

theorem waits_set (htask : tasks[i]? = some task) (h : new.phase ≠ .waiting) :
    Waits (tasks.set i new) j ↔ Waits tasks j ∧ j ≠ i := by
  unfold Waits
  by_cases hij : i = j
  · subst hij
    simp only [List.getElem?_set_self (List.getElem?_eq_some_iff.mp htask).1, ne_eq, not_true_eq_false, and_false,
      iff_false, not_exists, not_and]
    rintro t ht
    obtain rfl := Option.some.inj ht
    exact h
  · rw [List.getElem?_set_ne hij]
    exact ⟨fun hw => ⟨hw, fun heq => hij heq.symm⟩, And.left⟩

/-- What did not wait and does not wait. -/
theorem waits_set_of_ne (htask : tasks[i]? = some task) (hold : task.phase ≠ .waiting) (h : new.phase ≠ .waiting) :
    Waits (tasks.set i new) j ↔ Waits tasks j := by
  rw [waits_set htask h, and_iff_left_iff_imp]
  rintro ⟨t, ht, hphase⟩ rfl
  obtain rfl := Option.some.inj (htask.symm.trans ht)
  exact hold hphase

theorem total_add (task : Task) : total holding (tasks ++ [task]) = total holding tasks + holding task := by
  rw [total_append, total_singleton]

variable {r} {s s' : State}

/-- A lookup that had a slot goes on, with it or without. -/
theorem Manned.set (hs : Manned r s) (new : Task) (htask : s.tasks[i]? = some task) (hold : task.phase ≠ .waiting)
    (hnew : new.phase ≠ .waiting) (htasks : s'.tasks = s.tasks.set i new)
    (hidle : s'.slots.idle + holding new = s.slots.idle + holding task) (hfair : s'.slots.Fair)
    (hkeys : s'.slots.waiters.map Prod.fst = s.slots.waiters.map Prod.fst) : Manned r s' := by
  have htotal := total_set holding htask new
  have hslots := hs.slots
  refine ⟨?_, hfair, hkeys ▸ hs.keys, fun j => ?_⟩
  · rw [htasks]
    omega
  · rw [hkeys, htasks, waits_set_of_ne htask hold hnew]
    exact hs.lined j

/-- A lookup that was given a slot leaves the line. -/
theorem Manned.resume (hs : Manned r s) (new : Task) (htask : s.tasks[i]? = some task) (hold : task.phase = .waiting)
    (hgiven : (i, true) ∈ s.slots.waiters) (hnew : new.phase ≠ .waiting) (htasks : s'.tasks = s.tasks.set i new)
    (hidle : s'.slots.idle + holding new = (s.slots.resume i).idle + 1) (hfair : s'.slots.Fair)
    (hkeys : s'.slots.waiters.map Prod.fst = (s.slots.resume i).waiters.map Prod.fst) : Manned r s' := by
  have htotal := total_set holding htask new
  have hslots := hs.slots
  have hresume := Semaphore.idle_resume hgiven
  have hzero : holding task = 0 := by simp [holding, hold]
  rw [Semaphore.keys_resume hs.keys hgiven] at hkeys
  refine ⟨?_, hfair, hkeys ▸ hs.keys.erase i, fun j => ?_⟩
  · rw [htasks]
    omega
  · rw [hkeys, htasks, waits_set htask hnew, hs.keys.mem_erase_iff, hs.lined j, and_comm]

theorem manned_moves [Runtime] (h : Moves r s s') (hs : Manned r s) : Manned r s' := by
  have hslots := hs.slots
  have hlength : s.tasks.length ∉ s.slots.waiters.map Prod.fst := by
    rw [hs.lined]
    rintro ⟨task, htask, -⟩
    simp at htask
  cases h with
  | still => exact hs
  | @atOnce task claim time hphase h cache hcache =>
    refine ⟨?_, hs.fair, hs.keys, fun j => ?_⟩
    · have hzero : holding task = 0 := by simp [holding, hphase]
      show s.slots.idle + total holding (s.tasks ++ [task]) = _
      rw [total_add]
      omega
    · exact (hs.lined j).trans (waits_append (by simp [hphase])).symm
  | queued key critical hcache hservers hlocked =>
    refine ⟨?_, hs.fair.join hlocked _, ?_, fun j => ?_⟩
    · show (s.slots.join s.tasks.length).idle + total holding (s.tasks ++ [⟨key, critical, .waiting⟩]) = _
      rw [total_add, Semaphore.idle_join]
      exact hslots
    · show ((s.slots.waiters ++ [(s.tasks.length, false)]).map Prod.fst).Nodup
      rw [map_append, nodup_append]
      refine ⟨hs.keys, nodup_singleton _, ?_⟩
      rintro a ha b hb rfl
      obtain rfl := mem_singleton.mp hb
      exact hlength ha
    · show j ∈ (s.slots.waiters ++ [(s.tasks.length, false)]).map Prod.fst ↔
        Waits (s.tasks ++ [⟨key, critical, .waiting⟩]) j
      rw [map_append, mem_append, hs.lined j, waits_append_waiting rfl, map_singleton,
        mem_singleton]
  | begun key critical txid hcache hservers hlocked =>
    refine ⟨?_, Semaphore.fair_take hlocked, hs.keys, fun j => ?_⟩
    · have htake := Semaphore.idle_take hlocked
      show s.slots.take.idle + total holding (s.tasks ++ [⟨key, critical, .opening txid r.servers.tail []⟩]) = _
      rw [total_add]
      show _ + (_ + 1) = _
      omega
    · exact (hs.lined j).trans (waits_append (by simp)).symm
  | @filled i task htask hphase hgiven claim time expiry hentry htime =>
    exact hs.resume { task with phase := .done claim time [] } htask hphase hgiven (by simp) rfl
      Semaphore.idle_release (hs.fair.resume i).release Semaphore.keys_release
  | @resumed i task htask hphase hgiven txid cache hcache =>
    exact hs.resume { task with phase := .opening txid r.servers.tail [] } htask hphase hgiven (by simp) rfl
      rfl (hs.fair.resume i) rfl
  | @sent i task txid left heard htask hphase =>
    exact hs.set { task with phase := .asking txid left heard } htask (by simp [hphase]) (by simp) rfl
      (by simp [holding, hphase, State.move]) hs.fair rfl
  | @failed i task txid left heard htask hphase e =>
    exact hs.set { task with phase := .raised e } htask (by simp [hphase]) (by simp) rfl
      (by simp [holding, hphase, State.leave, State.move, Semaphore.idle_release]) hs.fair.release
      Semaphore.keys_release
  | @heard i task txid left heard htask hphase reply haccepts =>
    have hold : holding task = 1 ∧ task.phase ≠ .waiting := by
      rcases hphase with hphase | hphase <;> simp [holding, hphase]
    exact hs.set { task with phase := .replied txid reply left heard } htask hold.2 (by simp) rfl
      (by rw [hold.1]; rfl) hs.fair rfl
  | @next i task txid reply server left heard claim htask hphase hverdict txid' =>
    exact hs.set { task with phase := .opening txid' left (heard ++ [(txid, reply)]) } htask
      (by simp [hphase]) (by simp) rfl (by simp [holding, hphase, State.move]) hs.fair rfl
  | @finished i task txid reply left heard claim htask hphase hverdict now =>
    exact hs.set { task with phase := .done claim now (heard ++ [(txid, reply)]) } htask
      (by simp [hphase]) (by simp) rfl
      (by simp [holding, hphase, finish, State.leave, State.move, Semaphore.idle_release]) hs.fair.release
      Semaphore.keys_release

theorem manned_run [Runtime] (ops : List Op) : Manned r (run (step r) (fresh r) ops) := by
  refine run_invariant (step r) ?_ (fun s op => manned_moves (moves_step r s op)) ops
  refine ⟨rfl, ⟨List.Pairwise.nil, fun _ h => ?_⟩, nodup_nil, fun i => ?_⟩
  · obtain ⟨w, hw, -⟩ := h
    cases hw
  · simp [fresh, Waits]

variable (r)

/-- Whatever lookups run beside each other: no more of them ask at once than there are slots, no slot is lost or made
up, slots are given in the order of arrival, and a lookup waits only while all slots are in use or one that was given a
slot is about to run on.  When all are answered, the semaphore is as it was at first; and the cache does not grow
without bound. -/
theorem slots_kept [Runtime] (ops : List Op) :
    let s := run (step r) (fresh r) ops
    total holding s.tasks + s.slots.idle = r.concurrency ∧
      (s.slots.waiters.Pairwise fun a b => b.2 = true → a.2 = true) ∧
      (∀ i, Waits s.tasks i → total holding s.tasks = r.concurrency ∨
        ∃ j, Waits s.tasks j ∧ (j, true) ∈ s.slots.waiters) ∧
      ((∀ task ∈ s.tasks,
          (∃ claim time heard, task.phase = .done claim time heard) ∨ ∃ e, task.phase = .raised e) →
        s.slots = ⟨r.concurrency, []⟩) ∧
      s.cache.items.length ≤ 8193 := by
  intro s
  have hs : Manned r s := manned_run ops
  have hslots := hs.slots
  have hgiven (hnone : ∀ w ∈ s.slots.waiters, w.2 ≠ true) : Semaphore.given s.slots.waiters = 0 :=
    countP_eq_zero.mpr hnone
  refine ⟨by omega, hs.fair.inOrder, fun i hi => ?_, fun hfinished => ?_, (honest_run ops).few⟩
  · by_cases hwoken : ∃ w ∈ s.slots.waiters, w.2 = true
    · obtain ⟨⟨j, woken⟩, hw, rfl⟩ := hwoken
      exact Or.inr ⟨j, (hs.lined j).mp (mem_map_of_mem hw), hw⟩
    · -- nobody in the line has a slot, so that none is free: `i` would have been woken
      have hasleep : ∀ w ∈ s.slots.waiters, w.2 ≠ true := fun w hw h => hwoken ⟨w, hw, h⟩
      obtain ⟨w, hw, -⟩ := mem_map.mp ((hs.lined i).mpr hi)
      have hfree : s.slots.free = 0 := by
        by_contra hpos
        exact hwoken (hs.fair.alert (Nat.pos_of_ne_zero hpos) ⟨w, hw, by simpa using hasleep w hw⟩)
      refine Or.inl ?_
      rw [Semaphore.idle, hfree, hgiven hasleep] at hslots
      omega
  · have hline : s.slots.waiters = [] := by
      rw [eq_nil_iff_forall_not_mem]
      intro w hw
      obtain ⟨task, htask, hphase⟩ := (hs.lined w.1).mp (mem_map_of_mem hw)
      rcases hfinished task (mem_of_getElem? htask) with ⟨claim, time, heard, hdone⟩ | ⟨e, hraised⟩
      · rw [hdone] at hphase
        cases hphase
      · rw [hraised] at hphase
        cases hphase
    have hzero : total holding s.tasks = 0 := by
      by_contra hpos
      obtain ⟨task, hmem, hholds⟩ := (total_pos_iff holding).mp (Nat.pos_of_ne_zero hpos)
      rcases hfinished task hmem with ⟨claim, time, heard, hdone⟩ | ⟨e, hraised⟩
      · simp [holding, hdone] at hholds
      · simp [holding, hraised] at hholds
    rw [Semaphore.idle, hzero, hgiven (by simp [hline])] at hslots
    show s.slots = _
    rw [← hline, show r.concurrency = s.slots.free by omega]

end Manned

/-! ## What the listener hands on -/

section Listener

/-- A record of an address in the deployment. -/
def near (record : Record) : Bool :=
  (record.rrtype = typeA ∧ record.rdata.length = 4) && r.isLocal (inetNtoa record.rdata)

omit [Runtime] in
theorem filter_addresses (response : Response) :
    (addresses response).filter r.isLocal =
      (response.answers.filter (near r)).map fun record => inetNtoa record.rdata := by
  rw [addresses, filter_map, filter_filter]
  congr 1
  refine filter_congr fun record _ => ?_
  rw [near, Bool.and_comm]
  rfl

omit [Runtime] in
/-- `inet_aton` undoes `inet_ntoa`. -/
theorem inetAton_inetNtoa {inetAton : String → Fallible Bytes}
    (h : ∀ bits, inetAton (String.ofList (dotted bits)) = .ok (beBytes 4 bits.toNat)) {rdata : Bytes}
    (hlength : rdata.length = 4) : inetAton (inetNtoa rdata) = .ok rdata := by
  have hlt := beNat_lt rdata
  have hself := beBytes_beNat rdata
  rw [hlength] at hlt hself
  rw [inetNtoa, h, BitVec.toNat_ofNat, Nat.mod_eq_of_lt (hlt.trans_eq (by norm_num)), hself]

/-- What the listener sends for a claimed name holds the records of the upstream's answer whose addresses lie in the
deployment, in their order and under the name of the question, and no others. -/
theorem forwarded_records (ops : List Op) {task : Task} (htask : task ∈ (run (step r) (fresh r) ops).tasks)
    {claim : Claim} {time : ℚ} {heard : Heard} (hdone : task.phase = .done claim time heard)
    (hclaimed : claim.claimed = true) {handler : DnsListener.DnsHandler}
    (hinet : ∀ bits, handler.inetAton (String.ofList (dotted bits)) = .ok (beBytes 4 bits.toNat))
    {claimOf : String → Bool → DnsListener.Claim} (hupstream : handler.upstream = some claimOf) {data reply : Bytes}
    {query : Query} {question : Question} {peerIp : String} (hquery : parseQuery data = .ok query)
    (hquestion : query.question = some question) (hdenied : handler.isDenied question.name = false)
    (hclaim : claimOf question.name (handler.isInternalName question.name) = claim.toClaim)
    (hreply : handler.handle data peerIp = .ok reply) (hwhole : truncated reply = false) :
    ∃ upstream, Vouched r (run (step r) (fresh r) ops).tasks task.key claim time upstream ∧
      (parseResponse reply).map Response.answers =
        .ok (if question.qtype = typeA ∨ question.qtype = typeAny then
          (upstream.answers.filter (near r)).map fun record =>
            ⟨question.name, typeA, classIn, handler.dnsTtl, record.rdata⟩
        else []) := by
  obtain ⟨upstream, hvouched⟩ := exists_vouched r ops htask hdone hclaimed
  have haddresses : claim.addresses = (addresses upstream).filter r.isLocal := by
    obtain ⟨-, -, -, -, -, -, -, -, -, -, -, -, -, -, h, -⟩ := hvouched
    exact h
  refine ⟨upstream, hvouched, ?_⟩
  -- the addresses go out as they came in
  have hrdata : claim.addresses.mapM handler.inetAton = .ok ((upstream.answers.filter (near r)).map Record.rdata) := by
    rw [haddresses, filter_addresses, mapM_eq_ok, forall₂_map_left_iff, forall₂_map_right_iff,
      forall₂_same]
    intro record hrecord
    have hnear : near r record = true := of_mem_filter hrecord
    rw [near, Bool.and_eq_true, decide_eq_true_eq] at hnear
    exact inetAton_inetNtoa hinet hnear.1.2
  unfold DnsListener.DnsHandler.handle at hreply
  rw [hquery] at hreply
  obtain ⟨args, hargs, hbuild⟩ := bind_eq_ok.mp hreply
  have hforwarded : handler.forwarded question claim.addresses = .ok args := by
    unfold DnsListener.DnsHandler.replyArgs at hargs
    rw [hquestion] at hargs
    dsimp only at hargs
    rw [if_neg (Bool.eq_false_iff.mp hdenied), hupstream] at hargs
    dsimp only at hargs
    rw [hclaim, if_pos hclaimed] at hargs
    exact hargs
  rw [DnsListener.forwarded_eq, hrdata] at hforwarded
  obtain ⟨rdata, hsent, hargs⟩ := bind_eq_ok.mp hforwarded
  obtain rfl := Except.ok.inj hargs
  rw [parseResponse_buildResponse hbuild hwhole (by simp [hquestion])]
  have hlabels : query.labels = question.labels := by
    rw [Query.labels, hquestion]
    rfl
  show Except.ok ((rdata.map fun ip => (typeA, ip)).map (readAnswer query.labels handler.dnsTtl)) = _
  rw [hlabels]
  split_ifs at hsent ⊢ with htype
  · obtain rfl := Except.ok.inj hsent
    rw [map_map, map_map]
    rfl
  · obtain rfl := Except.ok.inj hsent
    rfl

/-- A listener that was told what `looked` was. -/
def listener : DnsListener.DnsHandler where
  ownedZone := "oob"
  upstream := some fun _ _ => { claimed := true, addresses := ["10.0.0.7"] }
  answerIp _ := "10.0.0.2"
  inetAton text :=
    ((parseDotted text.toList).map fun bits => Except.ok (beBytes 4 bits.toNat)).getD
      (.error "illegal IP address string passed to inet_aton")

/-- Where is `db`? -/
def asks : Bytes := [0, 9, 1, 0, 0, 1, 0, 0, 0, 0, 0, 0, 2, 100, 98, 0, 0, 1, 0, 1]

def told : Bytes :=
  [0, 9, 0x81, 0x80, 0, 1, 0, 1, 0, 0, 0, 0, 2, 100, 98, 0, 0, 1, 0, 1,
    0xc0, 12, 0, 1, 0, 1, 0, 0, 0, 30, 0, 4, 10, 0, 0, 7]

def whereIsDb : Question := ⟨[⟨[100, 98], by decide⟩], typeA, classIn⟩

omit [Runtime] in
set_option maxRecDepth 4000 in
theorem forwarded_records_db :
    let _ := Runtime.ascii
    ∃ upstream, Vouched embedded (run (step embedded) (fresh embedded) lookup).tasks "db"
        { claimed := true, addresses := ["10.0.0.7"] } 1 upstream ∧
      (parseResponse told).map Response.answers =
        .ok ((upstream.answers.filter (near embedded)).map fun record =>
          ⟨whereIsDb.name, typeA, classIn, 30, record.rdata⟩) := by
  have hlooked : let _ := Runtime.ascii
      (run (step embedded) (fresh embedded) lookup).tasks[0]? = some looked := by rfl
  have hinet : ∀ bits, listener.inetAton (String.ofList (dotted bits)) = .ok (beBytes 4 bits.toNat) := by
    intro bits
    simp [listener, parseDotted_dotted]
  exact @forwarded_records embedded Runtime.ascii lookup looked (mem_of_getElem? hlooked) _ 1 _ rfl rfl listener
    hinet _ rfl asks told _ whereIsDb "10.0.0.3" rfl rfl rfl rfl rfl rfl

end Listener

end PtaasBench.EdgeResolver.Upstream
