import Mathlib.Data.List.DropRight
import PtaasBench.Lib.Backlog
import PtaasBench.Lib.Bytes
import PtaasBench.Lib.CallBook
import PtaasBench.Lib.Machine

/-!
# PtaasBench.Sdk.PhpSpool — the spool of the PHP agent (`Spool.php`)

Request processes append lines to a file, the drain process takes what is there and empties it.  Every call on the file
is one step of its own, and any process may take the next one.  A call can fail; a write can also be cut short.
-/

namespace PtaasBench.Sdk.PhpSpool

open Lib List

/-! ## Lines -/

/-- What `trim` takes away. -/
def isBlank (b : UInt8) : Bool := b == 32 || b == 9 || b == 10 || b == 13 || b == 0 || b == 11

def trim (text : Bytes) : Bytes := (text.dropWhile isBlank).rdropWhile isBlank

/-- What `json_encode` makes of a record: it escapes a line feed, and an array has its brackets. -/
structure Line where
  text : Bytes
  single : (10 : UInt8) ∉ text
  solid : ∃ b ∈ text, isBlank b = false

/-- What is written of a line. -/
def Line.bytes (line : Line) : Bytes := line.text ++ [10]

/-- The lines of what was read, as `take` returns them. -/
def linesOf (contents : Bytes) : List Bytes := (contents.splitOn 10).filter fun text => trim text ≠ []

/-! ## State -/

/-- Where a request process stands in `append`. -/
inductive Phase where
  | idle
  /-- About to open the file. -/
  | encoded (line : Tagged Line)
  | opened (line : Tagged Line)
  /-- The size was not over the ceiling. -/
  | checked (line : Tagged Line)
  | locked (line : Tagged Line)
  /-- `fwrite` has returned, the lock is held. -/
  | flushed (line : Tagged Line)

/-- A request process, with its `Spool::stats()`. -/
structure Request where
  phase : Phase := .idle
  written : ℕ := 0
  dropped : ℕ := 0

/-- Where the drain process stands in `take`. -/
inductive Drain where
  | idle
  | looked
  | opened
  | locked
  | filled (contents : Bytes)
  | emptied (contents : Bytes)

inductive Owner (ι : Type*) where
  | request (i : ι)
  | drain
deriving DecidableEq

/-- The file, its lock and the processes.  The last four fields are what was done; no step reads more of them than the
next number. -/
structure System (ι : Type*) where
  made : Bool := false
  file : Bytes := []
  lock : Option (Owner ι) := none
  requests : ι → Request := fun _ => {}
  drain : Drain := .idle
  calls : ℕ := 0
  /-- The appends that came to write, in the order of the lock. -/
  entered : List (Tagged Line) := []
  settled : List (Settled ι) := []
  /-- What `take` has returned so far. -/
  returned : List Bytes := []

/-! ## Steps -/

section Steps

variable {ι : Type*} [DecidableEq ι]

def System.put (s : System ι) (i : ι) (r : Request) : System ι :=
  { s with requests := Function.update s.requests i r }

def System.phase (s : System ι) (i : ι) : Phase := (s.requests i).phase

def System.move (s : System ι) (i : ι) (phase : Phase) : System ι := s.put i { s.requests i with phase := phase }

/-- `dropped++`, and the call is over. -/
def System.drop (s : System ι) (i : ι) (number : ℕ) : System ι :=
  { s.put i { s.requests i with phase := .idle, dropped := (s.requests i).dropped + 1 } with
    settled := s.settled ++ [{ number := number, owner := i, kept := false }] }

/-- `written++`, and the call is over. -/
def System.count (s : System ι) (i : ι) (number : ℕ) : System ι :=
  { s.put i { s.requests i with phase := .idle, written := (s.requests i).written + 1 } with
    settled := s.settled ++ [{ number := number, owner := i, kept := true }] }

/-- `append`, where `none` is a record that could not be encoded -/
def append (i : ι) (record : Option Line) (s : System ι) : System ι :=
  match s.phase i with
  | .idle =>
    match record with
    | some line => { s.move i (.encoded { number := s.calls, body := line }) with calls := s.calls + 1 }
    | none => { s.drop i s.calls with calls := s.calls + 1 }
  | _ => s

def fopen (i : ι) (ok : Bool) (s : System ι) : System ι :=
  match s.phase i with
  | .encoded line => if ok then { s.move i (.opened line) with made := true } else s.drop i line.number
  | _ => s

def fstat (spoolMaxBytes : ℤ) (i : ι) (ok : Bool) (s : System ι) : System ι :=
  match s.phase i with
  | .opened line =>
    if ok ∧ spoolMaxBytes < s.file.length then s.drop i line.number else s.move i (.checked line)
  | _ => s

/-- `flock` waits for as long as the lock is held. -/
def flock (i : ι) (ok : Bool) (s : System ι) : System ι :=
  match s.phase i with
  | .checked line =>
    if ok then if s.lock = none then { s.move i (.locked line) with lock := some (.request i) } else s
    else s.drop i line.number
  | _ => s

/-- `fwrite`: so many bytes come to the end of the file. -/
def fwrite (i : ι) (count : ℕ) (s : System ι) : System ι :=
  match s.phase i with
  | .locked line =>
    { s.move i (.flushed line) with
      file := s.file ++ line.body.bytes.take count
      entered := s.entered ++ [line] }
  | _ => s

def unlock (i : ι) (s : System ι) : System ι :=
  match s.phase i with
  | .flushed line => { s.count i line.number with lock := none }
  | _ => s

/-- `is_file` and `filesize`; the size may be the one of an earlier look. -/
def look (size : ℕ) (s : System ι) : System ι :=
  match s.drain with
  | .idle => if s.made = false ∨ size = 0 then s else { s with drain := .looked }
  | _ => s

def openTake (ok : Bool) (s : System ι) : System ι :=
  match s.drain with
  | .looked => if ok then { s with drain := .opened, made := true } else { s with drain := .idle }
  | _ => s

def lockTake (ok : Bool) (s : System ι) : System ι :=
  match s.drain with
  | .opened =>
    if ok then if s.lock = none then { s with drain := .locked, lock := some .drain } else s
    else { s with drain := .idle }
  | _ => s

/-- `stream_get_contents` -/
def contents (s : System ι) : System ι :=
  match s.drain with
  | .locked => { s with drain := .filled s.file }
  | _ => s

def truncate (s : System ι) : System ι :=
  match s.drain with
  | .filled contents => { s with drain := .emptied contents, file := [] }
  | _ => s

/-- The lock is let go, and `take` returns. -/
def unlockTake (s : System ι) : System ι :=
  match s.drain with
  | .emptied contents => { s with drain := .idle, lock := none, returned := s.returned ++ linesOf contents }
  | _ => s

end Steps

/-- A call of a request process. -/
inductive Call where
  | append (record : Option Line)
  | fopen (ok : Bool)
  | fstat (ok : Bool)
  | flock (ok : Bool)
  | fwrite (count : ℕ)
  | unlock

/-- A call of the drain process. -/
inductive Turn where
  | look (size : ℕ)
  | fopen (ok : Bool)
  | flock (ok : Bool)
  | contents
  | truncate
  | unlock

inductive Op (ι : Type*) where
  | request (i : ι) (call : Call)
  | drain (turn : Turn)

section Runs

variable {ι : Type*} [DecidableEq ι] (spoolMaxBytes : ℤ)

def stepRequest (s : System ι) (i : ι) : Call → System ι
  | .append record => append i record s
  | .fopen ok => fopen i ok s
  | .fstat ok => fstat spoolMaxBytes i ok s
  | .flock ok => flock i ok s
  | .fwrite count => fwrite i count s
  | .unlock => unlock i s

def stepDrain (s : System ι) : Turn → System ι
  | .look size => look size s
  | .fopen ok => openTake ok s
  | .flock ok => lockTake ok s
  | .contents => contents s
  | .truncate => truncate s
  | .unlock => unlockTake s

def step (s : System ι) : Op ι → System ι
  | .request i call => stepRequest spoolMaxBytes s i call
  | .drain turn => stepDrain s turn

/-- What any interleaving of the processes leads to. -/
abbrev run (ops : List (Op ι)) : System ι := Lib.run (step spoolMaxBytes) {} ops

end Runs

/-! ## The books -/

/-- The call a process is at, and whether its line is in the file. -/
def Phase.pending : Phase → Option (ℕ × Bool)
  | .idle => none
  | .encoded line => some (line.number, false)
  | .opened line => some (line.number, false)
  | .checked line => some (line.number, false)
  | .locked line => some (line.number, false)
  | .flushed line => some (line.number, true)

section Books

variable {ι : Type*} [DecidableEq ι]

/-- Every call that is over was counted once, by the process that made it. -/
structure Books (calls : ℕ) (entered : List (Tagged Line)) (settled : List (Settled ι)) (requests : ι → Request) :
    Prop where
  ledger : CallBook calls (entered.map Tagged.number) settled fun i => (requests i).phase.pending
  written : ∀ i, (requests i).written = settled.countP fun e => decide (e.owner = i) && e.kept
  dropped : ∀ i, (requests i).dropped = settled.countP fun e => decide (e.owner = i) && !e.kept

variable {calls : ℕ} {entered : List (Tagged Line)} {settled : List (Settled ι)} {requests : ι → Request}

theorem pending_update (requests : ι → Request) (i : ι) (r : Request) :
    (fun j => (Function.update requests i r j).phase.pending) =
      Function.update (fun j => (requests j).phase.pending) i r.phase.pending :=
  Function.comp_update (fun r : Request => r.phase.pending) requests i r

/-- A counter that a step leaves alone. -/
theorem counter_update {f : Request → ℕ} {n : ι → ℕ} (h : ∀ j, f (requests j) = n j) {i : ι} {r : Request}
    (hr : f r = n i) (j : ι) : f (Function.update requests i r j) = n j := by
  by_cases hj : j = i
  · rw [hj, Function.update_self, hr]
  · rw [Function.update_of_ne hj, h]

theorem Books.same (h : Books calls entered settled requests) {i : ι} {r : Request}
    (hpending : r.phase.pending = (requests i).phase.pending) (hwritten : r.written = (requests i).written)
    (hdropped : r.dropped = (requests i).dropped) : Books calls entered settled (Function.update requests i r) where
  ledger := by
    have hledger := h.ledger
    rwa [← Function.update_eq_self i fun j => (requests j).phase.pending, ← hpending, ← pending_update] at hledger
  written := counter_update h.written (hwritten.trans (h.written i))
  dropped := counter_update h.dropped (hdropped.trans (h.dropped i))

theorem Books.start (h : Books calls entered settled requests) {i : ι} {r : Request}
    (hidle : (requests i).phase.pending = none) (hpending : r.phase.pending = some (calls, false))
    (hwritten : r.written = (requests i).written) (hdropped : r.dropped = (requests i).dropped) :
    Books (calls + 1) entered settled (Function.update requests i r) where
  ledger := by
    rw [pending_update, hpending]
    exact h.ledger.start hidle
  written := counter_update h.written (hwritten.trans (h.written i))
  dropped := counter_update h.dropped (hdropped.trans (h.dropped i))

theorem Books.enter (h : Books calls entered settled requests) {i : ι} {r : Request} {line : Tagged Line}
    (hbefore : (requests i).phase.pending = some (line.number, false))
    (hpending : r.phase.pending = some (line.number, true)) (hwritten : r.written = (requests i).written)
    (hdropped : r.dropped = (requests i).dropped) :
    Books calls (entered ++ [line]) settled (Function.update requests i r) where
  ledger := by
    rw [pending_update, hpending, map_append, map_singleton]
    exact h.ledger.enter hbefore
  written := counter_update h.written (hwritten.trans (h.written i))
  dropped := counter_update h.dropped (hdropped.trans (h.dropped i))

theorem counter_settle {f : Request → ℕ} {p : Bool → Bool} {e : Settled ι}
    (h : ∀ j, f (requests j) = settled.countP fun e => decide (e.owner = j) && p e.kept) {r : Request}
    (hr : f r = f (requests e.owner) + if p e.kept then 1 else 0) (j : ι) :
    f (Function.update requests e.owner r j) = (settled ++ [e]).countP fun e => decide (e.owner = j) && p e.kept := by
  rw [countP_append, ← h, countP_singleton]
  by_cases hj : j = e.owner
  · rw [hj, Function.update_self, hr, decide_eq_true rfl, Bool.true_and]
  · rw [Function.update_of_ne hj, decide_eq_false fun heq => hj heq.symm, Bool.false_and]
    rfl

theorem Books.settle (h : Books calls entered settled requests) {i : ι} {r : Request} {n : ℕ} {b : Bool}
    (hbefore : (requests i).phase.pending = some (n, b)) (hpending : r.phase.pending = none)
    (hwritten : r.written = (requests i).written + if b then 1 else 0)
    (hdropped : r.dropped = (requests i).dropped + if !b then 1 else 0) :
    Books calls entered (settled ++ [{ number := n, owner := i, kept := b }]) (Function.update requests i r) where
  ledger := by
    rw [pending_update, hpending]
    exact h.ledger.settle hbefore
  written := counter_settle (f := Request.written) (p := id) (e := { number := n, owner := i, kept := b }) h.written hwritten
  dropped := counter_settle (f := Request.dropped) (p := not) (e := { number := n, owner := i, kept := b }) h.dropped hdropped

/-- A record that could not be encoded. -/
theorem Books.refuse (h : Books calls entered settled requests) {i : ι} {r : Request}
    (hidle : (requests i).phase.pending = none) (hpending : r.phase.pending = none)
    (hwritten : r.written = (requests i).written) (hdropped : r.dropped = (requests i).dropped + 1) :
    Books (calls + 1) entered (settled ++ [{ number := calls, owner := i, kept := false }])
      (Function.update requests i r) where
  ledger := by
    have hledger := (h.ledger.start hidle).settle (Function.update_self i _ _)
    rwa [Function.update_idem, ← hpending, ← pending_update] at hledger
  written := counter_settle (f := Request.written) (p := id) (e := { number := calls, owner := i, kept := false }) h.written
    hwritten
  dropped := counter_settle (f := Request.dropped) (p := not) (e := { number := calls, owner := i, kept := false }) h.dropped
    hdropped

end Books

/-! ## The lock -/

def Phase.holds : Phase → Bool
  | .locked _ => true
  | .flushed _ => true
  | _ => false

def Drain.holds : Drain → Bool
  | .locked => true
  | .filled _ => true
  | .emptied _ => true
  | _ => false

section Locks

variable {ι : Type*}

/-- Who is past its `flock` holds the lock. -/
structure Locks (lock : Option (Owner ι)) (requests : ι → Request) (drain : Drain) : Prop where
  request : ∀ i, (requests i).phase.holds = true → lock = some (.request i)
  drain : drain.holds = true → lock = some .drain

variable {lock : Option (Owner ι)} {requests : ι → Request} {drain : Drain}

theorem Locks.drainSame (h : Locks lock requests drain) {drain' : Drain} (hdrain : drain'.holds = true → drain.holds = true) :
    Locks lock requests drain' where
  request := h.request
  drain := fun hholds => h.drain (hdrain hholds)

theorem Locks.drainTake (h : Locks none requests drain) {drain' : Drain} : Locks (some .drain) requests drain' where
  request := fun i hi => nomatch h.request i hi
  drain := fun _ => rfl

theorem Locks.drainRelease (h : Locks lock requests drain) (hholds : drain.holds = true) {drain' : Drain}
    (hdrain : drain'.holds = false) : Locks none requests drain' where
  request := fun i hi => nomatch (h.drain hholds).symm.trans (h.request i hi)
  drain := fun hholds => absurd hholds (Bool.eq_false_iff.mp hdrain)

variable [DecidableEq ι]

theorem Locks.same (h : Locks lock requests drain) {i : ι} {r : Request}
    (hr : r.phase.holds = true → (requests i).phase.holds = true) : Locks lock (Function.update requests i r) drain where
  request := by
    intro j hj
    by_cases hji : j = i
    · rw [hji, Function.update_self] at hj
      rw [hji]
      exact h.request i (hr hj)
    · rw [Function.update_of_ne hji] at hj
      exact h.request j hj
  drain := h.drain

theorem Locks.take (h : Locks none requests drain) {i : ι} {r : Request} :
    Locks (some (.request i)) (Function.update requests i r) drain where
  request := by
    intro j hj
    by_cases hji : j = i
    · rw [hji]
    · rw [Function.update_of_ne hji] at hj
      cases h.request j hj
  drain := fun hdrain => nomatch h.drain hdrain

theorem Locks.release (h : Locks lock requests drain) {i : ι} {r : Request} (hi : (requests i).phase.holds = true)
    (hr : r.phase.holds = false) : Locks none (Function.update requests i r) drain where
  request := by
    intro j hj
    by_cases hji : j = i
    · rw [hji, Function.update_self, hr] at hj
      cases hj
    · rw [Function.update_of_ne hji] at hj
      have hboth := (h.request j hj).symm.trans (h.request i hi)
      cases hboth
      exact absurd rfl hji
  drain := fun hdrain => nomatch (h.drain hdrain).symm.trans (h.request i hi)

end Locks

/-! ## The file -/

/-- The lines that are no longer in the file and not returned yet. -/
def Drain.inHand : Drain → List Bytes
  | .emptied contents => linesOf contents
  | _ => []

/-- The lines that `take` has returned, and those it is about to return. -/
def System.taken {ι : Type*} (s : System ι) : List Bytes := s.returned ++ s.drain.inHand

theorem trim_ne_nil {text : Bytes} (h : ∃ b ∈ text, isBlank b = false) : trim text ≠ [] := by
  rw [trim, ne_eq, rdropWhile_eq_nil_iff]
  intro hall
  obtain ⟨b, hb, hsolid⟩ := h
  rw [← takeWhile_append_dropWhile (p := isBlank) (l := text), mem_append] at hb
  rcases hb with hb | hb
  · rw [mem_takeWhile_imp hb] at hsolid
    cases hsolid
  · rw [hall b hb] at hsolid
    cases hsolid

theorem linesOf_cons (line : Line) (rest : Bytes) : linesOf (line.bytes ++ rest) = line.text :: linesOf rest := by
  rw [linesOf, Line.bytes, append_assoc, singleton_append, splitOn_append_cons_self,
    splitOn_eq_singleton line.single, singleton_append,
    filter_cons_of_pos (p := fun text => decide (trim text ≠ [])) (decide_eq_true (trim_ne_nil line.solid)), linesOf]

/-- Whole lines are read back. -/
theorem linesOf_flatMap (spool : List Line) : linesOf (spool.flatMap Line.bytes) = spool.map Line.text := by
  induction spool with
  | nil => rfl
  | cons line spool ih => rw [flatMap_cons, linesOf_cons, ih, map_cons]

/-- The file holds whole lines: those that entered and were not taken. -/
structure Disk (file : Bytes) (drain : Drain) (returned : List Bytes) (entered : List (Tagged Line)) : Prop where
  read : ∀ contents, drain = .filled contents → contents = file
  content : ∃ spool : List Line, file = spool.flatMap Line.bytes ∧
    returned ++ drain.inHand ++ spool.map Line.text = entered.map fun line => line.body.text

section Disk

variable {file : Bytes} {drain : Drain} {returned : List Bytes} {entered : List (Tagged Line)}

theorem Disk.enter (h : Disk file drain returned entered) (hfree : ∀ contents, drain ≠ .filled contents)
    (line : Tagged Line) : Disk (file ++ line.body.bytes) drain returned (entered ++ [line]) where
  read := fun contents hread => absurd hread (hfree contents)
  content := by
    obtain ⟨spool, hfile, hlines⟩ := h.content
    refine ⟨spool ++ [line.body], ?_, ?_⟩
    · rw [flatMap_append, ← hfile, flatMap_singleton]
    · rw [map_append, ← append_assoc, hlines, map_append, map_singleton, map_singleton]

/-- The drain process goes on without a line in its hands. -/
theorem Disk.turn (h : Disk file drain returned entered) (hempty : drain.inHand = []) {drain' : Drain}
    (hread : ∀ contents, drain' = .filled contents → contents = file) (hempty' : drain'.inHand = []) :
    Disk file drain' returned entered where
  read := hread
  content := by
    obtain ⟨spool, hfile, hlines⟩ := h.content
    rw [hempty] at hlines
    exact ⟨spool, hfile, by rwa [hempty']⟩

theorem Disk.empty {contents : Bytes} (h : Disk file (.filled contents) returned entered) :
    Disk [] (.emptied contents) returned entered where
  read := fun other hother => nomatch hother
  content := by
    obtain ⟨spool, hfile, hlines⟩ := h.content
    have hhand : (Drain.emptied contents).inHand = spool.map Line.text := by
      rw [← linesOf_flatMap, ← hfile, ← h.read contents rfl, Drain.inHand]
    have hbefore : (Drain.filled contents).inHand = [] := rfl
    rw [hbefore, append_nil] at hlines
    exact ⟨[], rfl, by rwa [hhand, map_nil, append_nil]⟩

theorem Disk.hand {contents : Bytes} (h : Disk file (.emptied contents) returned entered) :
    Disk file .idle (returned ++ linesOf contents) entered where
  read := fun other hother => nomatch hother
  content := by
    obtain ⟨spool, hfile, hlines⟩ := h.content
    have hafter : Drain.idle.inHand = [] := rfl
    exact ⟨spool, hfile, by rwa [hafter, append_nil]⟩

end Disk

/-! ## Every step keeps the books, the lock and the file -/

section Invariant

variable {ι : Type*} [DecidableEq ι] {spoolMaxBytes : ℤ} {s : System ι}

structure Sound (s : System ι) : Prop where
  books : Books s.calls s.entered s.settled s.requests
  locks : Locks s.lock s.requests s.drain
  disk : Disk s.file s.drain s.returned s.entered

theorem sound_start : Sound ({} : System ι) where
  books := ⟨CallBook.empty, fun _ => rfl, fun _ => rfl⟩
  locks := ⟨nofun, nofun⟩
  disk := ⟨nofun, [], rfl, rfl⟩

/-- A process goes on with its call. -/
theorem Sound.move (h : Sound s) {i : ι} {phase : Phase} (hpending : phase.pending = (s.phase i).pending)
    (hholds : phase.holds = true → (s.phase i).holds = true) : Sound (s.move i phase) where
  books := h.books.same hpending rfl rfl
  locks := h.locks.same hholds
  disk := h.disk

theorem Sound.drop (h : Sound s) {i : ι} {n : ℕ} (hpending : (s.phase i).pending = some (n, false)) : Sound (s.drop i n) where
  books := h.books.settle hpending rfl rfl rfl
  locks := h.locks.same nofun
  disk := h.disk

theorem Sound.append (h : Sound s) (i : ι) (record : Option Line) : Sound (append i record s) := by
  unfold PhpSpool.append
  cases hphase : s.phase i with
  | idle =>
    have hidle : (s.requests i).phase.pending = none := congrArg Phase.pending hphase
    cases record with
    | some line => exact ⟨h.books.start hidle rfl rfl rfl, h.locks.same nofun, h.disk⟩
    | none => exact ⟨h.books.refuse hidle rfl rfl rfl, h.locks.same nofun, h.disk⟩
  | _ => exact h

theorem Sound.fopen (h : Sound s) (i : ι) (ok : Bool) : Sound (fopen i ok s) := by
  unfold PhpSpool.fopen
  cases hphase : s.phase i with
  | encoded line =>
    have hpending := congrArg Phase.pending hphase
    cases ok with
    | true =>
      have hmove : Sound (s.move i (.opened line)) := h.move hpending.symm nofun
      exact ⟨hmove.books, hmove.locks, hmove.disk⟩
    | false => exact h.drop hpending
  | _ => exact h

theorem Sound.fstat (h : Sound s) (i : ι) (ok : Bool) : Sound (fstat spoolMaxBytes i ok s) := by
  unfold PhpSpool.fstat
  cases hphase : s.phase i with
  | opened line =>
    have hpending := congrArg Phase.pending hphase
    dsimp only
    split_ifs
    · exact h.drop hpending
    · exact h.move hpending.symm nofun
  | _ => exact h

theorem Sound.flock (h : Sound s) (i : ι) (ok : Bool) : Sound (flock i ok s) := by
  unfold PhpSpool.flock
  cases hphase : s.phase i with
  | checked line =>
    have hpending := congrArg Phase.pending hphase
    dsimp only
    split_ifs with hok hfree
    · have hlocks := h.locks
      rw [hfree] at hlocks
      exact ⟨h.books.same hpending.symm rfl rfl, hlocks.take, h.disk⟩
    · exact h
    · exact h.drop hpending
  | _ => exact h

/-- While a request process holds the lock, the drain process has read nothing. -/
theorem Sound.not_filled (h : Sound s) {i : ι} (hholds : (s.phase i).holds = true) (contents : Bytes) :
    s.drain ≠ .filled contents := by
  intro hdrain
  have hlock := h.locks.drain (congrArg Drain.holds hdrain)
  rw [h.locks.request i hholds] at hlock
  cases hlock

/-- A write that writes its line to the end. -/
theorem Sound.fwrite (h : Sound s) (i : ι) {count : ℕ}
    (hwhole : ∀ line, s.phase i = .locked line → line.body.bytes.length ≤ count) : Sound (fwrite i count s) := by
  unfold PhpSpool.fwrite
  cases hphase : s.phase i with
  | locked line =>
    have hholds := congrArg Phase.holds hphase
    have hpending := congrArg Phase.pending hphase
    dsimp only
    rw [take_of_length_le (hwhole line hphase)]
    exact ⟨h.books.enter hpending rfl rfl rfl, h.locks.same fun _ => hholds, h.disk.enter (h.not_filled hholds) line⟩
  | _ => exact h

theorem Sound.unlock (h : Sound s) (i : ι) : Sound (unlock i s) := by
  unfold PhpSpool.unlock
  cases hphase : s.phase i with
  | flushed line =>
    have hholds := congrArg Phase.holds hphase
    have hpending := congrArg Phase.pending hphase
    exact ⟨h.books.settle hpending rfl rfl rfl, h.locks.release hholds rfl, h.disk⟩
  | _ => exact h

theorem Sound.look (h : Sound s) (size : ℕ) : Sound (look size s) := by
  unfold PhpSpool.look
  cases hdrain : s.drain with
  | idle =>
    have hempty := congrArg Drain.inHand hdrain
    dsimp only
    split_ifs
    · exact h
    · exact ⟨h.books, h.locks.drainSame nofun, h.disk.turn hempty nofun rfl⟩
  | _ => exact h

theorem Sound.openTake (h : Sound s) (ok : Bool) : Sound (openTake ok s) := by
  unfold PhpSpool.openTake
  cases hdrain : s.drain with
  | looked =>
    have hempty := congrArg Drain.inHand hdrain
    cases ok with
    | true => exact ⟨h.books, h.locks.drainSame nofun, h.disk.turn hempty nofun rfl⟩
    | false => exact ⟨h.books, h.locks.drainSame nofun, h.disk.turn hempty nofun rfl⟩
  | _ => exact h

theorem Sound.lockTake (h : Sound s) (ok : Bool) : Sound (lockTake ok s) := by
  unfold PhpSpool.lockTake
  cases hdrain : s.drain with
  | opened =>
    have hempty := congrArg Drain.inHand hdrain
    dsimp only
    split_ifs with hok hfree
    · have hlocks := h.locks
      rw [hfree] at hlocks
      exact ⟨h.books, hlocks.drainTake, h.disk.turn hempty nofun rfl⟩
    · exact h
    · exact ⟨h.books, h.locks.drainSame nofun, h.disk.turn hempty nofun rfl⟩
  | _ => exact h

theorem Sound.contents (h : Sound s) : Sound (contents s) := by
  unfold PhpSpool.contents
  cases hdrain : s.drain with
  | locked =>
    have hempty := congrArg Drain.inHand hdrain
    have hholds := congrArg Drain.holds hdrain
    refine ⟨h.books, h.locks.drainSame fun _ => hholds, h.disk.turn hempty ?_ rfl⟩
    intro contents hread
    cases hread
    rfl
  | _ => exact h

theorem Sound.truncate (h : Sound s) : Sound (truncate s) := by
  unfold PhpSpool.truncate
  cases hdrain : s.drain with
  | filled contents =>
    have hdisk := h.disk
    have hholds := congrArg Drain.holds hdrain
    rw [hdrain] at hdisk
    exact ⟨h.books, h.locks.drainSame fun _ => hholds, hdisk.empty⟩
  | _ => exact h

theorem Sound.unlockTake (h : Sound s) : Sound (unlockTake s) := by
  unfold PhpSpool.unlockTake
  cases hdrain : s.drain with
  | emptied contents =>
    have hdisk := h.disk
    have hholds := congrArg Drain.holds hdrain
    rw [hdrain] at hdisk
    exact ⟨h.books, h.locks.drainRelease hholds rfl, hdisk.hand⟩
  | _ => exact h

/-- A write of this step writes its line to the end. -/
def Whole (s : System ι) : Op ι → Prop
  | .request i (.fwrite count) =>
    match s.phase i with
    | .locked line => line.body.bytes.length ≤ count
    | _ => True
  | _ => True

omit [DecidableEq ι] in
theorem Whole.write {i : ι} {count : ℕ} (h : Whole s (.request i (.fwrite count))) (line : Tagged Line)
    (hphase : s.phase i = .locked line) : line.body.bytes.length ≤ count := by
  rw [Whole, hphase] at h
  exact h

theorem Sound.step (h : Sound s) (op : Op ι) (hwhole : Whole s op) : Sound (step spoolMaxBytes s op) := by
  cases op with
  | request i call =>
    cases call with
    | append record => exact h.append i record
    | fopen ok => exact h.fopen i ok
    | fstat ok => exact h.fstat i ok
    | flock ok => exact h.flock i ok
    | fwrite count => exact h.fwrite i hwhole.write
    | unlock => exact h.unlock i
  | drain turn =>
    cases turn with
    | look size => exact h.look size
    | fopen ok => exact h.openTake ok
    | flock ok => exact h.lockTake ok
    | contents => exact h.contents
    | truncate => exact h.truncate
    | unlock => exact h.unlockTake

/-- The lines taken and then those in the file are appended lines, each once, in the order of the lock.  A call that is
over was counted once: as written if its line is among them, as dropped if it is not. -/
structure Kept (s : System ι) (kept : List (Tagged Line)) : Prop where
  order : kept.Sublist s.entered
  once : (kept.map Tagged.number).Nodup
  lines : s.taken ++ linesOf s.file = kept.map fun line => line.body.text
  ended : ∀ n < s.calls, n ∈ s.settled.map Settled.number ∨ ∃ i b, (s.phase i).pending = some (n, b)
  settled_once : (s.settled.map Settled.number).Nodup
  settled_iff : ∀ e ∈ s.settled, e.kept = true ↔ e.number ∈ kept.map Tagged.number
  written : ∀ i, (s.requests i).written = s.settled.countP fun e => decide (e.owner = i) && e.kept
  dropped : ∀ i, (s.requests i).dropped = s.settled.countP fun e => decide (e.owner = i) && !e.kept

theorem Sound.kept (h : Sound s) : Kept s s.entered where
  order := List.Sublist.refl _
  once := h.books.ledger.entered_nodup
  lines := by
    obtain ⟨spool, hfile, hlines⟩ := h.disk.content
    rw [System.taken, hfile, linesOf_flatMap, hlines]
  ended := h.books.ledger.complete
  settled_once := h.books.ledger.settled_nodup
  settled_iff := h.books.ledger.settled_iff
  written := h.books.written
  dropped := h.books.dropped

/-- While every write is whole, no line is lost, repeated, split or miscounted, however the processes interleave. -/
theorem lines_kept {ops : List (Op ι)} (h : Along (step spoolMaxBytes) Whole {} ops) :
    ∃ kept, Kept (run spoolMaxBytes ops) kept :=
  ⟨_, (run_along (step spoolMaxBytes) (fun _ op hsound hwhole => hsound.step op hwhole) sound_start h).kept⟩

end Invariant

/-! ## A full disk -/

/-- `{}` -/
def braces : Line where
  text := [123, 125]
  single := by decide
  solid := ⟨123, mem_cons_self, rfl⟩

/-- `append` of one request process, where `fwrite` writes so many bytes. -/
def appendOps (i count : ℕ) : List (Op ℕ) :=
  [.request i (.append (some braces)), .request i (.fopen true), .request i (.fstat true), .request i (.flock true),
    .request i (.fwrite count), .request i .unlock]

def takeOps : List (Op ℕ) :=
  [.drain (.look 1), .drain (.fopen true), .drain (.flock true), .drain .contents, .drain .truncate, .drain .unlock]

theorem lines_kept_twice : ∃ kept, Kept (run 8388608 (appendOps 0 3 ++ appendOps 1 3 ++ takeOps)) kept :=
  lines_kept ⟨trivial, trivial, trivial, trivial, le_rfl, trivial, trivial, trivial, trivial, trivial, le_rfl, trivial,
    trivial, trivial, trivial, trivial, trivial, trivial, trivial⟩

/-- The first write stops after one byte: the second line is glued to it, and both are counted as written. -/
theorem lines_glued : ¬∃ kept, Kept (run 8388608 (appendOps 0 1 ++ appendOps 1 3 ++ takeOps)) kept := by
  rintro ⟨kept, h⟩
  have hlines : kept.map (fun line => line.body.text) = [[123, 123, 125]] := h.lines.symm
  have hmem : [123, 123, 125] ∈ kept.map fun line => line.body.text := by
    rw [hlines]
    exact mem_singleton_self _
  obtain ⟨line, hline, htext⟩ := mem_map.mp hmem
  have hentered : line ∈ [⟨0, braces⟩, ⟨1, braces⟩] := h.order.subset hline
  rcases mem_pair.mp hentered with rfl | rfl
  · exact absurd htext (by decide)
  · exact absurd htext (by decide)

end PtaasBench.Sdk.PhpSpool
