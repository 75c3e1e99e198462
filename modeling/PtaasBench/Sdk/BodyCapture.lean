import PtaasBench.Lib.Bytes

/-!
# PtaasBench.Sdk.BodyCapture — reading a body the application still has to read (`asgi.py`, `wsgi.py`)

Under ASGI the messages of a body are received ahead and replayed; under WSGI the bytes read are put in front of the
stream again.
-/

namespace PtaasBench.Sdk.Capture

open List

open Lib (Bytes)

/-! ## Messages -/

/-- A message of ASGI; `body` is `none` for a missing key or `None`, and `others` are the keys not looked at. -/
structure Message (ε : Type*) where
  type : String
  body : Option Bytes
  moreBody : Bool
  others : ε

/-- `_BodyRecorder`, without the `receive` it takes from. -/
structure BodyRecorder (ε : Type*) where
  buffered : List (Message ε)
  body : Bytes
  truncated : Bool

variable {ε : Type*}

/-- The loop of `prefetch` over the messages still to come; `none` while it waits for another one. -/
def fetch (max : ℤ) : List (Message ε) → ℕ → List Bytes → List (Message ε) →
    Option (BodyRecorder ε × List (Message ε))
  | [], _, _, _ => none
  | message :: rest, total, chunks, buffered =>
    let buffered := buffered ++ [message]
    if message.type ≠ "http.request" then some (⟨buffered, chunks.flatten, false⟩, rest)
    else
      let chunk := message.body.getD []
      let chunks := if total < max then chunks ++ [chunk.take (max - total).toNat] else chunks
      let total := total + chunk.length
      if !message.moreBody then some (⟨buffered, chunks.flatten, false⟩, rest)
      else if max ≤ total then some (⟨buffered, chunks.flatten, true⟩, rest)
      else fetch max rest total chunks buffered

/-- `prefetch` -/
def prefetch (max : ℤ) (messages : List (Message ε)) : Option (BodyRecorder ε × List (Message ε)) :=
  fetch max messages 0 [] []

/-- `receive`; `none` while the server has no message. -/
def receive (recorder : BodyRecorder ε) (source : List (Message ε)) :
    Option (Message ε × BodyRecorder ε × List (Message ε)) :=
  match recorder.buffered with
  | message :: buffered => some (message, { recorder with buffered := buffered }, source)
  | [] => source.head?.map fun message => (message, recorder, source.tail)

/-- What so many calls of `receive` deliver. -/
def delivered : ℕ → BodyRecorder ε → List (Message ε) → List (Message ε)
  | 0, _, _ => []
  | n + 1, recorder, source =>
    match receive recorder source with
    | none => []
    | some (message, recorder, source) => message :: delivered n recorder source

/-- The chunks of a request, up to its last message or a disconnect. -/
def bodyOf : List (Message ε) → Bytes
  | [] => []
  | message :: rest =>
    if message.type ≠ "http.request" then []
    else message.body.getD [] ++ (if message.moreBody then bodyOf rest else [])

/-- The messages so far leave the body open, and below the cap. -/
def Open (max : ℤ) (messages : List (Message ε)) : Prop :=
  (∀ message ∈ messages, message.type = "http.request" ∧ message.moreBody = true) ∧
    (messages = [] ∨ (bodyOf messages).length < max)

/-- The application receives the messages of the server, and the recorder has the first bytes of the body. -/
def Replayed (max : ℤ) (messages : List (Message ε)) : Prop :=
  match prefetch max messages with
  | none => Open max messages
  | some (recorder, source) =>
    (∀ n, delivered n recorder source = messages.take n) ∧ recorder.body = (bodyOf messages).take max.toNat

/-! ## Streams -/

/-- A size of a read: `None` and a negative one are no bound. -/
def bound (size : Option ℤ) : Option ℕ := size.bind fun n => if n < 0 then none else some n.toNat

/-- The bytes up to the first line feed. -/
def firstLine : Bytes → Bytes
  | [] => []
  | b :: bs => if b = 0x0A then [b] else b :: firstLine bs

/-- `read` of a stream: the bytes, and what is left. -/
def read (stream : Bytes) (size : Option ℤ) : Bytes × Bytes :=
  match bound size with
  | none => (stream, [])
  | some n => (stream.take n, stream.drop n)

/-- `readline` of a stream. -/
def readline (stream : Bytes) (size : Option ℤ) : Bytes × Bytes :=
  let line := match bound size with
    | none => firstLine stream
    | some n => (firstLine stream).take n
  (line, stream.drop line.length)

/-- `_ChainedInput` -/
structure ChainedInput where
  head : Bytes
  rest : Bytes

/-- `_ChainedInput.read` -/
def ChainedInput.read (c : ChainedInput) (size : Option ℤ) : Bytes × ChainedInput :=
  match bound size with
  | none => (c.head ++ c.rest, ⟨[], []⟩)
  | some n =>
    let (data, head) := Capture.read c.head size
    if data.length < n then
      let (more, rest) := Capture.read c.rest (some (n - data.length))
      (data ++ more, ⟨head, rest⟩)
    else (data, ⟨head, c.rest⟩)

/-- `_ChainedInput.readline` -/
def ChainedInput.readline (c : ChainedInput) (size : Option ℤ) : Bytes × ChainedInput :=
  let (line, head) := Capture.readline c.head size
  let filled := match bound size with
    | none => false
    | some n => decide (n ≤ line.length)
  if line.getLast? = some 0x0A || filled then (line, ⟨head, c.rest⟩)
  else
    let remaining := (bound size).elim (-1) fun n => (n - line.length : ℤ)
    let (more, rest) := Capture.readline c.rest (some remaining)
    (line ++ more, ⟨head, rest⟩)

/-- What an application calls; `next` is a step of an iteration. -/
inductive Call where
  | read (size : Option ℤ)
  | readline (size : Option ℤ)
  | next

/-- The result of a step of an iteration by `readline`; `none` is the end of it. -/
def nextLine (line : Bytes) : Option Bytes := if line = [] then none else some line

/-- A call on a stream. -/
def onStream (call : Call) (stream : Bytes) : Option Bytes × Bytes :=
  match call with
  | .read size => (some (read stream size).1, (read stream size).2)
  | .readline size => (some (readline stream size).1, (readline stream size).2)
  | .next => (nextLine (readline stream none).1, (readline stream none).2)

/-- A call on a chained input; its iteration is `iter(self.readline, b"")`. -/
def onChained (call : Call) (c : ChainedInput) : Option Bytes × ChainedInput :=
  match call with
  | .read size => (some (c.read size).1, (c.read size).2)
  | .readline size => (some (c.readline size).1, (c.readline size).2)
  | .next => (nextLine (c.readline (some (-1))).1, (c.readline (some (-1))).2)

/-- The results of calls one after another. -/
def results {σ : Type*} (on : Call → σ → Option Bytes × σ) : List Call → σ → List (Option Bytes)
  | [], _ => []
  | call :: calls, s => (on call s).1 :: results on calls (on call s).2

/-! ## Messages are replayed -/

theorem delivered_nil (n : ℕ) (recorder : BodyRecorder ε) (source : List (Message ε)) (h : recorder.buffered = []) :
    delivered n recorder source = source.take n := by
  induction n generalizing source with
  | zero => rfl
  | succ n ih =>
    cases source with
    | nil => simp [delivered, receive, h]
    | cons message source => simp [delivered, receive, h, ih]

theorem delivered_eq (n : ℕ) (recorder : BodyRecorder ε) (source : List (Message ε)) :
    delivered n recorder source = (recorder.buffered ++ source).take n := by
  induction n generalizing recorder with
  | zero => rfl
  | succ n ih =>
    cases hb : recorder.buffered with
    | nil => exact delivered_nil _ recorder source hb
    | cons message buffered => simp [delivered, receive, hb, ih]

theorem take_chunk {seen chunk : Bytes} {max : ℤ} :
    (if seen.length < max then seen.take max.toNat ++ chunk.take (max - seen.length).toNat else seen.take max.toNat) =
      (seen ++ chunk).take max.toNat := by
  rw [take_append]
  by_cases h : (seen.length : ℤ) < max
  · rw [if_pos h, show (max - seen.length).toNat = max.toNat - seen.length by omega]
  · rw [if_neg h, show max.toNat - seen.length = 0 by omega, take_zero, append_nil]

/-- What the loop has when it stops: every message, and the first bytes of the body. -/
theorem fetch_stopped {max : ℤ} {messages : List (Message ε)} (seen : Bytes) {chunks : List Bytes}
    {buffered source : List (Message ε)} {recorder : BodyRecorder ε} (hchunks : chunks.flatten = seen.take max.toNat)
    (h : fetch max messages seen.length chunks buffered = some (recorder, source)) :
    recorder.buffered ++ source = buffered ++ messages ∧
      recorder.body = (seen ++ bodyOf messages).take max.toNat := by
  induction messages generalizing seen chunks buffered with
  | nil => exact absurd h nofun
  | cons message rest ih =>
    rw [fetch] at h
    by_cases htype : message.type = "http.request"
    · have hbody : bodyOf (message :: rest) =
          message.body.getD [] ++ (if message.moreBody then bodyOf rest else []) := if_neg (not_not.mpr htype)
      generalize message.body.getD [] = chunk at h hbody
      have hflat : (if seen.length < max then chunks ++ [chunk.take (max - seen.length).toNat] else chunks).flatten =
          (seen ++ chunk).take max.toNat := by
        rw [← take_chunk]
        split_ifs
        · rw [flatten_append, hchunks, flatten_singleton]
        · exact hchunks
      rw [if_neg (not_not.mpr htype)] at h
      dsimp only at h
      rw [hbody]
      cases hmore : message.moreBody with
      | false =>
        rw [hmore] at h
        obtain ⟨rfl, rfl⟩ := Prod.mk.inj (Option.some.inj h)
        exact ⟨by simp, by rw [hflat, if_neg Bool.false_ne_true, append_nil]⟩
      | true =>
        rw [hmore, if_neg (by decide), ← length_append] at h
        rw [if_pos rfl, ← append_assoc]
        by_cases hfull : max ≤ ((seen ++ chunk).length : ℤ)
        · rw [if_pos hfull] at h
          obtain ⟨rfl, rfl⟩ := Prod.mk.inj (Option.some.inj h)
          have hcut : (seen ++ chunk ++ bodyOf rest).take max.toNat = (seen ++ chunk).take max.toNat :=
            take_append_of_le_length (by omega)
          exact ⟨by simp, by rw [hflat, hcut]⟩
        · rw [if_neg hfull] at h
          obtain ⟨hbuffered, hbytes⟩ := ih _ hflat h
          exact ⟨by rw [hbuffered, append_assoc]; rfl, hbytes⟩
    · rw [if_pos htype] at h
      obtain ⟨rfl, rfl⟩ := Prod.mk.inj (Option.some.inj h)
      have hbody : bodyOf (message :: rest) = [] := if_pos htype
      exact ⟨by simp, by rw [hbody, append_nil, hchunks]⟩

/-- While the loop waits, the body is open and below the cap. -/
theorem fetch_waiting {max : ℤ} {messages : List (Message ε)} {total : ℕ} {chunks : List Bytes}
    {buffered : List (Message ε)} (h : fetch max messages total chunks buffered = none) :
    (∀ message ∈ messages, message.type = "http.request" ∧ message.moreBody = true) ∧
      (messages = [] ∨ (total + (bodyOf messages).length : ℤ) < max) := by
  induction messages generalizing total chunks buffered with
  | nil => exact ⟨fun _ hmem => absurd hmem not_mem_nil, Or.inl rfl⟩
  | cons message rest ih =>
    rw [fetch] at h
    by_cases htype : message.type = "http.request"
    · rw [if_neg (not_not.mpr htype)] at h
      dsimp only at h
      cases hmore : message.moreBody with
      | false => rw [hmore] at h; exact absurd h nofun
      | true =>
        rw [hmore, if_neg (by decide)] at h
        by_cases hfull : max ≤ ((total + (message.body.getD []).length : ℕ) : ℤ)
        · rw [if_pos hfull] at h
          exact absurd h nofun
        · rw [if_neg hfull] at h
          obtain ⟨hall, hrest⟩ := ih h
          have hbody : bodyOf (message :: rest) = message.body.getD [] ++ bodyOf rest := by
            rw [bodyOf, if_neg (not_not.mpr htype), hmore, if_pos rfl]
          refine ⟨forall_mem_cons.mpr ⟨⟨htype, hmore⟩, hall⟩, Or.inr ?_⟩
          rw [hbody, length_append]
          rcases hrest with rfl | hrest
          · rw [bodyOf, length_nil]
            omega
          · omega
    · rw [if_pos htype] at h
      exact absurd h nofun

theorem replayed (max : ℤ) (messages : List (Message ε)) : Replayed max messages := by
  rw [Replayed]
  cases hfetch : prefetch max messages with
  | none => simpa [Open] using fetch_waiting hfetch
  | some stopped =>
    obtain ⟨recorder, source⟩ := stopped
    obtain ⟨hbuffered, hbody⟩ := fetch_stopped [] (by simp) hfetch
    exact ⟨fun n => by rw [delivered_eq, hbuffered, nil_append], hbody⟩

/-! ## The chained input is the stream -/

theorem firstLine_append_of_mem {head : Bytes} (h : 0x0A ∈ head) (rest : Bytes) :
    firstLine (head ++ rest) = firstLine head := by
  induction head with
  | nil => exact absurd h not_mem_nil
  | cons b head ih =>
    rw [cons_append, firstLine, firstLine]
    by_cases hb : b = 0x0A
    · rw [if_pos hb, if_pos hb]
    · rw [if_neg hb, if_neg hb, ih ((mem_cons.mp h).resolve_left (Ne.symm hb))]

theorem firstLine_append_of_notMem {head : Bytes} (h : 0x0A ∉ head) (rest : Bytes) :
    firstLine (head ++ rest) = head ++ firstLine rest := by
  induction head with
  | nil => rfl
  | cons b head ih =>
    have hb : b ≠ 0x0A := fun heq => h (heq ▸ mem_cons_self)
    rw [cons_append, firstLine, if_neg hb, ih fun hmem => h (mem_cons_of_mem b hmem)]
    rfl

theorem firstLine_of_notMem {head : Bytes} (h : 0x0A ∉ head) : firstLine head = head := by
  have hline := firstLine_append_of_notMem h []
  rwa [append_nil, firstLine, append_nil] at hline

theorem getLast?_firstLine {head : Bytes} (h : 0x0A ∈ head) : (firstLine head).getLast? = some 0x0A := by
  induction head with
  | nil => exact absurd h not_mem_nil
  | cons b head ih =>
    rw [firstLine]
    by_cases hb : b = 0x0A
    · rw [if_pos hb, hb]
      rfl
    · have hmem := (mem_cons.mp h).resolve_left (Ne.symm hb)
      rw [if_neg hb, List.getLast?_cons, ih hmem]
      rfl

theorem length_firstLine_le (stream : Bytes) : (firstLine stream).length ≤ stream.length := by
  induction stream with
  | nil => exact le_refl _
  | cons b stream ih =>
    rw [firstLine]
    split_ifs
    · rw [length_singleton, length_cons]
      exact Nat.le_add_left 1 _
    · rw [length_cons, length_cons]
      exact Nat.succ_le_succ ih

/-- What is left to read of a chained input. -/
def ChainedInput.stream (c : ChainedInput) : Bytes := c.head ++ c.rest

theorem bound_ofNat (n : ℕ) : bound (some n) = some n := by
  have hnot : ¬(n : ℤ) < 0 := by omega
  rw [bound, Option.bind_some, if_neg hnot, Int.toNat_natCast]

theorem read_chained (c : ChainedInput) (size : Option ℤ) :
    read c.stream size = ((c.read size).1, (c.read size).2.stream) := by
  rw [ChainedInput.read, read, ChainedInput.stream]
  cases hsize : bound size with
  | none => rfl
  | some n =>
    have hhead : read c.head size = (c.head.take n, c.head.drop n) := by rw [read, hsize]
    dsimp only
    rw [hhead]
    dsimp only
    by_cases hshort : (c.head.take n).length < n
    · have hle : c.head.length ≤ n := by
        rw [length_take] at hshort
        omega
      have hrest : bound (some (n - (c.head.take n).length : ℤ)) = some (n - c.head.length) := by
        rw [take_of_length_le hle, ← bound_ofNat]
        exact congrArg (fun k : ℤ => bound (some k)) (by omega)
      rw [if_pos hshort, read, hrest, take_append, drop_append]
      rfl
    · have hle : n ≤ c.head.length := by
        rw [length_take] at hshort
        omega
      rw [if_neg hshort, take_append_of_le_length hle, drop_append_of_le_length hle]
      rfl

/-- A line that ends within the head of a chained input is the line of the stream, and one that does not goes on in
the rest. -/
theorem readline_chained (c : ChainedInput) (size : Option ℤ) :
    readline c.stream size = ((c.readline size).1, (c.readline size).2.stream) := by
  rw [ChainedInput.readline, readline, readline, ChainedInput.stream]
  by_cases hmem : (0x0A : UInt8) ∈ c.head
  · have hends := getLast?_firstLine hmem
    have hlength := length_firstLine_le c.head
    rw [firstLine_append_of_mem hmem]
    cases hsize : bound size with
    | none =>
      dsimp only
      rw [if_pos (by simp [hends]), drop_append_of_le_length hlength]
      rfl
    | some n =>
      have hstops : ((firstLine c.head).take n).getLast? = some 0x0A ∨ n ≤ ((firstLine c.head).take n).length := by
        by_cases hn : n ≤ (firstLine c.head).length
        · exact Or.inr (by rw [length_take_of_le hn])
        · exact Or.inl (by rw [take_of_length_le (by omega), hends])
      have hle : ((firstLine c.head).take n).length ≤ c.head.length := (length_take_le' n _).trans hlength
      dsimp only
      rw [if_pos (by simpa only [Bool.or_eq_true, decide_eq_true_eq] using hstops), drop_append_of_le_length hle]
      rfl
  · rw [firstLine_append_of_notMem hmem, firstLine_of_notMem hmem]
    have hnot (n : ℕ) : (c.head.take n).getLast? ≠ some 0x0A := fun hlast =>
      hmem (mem_of_mem_take (mem_of_getLast? hlast))
    cases hsize : bound size with
    | none =>
      have hopen : c.head.getLast? ≠ some 0x0A := fun hlast => hmem (mem_of_getLast? hlast)
      have hbound : bound (some (-1)) = none := rfl
      dsimp only
      rw [if_neg (by simpa using hopen), Option.elim_none, readline, hbound]
      dsimp only
      rw [length_append, ← drop_drop, drop_left, drop_length]
      rfl
    | some n =>
      dsimp only
      by_cases hn : n ≤ c.head.length
      · have hlength : (c.head.take n).length = n := length_take_of_le hn
        rw [if_pos (by simp [hlength]), take_append_of_le_length hn, hlength, drop_append_of_le_length hn]
        rfl
      · have hall : c.head.take n = c.head := take_of_length_le (by omega)
        have hopen : c.head.getLast? ≠ some 0x0A := hall ▸ hnot n
        have hbound : bound (some (n - c.head.length : ℤ)) = some (n - c.head.length) := by
          rw [← bound_ofNat]
          exact congrArg (fun k : ℤ => bound (some k)) (by omega)
        rw [hall, if_neg (by simpa using ⟨hopen, by omega⟩), Option.elim_some, readline, hbound]
        dsimp only
        rw [take_append, hall, length_append, ← drop_drop, drop_left, drop_length]
        rfl

/-- A call on a chained input is the call on what is left to read. -/
theorem onChained_step (call : Call) (c : ChainedInput) :
    onStream call c.stream = ((onChained call c).1, (onChained call c).2.stream) := by
  cases call with
  | read size =>
    rw [onStream, read_chained]
    rfl
  | readline size =>
    rw [onStream, readline_chained]
    rfl
  | next =>
    have hbound : readline c.stream none = readline c.stream (some (-1)) := rfl
    rw [onStream, hbound, readline_chained]
    rfl

theorem results_chained (calls : List Call) (c : ChainedInput) :
    results onChained calls c = results onStream calls c.stream := by
  induction calls generalizing c with
  | nil => rfl
  | cons call calls ih => rw [results, results, onChained_step, ih]

/-- The messages are replayed with the first bytes of the body kept, and a chained input reads like the stream whose
first bytes were taken. -/
theorem capture_invisible :
    (∀ (max : ℤ) (messages : List (Message ε)), Replayed max messages) ∧
      ∀ (stream : Bytes) (k : ℕ) (calls : List Call),
        results onChained calls ⟨stream.take k, stream.drop k⟩ = results onStream calls stream := by
  refine ⟨replayed, fun stream k calls => ?_⟩
  rw [results_chained, ChainedInput.stream, take_append_drop]

end PtaasBench.Sdk.Capture
