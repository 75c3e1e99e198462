import PtaasBench.Edge.Origin

/-!
# PtaasBench.Edge.Wire — requests off the wire (`wire.go`)

The connection reader of the edge origin: lines, headers, and the body in the framing the headers decide on.  A
connection is the bytes that are still to come and the count of those taken.
-/

namespace PtaasBench.Edge.Wire

open Py Lib List

def maxHeaderLine : ℕ := 8192

def maxBodyBytes : ℕ := 1048576

inductive Err
  | eof
  | lineTooLong
  | badRequest
  | tooManyHeaders
  | badChunkSize (size : Bytes)
  | bodyTooLarge
deriving DecidableEq

/-! ## The connection -/

structure Conn where
  rest : Bytes
  consumed : ℕ
deriving DecidableEq

def Conn.skip (w : Conn) (n : ℕ) : Conn := ⟨w.rest.drop n, w.consumed + n⟩

/-- `strings.TrimRight(s, "\r\n")` -/
def trimEol (line : Bytes) : Bytes := line.rdropWhile fun b => b == 13 || b == 10

/-- `readLine`; the buffer holds `maxHeaderLine` bytes. -/
def readLine (w : Conn) : Except Err Bytes × Conn :=
  if 10 ∈ w.rest.take maxHeaderLine then
    let line := w.rest.takeWhile (· ≠ 10) ++ [10]
    (.ok (trimEol line), w.skip line.length)
  else if maxHeaderLine ≤ w.rest.length then (.error .lineTooLong, w.skip maxHeaderLine)
  else (.error .eof, w.skip w.rest.length)

/-- `readN` -/
def readN (n : ℤ) (w : Conn) : Except Err Bytes × Conn :=
  if n ≤ 0 then (.ok [], w)
  else
    let n := min n.toNat maxBodyBytes
    if n ≤ w.rest.length then (.ok (w.rest.take n), w.skip n) else (.error .eof, w.skip w.rest.length)

/-! ## Numbers -/

def digitValue (base : ℕ) (b : UInt8) : Option ℕ :=
  let c := (lowerByte b).toNat
  let d := if 48 ≤ c ∧ c ≤ 57 then c - 48 else if 97 ≤ c ∧ c ≤ 122 then c - 97 + 10 else base
  if d < base then some d else none

/-- The number that digits of a base spell. -/
def digitsValue (base : ℕ) (s : Bytes) : Option ℕ :=
  s.foldlM (fun n b => (digitValue base b).map (n * base + ·)) 0

/-- `strconv.ParseInt(s, base, 64)`, for a base above 1. -/
def parseInt (base : ℕ) (s : Bytes) : Option ℤ :=
  let digits := if s.head? = some 43 ∨ s.head? = some 45 then s.drop 1 else s
  if digits = [] then none
  else
    (digitsValue base digits).bind fun n =>
      if s.head? = some 45 then if n ≤ 2 ^ 63 then some (-n) else none
      else if n < 2 ^ 63 then some n else none

/-! ## Framing -/

inductive Mode
  | chunked
  | length
  | none
deriving DecidableEq

structure Framing where
  mode : Mode
  contentLength : ℤ
  hasCL : Bool
  teRaw : List Bytes
  teChosen : Bytes
  teUnderscore : Bool
  teCtl : Bool
  teDuplicate : Bool
  teList : Bool
  reason : String

/-- `stripWeird` -/
def stripWeird (s : Bytes) : Bytes × Bool :=
  ((s.dropWhile (· ∈ [32, 9, 11, 12, 0])).rdropWhile (· ∈ [32, 9, 11, 12, 0]), s.any (· ∈ [11, 12, 0]))

/-- `strings.EqualFold` with a word of small letters; of those in use only `k` has a third form, the Kelvin sign. -/
def equalFold : Bytes → Bytes → Bool
  | [], s => s = []
  | c :: word, s =>
    ((s.head?.any fun b => lowerByte b = c) && equalFold word (s.drop 1)) ||
      (c = 107 && [0xE2, 0x84, 0xAA].isPrefixOf s && equalFold word (s.drop 3))

def transferEncoding : Bytes := text "transfer-encoding"

def contentLengthName : Bytes := text "content-length"

def chunkedWord : Bytes := text "chunked"

/-- The number of a `Content-Length`, if it is one. -/
def lengthValue (value : Bytes) : Option ℤ :=
  let v := trimSpace value
  let v := if v.head? = some 43 then v.drop 1 else v
  (parseInt 10 (trimSpace v)).filter (0 ≤ ·)

/-- The header loop of `decideFraming`. -/
def noteHeader (f : Framing) (h : WireHeader) : Framing :=
  if h.canon = transferEncoding then
    { f with teRaw := f.teRaw ++ [h.value], teUnderscore := f.teUnderscore || h.raw.contains 0x5F }
  else if h.canon = contentLengthName then
    if f.hasCL then f
    else
      match lengthValue h.value with
      | some n => { f with contentLength := n, hasCL := true }
      | none => f
  else f

def noFraming : Framing :=
  { mode := .none, contentLength := 0, hasCL := false, teRaw := [], teChosen := [], teUnderscore := false,
    teCtl := false, teDuplicate := false, teList := false, reason := "" }

/-- The end of `decideFraming`, without a coding that is read. -/
def byLength (f : Framing) : Framing :=
  if f.hasCL then
    { f with
      mode := .length
      reason := if f.teRaw ≠ [] then "coding header present but unrecognised; using Content-Length"
        else "Content-Length" }
  else { f with reason := "no framing headers" }

def decideFraming (headers : List WireHeader) : Framing :=
  let f := headers.foldl noteHeader noFraming
  let f := { f with teDuplicate := decide (1 < f.teRaw.length) }
  match f.teRaw.getLast? with
  | none => byLength f
  | some raw =>
    let (stripped, ctl) := stripWeird raw
    let f := { f with teChosen := stripped, teCtl := ctl, teList := stripped.contains 0x2C }
    if equalFold chunkedWord stripped then
      { f with mode := .chunked, reason := "last coding header is chunked after stripping" }
    else byLength f

/-! ## Lines of a stream -/

/-- Bytes taken from a connection. -/
structure Takes (w : Conn) (bs : Bytes) (w' : Conn) : Prop where
  rest : w.rest = bs ++ w'.rest
  consumed : w'.consumed = w.consumed + bs.length

theorem Takes.refl (w : Conn) : Takes w [] w := ⟨rfl, rfl⟩

theorem Takes.trans {w w₁ w₂ : Conn} {as bs : Bytes} (h : Takes w as w₁) (h' : Takes w₁ bs w₂) :
    Takes w (as ++ bs) w₂ := by
  refine ⟨?_, ?_⟩
  · rw [h.rest, h'.rest, append_assoc]
  · rw [h'.consumed, h.consumed, length_append, Nat.add_assoc]

theorem takes_skip (w : Conn) {n : ℕ} (h : n ≤ w.rest.length) : Takes w (w.rest.take n) (w.skip n) :=
  ⟨(take_append_drop n w.rest).symm, by rw [length_take, Nat.min_eq_left h]; rfl⟩

theorem Takes.total {w w' : Conn} {bs : Bytes} (h : Takes w bs w') :
    w'.consumed + w'.rest.length = w.consumed + w.rest.length := by
  rw [h.consumed, h.rest, length_append, Nat.add_assoc]

/-- A line up to its line feed. -/
def IsLine (l : Bytes) : Prop := ∃ x, l = x ++ [10] ∧ (10 : UInt8) ∉ x

theorem IsLine.length_pos {l : Bytes} (h : IsLine l) : 0 < l.length := by
  obtain ⟨x, rfl, -⟩ := h
  rw [length_append, length_singleton]
  omega

theorem takeWhile_line {x : Bytes} (hx : (10 : UInt8) ∉ x) (s : Bytes) : (x ++ 10 :: s).takeWhile (· ≠ 10) = x := by
  have hall : ∀ b ∈ x, decide (b ≠ 10) = true := fun b hb => decide_eq_true fun h => hx (h ▸ hb)
  rw [takeWhile_append_of_pos hall, takeWhile_cons_of_neg (by decide), append_nil]

/-- A stream begins with one line at most. -/
theorem IsLine.unique {l l' s s' : Bytes} (h : IsLine l) (h' : IsLine l') (heq : l ++ s = l' ++ s') :
    l = l' ∧ s = s' := by
  obtain ⟨x, rfl, hx⟩ := h
  obtain ⟨y, rfl, hy⟩ := h'
  have hxy : x = y := by
    have hx' := takeWhile_line hx s
    have hy' := takeWhile_line hy s'
    rw [append_assoc, append_assoc] at heq
    rw [← hx', ← hy']
    exact congrArg (List.takeWhile (· ≠ 10)) heq
  subst hxy
  exact ⟨rfl, append_cancel_left heq⟩

theorem readLine_append {x : Bytes} (hx : (10 : UInt8) ∉ x) (hlength : x.length < maxHeaderLine) (s : Bytes) (c : ℕ) :
    readLine ⟨x ++ [10] ++ s, c⟩ = (.ok (trimEol (x ++ [10])), ⟨s, c + (x ++ [10]).length⟩) := by
  have hmem : (10 : UInt8) ∈ (x ++ [10] ++ s).take maxHeaderLine := by
    refine (take_prefix_take_left ?_).mem (?_ : (10 : UInt8) ∈ (x ++ [10] ++ s).take (x.length + 1))
    · exact hlength
    · have hline : (x ++ [10]).length = x.length + 1 := length_append ..
      rw [← hline, take_left]
      exact mem_append_right _ (mem_singleton_self 10)
  have htake : (x ++ [10] ++ s).takeWhile (· ≠ 10) = x := by
    rw [append_assoc]
    exact takeWhile_line hx s
  rw [readLine, if_pos hmem]
  dsimp only
  rw [htake, Conn.skip, drop_left]

theorem readLine_ok {w : Conn} {line : Bytes} (h : (readLine w).1 = .ok line) :
    ∃ l, IsLine l ∧ Takes w l (readLine w).2 ∧ line = trimEol l ∧ l.length ≤ maxHeaderLine := by
  obtain ⟨rest, consumed⟩ := w
  by_cases hmem : (10 : UInt8) ∈ rest.take maxHeaderLine
  · obtain ⟨x, s, rfl, hx⟩ := eq_append_cons_of_mem (mem_of_mem_take hmem)
    have hlength : x.length < maxHeaderLine := by
      by_contra hlong
      rw [take_append_of_le_length (Nat.le_of_not_lt hlong)] at hmem
      exact hx (mem_of_mem_take hmem)
    have hread := readLine_append hx hlength s consumed
    rw [append_assoc, singleton_append] at hread
    rw [hread] at h ⊢
    refine ⟨x ++ [10], ⟨x, rfl, hx⟩, ⟨?_, rfl⟩, (Except.ok.inj h).symm, ?_⟩
    · rw [append_assoc, singleton_append]
    · rw [length_append, length_singleton]
      exact hlength
  · rw [readLine, if_neg hmem] at h
    split at h <;> cases h

/-- Whatever is read, the count is that of the bytes taken. -/
theorem readLine_takes (w : Conn) : ∃ bs, Takes w bs (readLine w).2 := by
  cases h : (readLine w).1 with
  | ok line => exact (readLine_ok h).imp fun l hl => hl.2.1
  | error e =>
    rw [readLine] at h ⊢
    split at h
    · cases h
    · next hmem =>
      rw [if_neg hmem]
      split
      · next hlong => exact ⟨_, takes_skip w hlong⟩
      · exact ⟨_, takes_skip w (Nat.le_refl _)⟩

theorem readN_ok {w : Conn} {n : ℤ} {body : Bytes} (h : (readN n w).1 = .ok body) :
    Takes w body (readN n w).2 ∧ body.length = min n.toNat maxBodyBytes := by
  rw [readN] at h ⊢
  by_cases hn : n ≤ 0
  · rw [if_pos hn] at h ⊢
    obtain rfl := Except.ok.inj h
    refine ⟨Takes.refl w, ?_⟩
    rw [Int.toNat_of_nonpos hn]
    rfl
  · rw [if_neg hn] at h ⊢
    dsimp only at h ⊢
    by_cases hlong : min n.toNat maxBodyBytes ≤ w.rest.length
    · rw [if_pos hlong] at h ⊢
      obtain rfl := Except.ok.inj h
      exact ⟨takes_skip w hlong, by rw [length_take, Nat.min_eq_left hlong]⟩
    · rw [if_neg hlong] at h
      cases h

theorem readN_takes (n : ℤ) (w : Conn) : ∃ bs, Takes w bs (readN n w).2 := by
  rw [readN]
  by_cases hn : n ≤ 0
  · rw [if_pos hn]
    exact ⟨_, Takes.refl w⟩
  · rw [if_neg hn]
    dsimp only
    by_cases hlong : min n.toNat maxBodyBytes ≤ w.rest.length
    · rw [if_pos hlong]
      exact ⟨_, takes_skip w hlong⟩
    · rw [if_neg hlong]
      exact ⟨_, takes_skip w (Nat.le_refl _)⟩

theorem Takes.length_lt {w w' : Conn} {bs : Bytes} (h : Takes w bs w') (hpos : 0 < bs.length) :
    w'.rest.length < w.rest.length := by
  rw [h.rest, length_append]
  omega

theorem readLine_lt {w : Conn} {line : Bytes} (h : (readLine w).1 = .ok line) :
    (readLine w).2.rest.length < w.rest.length := by
  obtain ⟨l, hl, htakes, -⟩ := readLine_ok h
  exact htakes.length_lt hl.length_pos

/-! ## The request -/

structure WireRequest where
  method : Bytes
  target : Bytes
  proto : Bytes
  headers : List WireHeader
  body : Bytes
  startOffset : ℕ
  bodyStart : ℕ
  bodyEnd : ℕ
  rawBody : Bytes
  framing : Framing

/-- The first line that is not empty, and the offset it begins at. -/
def readStart (w : Conn) : Except Err (Bytes × ℕ) × Conn :=
  match _h : (readLine w).1 with
  | .error e => (.error e, (readLine w).2)
  | .ok line => if line = [] then readStart (readLine w).2 else (.ok (line, w.consumed), (readLine w).2)
termination_by w.rest.length
decreasing_by exact readLine_lt _h

/-- `strings.SplitN(line, " ", 3)`, if there are two parts. -/
def requestLine (line : Bytes) : Option (Bytes × Bytes × Bytes) :=
  if 32 ∈ line then
    let behind := (line.dropWhile (· ≠ 32)).drop 1
    some (line.takeWhile (· ≠ 32), behind.takeWhile (· ≠ 32),
      if 32 ∈ behind then (behind.dropWhile (· ≠ 32)).drop 1 else text "HTTP/1.1")
  else none

section reader

variable [GoRuntime]

/-- The header loop of `readRequest`. -/
def readHeaders (headers : List WireHeader) (w : Conn) : Except Err (List WireHeader) × Conn :=
  match _h : (readLine w).1 with
  | .error e => (.error e, (readLine w).2)
  | .ok line =>
    if line = [] then (.ok headers, (readLine w).2)
    else if maxHeaderCount ≤ headers.length then (.error .tooManyHeaders, (readLine w).2)
    else readHeaders (headers ++ (headerOf line).toList) (readLine w).2
termination_by w.rest.length
decreasing_by exact readLine_lt _h

end reader

/-- `trailer section` -/
def readTrailer (w : Conn) : Except Err Unit × Conn :=
  match _h : (readLine w).1 with
  | .error e => (.error e, (readLine w).2)
  | .ok line => if line = [] then (.ok (), (readLine w).2) else readTrailer (readLine w).2
termination_by w.rest.length
decreasing_by exact readLine_lt _h

/-- The size in a size line, without extensions. -/
def sizeText (line : Bytes) : Bytes := trimSpace (line.takeWhile (· ≠ 0x3B))

/-- What one turn of `readChunked` comes to. -/
inductive Turn
  | blank
  | last
  | chunk (data : Bytes)
deriving DecidableEq

/-- One turn of `readChunked`, with so many bytes already read. -/
def readTurn (held : ℕ) (w : Conn) : Except Err Turn × Conn :=
  match (readLine w).1 with
  | .error e => (.error e, (readLine w).2)
  | .ok line =>
    let w := (readLine w).2
    if sizeText line = [] then (.ok .blank, w)
    else
      match (parseInt 16 (sizeText line)).filter (0 ≤ ·) with
      | none => (.error (.badChunkSize (sizeText line)), w)
      | some n =>
        if n = 0 then ((readTrailer w).1.map fun _ => .last, (readTrailer w).2)
        else
          match (readN n w).1 with
          | .error e => (.error e, (readN n w).2)
          | .ok data =>
            let w := (readN n w).2
            if maxBodyBytes < held + data.length then (.error .bodyTooLarge, w)
            else ((readLine w).1.map fun _ => .chunk data, (readLine w).2)

/-! ## What is a message -/

/-- Lines up to the empty one that ends the trailer section. -/
inductive Trailer : Bytes → Prop
  | done {l : Bytes} (line : IsLine l) (empty : trimEol l = []) : Trailer l
  | field {l t : Bytes} (line : IsLine l) (some : trimEol l ≠ []) (more : Trailer t) : Trailer (l ++ t)

/-- The number in a size line. -/
def chunkSize (l : Bytes) : Option ℤ := (parseInt 16 (sizeText (trimEol l))).filter (0 ≤ ·)

/-- A chunked body that is whole, and its chunks: every chunk has the bytes its size declares.  Whatever line is behind
them is passed over. -/
inductive Chunked : Bytes → List Bytes → Prop
  | blank {l t : Bytes} {chunks : List Bytes} (line : IsLine l) (empty : sizeText (trimEol l) = [])
      (more : Chunked t chunks) : Chunked (l ++ t) chunks
  | last {l t : Bytes} (line : IsLine l) (size : chunkSize l = some 0) (trailer : Trailer t) : Chunked (l ++ t) []
  | chunk {l data e t : Bytes} {chunks : List Bytes} (line : IsLine l) (size : chunkSize l = some (data.length : ℤ))
      (some : data ≠ []) (ending : IsLine e) (more : Chunked t chunks) : Chunked (l ++ data ++ e ++ t) (data :: chunks)

/-- The first size that a chunked body declares. -/
inductive FirstSize : Bytes → ℤ → Prop
  | blank {l t : Bytes} {n : ℤ} (line : IsLine l) (empty : sizeText (trimEol l) = []) (more : FirstSize t n) :
      FirstSize (l ++ t) n
  | here {l t : Bytes} {n : ℤ} (line : IsLine l) (size : chunkSize l = some n) : FirstSize (l ++ t) n

/-! ## One turn -/

theorem readTrailer_takes (w : Conn) : ∃ bs, Takes w bs (readTrailer w).2 := by
  induction hn : w.rest.length using Nat.strongRecOn generalizing w with
  | ind n ih =>
    obtain ⟨bs, hbs⟩ := readLine_takes w
    rw [readTrailer]
    split
    · exact ⟨bs, hbs⟩
    · next line hline =>
      split
      · exact ⟨bs, hbs⟩
      · obtain ⟨cs, hcs⟩ := ih _ (hn ▸ readLine_lt hline) _ rfl
        exact ⟨bs ++ cs, hbs.trans hcs⟩

theorem readTrailer_ok {w : Conn} {u : Unit} (h : (readTrailer w).1 = .ok u) :
    ∃ t, Trailer t ∧ Takes w t (readTrailer w).2 := by
  induction hn : w.rest.length using Nat.strongRecOn generalizing w with
  | ind n ih =>
    rw [readTrailer] at h ⊢
    split at h
    · cases h
    · next line hline =>
      obtain ⟨l, hl, htakes, heq, -⟩ := readLine_ok hline
      by_cases hempty : line = []
      · rw [if_pos hempty]
        exact ⟨l, .done hl (heq ▸ hempty), htakes⟩
      · rw [if_neg hempty] at h ⊢
        obtain ⟨t, ht, hmore⟩ := ih _ (hn ▸ readLine_lt hline) h rfl
        exact ⟨l ++ t, .field hl (heq ▸ hempty) ht, htakes.trans hmore⟩

theorem readTurn_takes (held : ℕ) (w : Conn) : ∃ bs, Takes w bs (readTurn held w).2 := by
  obtain ⟨bs, hbs⟩ := readLine_takes w
  rw [readTurn]
  cases (readLine w).1 with
  | error e => exact ⟨bs, hbs⟩
  | ok line =>
    dsimp only
    split
    · exact ⟨bs, hbs⟩
    · cases (parseInt 16 (sizeText line)).filter (0 ≤ ·) with
      | none => exact ⟨bs, hbs⟩
      | some n =>
        dsimp only
        split
        · obtain ⟨cs, hcs⟩ := readTrailer_takes (readLine w).2
          exact ⟨bs ++ cs, hbs.trans hcs⟩
        · obtain ⟨cs, hcs⟩ := readN_takes n (readLine w).2
          cases (readN n (readLine w).2).1 with
          | error e => exact ⟨bs ++ cs, hbs.trans hcs⟩
          | ok data =>
            dsimp only
            split
            · exact ⟨bs ++ cs, hbs.trans hcs⟩
            · obtain ⟨ds, hds⟩ := readLine_takes (readN n (readLine w).2).2
              exact ⟨bs ++ cs ++ ds, (hbs.trans hcs).trans hds⟩

/-- What a turn takes behind its size line. -/
def Turn.Takes (held : ℕ) (w : Conn) (l : Bytes) (w' : Conn) : Turn → Prop
  | .blank => sizeText (trimEol l) = [] ∧ Wire.Takes w l w'
  | .last => chunkSize l = some 0 ∧ ∃ t, Trailer t ∧ Wire.Takes w (l ++ t) w'
  | .chunk data => ∃ n e, chunkSize l = some n ∧ 0 < n ∧ data.length = min n.toNat maxBodyBytes ∧
      held + data.length ≤ maxBodyBytes ∧ IsLine e ∧ e.length ≤ maxHeaderLine ∧ Wire.Takes w (l ++ data ++ e) w'

theorem readTurn_ok {held : ℕ} {w : Conn} {turn : Turn} (h : (readTurn held w).1 = .ok turn) :
    ∃ l, IsLine l ∧ l.length ≤ maxHeaderLine ∧ turn.Takes held w l (readTurn held w).2 := by
  rw [readTurn.eq_def] at h ⊢
  cases hline : (readLine w).1 with
  | error e =>
    rw [hline] at h
    cases h
  | ok line =>
    obtain ⟨l, hl, htakes, rfl, hlength⟩ := readLine_ok hline
    rw [hline] at h
    dsimp only at h ⊢
    refine ⟨l, hl, hlength, ?_⟩
    by_cases hempty : sizeText (trimEol l) = []
    · rw [if_pos hempty] at h ⊢
      obtain rfl := Except.ok.inj h
      exact ⟨hempty, htakes⟩
    · rw [if_neg hempty] at h ⊢
      cases hsize : (parseInt 16 (sizeText (trimEol l))).filter (0 ≤ ·) with
      | none =>
        rw [hsize] at h
        cases h
      | some n =>
        have hchunk : chunkSize l = some n := hsize
        have hnonneg : 0 ≤ n := of_decide_eq_true (Option.filter_eq_some_iff.mp hsize).2
        rw [hsize] at h
        dsimp only at h ⊢
        by_cases hzero : n = 0
        · rw [if_pos hzero] at h ⊢
          obtain ⟨u, hread, rfl⟩ := map_eq_ok.mp h
          obtain ⟨t, ht, hmore⟩ := readTrailer_ok hread
          exact ⟨hzero ▸ hchunk, t, ht, htakes.trans hmore⟩
        · rw [if_neg hzero] at h ⊢
          cases hdata : (readN n (readLine w).2).1 with
          | error e =>
            rw [hdata] at h
            cases h
          | ok data =>
            obtain ⟨hmore, hcount⟩ := readN_ok hdata
            rw [hdata] at h
            dsimp only at h ⊢
            by_cases hlarge : maxBodyBytes < held + data.length
            · rw [if_pos hlarge] at h
              cases h
            · rw [if_neg hlarge] at h ⊢
              obtain ⟨ending, hread, rfl⟩ := map_eq_ok.mp h
              obtain ⟨e, he, hend, -, hshort⟩ := readLine_ok hread
              exact ⟨n, e, hchunk, by omega, hcount, Nat.le_of_not_lt hlarge, he, hshort,
                (htakes.trans hmore).trans hend⟩

theorem readTurn_lt {held : ℕ} {w : Conn} {turn : Turn} (h : (readTurn held w).1 = .ok turn) :
    (readTurn held w).2.rest.length < w.rest.length := by
  obtain ⟨l, hl, -, hturn⟩ := readTurn_ok h
  have hpos := hl.length_pos
  cases turn with
  | blank => exact hturn.2.length_lt hpos
  | last =>
    obtain ⟨-, t, -, htakes⟩ := hturn
    exact htakes.length_lt (by rw [length_append]; omega)
  | chunk data =>
    obtain ⟨n, e, -, -, -, -, -, -, htakes⟩ := hturn
    exact htakes.length_lt (by rw [length_append, length_append]; omega)

/-- `readChunked`, behind the bytes already read. -/
def readChunked (out : Bytes) (w : Conn) : Except Err Bytes × Conn :=
  match _h : (readTurn out.length w).1 with
  | .error e => (.error e, (readTurn out.length w).2)
  | .ok .blank => readChunked out (readTurn out.length w).2
  | .ok .last => (.ok out, (readTurn out.length w).2)
  | .ok (.chunk data) => readChunked (out ++ data) (readTurn out.length w).2
termination_by w.rest.length
decreasing_by all_goals exact readTurn_lt _h

theorem readChunked_takes (out : Bytes) (w : Conn) : ∃ bs, Takes w bs (readChunked out w).2 := by
  induction hn : w.rest.length using Nat.strongRecOn generalizing out w with
  | ind n ih =>
    obtain ⟨bs, hbs⟩ := readTurn_takes out.length w
    rw [readChunked]
    split
    · exact ⟨bs, hbs⟩
    · next hturn =>
      obtain ⟨cs, hcs⟩ := ih _ (hn ▸ readTurn_lt hturn) out _ rfl
      exact ⟨bs ++ cs, hbs.trans hcs⟩
    · exact ⟨bs, hbs⟩
    · next data hturn =>
      obtain ⟨cs, hcs⟩ := ih _ (hn ▸ readTurn_lt hturn) (out ++ data) _ rfl
      exact ⟨bs ++ cs, hbs.trans hcs⟩

theorem readChunked_le {out body : Bytes} {w : Conn} (hout : out.length ≤ maxBodyBytes)
    (h : (readChunked out w).1 = .ok body) : body.length ≤ maxBodyBytes := by
  induction hn : w.rest.length using Nat.strongRecOn generalizing out w with
  | ind n ih =>
    rw [readChunked] at h
    split at h
    · cases h
    · next hturn => exact ih _ (hn ▸ readTurn_lt hturn) hout h rfl
    · exact Except.ok.inj h ▸ hout
    · next data hturn =>
      obtain ⟨l, -, -, m, e, -, -, -, hroom, -⟩ := readTurn_ok hturn
      exact ih _ (hn ▸ readTurn_lt hturn) (by rw [length_append]; exact hroom) h rfl

/-- A body that is read is whole, unless its first chunk is cut. -/
theorem readChunked_whole {out body : Bytes} {w : Conn}
    (hfirst : out = [] → ∀ n, FirstSize w.rest n → n ≤ maxBodyBytes) (h : (readChunked out w).1 = .ok body) :
    ∃ t chunks, Takes w t (readChunked out w).2 ∧ Chunked t chunks ∧ body = out ++ chunks.flatten := by
  induction hn : w.rest.length using Nat.strongRecOn generalizing out w with
  | ind n ih =>
    rw [readChunked] at h ⊢
    split at h
    · cases h
    · next hturn =>
      obtain ⟨l, hl, -, hempty, htakes⟩ := readTurn_ok hturn
      have hrest : out = [] → ∀ n, FirstSize (readTurn out.length w).2.rest n → n ≤ maxBodyBytes :=
        fun hout n hsize => hfirst hout n (htakes.rest ▸ .blank hl hempty hsize)
      obtain ⟨t, chunks, hmore, hchunked, hbody⟩ := ih _ (hn ▸ readTurn_lt hturn) hrest h rfl
      exact ⟨l ++ t, chunks, htakes.trans hmore, .blank hl hempty hchunked, hbody⟩
    · next hturn =>
      obtain ⟨l, hl, -, hsize, t, ht, htakes⟩ := readTurn_ok hturn
      obtain rfl := Except.ok.inj h
      exact ⟨l ++ t, [], htakes, .last hl hsize ht, (append_nil _).symm⟩
    · next data hturn =>
      obtain ⟨l, hl, -, m, e, hsize, hpos, hcount, hroom, he, -, htakes⟩ := readTurn_ok hturn
      -- a size above the cap is not the first, and the bytes that are there leave no room for it
      have hfits : m ≤ maxBodyBytes := by
        by_cases hout : out = []
        · exact hfirst hout m (by
            rw [htakes.rest, append_assoc, append_assoc]
            exact .here hl hsize)
        · have := length_pos_iff.mpr hout
          by_contra hlarge
          rw [Nat.min_eq_right (by omega)] at hcount
          omega
      have hlength : (data.length : ℤ) = m := by
        rw [hcount, Nat.min_eq_left (by omega)]
        omega
      have hdata : data ≠ [] := by
        rintro rfl
        rw [length_nil] at hlength
        omega
      have hrest : out ++ data = [] → ∀ n, FirstSize (readTurn out.length w).2.rest n → n ≤ maxBodyBytes :=
        fun hnil => absurd (append_eq_nil_iff.mp hnil).2 hdata
      obtain ⟨t, chunks, hmore, hchunked, hbody⟩ := ih _ (hn ▸ readTurn_lt hturn) hrest h rfl
      refine ⟨l ++ data ++ e ++ t, data :: chunks, htakes.trans hmore,
        .chunk hl (hlength ▸ hsize) hdata he hchunked, ?_⟩
      rw [hbody, flatten_cons, append_assoc]

theorem FirstSize.inv {l t : Bytes} {n : ℤ} (hl : IsLine l) (h : FirstSize (l ++ t) n) :
    (sizeText (trimEol l) = [] ∧ FirstSize t n) ∨ chunkSize l = some n := by
  generalize heq : l ++ t = u at h
  cases h with
  | blank line empty more =>
    obtain ⟨rfl, rfl⟩ := hl.unique line heq
    exact Or.inl ⟨empty, more⟩
  | here line size =>
    obtain ⟨rfl, -⟩ := hl.unique line heq
    exact Or.inr size

theorem chunkSize_of_empty {l : Bytes} (h : sizeText (trimEol l) = []) : chunkSize l = none := by
  rw [chunkSize, h]
  rfl

/-- The chunks of a body have the first size it declares. -/
theorem Chunked.firstSize_le {t s : Bytes} {chunks : List Bytes} (h : Chunked t chunks) {n : ℤ}
    (hsize : FirstSize (t ++ s) n) : n ≤ chunks.flatten.length := by
  induction h with
  | blank line empty more ih =>
    rw [append_assoc] at hsize
    rcases hsize.inv line with ⟨-, hmore⟩ | hhere
    · exact ih hmore
    · rw [chunkSize_of_empty empty] at hhere
      cases hhere
  | last line size trailer =>
    rw [append_assoc] at hsize
    rcases hsize.inv line with ⟨hempty, -⟩ | hhere
    · rw [chunkSize_of_empty hempty] at size
      cases size
    · exact Int.le_of_eq (Option.some.inj (hhere.symm.trans size))
  | chunk line size some ending more ih =>
    rw [append_assoc, append_assoc, append_assoc] at hsize
    rcases hsize.inv line with ⟨hempty, -⟩ | hhere
    · rw [chunkSize_of_empty hempty] at size
      cases size
    · rw [Option.some.inj (hhere.symm.trans size), flatten_cons, length_append]
      omega

/-! ## One request -/

section request

variable [GoRuntime]

omit [GoRuntime] in
/-- The end of `readRequest`, behind the headers. -/
def readBody (req : WireRequest) (w : Conn) : Except Err WireRequest × Conn :=
  match req.framing.mode with
  | .chunked =>
    ((readChunked [] w).1.map fun body => { req with body := body, bodyEnd := (readChunked [] w).2.consumed },
      (readChunked [] w).2)
  | .length =>
    ((readN req.framing.contentLength w).1.map fun raw =>
        { req with body := raw, rawBody := raw, bodyEnd := (readN req.framing.contentLength w).2.consumed },
      (readN req.framing.contentLength w).2)
  | .none => (.ok { req with bodyEnd := w.consumed }, w)

def readRequest (w : Conn) : Except Err WireRequest × Conn :=
  match (readStart w).1 with
  | .error e => (.error e, (readStart w).2)
  | .ok (line, start) =>
    match requestLine line with
    | none => (.error .badRequest, (readStart w).2)
    | some (method, target, proto) =>
      let w := (readStart w).2
      match (readHeaders [] w).1 with
      | .error e => (.error e, (readHeaders [] w).2)
      | .ok headers =>
        let w := (readHeaders [] w).2
        readBody
          { method, target, proto, headers, body := [], startOffset := start, bodyStart := w.consumed, bodyEnd := 0,
            rawBody := [], framing := decideFraming headers } w

/-- A body that is whole, in the framing of its request. -/
def Complete (f : Framing) (wire body : Bytes) : Prop :=
  match f.mode with
  | .chunked => ∃ chunks, Chunked wire chunks ∧ body = chunks.flatten
  | .length => wire = body ∧ (body.length : ℤ) = f.contentLength
  | .none => wire = [] ∧ body = []

/-- The bytes of one message, behind the empty lines that are passed over. -/
structure Message (first : Bytes) (fields : List Bytes) (empty wire : Bytes) (req : WireRequest) : Prop where
  first_line : IsLine first
  request : requestLine (trimEol first) = some (req.method, req.target, req.proto)
  fields_line : ∀ l ∈ fields, IsLine l ∧ trimEol l ≠ []
  headers : req.headers = (fields.map trimEol).filterMap headerOf
  empty_line : IsLine empty ∧ trimEol empty = []
  framing : req.framing = decideFraming req.headers
  body : Complete req.framing wire req.body

/-- A request takes the bytes of one message, and its offsets are where they lie. -/
def Framed (w : Conn) (req : WireRequest) (w' : Conn) : Prop :=
  ∃ (skipped : List Bytes) (first : Bytes) (fields : List Bytes) (empty wire : Bytes),
    (∀ l ∈ skipped, IsLine l ∧ trimEol l = []) ∧ Message first fields empty wire req ∧
    Takes w (skipped.flatten ++ (first ++ fields.flatten ++ empty) ++ wire) w' ∧
    req.startOffset = w.consumed + skipped.flatten.length ∧
    req.bodyStart = req.startOffset + (first ++ fields.flatten ++ empty).length ∧ req.bodyEnd = w'.consumed

/-- No length over the cap is declared, as a content length or as the size of a first chunk. -/
def Small (req : WireRequest) (behind : Bytes) : Prop :=
  match req.framing.mode with
  | .chunked => ∀ n, FirstSize behind n → n ≤ maxBodyBytes
  | .length => req.framing.contentLength ≤ maxBodyBytes
  | .none => True

omit [GoRuntime] in
theorem readStart_takes (w : Conn) : ∃ bs, Takes w bs (readStart w).2 := by
  induction hn : w.rest.length using Nat.strongRecOn generalizing w with
  | ind n ih =>
    obtain ⟨bs, hbs⟩ := readLine_takes w
    rw [readStart]
    split
    · exact ⟨bs, hbs⟩
    · next line hline =>
      split
      · obtain ⟨cs, hcs⟩ := ih _ (hn ▸ readLine_lt hline) _ rfl
        exact ⟨bs ++ cs, hbs.trans hcs⟩
      · exact ⟨bs, hbs⟩

omit [GoRuntime] in
theorem readStart_ok {w : Conn} {line : Bytes} {start : ℕ} (h : (readStart w).1 = .ok (line, start)) :
    ∃ (skipped : List Bytes) (first : Bytes), (∀ l ∈ skipped, IsLine l ∧ trimEol l = []) ∧ IsLine first ∧
      line = trimEol first ∧ Takes w (skipped.flatten ++ first) (readStart w).2 ∧
      start = w.consumed + skipped.flatten.length := by
  induction hn : w.rest.length using Nat.strongRecOn generalizing w with
  | ind n ih =>
    rw [readStart] at h ⊢
    split at h
    · cases h
    · next line' hline =>
      obtain ⟨l, hl, htakes, heq, -⟩ := readLine_ok hline
      by_cases hempty : line' = []
      · rw [if_pos hempty] at h ⊢
        obtain ⟨skipped, first, hskipped, hfirst, hline, hmore, hstart⟩ := ih _ (hn ▸ readLine_lt hline) h rfl
        refine ⟨l :: skipped, first, forall_mem_cons.mpr ⟨⟨hl, heq ▸ hempty⟩, hskipped⟩, hfirst, hline, ?_, ?_⟩
        · rw [flatten_cons, append_assoc]
          exact htakes.trans hmore
        · rw [hstart, htakes.consumed, flatten_cons, length_append, Nat.add_assoc]
      · rw [if_neg hempty] at h ⊢
        obtain ⟨rfl, rfl⟩ := Prod.mk.inj (Except.ok.inj h)
        exact ⟨[], l, fun l hl => absurd hl not_mem_nil, hl, heq, htakes, rfl⟩

theorem readHeaders_takes (headers : List WireHeader) (w : Conn) : ∃ bs, Takes w bs (readHeaders headers w).2 := by
  induction hn : w.rest.length using Nat.strongRecOn generalizing headers w with
  | ind n ih =>
    obtain ⟨bs, hbs⟩ := readLine_takes w
    rw [readHeaders]
    split
    · exact ⟨bs, hbs⟩
    · next line hline =>
      split
      · exact ⟨bs, hbs⟩
      · split
        · exact ⟨bs, hbs⟩
        · obtain ⟨cs, hcs⟩ := ih _ (hn ▸ readLine_lt hline) _ _ rfl
          exact ⟨bs ++ cs, hbs.trans hcs⟩

theorem readHeaders_ok {headers out : List WireHeader} {w : Conn} (h : (readHeaders headers w).1 = .ok out) :
    ∃ (fields : List Bytes) (empty : Bytes), (∀ l ∈ fields, IsLine l ∧ trimEol l ≠ []) ∧
      out = headers ++ (fields.map trimEol).filterMap headerOf ∧ IsLine empty ∧ trimEol empty = [] ∧
      Takes w (fields.flatten ++ empty) (readHeaders headers w).2 := by
  induction hn : w.rest.length using Nat.strongRecOn generalizing headers w with
  | ind n ih =>
    rw [readHeaders] at h ⊢
    split at h
    · cases h
    · next line hline =>
      obtain ⟨l, hl, htakes, heq, -⟩ := readLine_ok hline
      by_cases hempty : line = []
      · rw [if_pos hempty] at h ⊢
        obtain rfl := Except.ok.inj h
        exact ⟨[], l, fun l hl => absurd hl not_mem_nil, (append_nil _).symm, hl, heq ▸ hempty, htakes⟩
      · rw [if_neg hempty] at h ⊢
        by_cases hmany : maxHeaderCount ≤ headers.length
        · rw [if_pos hmany] at h
          cases h
        · rw [if_neg hmany] at h ⊢
          obtain ⟨fields, empty, hfields, hout, hend, hlast, hmore⟩ := ih _ (hn ▸ readLine_lt hline) h rfl
          refine ⟨l :: fields, empty, forall_mem_cons.mpr ⟨⟨hl, heq ▸ hempty⟩, hfields⟩, ?_, hend, hlast, ?_⟩
          · rw [hout, append_assoc, map_cons, ← heq]
            cases hheader : headerOf line with
            | none => rw [filterMap_cons_none hheader]; rfl
            | some header => rw [filterMap_cons_some hheader]; rfl
          · rw [flatten_cons, append_assoc]
            exact htakes.trans hmore

omit [GoRuntime] in
theorem readBody_takes (req : WireRequest) (w : Conn) : ∃ bs, Takes w bs (readBody req w).2 := by
  rw [readBody]
  cases req.framing.mode with
  | chunked => exact readChunked_takes [] w
  | length => exact readN_takes _ w
  | none => exact ⟨[], Takes.refl w⟩

/-- Whatever `readRequest` comes to, the count is that of the bytes taken. -/
theorem readRequest_takes (w : Conn) : ∃ bs, Takes w bs (readRequest w).2 := by
  obtain ⟨as, has⟩ := readStart_takes w
  rw [readRequest]
  cases (readStart w).1 with
  | error e => exact ⟨as, has⟩
  | ok p =>
    obtain ⟨line, start⟩ := p
    dsimp only
    cases requestLine line with
    | none => exact ⟨as, has⟩
    | some q =>
      obtain ⟨method, target, proto⟩ := q
      obtain ⟨bs, hbs⟩ := readHeaders_takes [] (readStart w).2
      dsimp only
      cases (readHeaders [] (readStart w).2).1 with
      | error e => exact ⟨as ++ bs, has.trans hbs⟩
      | ok headers =>
        obtain ⟨cs, hcs⟩ := readBody_takes _ (readHeaders [] (readStart w).2).2
        exact ⟨as ++ bs ++ cs, (has.trans hbs).trans hcs⟩

omit [GoRuntime] in
theorem byLength_contentLength (f : Framing) : (byLength f).contentLength = f.contentLength := by
  rw [byLength]
  split <;> rfl

omit [GoRuntime] in
/-- What holds of every number read from a `Content-Length` holds of the length that is decided on. -/
theorem decideFraming_contentLength {q : ℤ → Prop} (hzero : q 0)
    (hvalue : ∀ value n, lengthValue value = some n → q n) (headers : List WireHeader) :
    q (decideFraming headers).contentLength := by
  have hnote : ∀ (f : Framing) (h : WireHeader), q f.contentLength → q (noteHeader f h).contentLength := by
    intro f h hf
    rw [noteHeader]
    split
    · exact hf
    · split
      · split
        · exact hf
        · cases hread : lengthValue h.value with
          | none => exact hf
          | some n => exact hvalue _ n hread
      · exact hf
  have hfold : ∀ (headers : List WireHeader) (f : Framing), q f.contentLength →
      q (headers.foldl noteHeader f).contentLength := by
    intro headers
    induction headers with
    | nil => exact fun f hf => hf
    | cons h headers ih => exact fun f hf => ih _ (hnote f h hf)
  have hall := hfold headers noFraming hzero
  rw [decideFraming]
  dsimp only
  split
  · rw [byLength_contentLength]
    exact hall
  · split
    · exact hall
    · rw [byLength_contentLength]
      exact hall

omit [GoRuntime] in
theorem decideFraming_nonneg (headers : List WireHeader) : 0 ≤ (decideFraming headers).contentLength :=
  decideFraming_contentLength (Int.le_refl 0)
    (fun _ _ h => of_decide_eq_true (Option.filter_eq_some_iff.mp h).2) headers

omit [GoRuntime] in
/-- A body that is read is whole exactly if no length over the cap is declared. -/
theorem readBody_ok {req out : WireRequest} {w : Conn} (hbody : req.body = []) (hlength : 0 ≤ req.framing.contentLength)
    (h : (readBody req w).1 = .ok out) :
    out = { req with body := out.body, rawBody := out.rawBody, bodyEnd := (readBody req w).2.consumed } ∧
      ∃ wire, Takes w wire (readBody req w).2 ∧ (Complete req.framing wire out.body ↔ Small req w.rest) := by
  rw [readBody.eq_def] at h ⊢
  unfold Complete Small
  cases hmode : req.framing.mode with
  | chunked =>
    rw [hmode] at h
    obtain ⟨body, hread, rfl⟩ := map_eq_ok.mp h
    refine ⟨rfl, ?_⟩
    dsimp only
    obtain ⟨wire, hwire⟩ := readChunked_takes [] w
    refine ⟨wire, hwire, ?_, fun hsmall => ?_⟩
    · rintro ⟨chunks, hchunked, hflat⟩ n hn
      rw [hwire.rest] at hn
      have hle := hchunked.firstSize_le hn
      have hcap := readChunked_le (Nat.zero_le _) hread
      rw [← hflat] at hle
      omega
    · obtain ⟨t, chunks, htakes, hchunked, hflat⟩ := readChunked_whole (fun _ => hsmall) hread
      have hsame : wire = t := append_cancel_right (hwire.rest.symm.trans htakes.rest)
      exact ⟨chunks, hsame ▸ hchunked, hflat⟩
  | length =>
    rw [hmode] at h
    obtain ⟨raw, hread, rfl⟩ := map_eq_ok.mp h
    refine ⟨rfl, raw, ?_⟩
    dsimp only
    obtain ⟨htakes, hcount⟩ := readN_ok hread
    refine ⟨htakes, ?_⟩
    rw [hcount]
    constructor
    · rintro ⟨-, heq⟩
      have := Nat.min_le_right req.framing.contentLength.toNat maxBodyBytes
      omega
    · intro hsmall
      refine ⟨rfl, ?_⟩
      rw [Nat.min_eq_left (by omega)]
      exact Int.toNat_of_nonneg hlength
  | none =>
    rw [hmode] at h
    obtain rfl := Except.ok.inj h
    exact ⟨rfl, [], Takes.refl w, iff_of_true ⟨rfl, hbody⟩ trivial⟩

/-- The head of a request that is read, and the connection behind it. -/
theorem readRequest_ok {w : Conn} {req : WireRequest} (h : (readRequest w).1 = .ok req) :
    ∃ (skipped : List Bytes) (first : Bytes) (fields : List Bytes) (empty : Bytes) (wb : Conn),
      (∀ l ∈ skipped, IsLine l ∧ trimEol l = []) ∧ IsLine first ∧
      requestLine (trimEol first) = some (req.method, req.target, req.proto) ∧
      (∀ l ∈ fields, IsLine l ∧ trimEol l ≠ []) ∧ req.headers = (fields.map trimEol).filterMap headerOf ∧
      (IsLine empty ∧ trimEol empty = []) ∧ req.framing = decideFraming req.headers ∧
      Takes w (skipped.flatten ++ (first ++ fields.flatten ++ empty)) wb ∧
      req.startOffset = w.consumed + skipped.flatten.length ∧ req.bodyStart = wb.consumed ∧
      ∃ base : WireRequest, base.body = [] ∧ base.rawBody = [] ∧ base.framing = req.framing ∧
        base.bodyStart = req.bodyStart ∧ (readBody base wb).1 = .ok req ∧ (readBody base wb).2 = (readRequest w).2 := by
  rw [readRequest.eq_def] at h ⊢
  cases hstart : (readStart w).1 with
  | error e =>
    rw [hstart] at h
    cases h
  | ok p =>
    obtain ⟨line, start⟩ := p
    obtain ⟨skipped, first, hskipped, hfirst, rfl, htakes, rfl⟩ := readStart_ok hstart
    rw [hstart] at h
    dsimp only at h ⊢
    cases hline : requestLine (trimEol first) with
    | none =>
      rw [hline] at h
      cases h
    | some q =>
      obtain ⟨method, target, proto⟩ := q
      rw [hline] at h
      dsimp only at h ⊢
      cases hheaders : (readHeaders [] (readStart w).2).1 with
      | error e =>
        rw [hheaders] at h
        cases h
      | ok headers =>
        obtain ⟨fields, empty, hfields, hout, hend, hlast, hmore⟩ := readHeaders_ok hheaders
        rw [hheaders] at h
        dsimp only at h ⊢
        have hsame := (readBody_ok rfl (decideFraming_nonneg headers) h).1
        refine ⟨skipped, first, fields, empty, _, hskipped, hfirst, ?_, hfields, ?_, ⟨hend, hlast⟩, ?_, ?_, ?_, ?_,
          _, rfl, rfl, ?_, ?_, h, rfl⟩
        · rw [hline, hsame]
        · rw [hsame]
          exact hout
        · rw [hsame]
        · have hboth := htakes.trans hmore
          simp only [append_assoc] at hboth ⊢
          exact hboth
        · rw [hsame]
        · rw [hsame]
        · rw [hsame]
        · rw [hsame]

/-- A request begins where the one before it ended and takes one message exactly, if and only if no length over the
cap is declared. -/
theorem framed_iff (w : Conn) :
    ((∃ taken, Takes w taken (readRequest w).2) ∧
        ∀ req, (readRequest w).1 = .ok req → Framed w req (readRequest w).2) ↔
      ∀ req, (readRequest w).1 = .ok req → Small req (w.rest.drop (req.bodyStart - w.consumed)) := by
  have hbody : ∀ req, (readRequest w).1 = .ok req →
      (Framed w req (readRequest w).2 ↔ Small req (w.rest.drop (req.bodyStart - w.consumed))) := by
    intro req hreq
    obtain ⟨skipped, first, fields, empty, wb, hskipped, hfirst, hline, hfields, hheaders, hempty, hframing, hhead,
      hstart, hbodyStart, base, hnil, -, hsame, -, hread, hend⟩ := readRequest_ok hreq
    obtain ⟨hout, wire, htakes, hiff⟩ := readBody_ok hnil (by rw [hsame, hframing]; exact decideFraming_nonneg _) hread
    rw [hend] at htakes hout
    have hbase : Small base wb.rest = Small req wb.rest := by
      unfold Small
      rw [hsame]
    have hdrop : w.rest.drop (req.bodyStart - w.consumed) = wb.rest := by
      rw [hbodyStart, hhead.consumed, Nat.add_sub_cancel_left, hhead.rest, drop_left]
    rw [hsame, hbase, ← hdrop] at hiff
    rw [← hiff]
    constructor
    · rintro ⟨skipped', first', fields', empty', wire', -, hmessage, htakes', hstart', hbodyStart', -⟩
      have hlength : (skipped'.flatten ++ (first' ++ fields'.flatten ++ empty')).length =
          (skipped.flatten ++ (first ++ fields.flatten ++ empty)).length := by
        have hcount := hhead.consumed
        rw [← hbodyStart, hbodyStart', hstart'] at hcount
        rw [length_append]
        omega
      have hrest := (hhead.trans htakes).rest.symm.trans htakes'.rest
      rw [append_assoc _ wire, append_assoc _ wire'] at hrest
      have hwire : wire = wire' := append_cancel_right (append_inj hrest hlength.symm).2
      exact hwire ▸ hmessage.body
    · intro hcomplete
      have hend' := congrArg WireRequest.bodyEnd hout
      refine ⟨skipped, first, fields, empty, wire, hskipped,
        ⟨hfirst, hline, hfields, hheaders, hempty, hframing, hcomplete⟩, hhead.trans htakes, hstart, ?_, hend'⟩
      rw [hbodyStart, hhead.consumed, hstart, length_append, Nat.add_assoc]
  constructor
  · rintro ⟨-, hframed⟩ req hreq
    exact (hbody req hreq).mp (hframed req hreq)
  · intro hsmall
    exact ⟨readRequest_takes w, fun req hreq => (hbody req hreq).mpr (hsmall req hreq)⟩

/-! ## A length over the cap -/

omit [GoRuntime] in
theorem readStart_append {x : Bytes} (hx : (10 : UInt8) ∉ x) (hlength : x.length < maxHeaderLine)
    (hsome : trimEol (x ++ [10]) ≠ []) (s : Bytes) (c : ℕ) :
    readStart ⟨x ++ [10] ++ s, c⟩ = (.ok (trimEol (x ++ [10]), c), ⟨s, c + (x ++ [10]).length⟩) := by
  have hread := readLine_append hx hlength s c
  rw [readStart]
  split
  · next e he =>
    rw [hread] at he
    cases he
  · next line hline =>
    rw [hread] at hline ⊢
    obtain rfl := Except.ok.inj hline
    rw [if_neg hsome]

theorem readHeaders_append {x : Bytes} (hx : (10 : UInt8) ∉ x) (hlength : x.length < maxHeaderLine)
    {headers : List WireHeader} (s : Bytes) (c : ℕ) :
    readHeaders headers ⟨x ++ [10] ++ s, c⟩ =
      if trimEol (x ++ [10]) = [] then (.ok headers, ⟨s, c + (x ++ [10]).length⟩)
      else if maxHeaderCount ≤ headers.length then (.error .tooManyHeaders, ⟨s, c + (x ++ [10]).length⟩)
      else readHeaders (headers ++ (headerOf (trimEol (x ++ [10]))).toList) ⟨s, c + (x ++ [10]).length⟩ := by
  have hread := readLine_append hx hlength s c
  rw [readHeaders]
  split
  · next e he =>
    rw [hread] at he
    cases he
  · next line hline =>
    rw [hread] at hline ⊢
    obtain rfl := Except.ok.inj hline
    rfl

theorem readRequest_of_head {w w₁ w₂ : Conn} {line method target proto : Bytes} {start : ℕ}
    {headers : List WireHeader} (hstart : readStart w = (.ok (line, start), w₁))
    (hline : requestLine line = some (method, target, proto)) (hheaders : readHeaders [] w₁ = (.ok headers, w₂)) :
    readRequest w = readBody
      { method, target, proto, headers, body := [], startOffset := start, bodyStart := w₂.consumed, bodyEnd := 0,
        rawBody := [], framing := decideFraming headers } w₂ := by
  rw [readRequest, hstart]
  dsimp only
  rw [hline]
  dsimp only
  rw [hheaders]

end request

def requestText : Bytes := text "POST /api/cart HTTP/1.1"

def lengthText : Bytes := text "Content-Length: 1048577"

/-- A request that declares a body of one byte more than the cap. -/
def oversized (body : Bytes) : Conn := ⟨requestText ++ [10] ++ (lengthText ++ [10] ++ ([] ++ [10] ++ body)), 0⟩

theorem oversized_read (body : Bytes) (h : maxBodyBytes ≤ body.length) :
    let _ := GoRuntime.ascii
    ∃ req, (readRequest (oversized body)).1 = .ok req ∧ req.framing.mode = .length ∧
      req.framing.contentLength = 1048577 ∧ req.body.length = maxBodyBytes := by
  intro rt
  have hstart : readStart (oversized body) = (.ok (requestText, 0), ⟨_, _⟩) :=
    readStart_append (by decide +kernel) (by decide +kernel) (by decide +kernel) _ 0
  have hlast : ∀ (headers : List WireHeader) (s : Bytes) (c : ℕ), readHeaders headers ⟨[] ++ [10] ++ s, c⟩ =
      (.ok headers, ⟨s, c + 1⟩) := by
    intro headers s c
    rw [readHeaders_append not_mem_nil (by decide)]
    rfl
  have hheaders : ∀ (s : Bytes) (c : ℕ), readHeaders [] ⟨lengthText ++ [10] ++ ([] ++ [10] ++ s), c⟩ =
      (.ok (headerOf lengthText).toList, ⟨s, c + (lengthText ++ [10]).length + 1⟩) := by
    intro s c
    have htrim : trimEol (lengthText ++ [10]) = lengthText := by decide +kernel
    rw [readHeaders_append (by decide +kernel) (by decide +kernel), htrim, if_neg (by decide +kernel),
      if_neg (by decide), nil_append, hlast]
  have hline : requestLine requestText = some (text "POST", text "/api/cart", text "HTTP/1.1") := by decide +kernel
  have hread := readRequest_of_head hstart hline (hheaders _ _)
  have hmode : (decideFraming (headerOf lengthText).toList).mode = .length := by decide +kernel
  have hlength : (decideFraming (headerOf lengthText).toList).contentLength = 1048577 := by decide +kernel
  have hcut : ∀ c, (readN 1048577 ⟨body, c⟩).1 = .ok (body.take maxBodyBytes) := by
    intro c
    have hmin : min (Int.toNat 1048577) maxBodyBytes = maxBodyBytes := by decide
    rw [readN, if_neg (by decide), hmin]
    exact congrArg Prod.fst (if_pos h)
  rw [readBody] at hread
  dsimp only at hread
  rw [hmode, hlength] at hread
  dsimp only at hread
  rw [hcut] at hread
  refine ⟨_, congrArg Prod.fst hread, hmode, hlength, ?_⟩
  rw [length_take]
  exact Nat.min_eq_left h

/-- A body is cut, and nothing is reported. -/
theorem oversized_cut :
    let _ := GoRuntime.ascii
    ∃ w req, (readRequest w).1 = .ok req ∧ ¬Framed w req (readRequest w).2 := by
  intro rt
  obtain ⟨req, hread, hmode, hlength, hbody⟩ :=
    oversized_read (List.replicate 1048577 97) (by rw [length_replicate]; decide)
  refine ⟨_, req, hread, ?_⟩
  rintro ⟨skipped, first, fields, empty, wire, -, hmessage, -⟩
  have hwhole := hmessage.body
  unfold Complete at hwhole
  rw [hmode] at hwhole
  have hcount := hwhole.2
  rw [hlength, hbody] at hcount
  exact absurd hcount (by decide)

end PtaasBench.Edge.Wire
