import PtaasBench.Edge.Wire

/-!
# PtaasBench.Edge.FrameWatch — what one request leaves for the next to be checked against (`wire.go`)

`frameCheck` states where another reader would have ended a body, in the 64-bit offsets of the connection.
-/

namespace PtaasBench.Edge.Wire

open Py Lib List

/-- What an `int64` holds of a number. -/
def wrap (n : ℤ) : ℤ := (n + 2 ^ 63) % 2 ^ 64 - 2 ^ 63

structure FrameWatch where
  signal : String
  kind : String
  reqLine : Bytes
  bodyEnd : ℤ
  altEnd : ℤ
  overlap : ℤ
  note : String
  internal : Bool

def isEol (b : UInt8) : Bool := b == 13 || b == 10

/-- The text that `firstChunkEnd` takes for a size: the line ends before it, the text, and what is behind it. -/
def sizeToken (raw : Bytes) : Bytes × Bytes × Bytes :=
  let behind := raw.dropWhile isEol
  (raw.takeWhile isEol, behind.takeWhile (! isEol ·), behind.dropWhile (! isEol ·))

/-- The number of a size, cut at an extension. -/
def tokenSize (tok : Bytes) : Option ℤ := parseInt 16 (trimSpace ((trimSpace tok).takeWhile (· ≠ 0x3B)))

/-- The line ends, the text and the line end behind it, where a body begins with a size above 0. -/
def declaredChunk (raw : Bytes) : Option (Bytes × Bytes × UInt8 × ℤ) :=
  let (ends, tok, behind) := sizeToken raw
  behind.head?.bind fun c => ((tokenSize tok).filter (0 < ·)).map fun n => (ends, tok, c, n)

/-- `firstChunkEnd` -/
def firstChunkEnd (bodyStart : ℤ) (raw : Bytes) : Option ℤ :=
  (declaredChunk raw).map fun (ends, tok, c, n) =>
    wrap (bodyStart + ends.length + tok.length + (if c = 10 then 1 else 2) + n + 2)

def frameCheck (req : WireRequest) (hopProto : Bytes) (internal : Bool) : Option FrameWatch :=
  let f := req.framing
  let reqLine := req.method ++ [32] ++ req.target ++ [32] ++ req.proto
  if f.mode = .chunked ∧ f.hasCL = true then
    let altEnd := wrap (req.bodyStart + f.contentLength)
    if altEnd ≤ req.bodyEnd then none
    else
      let w : FrameWatch :=
        { signal := "", kind := "cl-te", reqLine, bodyEnd := req.bodyEnd, altEnd,
          overlap := wrap (altEnd - req.bodyEnd), note := "", internal }
      if f.teUnderscore then
        some { w with
          signal := "edge.http.framing.underscore_coding_mismatch"
          note := "coding header spelled with an underscore: opaque to the hop in front, authoritative here" }
      else if f.teCtl then
        some { w with
          signal := "edge.http.framing.control_byte_coding_mismatch"
          note := "coding value carried control bytes the hop in front did not strip" }
      else none
  else if f.teRaw ≠ [] ∧ f.mode ≠ .chunked then
    let altEnd := (firstChunkEnd req.bodyStart req.rawBody).filter fun n : ℤ => req.bodyEnd < n
    let w : FrameWatch :=
      { signal := "", kind := "te-cl", reqLine, bodyEnd := req.bodyEnd, altEnd := altEnd.getD 0,
        overlap := (altEnd.map fun n => wrap (n - req.bodyEnd)).getD 0, note := "", internal }
    if f.teDuplicate then
      some { w with
        signal := "edge.http.framing.duplicate_coding_mismatch"
        note := "two coding headers; the hop in front read the first, we read the last" }
    else if f.teList then
      some { w with
        signal := "edge.http.framing.coding_list_mismatch"
        note := "coding list ends in chunked for the hop in front but is not literally chunked here" }
    else none
  else if f.mode = .length ∧ f.teRaw = [] ∧ hopProto = text "2.0" then
    some
      { signal := "edge.http.framing.upgraded_stream_length_mismatch", kind := "h2-cl", reqLine,
        bodyEnd := req.bodyEnd, altEnd := 0, overlap := 0,
        note := "stream converted down from 2.0 with a client-declared length", internal }
  else none

/-- Where `readChunked` finishes its first chunk. -/
def firstChunkDone (w : Conn) : Option ℕ :=
  match _h : (readTurn 0 w).1 with
  | .error _ => none
  | .ok .blank => firstChunkDone (readTurn 0 w).2
  | .ok .last => none
  | .ok (.chunk _) => some (readTurn 0 w).2.consumed
termination_by w.rest.length
decreasing_by exact readTurn_lt _h

/-! ## The number in a text -/

/-- The bytes that no number has. -/
def Foreign (b : UInt8) : Prop := b.toNat < 43 ∨ 102 < b.toNat

instance (b : UInt8) : Decidable (Foreign b) := inferInstanceAs (Decidable (_ ∨ _))

theorem trimLeft_split {drop : List Bytes} (hdrop : ∀ space ∈ drop, ∀ b ∈ space, Foreign b) (turns : ℕ) (s : Bytes) :
    ∃ p, s = p ++ trimLeft drop turns s ∧ ∀ b ∈ p, Foreign b := by
  induction turns generalizing s with
  | zero => exact ⟨[], rfl, fun b hb => absurd hb not_mem_nil⟩
  | succ turns ih =>
    rw [trimLeft]
    cases hfind : drop.find? (·.isPrefixOf s) with
    | none => exact ⟨[], rfl, fun b hb => absurd hb not_mem_nil⟩
    | some space =>
      obtain ⟨p, hp, hforeign⟩ := ih (s.drop space.length)
      have hfits := List.find?_some (p := fun space : Bytes => space.isPrefixOf s) hfind
      have hfront := List.isPrefixOf_iff_prefix.mp hfits
      refine ⟨space ++ p, ?_, fun b hb => ?_⟩
      · dsimp only
        rw [append_assoc, ← hp]
        exact prefix_iff_eq_append.mp hfront |>.symm
      · rcases mem_append.mp hb with hb | hb
        · exact hdrop space (mem_of_find?_eq_some hfind) b hb
        · exact hforeign b hb

theorem spaces_foreign : ∀ space ∈ spaces, ∀ b ∈ space, Foreign b := by
  have hall : (spaces.all fun space => space.all fun b => Foreign b) = true := by decide
  intro space hspace b hb
  exact of_decide_eq_true (all_eq_true.mp (all_eq_true.mp hall space hspace) b hb)

/-- What `trimSpace` takes off has nothing of a number. -/
theorem trimSpace_split (s : Bytes) :
    ∃ p q, s = p ++ trimSpace s ++ q ∧ (∀ b ∈ p, Foreign b) ∧ ∀ b ∈ q, Foreign b := by
  obtain ⟨p, hp, hleft⟩ := trimLeft_split spaces_foreign s.length s
  have hback : ∀ space ∈ spaces.map List.reverse, ∀ b ∈ space, Foreign b := by
    intro space hspace b hb
    obtain ⟨space', hspace', rfl⟩ := mem_map.mp hspace
    exact spaces_foreign space' hspace' b (mem_reverse.mp hb)
  obtain ⟨q, hq, hright⟩ := trimLeft_split hback (trimLeft spaces s.length s).length
    (trimLeft spaces s.length s).reverse
  refine ⟨p, q.reverse, ?_, hleft, fun b hb => hright b (mem_reverse.mp hb)⟩
  have hmiddle := congrArg List.reverse hq
  rw [reverse_reverse, reverse_append] at hmiddle
  rw [append_assoc]
  conv_lhs => rw [hp, hmiddle]
  rfl

theorem digit_native {base : ℕ} (hbase : base ≤ 16) {b : UInt8} {d : ℕ} (h : digitValue base b = some d) :
    ¬Foreign b := by
  have hsum : 65 ≤ b.toNat ∧ b.toNat ≤ 90 → (b + 32).toNat = b.toNat + 32 := by
    intro hb
    rw [UInt8.toNat_add]
    exact Nat.mod_eq_of_lt (by simp only [UInt8.reduceToNat]; omega)
  rw [digitValue, lowerByte] at h
  unfold Foreign
  by_cases hupper : 65 ≤ b.toNat ∧ b.toNat ≤ 90
  · rw [if_pos hupper, hsum hupper] at h
    split_ifs at h <;> omega
  · rw [if_neg hupper] at h
    split_ifs at h <;> omega

theorem digitsValue_native {base : ℕ} (hbase : base ≤ 16) {s : Bytes} {n : ℕ} (h : digitsValue base s = some n) :
    ∀ b ∈ s, ¬Foreign b := by
  have hfold : ∀ (s : Bytes) (acc n : ℕ),
      s.foldlM (fun n b => (digitValue base b).map (n * base + ·)) acc = some n → ∀ b ∈ s, ¬Foreign b := by
    intro s
    induction s with
    | nil => exact fun _ _ _ b hb => absurd hb not_mem_nil
    | cons c s ih =>
      intro acc n h
      rw [foldlM_cons] at h
      obtain ⟨m, hm, hrest⟩ := Option.bind_eq_some_iff.mp h
      obtain ⟨d, hd, -⟩ := Option.map_eq_some_iff.mp hm
      exact forall_mem_cons.mpr ⟨digit_native hbase hd, ih m n hrest⟩
  exact hfold s 0 n h

/-- A text that is a number has nothing foreign. -/
theorem parseInt_native {base : ℕ} (hbase : base ≤ 16) {s : Bytes} {n : ℤ} (h : parseInt base s = some n) :
    s ≠ [] ∧ ∀ b ∈ s, ¬Foreign b := by
  rw [parseInt] at h
  by_cases hsign : s.head? = some 43 ∨ s.head? = some 45
  · rw [if_pos hsign] at h
    split_ifs at h with hnil
    all_goals
      obtain ⟨m, hm, -⟩ := Option.bind_eq_some_iff.mp h
      have hdigits := digitsValue_native hbase hm
      cases s with
      | nil => rcases hsign with hsign | hsign <;> cases hsign
      | cons c s =>
        refine ⟨cons_ne_nil c s, forall_mem_cons.mpr ⟨?_, hdigits⟩⟩
        rcases hsign with hsign | hsign
        · obtain rfl := Option.some.inj hsign
          decide
        · obtain rfl := Option.some.inj hsign
          decide
  · rw [if_neg hsign] at h
    split_ifs at h with hnil
    all_goals
      obtain ⟨m, hm, -⟩ := Option.bind_eq_some_iff.mp h
      exact ⟨hnil, digitsValue_native hbase hm⟩

/-- The first run of bytes that a number can have. -/
def core (s : Bytes) : Bytes := (s.dropWhile (Foreign ·)).takeWhile (¬Foreign ·)

theorem core_eq {p e q : Bytes} (hp : ∀ b ∈ p, Foreign b) (hsome : e ≠ []) (he : ∀ b ∈ e, ¬Foreign b)
    (hq : ∀ b ∈ q.head?, Foreign b) : core (p ++ e ++ q) = e := by
  obtain ⟨c, t, rfl⟩ := exists_cons_of_ne_nil hsome
  have hc := he c mem_cons_self
  have hstop : q.takeWhile (¬Foreign ·) = [] := by
    cases q with
    | nil => rfl
    | cons d q => exact takeWhile_cons_of_neg (by simpa using hq d rfl)
  rw [core, append_assoc, dropWhile_append_of_pos fun b hb => decide_eq_true (hp b hb), cons_append,
    dropWhile_cons_of_neg (by simpa using hc), ← cons_append,
    takeWhile_append_of_pos fun b hb => decide_eq_true (he b hb), hstop, append_nil]

theorem core_of_foreign {s : Bytes} (h : ∀ b ∈ s, Foreign b) : core s = [] := by
  rw [core, dropWhile_eq_nil_iff.mpr fun b hb => decide_eq_true (h b hb)]
  rfl

theorem head_foreign {q : Bytes} (hq : ∀ b ∈ q, Foreign b) : ∀ b ∈ q.head?, Foreign b :=
  fun b hb => hq b (mem_of_mem_head? hb)

theorem core_of_parse {s : Bytes} {n : ℤ} (h : parseInt 16 (trimSpace s) = some n) : core s = trimSpace s := by
  obtain ⟨hsome, hnative⟩ := parseInt_native (Nat.le_refl 16) h
  obtain ⟨p, q, hs, hp, hq⟩ := trimSpace_split s
  conv_lhs => rw [hs]
  exact core_eq hp hsome hnative (head_foreign hq)

theorem takeWhile_of_mem {p x t : Bytes} (hp : ∀ b ∈ p, decide (b ≠ (0x3B : UInt8)) = true) (hx : (0x3B : UInt8) ∈ x) :
    (p ++ x ++ t).takeWhile (· ≠ 0x3B) = p ++ x.takeWhile (· ≠ 0x3B) := by
  obtain ⟨a, b, rfl, ha⟩ := eq_append_cons_of_mem hx
  have hall : ∀ c ∈ a, decide (c ≠ (0x3B : UInt8)) = true := fun c hc => decide_eq_true fun h => ha (h ▸ hc)
  rw [append_assoc, takeWhile_append_of_pos hp, append_assoc, takeWhile_append_of_pos hall,
    takeWhile_append_of_pos hall, cons_append, takeWhile_cons_of_neg (by decide),
    takeWhile_cons_of_neg (by decide)]

theorem foreign_ne_semicolon {p : Bytes} (hp : ∀ b ∈ p, Foreign b) : ∀ b ∈ p, decide (b ≠ (0x3B : UInt8)) = true := by
  intro b hb
  refine decide_eq_true ?_
  rintro rfl
  exact absurd (hp _ hb) (by decide)

/-- The number of a text is that of what is before its extension. -/
theorem tokenSize_split {tok : Bytes} {n : ℤ} (h : tokenSize tok = some n) :
    ∃ p e q, tok.takeWhile (· ≠ 0x3B) = p ++ e ++ q ∧ (∀ b ∈ p, Foreign b) ∧ (∀ b ∈ q, Foreign b) ∧
      parseInt 16 e = some n := by
  obtain ⟨p, q, htok, hp, hq⟩ := trimSpace_split tok
  obtain ⟨p', q', hcut, hp', hq'⟩ := trimSpace_split ((trimSpace tok).takeWhile (· ≠ 0x3B))
  by_cases hmem : (0x3B : UInt8) ∈ trimSpace tok
  · refine ⟨p ++ p', _, q', ?_, ?_, hq', h⟩
    · conv_lhs => rw [htok, takeWhile_of_mem (foreign_ne_semicolon hp) hmem, hcut]
      simp only [append_assoc]
    · exact fun b hb => (mem_append.mp hb).elim (hp b) (hp' b)
  · have hall : ∀ c ∈ trimSpace tok, decide (c ≠ (0x3B : UInt8)) = true := fun c hc => decide_eq_true fun h => hmem (h ▸ hc)
    have hwhole : (trimSpace tok).takeWhile (· ≠ 0x3B) = trimSpace tok := takeWhile_eq_self_iff.mpr hall
    refine ⟨p ++ p', _, q' ++ q, ?_, ?_, ?_, h⟩
    · have htail : q.takeWhile (· ≠ (0x3B : UInt8)) = q := takeWhile_eq_self_iff.mpr (foreign_ne_semicolon hq)
      conv_lhs => rw [htok, append_assoc, takeWhile_append_of_pos (foreign_ne_semicolon hp),
        takeWhile_append_of_pos hall, htail, ← hwhole, hcut]
      simp only [append_assoc]
    · exact fun b hb => (mem_append.mp hb).elim (hp b) (hp' b)
    · exact fun b hb => (mem_append.mp hb).elim (hq' b) (hq b)

/-! ## A size line -/

/-- A size line around the text that `firstChunkEnd` takes for the size. -/
structure SizeLine (returns tok behind : Bytes) : Prop where
  returns : ∀ b ∈ returns, b = 13
  some : tok ≠ []
  tok : ∀ b ∈ tok, isEol b = false
  behind : ∀ b ∈ behind.head?, b = 13

variable {returns tok behind : Bytes}

theorem rdropWhile_behind {f : UInt8 → Bool} {x : Bytes} (hx : x.rdropWhile f = x) (y : Bytes) :
    ∃ r, (x ++ y).rdropWhile f = x ++ r ∧ r <+: y := by
  induction y using List.reverseRecOn with
  | nil => exact ⟨[], by rw [append_nil, hx], prefix_rfl⟩
  | append_singleton y c ih =>
    obtain ⟨r, hr, hfront⟩ := ih
    by_cases hc : f c = true
    · refine ⟨r, ?_, hfront.trans (prefix_append y [c])⟩
      rw [← append_assoc, rdropWhile_concat_pos _ _ _ hc, hr]
    · refine ⟨y ++ [c], ?_, prefix_rfl⟩
      rw [← append_assoc, rdropWhile_concat_neg _ _ _ hc]

theorem SizeLine.trimEol (h : SizeLine returns tok behind) :
    ∃ rest, Wire.trimEol (returns ++ tok ++ behind ++ [10]) = returns ++ tok ++ rest ∧
      ∀ b ∈ rest.head?, isEol b = true := by
  have hlast : (returns ++ tok).rdropWhile (fun b => b == 13 || b == 10) = returns ++ tok := by
    rw [rdropWhile_eq_self_iff]
    intro hne
    rw [getLast_append_of_ne_nil hne h.some]
    have hfalse := h.tok _ (getLast_mem h.some)
    rw [isEol] at hfalse
    rw [hfalse]
    exact Bool.false_ne_true
  obtain ⟨rest, hrest, hfront⟩ := rdropWhile_behind hlast (behind ++ [10])
  refine ⟨rest, by rw [Wire.trimEol, append_assoc]; exact hrest, fun b hb => ?_⟩
  obtain ⟨more, hmore⟩ := hfront
  cases rest with
  | nil => cases hb
  | cons c rest =>
    obtain rfl := Option.some.inj hb
    cases hbehind : behind with
    | nil =>
      rw [hbehind] at hmore
      rw [(List.cons.inj hmore).1]
      rfl
    | cons d behind' =>
      rw [hbehind] at hmore
      rw [(List.cons.inj hmore).1, h.behind d (by rw [hbehind]; rfl)]
      rfl

theorem isEol_foreign {b : UInt8} (h : isEol b = true) : Foreign b := by
  rw [isEol, Bool.or_eq_true, beq_iff_eq, beq_iff_eq] at h
  rcases h with rfl | rfl <;> decide

/-- Before an extension, the line has the text that `firstChunkEnd` takes, and nothing else of a number at its side. -/
theorem SizeLine.cut (h : SizeLine returns tok behind) :
    ∃ rest, (Wire.trimEol (returns ++ tok ++ behind ++ [10])).takeWhile (· ≠ 0x3B) =
      returns ++ tok.takeWhile (· ≠ 0x3B) ++ rest ∧ ∀ b ∈ rest.head?, Foreign b := by
  obtain ⟨rest, htrim, hrest⟩ := h.trimEol
  have hreturns : ∀ b ∈ returns, Foreign b := fun b hb => h.returns b hb ▸ by decide
  rw [htrim]
  by_cases hmem : (0x3B : UInt8) ∈ tok
  · refine ⟨[], ?_, fun b hb => by cases hb⟩
    rw [takeWhile_of_mem (foreign_ne_semicolon hreturns) hmem, append_nil]
  · have hall : ∀ c ∈ tok, decide (c ≠ (0x3B : UInt8)) = true := fun c hc => decide_eq_true fun h => hmem (h ▸ hc)
    refine ⟨rest.takeWhile (· ≠ 0x3B), ?_, fun b hb => ?_⟩
    · rw [append_assoc, takeWhile_append_of_pos (foreign_ne_semicolon hreturns),
        takeWhile_append_of_pos hall, takeWhile_eq_self_iff.mpr hall, append_assoc]
    · cases rest with
      | nil => cases hb
      | cons c rest =>
        have hc := isEol_foreign (hrest c rfl)
        have hne : decide (c ≠ (0x3B : UInt8)) = true :=
          foreign_ne_semicolon (forall_mem_singleton.mpr hc) c (mem_singleton_self c)
        have hcons : (c :: rest).takeWhile (· ≠ (0x3B : UInt8)) = c :: rest.takeWhile (· ≠ 0x3B) :=
          takeWhile_cons_of_pos hne
        rw [hcons] at hb
        exact Option.some.inj hb ▸ hc

/-- The size that `readChunked` reads in the line is the one that `firstChunkEnd` takes. -/
theorem SizeLine.size (h : SizeLine returns tok behind) {n : ℤ} (hn : tokenSize tok = Option.some n) :
    sizeText (Wire.trimEol (returns ++ tok ++ behind ++ [10])) ≠ [] ∧
      ∀ m, chunkSize (returns ++ tok ++ behind ++ [10]) = Option.some m → m = n := by
  obtain ⟨rest, hcut, hrest⟩ := h.cut
  obtain ⟨p, e, q, htok, hp, hq, hparse⟩ := tokenSize_split hn
  obtain ⟨hsome, hnative⟩ := parseInt_native (Nat.le_refl 16) hparse
  have hcore : core ((Wire.trimEol (returns ++ tok ++ behind ++ [10])).takeWhile (· ≠ 0x3B)) = e := by
    have hbefore : ∀ b ∈ returns ++ p, Foreign b := fun b hb =>
      (mem_append.mp hb).elim (fun hb => h.returns b hb ▸ by decide) (hp b)
    have hbehind : ∀ b ∈ (q ++ rest).head?, Foreign b := by
      cases q with
      | nil => exact hrest
      | cons c q => exact fun b hb => Option.some.inj hb ▸ hq c mem_cons_self
    have heq := core_eq hbefore hsome hnative hbehind
    rw [hcut, htok]
    simp only [append_assoc] at heq ⊢
    exact heq
  constructor
  · intro hempty
    obtain ⟨a, b, hs, ha, hb⟩ := trimSpace_split
      ((Wire.trimEol (returns ++ tok ++ behind ++ [10])).takeWhile (· ≠ 0x3B))
    rw [sizeText] at hempty
    rw [hempty, append_nil] at hs
    rw [hs, core_of_foreign fun c hc => (mem_append.mp hc).elim (ha c) (hb c)] at hcore
    exact hsome hcore.symm
  · intro m hm
    have hread := (Option.filter_eq_some_iff.mp hm).1
    rw [sizeText] at hread
    have hsame := core_of_parse hread
    rw [← hsame, hcore, hparse] at hread
    exact (Option.some.inj hread).symm

/-! ## The first chunk -/

/-- The first chunk of a stream: the empty lines before it, its size line, its bytes, and the line behind them. -/
structure FirstChunk (s : Bytes) (blanks : List Bytes) (l data e : Bytes) (n : ℤ) : Prop where
  empty : ∀ b ∈ blanks, IsLine b ∧ b.length ≤ maxHeaderLine ∧ sizeText (trimEol b) = []
  line : IsLine l ∧ l.length ≤ maxHeaderLine
  size : chunkSize l = some n
  pos : 0 < n
  held : data.length = min n.toNat maxBodyBytes
  ending : IsLine e ∧ e.length ≤ maxHeaderLine
  begins : blanks.flatten ++ (l ++ data ++ e) <+: s

theorem readLine_line {l : Bytes} (hl : IsLine l) (hlength : l.length ≤ maxHeaderLine) (s : Bytes) (c : ℕ) :
    readLine ⟨l ++ s, c⟩ = (.ok (trimEol l), ⟨s, c + l.length⟩) := by
  obtain ⟨x, rfl, hx⟩ := hl
  refine readLine_append hx ?_ s c
  rw [length_append, length_singleton] at hlength
  exact hlength

theorem readTurn_blank {b : Bytes} (hb : IsLine b) (hlength : b.length ≤ maxHeaderLine)
    (hempty : sizeText (trimEol b) = []) (s : Bytes) (c : ℕ) :
    readTurn 0 ⟨b ++ s, c⟩ = (.ok .blank, ⟨s, c + b.length⟩) := by
  rw [readTurn, readLine_line hb hlength]
  dsimp only
  rw [if_pos hempty]

theorem readTurn_chunk {s : Bytes} {l data e : Bytes} {n : ℤ} (h : FirstChunk s [] l data e n) (rest : Bytes) (c : ℕ) :
    readTurn 0 ⟨l ++ data ++ e ++ rest, c⟩ = (.ok (.chunk data), ⟨rest, c + (l ++ data ++ e).length⟩) := by
  have hsome : sizeText (trimEol l) ≠ [] := fun hempty => by
    have hsize := h.size
    rw [chunkSize_of_empty hempty] at hsize
    cases hsize
  have hsize : (parseInt 16 (sizeText (trimEol l))).filter (0 ≤ ·) = some n := h.size
  have hdata : ∀ c, readN n ⟨data ++ (e ++ rest), c⟩ = (.ok data, ⟨e ++ rest, c + data.length⟩) := by
    intro c
    rw [readN, if_neg (Int.not_le.mpr h.pos)]
    dsimp only
    rw [← h.held, if_pos (by rw [length_append]; omega), take_left, Conn.skip, drop_left]
  have hroom : ¬maxBodyBytes < 0 + data.length := by
    rw [h.held]
    omega
  rw [append_assoc, append_assoc, readTurn, readLine_line h.line.1 h.line.2]
  dsimp only
  rw [if_neg hsome, hsize]
  dsimp only
  rw [if_neg (Int.ne_of_gt h.pos), hdata]
  dsimp only
  rw [if_neg hroom, readLine_line h.ending.1 h.ending.2]
  simp only [Except.map, length_append, Nat.add_assoc]

theorem firstChunkDone_iff {w : Conn} {o : ℕ} :
    firstChunkDone w = some o ↔ ∃ (blanks : List Bytes) (l data e : Bytes) (n : ℤ),
      FirstChunk w.rest blanks l data e n ∧ o = w.consumed + (blanks.flatten ++ (l ++ data ++ e)).length := by
  constructor
  · intro h
    induction hn : w.rest.length using Nat.strongRecOn generalizing w with
    | ind k ih =>
      rw [firstChunkDone] at h
      split at h
      · cases h
      · next hturn =>
        obtain ⟨b, hb, hlength, hempty, htakes⟩ := readTurn_ok hturn
        obtain ⟨blanks, l, data, e, n, hfirst, ho⟩ := ih _ (hn ▸ readTurn_lt hturn) h rfl
        refine ⟨b :: blanks, l, data, e, n, ⟨forall_mem_cons.mpr ⟨⟨hb, hlength, hempty⟩, hfirst.empty⟩,
          hfirst.line, hfirst.size, hfirst.pos, hfirst.held, hfirst.ending, ?_⟩, ?_⟩
        · rw [htakes.rest, flatten_cons, append_assoc]
          exact (prefix_append_right_inj b).mpr hfirst.begins
        · rw [ho, htakes.consumed, flatten_cons, append_assoc b, @length_append _ b,
            Nat.add_assoc]
      · cases h
      · next data hturn =>
        obtain ⟨l, hl, hlength, n, e, hsize, hpos, hcount, -, he, hshort, htakes⟩ := readTurn_ok hturn
        obtain rfl := Option.some.inj h
        refine ⟨[], l, data, e, n, ⟨fun b hb => absurd hb not_mem_nil, ⟨hl, hlength⟩, hsize, hpos, hcount,
          ⟨he, hshort⟩, ?_⟩, htakes.consumed⟩
        exact ⟨_, htakes.rest.symm⟩
  · rintro ⟨blanks, l, data, e, n, hfirst, rfl⟩
    obtain ⟨rest, hrest⟩ := hfirst.begins
    obtain ⟨s, c⟩ := w
    dsimp only at hrest hfirst ⊢
    subst hrest
    induction blanks generalizing c with
    | nil =>
      have hturn := readTurn_chunk (s := l ++ data ++ e) ⟨fun b hb => absurd hb not_mem_nil, hfirst.line,
        hfirst.size, hfirst.pos, hfirst.held, hfirst.ending, prefix_rfl⟩ rest c
      rw [flatten_nil, nil_append, firstChunkDone.eq_def, hturn]
    | cons b blanks ih =>
      obtain ⟨⟨hb, hlength, hempty⟩, hblanks⟩ := forall_mem_cons.mp hfirst.empty
      have hmore : FirstChunk (blanks.flatten ++ (l ++ data ++ e) ++ rest) blanks l data e n :=
        ⟨hblanks, hfirst.line, hfirst.size, hfirst.pos, hfirst.held, hfirst.ending, prefix_append _ _⟩
      have hturn := readTurn_blank hb hlength hempty (blanks.flatten ++ (l ++ data ++ e) ++ rest) c
      rw [flatten_cons, append_assoc b, append_assoc b, firstChunkDone.eq_def, hturn]
      dsimp only
      rw [ih _ hmore, @length_append _ b, Nat.add_assoc]

/-! ## Both readings of a size -/

/-- The bytes between a size and its line feed, beyond the carriage return that `firstChunkEnd` counts. -/
def slack (l : Bytes) : ℕ :=
  let ending := (sizeToken l).2.2
  if ending = [10] then 0 else ending.length - 2

theorem dropWhile_stop {f : UInt8 → Bool} {x y : Bytes} (hx : ∀ b ∈ x, f b = true) (hy : ∀ b ∈ y.head?, f b = false) :
    (x ++ y).dropWhile f = y := by
  rw [dropWhile_append_of_pos hx]
  cases y with
  | nil => rfl
  | cons c y =>
    refine dropWhile_cons_of_neg ?_
    rw [hy c rfl]
    exact Bool.false_ne_true

theorem SizeLine.slack (h : SizeLine returns tok behind) :
    Wire.slack (returns ++ tok ++ behind ++ [10]) = behind.length - 1 := by
  obtain ⟨c, t, htok⟩ := exists_cons_of_ne_nil h.some
  have hreturns : ∀ b ∈ returns, isEol b = true := fun b hb => h.returns b hb ▸ rfl
  have hnot : ∀ b ∈ tok, (!isEol b) = true := fun b hb => by rw [h.tok b hb]; rfl
  have hstop : ∀ b ∈ (behind ++ [10]).head?, (!isEol b) = false := by
    intro b hb
    cases hbehind : behind with
    | nil =>
      rw [hbehind] at hb
      exact Option.some.inj hb ▸ rfl
    | cons d rest =>
      rw [hbehind] at hb
      rw [← Option.some.inj hb, h.behind d (by rw [hbehind]; rfl)]
      rfl
  have hfirst : ∀ b ∈ (tok ++ (behind ++ [10])).head?, isEol b = false := by
    intro b hb
    rw [htok] at hb
    exact Option.some.inj hb ▸ h.tok c (htok ▸ mem_cons_self)
  have hending : (sizeToken (returns ++ tok ++ behind ++ [10])).2.2 = behind ++ [10] := by
    rw [sizeToken]
    dsimp only
    rw [append_assoc, append_assoc, dropWhile_stop hreturns hfirst, dropWhile_stop hnot hstop]
  rw [Wire.slack, hending]
  cases behind with
  | nil => rfl
  | cons d rest =>
    have hne : (d :: rest) ++ [10] ≠ [10] := by
      intro heq
      have hlength := congrArg List.length heq
      rw [length_append, length_cons] at hlength
      simp only [length_singleton] at hlength
      omega
    rw [if_neg hne, length_append, length_cons, length_singleton]
    omega

/-- A line does not end within a text without a line feed. -/
theorem line_behind {u v y r : Bytes} (hu : (10 : UInt8) ∉ u) (heq : y ++ [10] ++ r = u ++ v) :
    ∃ z, y = u ++ z ∧ v = z ++ 10 :: r := by
  rw [append_assoc, singleton_append] at heq
  rcases append_eq_append_iff.mp heq with ⟨z, hz, hr⟩ | ⟨z, hy, hv⟩
  · cases z with
    | nil => exact ⟨[], by rw [append_nil, hz, append_nil], hr.symm⟩
    | cons c z =>
      rw [cons_append] at hr
      refine absurd ?_ hu
      rw [hz, (List.cons.inj hr).1]
      exact mem_append_right _ mem_cons_self
  · exact ⟨z, hy, hv⟩

/-- The text a body begins with, as `firstChunkEnd` takes it apart. -/
structure Declared (ends tok : Bytes) (c : UInt8) (n : ℤ) : Prop where
  lead : ∀ b ∈ ends, isEol b = true
  nonempty : tok ≠ []
  inside : ∀ b ∈ tok, isEol b = false
  stop : isEol c = true
  size : tokenSize tok = some n
  pos : 0 < n

theorem head_dropWhile_token {s more : Bytes} {c : UInt8} (h : s.dropWhile (! isEol ·) = c :: more) : isEol c = true := by
  have hne : s.dropWhile (! isEol ·) ≠ [] := by
    rw [h]
    exact cons_ne_nil c more
  have hstop := head_dropWhile_not (p := fun b : UInt8 => !isEol b) (l := s) hne
  simp only [h, head_cons] at hstop
  simpa using hstop

theorem declaredChunk_some {raw ends tok : Bytes} {c : UInt8} {n : ℤ}
    (h : declaredChunk raw = some (ends, tok, c, n)) :
    Declared ends tok c n ∧ ∃ more, raw = ends ++ tok ++ c :: more := by
  obtain ⟨d, hd, hrest⟩ := Option.bind_eq_some_iff.mp h
  obtain ⟨m, hm, heq⟩ := Option.map_eq_some_iff.mp hrest
  obtain ⟨hsize, hpos⟩ := Option.filter_eq_some_iff.mp hm
  obtain ⟨rfl, htail⟩ := Prod.mk.inj heq
  obtain ⟨rfl, hlast⟩ := Prod.mk.inj htail
  obtain ⟨rfl, rfl⟩ := Prod.mk.inj hlast
  obtain ⟨more, hmore⟩ := List.head?_eq_some_iff.mp hd
  refine ⟨⟨fun b hb => mem_takeWhile_imp hb, ?_, fun b hb => ?_, head_dropWhile_token hmore, hsize,
    of_decide_eq_true hpos⟩, more, ?_⟩
  · intro hnil
    have hnone : tokenSize [] = none := by decide +kernel
    rw [hnil, hnone] at hsize
    cases hsize
  · simpa using mem_takeWhile_imp (p := fun b : UInt8 => !isEol b) hb
  · rw [← hmore, append_assoc, takeWhile_append_dropWhile, takeWhile_append_dropWhile]

theorem returns_of_ends {ends : Bytes} (h : ∀ b ∈ ends, isEol b = true) (hlf : (10 : UInt8) ∉ ends) :
    ∀ b ∈ ends, b = 13 := by
  intro b hb
  have heol := h b hb
  rw [isEol, Bool.or_eq_true, beq_iff_eq, beq_iff_eq] at heol
  exact heol.resolve_right fun heq => hlf (heq ▸ hb)

theorem trimEol_of_ends {x : Bytes} (h : ∀ b ∈ x, isEol b = true) : trimEol (x ++ [10]) = [] := by
  rw [trimEol, rdropWhile_eq_nil_iff]
  intro b hb
  rcases mem_append.mp hb with hb | hb
  · exact h b hb
  · rw [mem_singleton.mp hb]
    rfl

/-- The first line behind the line ends. -/
theorem Declared.line {ends tok more y r : Bytes} {c : UInt8} {n : ℤ} (h : Declared ends tok c n)
    (hlf : (10 : UInt8) ∉ ends) (hy : (10 : UInt8) ∉ y) (heq : y ++ [10] ++ r = ends ++ tok ++ c :: more) :
    ∃ behind, y = ends ++ tok ++ behind ∧ SizeLine ends tok behind ∧ (if c = 10 then behind = [] else behind ≠ []) := by
  have hnot : (10 : UInt8) ∉ ends ++ tok := fun hmem =>
    (mem_append.mp hmem).elim hlf fun hmem => Bool.false_ne_true ((h.inside _ hmem).symm.trans rfl)
  obtain ⟨z, rfl, hz⟩ := line_behind hnot heq
  refine ⟨z, rfl, ⟨returns_of_ends h.lead hlf, h.nonempty, h.inside, ?_⟩, ?_⟩
  · intro b hb
    cases z with
    | nil => cases hb
    | cons d z =>
      have hcd := (List.cons.inj hz).1
      have hstop := h.stop
      rw [isEol, Bool.or_eq_true, beq_iff_eq, beq_iff_eq] at hstop
      rw [← Option.some.inj hb, ← hcd]
      refine hstop.resolve_right fun heq => hy ?_
      rw [← heq, hcd]
      exact mem_append_right _ mem_cons_self
  · cases z with
    | nil =>
      rw [if_pos (List.cons.inj hz).1]
    | cons d z =>
      have hd : c ≠ 10 := by
        rintro rfl
        exact hy (mem_append_right _ ((List.cons.inj hz).1 ▸ mem_cons_self))
      rw [if_neg hd]
      exact cons_ne_nil d z

/-- The lines that `readChunked` passes over before its first chunk are those that `firstChunkEnd` does, and both read
the same size. -/
theorem Declared.agree {ends tok more l tail : Bytes} {c : UInt8} {n m : ℤ} {blanks : List Bytes}
    (h : Declared ends tok c n) (hblanks : ∀ b ∈ blanks, IsLine b ∧ sizeText (trimEol b) = []) (hl : IsLine l)
    (hsize : chunkSize l = some m) (heq : blanks.flatten ++ (l ++ tail) = ends ++ tok ++ c :: more) :
    ∃ returns behind, ends = blanks.flatten ++ returns ∧ l = returns ++ tok ++ behind ++ [10] ∧
      SizeLine returns tok behind ∧ m = n ∧ (if c = 10 then behind = [] else behind ≠ []) := by
  induction blanks generalizing ends with
  | nil =>
    obtain ⟨x, rfl, hx⟩ := hl
    rw [flatten_nil, nil_append] at heq
    by_cases hlf : (10 : UInt8) ∈ ends
    · obtain ⟨a, b, rfl, ha⟩ := eq_append_cons_of_mem hlf
      have hlines : x ++ [10] ++ tail = a ++ [10] ++ (b ++ tok ++ c :: more) := by
        rw [heq]
        simp only [append_assoc, cons_append, nil_append]
      obtain ⟨hsame, -⟩ := IsLine.unique ⟨x, rfl, hx⟩ ⟨a, rfl, ha⟩ hlines
      have hempty := trimEol_of_ends fun d hd => h.lead d (mem_append_left _ hd)
      rw [hsame, chunkSize, hempty] at hsize
      cases hsize
    · obtain ⟨behind, rfl, hline, hstop⟩ := h.line hlf hx heq
      exact ⟨ends, behind, rfl, rfl, hline, (hline.size h.size).2 m hsize, hstop⟩
  | cons b blanks ih =>
    obtain ⟨⟨hb, hempty⟩, hmore⟩ := forall_mem_cons.mp hblanks
    obtain ⟨y, rfl, hy⟩ := hb
    rw [flatten_cons, append_assoc] at heq
    by_cases hlf : (10 : UInt8) ∈ ends
    · obtain ⟨a, ends', rfl, ha⟩ := eq_append_cons_of_mem hlf
      have hlines : y ++ [10] ++ (blanks.flatten ++ (l ++ tail)) = a ++ [10] ++ (ends' ++ tok ++ c :: more) := by
        rw [heq]
        simp only [append_assoc, cons_append, nil_append]
      obtain ⟨hsame, hrest⟩ := IsLine.unique ⟨y, rfl, hy⟩ ⟨a, rfl, ha⟩ hlines
      have hlater : Declared ends' tok c n :=
        ⟨fun d hd => h.lead d (mem_append_right _ (mem_cons_of_mem 10 hd)), h.nonempty, h.inside, h.stop,
          h.size, h.pos⟩
      obtain ⟨returns, behind, hends, hall⟩ := ih hlater hmore hrest
      refine ⟨returns, behind, ?_, hall⟩
      rw [flatten_cons, hsame, hends]
      simp only [append_assoc, cons_append, nil_append]
    · obtain ⟨behind, rfl, hline, -⟩ := h.line hlf hy heq
      exact absurd hempty (hline.size h.size).1

theorem parseInt_lt {base : ℕ} {s : Bytes} {n : ℤ} (h : parseInt base s = some n) : n < 2 ^ 63 := by
  rw [parseInt] at h
  split_ifs at h
  all_goals
    obtain ⟨m, -, hm⟩ := Option.bind_eq_some_iff.mp h
    split_ifs at hm with hbound
    obtain rfl := Option.some.inj hm
    omega

/-- The first chunk of a stream ends where the size and the line ends at its side say: what the size line has beyond
LF or CRLF and the line behind the chunk make two bytes more than what the cap takes off the chunk. -/
def Regular (s : Bytes) : Prop :=
  ∃ (blanks : List Bytes) (l data e : Bytes) (n : ℤ),
    FirstChunk s blanks l data e n ∧ (slack l : ℤ) + e.length + data.length = n + 2

theorem firstChunkEnd_iff {raw follow : Bytes} {bodyStart : ℕ} {off : ℤ}
    (hfits : bodyStart + (raw ++ follow).length < 2 ^ 63) (h : firstChunkEnd bodyStart raw = some off) :
    (firstChunkDone ⟨raw ++ follow, bodyStart⟩).map (fun n : ℕ => (n : ℤ)) = some off ↔ Regular (raw ++ follow) := by
  obtain ⟨⟨ends, tok, c, n⟩, hdeclared, rfl⟩ := Option.map_eq_some_iff.mp h
  obtain ⟨hd, more, rfl⟩ := declaredChunk_some hdeclared
  have hlarge := parseInt_lt hd.size
  have hpos := hd.pos
  -- what both readings have in common
  have hcommon : ∀ {blanks : List Bytes} {l data e : Bytes} {m : ℤ},
      FirstChunk (ends ++ tok ++ c :: more ++ follow) blanks l data e m →
        m = n ∧ bodyStart + (blanks.flatten ++ (l ++ data ++ e)).length < 2 ^ 63 ∧
          (blanks.flatten ++ (l ++ data ++ e)).length =
            ends.length + tok.length + (if c = 10 then 1 else 2) + slack l + data.length + e.length := by
    intro blanks l data e m hfirst
    obtain ⟨rest, hrest⟩ := hfirst.begins
    have heq : blanks.flatten ++ (l ++ (data ++ e ++ rest)) = ends ++ tok ++ c :: (more ++ follow) := by
      have hsame : blanks.flatten ++ (l ++ data ++ e) ++ rest = ends ++ tok ++ (c :: more ++ follow) :=
        hrest.trans (append_assoc ..)
      rw [← cons_append, ← hsame]
      simp only [append_assoc]
    obtain ⟨returns, behind, rfl, rfl, hline, hm, hstop⟩ :=
      hd.agree (fun b hb => ⟨(hfirst.empty b hb).1, (hfirst.empty b hb).2.2⟩) hfirst.line.1 hfirst.size heq
    refine ⟨hm, ?_, ?_⟩
    · have hlength := hfirst.begins.length_le
      omega
    · rw [hline.slack]
      simp only [length_append, length_singleton]
      by_cases hc : c = 10
      · rw [if_pos hc] at hstop ⊢
        rw [hstop, length_nil]
        omega
      · rw [if_neg hc] at hstop ⊢
        have := length_pos_iff.mpr hstop
        omega
  constructor
  · intro hdone
    obtain ⟨o, ho, heq⟩ := Option.map_eq_some_iff.mp hdone
    obtain ⟨blanks, l, data, e, m, hfirst, hplace⟩ := firstChunkDone_iff.mp ho
    obtain ⟨rfl, hbound, hlength⟩ := hcommon hfirst
    refine ⟨blanks, l, data, e, m, hfirst, ?_⟩
    unfold wrap at heq
    dsimp only at heq hplace
    split at heq <;> split at hlength <;> first | contradiction | omega
  · rintro ⟨blanks, l, data, e, m, hfirst, hregular⟩
    obtain ⟨rfl, hbound, hlength⟩ := hcommon hfirst
    have hdone : firstChunkDone ⟨ends ++ tok ++ c :: more ++ follow, bodyStart⟩ =
        some (bodyStart + (blanks.flatten ++ (l ++ data ++ e)).length) :=
      firstChunkDone_iff.mpr ⟨blanks, l, data, e, m, hfirst, rfl⟩
    rw [hdone, Option.map_some]
    unfold wrap
    dsimp only
    refine congrArg some ?_
    split at hlength
    · next hc =>
      rw [if_pos hc]
      omega
    · next hc =>
      rw [if_neg hc]
      omega

/-! ## The watch of a request -/

/-- A connection whose offsets an `int64` holds. -/
structure Stream extends Conn where
  fits : consumed + rest.length < 2 ^ 63

section watch

variable [GoRuntime]

/-- What the watch behind a request says is so: the overlap of the two lengths, and the end of a first chunk. -/
structure ExactWatch (w : Stream) (req : WireRequest) (hopProto : Bytes) (internal : Bool) : Prop where
  overlap : req.framing.mode = .chunked → req.framing.hasCL = true →
    (req.framing.teUnderscore || req.framing.teCtl) = true →
      ((frameCheck req hopProto internal).isSome ↔ (req.bodyEnd : ℤ) < req.bodyStart + req.framing.contentLength) ∧
        ∀ fw ∈ frameCheck req hopProto internal, fw.overlap = req.bodyStart + req.framing.contentLength - req.bodyEnd
  first : req.framing.mode ≠ .chunked → (req.framing.teDuplicate || req.framing.teList) = true →
    ∀ off, firstChunkEnd req.bodyStart req.rawBody = some off →
      (firstChunkDone ⟨req.rawBody ++ (readRequest w.toConn).2.rest, req.bodyStart⟩).map (fun n : ℕ => (n : ℤ)) =
        some off

/-- The other end of the body is an offset, and a body that begins with a size has a regular first chunk. -/
structure InRange (w : Stream) (req : WireRequest) : Prop where
  overlap : req.framing.mode = .chunked → req.framing.hasCL = true →
    (req.framing.teUnderscore || req.framing.teCtl) = true → req.bodyStart + req.framing.contentLength < 2 ^ 63
  first : req.framing.mode ≠ .chunked → (req.framing.teDuplicate || req.framing.teList) = true →
    (declaredChunk req.rawBody).isSome → Regular (req.rawBody ++ (readRequest w.toConn).2.rest)

omit [GoRuntime] in
theorem readBody_raw {req out : WireRequest} {w : Conn} (hraw : req.rawBody = []) (hmode : req.framing.mode ≠ .chunked)
    (h : (readBody req w).1 = .ok out) : Takes w out.rawBody (readBody req w).2 := by
  rw [readBody.eq_def] at h ⊢
  cases hm : req.framing.mode with
  | chunked => exact absurd hm hmode
  | length =>
    rw [hm] at h
    obtain ⟨raw, hread, rfl⟩ := map_eq_ok.mp h
    exact (readN_ok hread).1
  | none =>
    rw [hm] at h
    obtain rfl := Except.ok.inj h
    dsimp only
    rw [hraw]
    exact Takes.refl w

omit [GoRuntime] in
theorem lengthValue_lt {value : Bytes} {n : ℤ} (h : lengthValue value = some n) : n < 2 ^ 63 :=
  parseInt_lt (Option.filter_eq_some_iff.mp h).1

omit [GoRuntime] in
/-- In chunked mode with a length, the watch is armed by the wrapped sum. -/
theorem frameCheck_chunked {req : WireRequest} (hopProto : Bytes) (internal : Bool)
    (hmode : req.framing.mode = .chunked) (hlength : req.framing.hasCL = true) (hcoding : (req.framing.teUnderscore || req.framing.teCtl) = true) :
    (frameCheck req hopProto internal).map FrameWatch.overlap =
      if wrap (req.bodyStart + req.framing.contentLength) ≤ req.bodyEnd then none
      else some (wrap (wrap (req.bodyStart + req.framing.contentLength) - req.bodyEnd)) := by
  rw [frameCheck]
  dsimp only
  rw [if_pos ⟨hmode, hlength⟩]
  split
  · rfl
  · cases hunderscore : req.framing.teUnderscore with
    | true => rfl
    | false =>
      rw [hunderscore, Bool.false_or] at hcoding
      rw [hcoding]
      rfl

/-- What the watch says behind a request that was read is so, just if what the request declares is in range. -/
theorem exactWatch_iff (w : Stream) {req : WireRequest} (h : (readRequest w.toConn).1 = .ok req) (hopProto : Bytes)
    (internal : Bool) : ExactWatch w req hopProto internal ↔ InRange w req := by
  obtain ⟨skipped, first, fields, empty, wb, -, -, -, -, -, -, hframing, hhead, -, hstart, base, hnil, hraw, hsame, -,
    hread, hend⟩ := readRequest_ok h
  have hnonneg : 0 ≤ req.framing.contentLength := hframing ▸ decideFraming_nonneg _
  have hlarge : req.framing.contentLength < 2 ^ 63 :=
    hframing ▸ decideFraming_contentLength (q := (· < 2 ^ 63)) (by decide) (fun _ _ => lengthValue_lt) _
  have hfits := w.fits
  have htotal := hhead.total
  obtain ⟨hout, wire, htakes, -⟩ := readBody_ok hnil (hsame ▸ hnonneg) hread
  have hbodyEnd : req.bodyEnd = (readBody base wb).2.consumed := congrArg WireRequest.bodyEnd hout
  have hrest := htakes.total
  have hoverlap : req.framing.mode = .chunked → req.framing.hasCL = true →
      (req.framing.teUnderscore || req.framing.teCtl) = true →
      ((((frameCheck req hopProto internal).isSome ↔ (req.bodyEnd : ℤ) < req.bodyStart + req.framing.contentLength) ∧
        ∀ fw ∈ frameCheck req hopProto internal,
          fw.overlap = req.bodyStart + req.framing.contentLength - req.bodyEnd) ↔
      req.bodyStart + req.framing.contentLength < 2 ^ 63) := by
    intro hmode hlength hcoding
    have hcheck := frameCheck_chunked hopProto internal hmode hlength hcoding
    constructor
    · rintro ⟨harmed, -⟩
      by_contra hover
      have hbelow : wrap (req.bodyStart + req.framing.contentLength) ≤ req.bodyEnd := by
        unfold wrap
        omega
      rw [if_pos hbelow, Option.map_eq_none_iff] at hcheck
      rw [hcheck] at harmed
      exact absurd (harmed.mpr (by omega)) Bool.false_ne_true
    · intro hrange
      have hexact : wrap (req.bodyStart + req.framing.contentLength) = req.bodyStart + req.framing.contentLength := by
        unfold wrap
        omega
      rw [hexact] at hcheck
      by_cases hless : (req.bodyStart : ℤ) + req.framing.contentLength ≤ req.bodyEnd
      · rw [if_pos hless, Option.map_eq_none_iff] at hcheck
        rw [hcheck]
        exact ⟨iff_of_false Bool.false_ne_true (by omega), fun fw hfw => by cases hfw⟩
      · rw [if_neg hless] at hcheck
        obtain ⟨fw, hfw, hvalue⟩ := Option.map_eq_some_iff.mp hcheck
        rw [hfw]
        refine ⟨iff_of_true rfl (by omega), fun fw' hfw' => ?_⟩
        obtain rfl := Option.some.inj hfw'
        rw [hvalue]
        unfold wrap
        omega
  have hfirst : req.framing.mode ≠ .chunked →
      ((∀ off, firstChunkEnd req.bodyStart req.rawBody = some off →
        (firstChunkDone ⟨req.rawBody ++ (readRequest w.toConn).2.rest, req.bodyStart⟩).map (fun n : ℕ => (n : ℤ)) =
          some off) ↔
      ((declaredChunk req.rawBody).isSome → Regular (req.rawBody ++ (readRequest w.toConn).2.rest))) := by
    intro hmode
    have htaken := readBody_raw hraw (hsame ▸ hmode) hread
    have hbound : req.bodyStart + (req.rawBody ++ (readRequest w.toConn).2.rest).length < 2 ^ 63 := by
      rw [← hend, ← htaken.rest]
      omega
    constructor
    · intro hall hsome
      obtain ⟨d, hd⟩ := Option.isSome_iff_exists.mp hsome
      have hoff : ∃ off, firstChunkEnd req.bodyStart req.rawBody = some off := by
        rw [firstChunkEnd, hd]
        exact ⟨_, rfl⟩
      obtain ⟨off, hoff⟩ := hoff
      exact (firstChunkEnd_iff hbound hoff).mp (hall off hoff)
    · intro hregular off hoff
      obtain ⟨d, hd, -⟩ := Option.map_eq_some_iff.mp hoff
      exact (firstChunkEnd_iff hbound hoff).mpr (hregular (Option.isSome_iff_exists.mpr ⟨d, hd⟩))
  constructor
  · rintro ⟨hover, hone⟩
    exact ⟨fun hmode hlength hcoding => (hoverlap hmode hlength hcoding).mp (hover hmode hlength hcoding),
      fun hmode hcoding => (hfirst hmode).mp (hone hmode hcoding)⟩
  · rintro ⟨hover, hone⟩
    exact ⟨fun hmode hlength hcoding => (hoverlap hmode hlength hcoding).mpr (hover hmode hlength hcoding),
      fun hmode hcoding => (hfirst hmode).mpr (hone hmode hcoding)⟩

end watch

/-! ## A length at the end of the range -/

theorem readChunked_last {l e : Bytes} (hl : IsLine l) (hlength : l.length ≤ maxHeaderLine)
    (hsome : sizeText (trimEol l) ≠ []) (hsize : chunkSize l = some 0) (he : IsLine e)
    (hshort : e.length ≤ maxHeaderLine) (hempty : trimEol e = []) (out s : Bytes) (c : ℕ) :
    readChunked out ⟨l ++ (e ++ s), c⟩ = (.ok out, ⟨s, c + l.length + e.length⟩) := by
  have htrailer : readTrailer ⟨e ++ s, c + l.length⟩ = (.ok (), ⟨s, c + l.length + e.length⟩) := by
    rw [readTrailer.eq_def, readLine_line he hshort]
    dsimp only
    rw [if_pos hempty]
  have hturn : readTurn out.length ⟨l ++ (e ++ s), c⟩ = (.ok .last, ⟨s, c + l.length + e.length⟩) := by
    have hread : (parseInt 16 (sizeText (trimEol l))).filter (0 ≤ ·) = some 0 := hsize
    rw [readTurn, readLine_line hl hlength]
    dsimp only
    rw [if_neg hsome, hread]
    dsimp only
    rw [if_pos rfl, htrailer]
    rfl
  rw [readChunked.eq_def, hturn]

def codingText : Bytes := text "Transfer_Encoding: chunked"

/-- A request with both framings: a length line, and a chunked body without chunks. -/
def bothFramings (lengthLine : Bytes) : Conn :=
  ⟨requestText ++ [10] ++ (lengthLine ++ [10] ++ (codingText ++ [10] ++ ([] ++ [10] ++ [48, 10, 10]))), 0⟩

theorem bothFramings_read (lengthLine : Bytes) (hline : (10 : UInt8) ∉ lengthLine)
    (hshort : lengthLine.length < maxHeaderLine) (htrim : trimEol (lengthLine ++ [10]) = lengthLine)
    (hsome : lengthLine ≠ []) :
    let _ := GoRuntime.ascii
    (headerOf lengthLine).isSome → (decideFraming ((headerOf lengthLine).toList ++ (headerOf codingText).toList)).mode
        = .chunked →
      ∃ req, (readRequest (bothFramings lengthLine)).1 = .ok req ∧
        req.framing = decideFraming ((headerOf lengthLine).toList ++ (headerOf codingText).toList) ∧
        req.bodyStart = lengthLine.length + 53 ∧ req.bodyEnd = lengthLine.length + 56 := by
  intro rt hheader hmode
  have hstart : readStart (bothFramings lengthLine) = (.ok (requestText, 0), ⟨_, _⟩) :=
    readStart_append (by decide +kernel) (by decide +kernel) (by decide +kernel) _ 0
  have hcoding : trimEol (codingText ++ [10]) = codingText := by decide +kernel
  have hlines : ∀ (s : Bytes) (c : ℕ),
      readHeaders [] ⟨lengthLine ++ [10] ++ (codingText ++ [10] ++ ([] ++ [10] ++ s)), c⟩ =
        (.ok ((headerOf lengthLine).toList ++ (headerOf codingText).toList), ⟨s, c + lengthLine.length + 29⟩) := by
    intro s c
    obtain ⟨header, hh⟩ := Option.isSome_iff_exists.mp hheader
    have hfew : ¬maxHeaderCount ≤ (some header).toList.length := (by decide : ¬100 ≤ 1)
    have hlength : (codingText ++ [10]).length = 27 := by decide +kernel
    rw [readHeaders_append hline hshort, htrim, if_neg hsome, if_neg (by decide), nil_append, hh,
      readHeaders_append (by decide +kernel) (by decide +kernel), hcoding, if_neg (by decide +kernel), if_neg hfew,
      readHeaders_append not_mem_nil (by decide), if_pos (by decide), hlength, length_append]
    rfl
  have hrequest : requestLine requestText = some (text "POST", text "/api/cart", text "HTTP/1.1") := by decide +kernel
  have hread := readRequest_of_head hstart hrequest (hlines _ _)
  have hbody : ∀ c, readChunked [] ⟨[48, 10, 10], c⟩ = (.ok [], ⟨[], c + 3⟩) := fun c =>
    readChunked_last (l := [48, 10]) (e := [10]) ⟨[48], rfl, by decide⟩ (by decide) (by decide +kernel)
      (by decide +kernel) ⟨[], rfl, by decide⟩ (by decide) (by decide) [] [] c
  have hcount : (requestText ++ [10]).length = 24 := by decide +kernel
  rw [readBody] at hread
  dsimp only at hread
  rw [hmode] at hread
  dsimp only at hread
  rw [hbody] at hread
  refine ⟨_, congrArg Prod.fst hread, rfl, ?_, ?_⟩
  · dsimp only
    rw [hcount]
    omega
  · dsimp only
    rw [hcount]
    omega

/-- A length of 64 bytes, and the largest that is read. -/
def shortLine : Bytes := text "Content-Length: 64"

def longLine : Bytes := text "Content-Length: 9223372036854775807"

/-- The sum of start and length is wrapped, and no watch is armed. -/
theorem long_length_unwatched :
    let _ := GoRuntime.ascii
    ∃ w req, w.consumed + w.rest.length < 2 ^ 63 ∧ (readRequest w).1 = .ok req ∧ req.framing.mode = .chunked ∧
      req.framing.hasCL = true ∧ req.framing.teUnderscore = true ∧
      (req.bodyEnd : ℤ) < req.bodyStart + req.framing.contentLength ∧
      ∀ hopProto internal, frameCheck req hopProto internal = none := by
  intro rt
  have hmode : (decideFraming ((headerOf longLine).toList ++ (headerOf codingText).toList)).mode = .chunked := by
    decide +kernel
  have hfields : (decideFraming ((headerOf longLine).toList ++ (headerOf codingText).toList)).hasCL = true ∧
      (decideFraming ((headerOf longLine).toList ++ (headerOf codingText).toList)).teUnderscore = true ∧
      (decideFraming ((headerOf longLine).toList ++ (headerOf codingText).toList)).contentLength = 2 ^ 63 - 1 := by
    decide +kernel
  obtain ⟨req, hread, hframing, hstart, hend⟩ := bothFramings_read longLine (by decide +kernel)
    (by decide +kernel) (by decide +kernel) (by decide +kernel) (by decide +kernel) hmode
  have hcount : longLine.length = 35 := by decide +kernel
  rw [hcount] at hstart hend
  rw [← hframing] at hmode hfields
  obtain ⟨hlength, hunderscore, hvalue⟩ := hfields
  refine ⟨_, req, by decide +kernel, hread, hmode, hlength, hunderscore, ?_, fun hopProto internal => ?_⟩
  · rw [hstart, hend, hvalue]
    decide
  · have hcheck := frameCheck_chunked hopProto internal hmode hlength
      (by rw [hunderscore]; rfl)
    rw [hstart, hend, hvalue, if_pos (by decide)] at hcheck
    exact Option.map_eq_none_iff.mp hcheck

/-- A length of 64 bytes is watched. -/
theorem short_length_watched :
    let _ := GoRuntime.ascii
    ∃ (w : Stream) (req : WireRequest), (readRequest w.toConn).1 = .ok req ∧ req.framing.teUnderscore = true ∧
      ExactWatch w req [] false := by
  intro rt
  have hmode : (decideFraming ((headerOf shortLine).toList ++ (headerOf codingText).toList)).mode = .chunked := by
    decide +kernel
  have hfields : (decideFraming ((headerOf shortLine).toList ++ (headerOf codingText).toList)).teUnderscore = true ∧
      (decideFraming ((headerOf shortLine).toList ++ (headerOf codingText).toList)).contentLength = 64 := by
    decide +kernel
  obtain ⟨req, hread, hframing, hstart, hend⟩ := bothFramings_read shortLine (by decide +kernel)
    (by decide +kernel) (by decide +kernel) (by decide +kernel) (by decide +kernel) hmode
  have hcount : shortLine.length = 18 := by decide +kernel
  rw [hcount] at hstart
  rw [← hframing] at hmode hfields
  refine ⟨⟨bothFramings shortLine, by decide +kernel⟩, req, hread, hfields.1, ?_⟩
  refine (exactWatch_iff _ hread [] false).mpr ⟨fun _ _ _ => ?_, fun hother => absurd hmode hother⟩
  rw [hstart, hfields.2]
  decide

end PtaasBench.Edge.Wire
