import PtaasBench.EdgeResolver.DnsWire
import PtaasBench.Lib.Fallible

/-!
# PtaasBench.EdgeResolver.DnsRoundTrip — what the codec writes, it reads

Names first, wherever they stand in a buffer and through the pointer to the question; then the fixed
parts; then whole queries and responses.
-/

namespace PtaasBench.EdgeResolver.DnsWire

open Py Lib List

/-! ## Names -/

section Names

variable {data before after : Bytes} {pointed : ℕ → Fallible (List Label × ℕ)}

theorem encodeLabels_cons (l : Label) (ls : List Label) :
    encodeLabels (l :: ls) = (UInt8.ofNat l.1.length :: l.1) ++ encodeLabels ls := by
  rw [encodeLabels, encodeLabels, flatMap_cons, append_assoc]

theorem length_encodeLabels_cons (l : Label) (ls : List Label) :
    (encodeLabels (l :: ls)).length = l.1.length + 1 + (encodeLabels ls).length := by
  rw [encodeLabels_cons, length_append, length_cons]

theorem length_lt_encodeLabels (ls : List Label) : ls.length < (encodeLabels ls).length := by
  induction ls with
  | nil => decide
  | cons l ls ih =>
    rw [length_encodeLabels_cons, length_cons]
    omega

/-- One turn on a label. -/
theorem parseLabels_label (l : Label) (turns : ℕ) :
    parseLabels (before ++ ((UInt8.ofNat l.1.length :: l.1) ++ after)) pointed (turns + 1) before.length =
      (parseLabels (before ++ ((UInt8.ofNat l.1.length :: l.1) ++ after)) pointed turns
        (before.length + (l.1.length + 1))).map fun rest => (l :: rest.1, rest.2) := by
  obtain ⟨hpos, hle⟩ := l.2
  have hbyte : (UInt8.ofNat l.1.length).toNat = l.1.length := by
    rw [UInt8.toNat_ofNat']
    omega
  have hbits : ∀ n ≤ 63, n &&& 0xC0 = 0 := by decide
  have hslice : slice (before ++ ((UInt8.ofNat l.1.length :: l.1) ++ after)) (before.length + 1)
      (before.length + 1 + l.1.length) = l.1 := by
    rw [show before ++ ((UInt8.ofNat l.1.length :: l.1) ++ after) =
      (before ++ [UInt8.ofNat l.1.length]) ++ (l.1 ++ after) by simp]
    exact slice_append (by simp) (by simp)
  have hroom : before.length + 1 + l.1.length ≤
      (before ++ ((UInt8.ofNat l.1.length :: l.1) ++ after)).length := by
    simp only [length_append, length_cons]
    omega
  rw [parseLabels, cons_append, getElem?_middle]
  dsimp only
  simp only [hbyte]
  rw [dif_neg (by omega), if_neg (by rw [hbits _ hle]; decide), dif_pos (hbits _ hle),
    dif_pos (by simpa using hroom)]
  have hlabel : ∀ h, (⟨slice (before ++ UInt8.ofNat l.1.length :: (l.1 ++ after)) (before.length + 1)
      (before.length + 1 + l.1.length), h⟩ : Label) = l := fun h => Subtype.ext hslice
  rw [hlabel, Nat.add_assoc, Nat.add_comm 1]

theorem parseLabels_end (turns : ℕ) :
    parseLabels (before ++ (0 :: after)) pointed (turns + 1) before.length =
      .ok ([], before.length + 1) := by
  rw [parseLabels, getElem?_middle]
  rfl

theorem parseLabels_encode (labels : List Label) {turns : ℕ} (hturns : labels.length < turns) :
    parseLabels (before ++ (encodeLabels labels ++ after)) pointed turns before.length =
      .ok (labels, before.length + (encodeLabels labels).length) := by
  induction labels generalizing before turns with
  | nil =>
    obtain ⟨turns, rfl⟩ : ∃ n, turns = n + 1 := ⟨turns - 1, by simp at hturns; omega⟩
    exact parseLabels_end turns
  | cons l ls ih =>
    obtain ⟨turns, rfl⟩ : ∃ n, turns = n + 1 := ⟨turns - 1, by simp at hturns; omega⟩
    rw [length_cons] at hturns
    have hrest : parseLabels ((before ++ (UInt8.ofNat l.1.length :: l.1)) ++ (encodeLabels ls ++ after)) pointed
        turns (before ++ (UInt8.ofNat l.1.length :: l.1)).length = _ := ih (by omega)
    rw [append_assoc, ← append_assoc _ (encodeLabels ls), ← encodeLabels_cons] at hrest
    rw [length_append, length_cons] at hrest
    have hturn : parseLabels (before ++ ((UInt8.ofNat l.1.length :: l.1) ++ (encodeLabels ls ++ after))) pointed
        (turns + 1) before.length = _ := parseLabels_label l turns
    rw [← append_assoc _ (encodeLabels ls), ← encodeLabels_cons] at hturn
    rw [hturn, hrest, length_encodeLabels_cons, Nat.add_assoc before.length]
    rfl

/-- A name is read where it stands, at any depth. -/
theorem parseNameAt_encode (depth : ℕ) (labels : List Label) :
    parseNameAt (before ++ (encodeLabels labels ++ after)) (depth + 1) before.length =
      .ok (labels, before.length + (encodeLabels labels).length) := by
  have hlength := length_lt_encodeLabels labels
  rw [parseNameAt]
  refine parseLabels_encode labels ?_
  rw [length_append, length_append]
  omega

theorem parseName_encode (labels : List Label) :
    parseName (before ++ (encodeLabels labels ++ after)) before.length =
      .ok (labels, before.length + (encodeLabels labels).length) :=
  parseNameAt_encode 10 labels

/-- The pointer to offset 12 is read as the name that is there. -/
theorem parseName_pointer {labels : List Label} {stop : ℕ}
    (hname : parseNameAt (before ++ (qnamePointer ++ after)) 10 12 = .ok (labels, stop)) :
    parseName (before ++ (qnamePointer ++ after)) before.length = .ok (labels, before.length + 2) := by
  have hlow : (before ++ (qnamePointer ++ after))[before.length + 1]? = some 0x0C := by
    rw [List.getElem?_append_right (by omega), Nat.add_sub_cancel_left]
    rfl
  rw [parseName, parseNameAt, parseLabels, show before ++ (qnamePointer ++ after) =
    before ++ (0xC0 :: (0x0C :: after)) from rfl, getElem?_middle]
  dsimp only
  rw [dif_neg (by decide), if_pos (by decide), show before ++ (0xC0 :: (0x0C :: after)) =
    before ++ (qnamePointer ++ after) from rfl, hlow]
  dsimp only
  rw [show ((0xC0 : UInt8).toNat &&& 0x3F) <<< 8 ||| (0x0C : UInt8).toNat = 12 by decide, hname]
  rfl

end Names

/-! ## Numbers -/

theorem pack_eq_ok {width n : ℕ} {bs : Bytes} :
    pack width n = .ok bs ↔ n < 256 ^ width ∧ bs = beBytes width n := by
  unfold pack
  split_ifs with h
  · simp only [Except.ok.injEq, h, true_and]
    exact eq_comm
  · simp [h]

/-- Packing numbers puts the bytes of each behind those of the last. -/
theorem packAll_eq_ok {fields : List (ℕ × ℕ)} {bs : Bytes} :
    packAll fields = .ok bs ↔
      (∀ f ∈ fields, f.2 < 256 ^ f.1) ∧ bs = fields.flatMap fun f => beBytes f.1 f.2 := by
  have hall : ∀ (fs : List (ℕ × ℕ)) (parts : List Bytes),
      List.Forall₂ (fun f part => pack f.1 f.2 = .ok part) fs parts ↔
        (∀ f ∈ fs, f.2 < 256 ^ f.1) ∧ parts = fs.map fun f => beBytes f.1 f.2 := by
    intro fs
    induction fs with
    | nil => simp [forall₂_nil_left_iff]
    | cons f fs ih =>
      intro parts
      constructor
      · intro h
        cases h with
        | cons hf hfs =>
          obtain ⟨hlt, rfl⟩ := pack_eq_ok.mp hf
          obtain ⟨hrest, rfl⟩ := (ih _).mp hfs
          exact ⟨by simpa using ⟨hlt, by simpa using hrest⟩, rfl⟩
      · rintro ⟨hlt, rfl⟩
        rw [forall_mem_cons] at hlt
        exact .cons (pack_eq_ok.mpr ⟨hlt.1, rfl⟩) ((ih _).mpr ⟨hlt.2, rfl⟩)
  rw [packAll, map_eq_ok]
  constructor
  · rintro ⟨parts, hparts, rfl⟩
    obtain ⟨hlt, rfl⟩ := (hall _ _).mp (mapM_eq_ok.mp hparts)
    exact ⟨hlt, rfl⟩
  · rintro ⟨hlt, rfl⟩
    exact ⟨_, mapM_eq_ok.mpr ((hall _ _).mpr ⟨hlt, rfl⟩), rfl⟩

theorem word_append {before after : Bytes} {n pos : ℕ} (h : n < 65536) (hpos : pos = before.length) :
    word (before ++ (beBytes 2 n ++ after)) pos = n := by
  rw [word, slice_append hpos (by rw [length_beBytes, hpos]), beNat_beBytes h]

/-- The six numbers of a header. -/
def headerBytes (txid flags qdcount ancount nscount : ℕ) : Bytes :=
  beBytes 2 txid ++ (beBytes 2 flags ++ (beBytes 2 qdcount ++ (beBytes 2 ancount ++
    (beBytes 2 nscount ++ beBytes 2 0))))

section Header

variable {txid flags qdcount ancount nscount : ℕ}

@[simp] theorem length_headerBytes : (headerBytes txid flags qdcount ancount nscount).length = 12 := by
  simp [headerBytes]

theorem packAll_header {header : Bytes}
    (h : packAll [(2, txid), (2, flags), (2, qdcount), (2, ancount), (2, nscount), (2, 0)] = .ok header) :
    header = headerBytes txid flags qdcount ancount nscount ∧ txid < 65536 ∧ flags < 65536 ∧
      qdcount < 65536 ∧ ancount < 65536 := by
  obtain ⟨hlt, rfl⟩ := packAll_eq_ok.mp h
  simp only [forall_mem_cons] at hlt
  obtain ⟨htxid, hflags, hqd, han, -, -, -⟩ := hlt
  exact ⟨by simp [headerBytes], htxid, hflags, hqd, han⟩

variable (rest : Bytes)

theorem word_header_txid (h : txid < 65536) :
    word (headerBytes txid flags qdcount ancount nscount ++ rest) 0 = txid := by
  rw [headerBytes, append_assoc, ← nil_append (beBytes 2 txid ++ _)]
  exact word_append h rfl

theorem word_header_flags (h : flags < 65536) :
    word (headerBytes txid flags qdcount ancount nscount ++ rest) 2 = flags := by
  rw [headerBytes, append_assoc, append_assoc]
  exact word_append h (length_beBytes 2 txid).symm

theorem word_header_qdcount (h : qdcount < 65536) :
    word (headerBytes txid flags qdcount ancount nscount ++ rest) 4 = qdcount := by
  rw [headerBytes, append_assoc, append_assoc, append_assoc, ← append_assoc]
  exact word_append h (by simp)

theorem word_header_ancount (h : ancount < 65536) :
    word (headerBytes txid flags qdcount ancount nscount ++ rest) 6 = ancount := by
  rw [headerBytes, append_assoc, append_assoc, append_assoc, append_assoc,
    ← append_assoc, ← append_assoc]
  exact word_append h (by simp)

end Header

/-! ## Questions -/

/-- The bytes of a question. -/
def Question.bytes (q : Question) : Bytes :=
  encodeLabels q.labels ++ (beBytes 2 q.qtype ++ beBytes 2 q.qclass)

/-- The offset past a question at offset 12. -/
def Question.stop (q : Question) : ℕ := 12 + q.bytes.length

theorem length_question (q : Question) : q.bytes.length = (encodeLabels q.labels).length + 4 := by
  simp [Question.bytes]

theorem questionBytes_some {q : Question} {bs : Bytes} (h : questionBytes (some q) = .ok bs) :
    bs = q.bytes ∧ q.qtype < 65536 ∧ q.qclass < 65536 := by
  obtain ⟨tail, htail, heq⟩ := bind_eq_ok.mp h
  obtain ⟨hlt, rfl⟩ := packAll_eq_ok.mp htail
  obtain rfl := Except.ok.inj heq
  simp only [forall_mem_cons] at hlt
  exact ⟨by simp [Question.bytes], hlt.1, hlt.2.1⟩

section Parse

variable {header after : Bytes} {q : Question}

theorem parseName_question (hheader : header.length = 12) :
    parseName (header ++ (q.bytes ++ after)) 12 = .ok (q.labels, 12 + (encodeLabels q.labels).length) := by
  have h : parseName (header ++ (encodeLabels q.labels ++ (beBytes 2 q.qtype ++ beBytes 2 q.qclass ++ after)))
      header.length = _ := parseName_encode q.labels
  rw [hheader, ← append_assoc (encodeLabels q.labels)] at h
  exact h

theorem word_qtype (hheader : header.length = 12) (h : q.qtype < 65536) :
    word (header ++ (q.bytes ++ after)) (12 + (encodeLabels q.labels).length) = q.qtype := by
  rw [Question.bytes, append_assoc, append_assoc, ← append_assoc]
  exact word_append h (by rw [length_append, hheader])

theorem word_qclass (hheader : header.length = 12) (h : q.qclass < 65536) :
    word (header ++ (q.bytes ++ after)) (12 + (encodeLabels q.labels).length + 2) = q.qclass := by
  rw [Question.bytes, append_assoc, append_assoc, ← append_assoc, ← append_assoc]
  exact word_append h (by rw [length_append, length_append, hheader, length_beBytes])

theorem room_question (hheader : header.length = 12) :
    ¬ (header ++ (q.bytes ++ after)).length < 12 + (encodeLabels q.labels).length + 4 := by
  rw [length_append, length_append, hheader, length_question]
  omega

theorem parseQuestions_one (hheader : header.length = 12) (htype : q.qtype < 65536)
    (hclass : q.qclass < 65536) :
    parseQuestions (header ++ (q.bytes ++ after)) 1 12 = .ok (some q, q.stop) := by
  have hstop : 12 + (encodeLabels q.labels).length + 4 = q.stop := by
    rw [Question.stop, length_question, Nat.add_assoc]
  rw [parseQuestions, parseName_question hheader]
  dsimp only
  rw [if_neg (room_question hheader), word_qtype hheader htype, word_qclass hheader hclass,
    parseQuestions, hstop]
  rfl

end Parse

/-- A message with a question is read as a query. -/
theorem parseQuery_question {txid flags qdcount : ℕ} (ancount nscount : ℕ) {q : Question} (htxid : txid < 65536)
    (hflags : flags < 65536) (hqdcount : qdcount < 65536) (hpos : qdcount ≠ 0) (htype : q.qtype < 65536)
    (hclass : q.qclass < 65536) (rest : Bytes) :
    parseQuery (headerBytes txid flags qdcount ancount nscount ++ (q.bytes ++ rest)) =
      .ok
        { txid := txid
          flags := flags
          question := some q
          qdcount := qdcount
          raw := headerBytes txid flags qdcount ancount nscount ++ (q.bytes ++ rest)
          trailing := rest } := by
  have hlength : ¬ (headerBytes txid flags qdcount ancount nscount ++ (q.bytes ++ rest)).length < 12 := by
    rw [length_append, length_headerBytes]
    omega
  have hrest : (headerBytes txid flags qdcount ancount nscount ++ (q.bytes ++ rest)).drop
      (12 + (encodeLabels q.labels).length + 4) = rest := by
    rw [← append_assoc]
    exact drop_left' (by rw [length_append, length_headerBytes, length_question]; omega)
  rw [parseQuery, if_neg hlength, word_header_qdcount _ hqdcount, if_neg hpos,
    parseName_question length_headerBytes]
  dsimp only
  rw [if_neg (room_question length_headerBytes), hrest, word_header_txid _ htxid,
    word_header_flags _ hflags, word_qtype length_headerBytes htype, word_qclass length_headerBytes hclass]

theorem latin1_of_encode {part : String} {bs : Bytes} (h : encodeLatin1 part = .ok bs) : latin1 bs = part := by
  unfold encodeLatin1 at h
  split_ifs at h with hall
  obtain rfl := Except.ok.inj h
  have hback : (part.toList.map fun c => UInt8.ofNat c.toNat).map (fun b => Char.ofNat b.toNat) =
      part.toList := by
    rw [map_map]
    refine (map_congr_left fun c hc => ?_).trans (map_id _)
    have hc := of_decide_eq_true (all_eq_true.mp hall c hc)
    rw [Function.comp_apply, UInt8.toNat_ofNat', Nat.mod_eq_of_lt hc, Char.ofNat_toNat]
    rfl
  rw [latin1, hback, String.ofList_toList]

/-- The labels of a name in text are the parts between its dots. -/
theorem latin1_labelsOf {name : String} {labels : List Label} (h : labelsOf name = .ok labels) :
    labels.map (fun l => latin1 l.1) = nameParts name := by
  obtain ⟨encoded, hencoded, hlabels⟩ := bind_eq_ok.mp h
  have hcheck : encoded = labels.map Subtype.val := by
    have hall := mapM_eq_ok.mp hlabels
    clear hencoded hlabels h
    induction hall with
    | nil => rfl
    | cons hl _ ih =>
      unfold checkLabel at hl
      split_ifs at hl
      rw [ih, map_cons, ← Except.ok.inj hl]
  have hall := mapM_eq_ok.mp hencoded
  have hmap : ∀ (parts : List String) (bss : List Bytes),
      List.Forall₂ (fun part bs => encodeLatin1 part = .ok bs) parts bss → bss.map latin1 = parts := by
    intro parts bss hparts
    induction hparts with
    | nil => rfl
    | cons hp _ ih => rw [map_cons, ih, latin1_of_encode hp]
  rw [← hmap _ _ hall, hcheck, map_map]
  rfl

/-- **A query is read back as it was built**, for the name in its labels. -/
theorem parseQuery_buildQuery {name : String} {qtype txid : ℕ} {message : Bytes}
    (h : buildQuery name qtype txid = .ok message) :
    ∃ labels, labelsOf name = .ok labels ∧
      parseQuery message =
        .ok
          { txid := txid
            flags := 0x0100
            question := some { labels := labels, qtype := qtype, qclass := classIn }
            qdcount := 1
            raw := message
            trailing := [] } := by
  obtain ⟨header, hheader, h⟩ := bind_eq_ok.mp h
  obtain ⟨encoded, hencoded, h⟩ := bind_eq_ok.mp h
  obtain ⟨tail, htail, h⟩ := bind_eq_ok.mp h
  obtain ⟨labels, hlabels, rfl⟩ := map_eq_ok.mp hencoded
  obtain ⟨rfl, htxid, -, -, -⟩ := packAll_header hheader
  obtain ⟨hlt, rfl⟩ := packAll_eq_ok.mp htail
  obtain rfl := Except.ok.inj h
  simp only [forall_mem_cons] at hlt
  refine ⟨labels, hlabels, ?_⟩
  have hparse := parseQuery_question (q := { labels := labels, qtype := qtype, qclass := classIn }) 0 0 htxid
    (show 0x0100 < 65536 by decide) (show 1 < 65536 by decide)
    (by decide) hlt.1 (show classIn < 65536 by decide) []
  have hbytes : headerBytes txid 0x0100 1 0 0 ++ encodeLabels labels ++
      [(2, qtype), (2, classIn)].flatMap (fun f => beBytes f.1 f.2) =
        headerBytes txid 0x0100 1 0 0 ++
          (Question.bytes { labels := labels, qtype := qtype, qclass := classIn } ++ []) := by
    simp [Question.bytes]
  rw [hbytes]
  exact hparse

/-! ## Records -/

/-- The bytes of an answer. -/
def answerBytes (ttl : ℕ) (a : ℕ × Bytes) : Bytes :=
  qnamePointer ++ (beBytes 2 a.1 ++ (beBytes 2 classIn ++ (beBytes 4 ttl ++ (beBytes 2 a.2.length ++ a.2))))

theorem record_eq_ok {rrtype ttl : ℕ} {rdata bs : Bytes} (h : record qnamePointer rrtype ttl rdata = .ok bs) :
    bs = answerBytes ttl (rrtype, rdata) ∧ rrtype < 65536 ∧ ttl < 256 ^ 4 ∧ rdata.length < 65536 := by
  obtain ⟨fixed, hfixed, heq⟩ := bind_eq_ok.mp h
  obtain ⟨hlt, rfl⟩ := packAll_eq_ok.mp hfixed
  obtain rfl := Except.ok.inj heq
  simp only [forall_mem_cons] at hlt
  obtain ⟨htype, -, httl, hlen, -⟩ := hlt
  exact ⟨by simp [answerBytes], htype, httl, hlen⟩

theorem length_answerBytes (ttl : ℕ) (a : ℕ × Bytes) : (answerBytes ttl a).length = 12 + a.2.length := by
  simp only [answerBytes, qnamePointer, length_append, length_beBytes, length_cons,
    length_nil]
  omega

/-- An answer as it is read, under the name of the question. -/
def readAnswer [Runtime] (labels : List Label) (ttl : ℕ) (a : ℕ × Bytes) : Record where
  name := dotted labels
  rrtype := a.1
  rrclass := classIn
  ttl := ttl
  rdata := a.2

section Records

variable {before after : Bytes} {labels : List Label} {ttl : ℕ}

/-- The fields of an answer, where they stand. -/
theorem read_answerBytes (before after : Bytes) {a : ℕ × Bytes} (htype : a.1 < 65536) (httl : ttl < 256 ^ 4)
    (hlen : a.2.length < 65536) :
    let data := before ++ (answerBytes ttl a ++ after)
    let pos := before.length + 2
    word data pos = a.1 ∧ word data (pos + 2) = classIn ∧
      beNat (slice data (pos + 4) (pos + 8)) = ttl ∧ word data (pos + 8) = a.2.length ∧
      slice data (pos + 10) (pos + 10 + a.2.length) = a.2 := by
  intro data pos
  have hdata : data = before ++ (qnamePointer ++ (beBytes 2 a.1 ++ (beBytes 2 classIn ++ (beBytes 4 ttl ++
      (beBytes 2 a.2.length ++ (a.2 ++ after)))))) := by
    simp [data, answerBytes]
  have hpointer : qnamePointer.length = 2 := rfl
  refine ⟨?_, ?_, ?_, ?_, ?_⟩
  · rw [hdata, ← append_assoc before]
    exact word_append htype (by simp [pos, hpointer])
  · rw [hdata, ← append_assoc before, ← append_assoc (before ++ qnamePointer)]
    exact word_append (by decide) (by simp [pos, hpointer])
  · rw [hdata, ← append_assoc before, ← append_assoc (before ++ qnamePointer),
      ← append_assoc (before ++ qnamePointer ++ beBytes 2 a.1),
      slice_append (by simp [pos, hpointer]) (by simp [pos, hpointer]), beNat_beBytes httl]
  · rw [hdata, ← append_assoc before, ← append_assoc (before ++ qnamePointer),
      ← append_assoc (before ++ qnamePointer ++ beBytes 2 a.1),
      ← append_assoc (before ++ qnamePointer ++ beBytes 2 a.1 ++ beBytes 2 classIn)]
    exact word_append hlen (by simp [pos, hpointer])
  · rw [hdata, ← append_assoc before, ← append_assoc (before ++ qnamePointer),
      ← append_assoc (before ++ qnamePointer ++ beBytes 2 a.1),
      ← append_assoc (before ++ qnamePointer ++ beBytes 2 a.1 ++ beBytes 2 classIn),
      ← append_assoc (before ++ qnamePointer ++ beBytes 2 a.1 ++ beBytes 2 classIn ++ beBytes 4 ttl)]
    exact slice_append (by simp [pos, hpointer]) (by simp [pos, hpointer])

/-- One record of the answer section. -/
theorem parseRecords_cons [Runtime] {a : ℕ × Bytes} (count : ℕ) (htype : a.1 < 65536) (httl : ttl < 256 ^ 4)
    (hlen : a.2.length < 65536) {stop : ℕ}
    (hname : parseNameAt (before ++ (answerBytes ttl a ++ after)) 10 12 = .ok (labels, stop)) :
    parseRecords (before ++ (answerBytes ttl a ++ after)) (count + 1) before.length =
      (parseRecords (before ++ (answerBytes ttl a ++ after)) count
        (before.length + (answerBytes ttl a).length)).map fun rest => readAnswer labels ttl a :: rest := by
  obtain ⟨h1, h2, h3, h4, h5⟩ := read_answerBytes before after htype httl hlen
  have hpointer : parseName (before ++ (answerBytes ttl a ++ after)) before.length =
      .ok (labels, before.length + 2) := by
    rw [answerBytes, append_assoc] at hname ⊢
    exact parseName_pointer hname
  have hlength := length_answerBytes ttl a
  rw [parseRecords, hpointer]
  dsimp only
  rw [h1, h2, h3, h4, h5, if_neg (by simp only [length_append, hlength]; omega),
    if_neg (by simp only [length_append, hlength]; omega), hlength,
    show before.length + 2 + 10 + a.2.length = before.length + (12 + a.2.length) by omega]
  rfl

end Records

/-- The answer section is read back, whatever stands behind it. -/
theorem parseRecords_answers [Runtime] {labels : List Label} {ttl : ℕ} (stop : ℕ) (httl : ttl < 256 ^ 4)
    (answers : List (ℕ × Bytes)) (hanswers : ∀ a ∈ answers, a.1 < 65536 ∧ a.2.length < 65536)
    (before after : Bytes)
    (hname : parseNameAt (before ++ (answers.flatMap (answerBytes ttl) ++ after)) 10 12 = .ok (labels, stop)) :
    parseRecords (before ++ (answers.flatMap (answerBytes ttl) ++ after)) answers.length before.length =
      .ok (answers.map (readAnswer labels ttl)) := by
  induction answers generalizing before with
  | nil => rfl
  | cons a answers ih =>
    rw [forall_mem_cons] at hanswers
    rw [flatMap_cons, append_assoc] at hname ⊢
    rw [length_cons, parseRecords_cons _ hanswers.1.1 httl hanswers.1.2 hname,
      ← length_append, ← append_assoc before]
    rw [← append_assoc before] at hname
    rw [ih hanswers.2 (before ++ answerBytes ttl a) hname]
    rfl

/-- The answers behind the question they point to. -/
theorem parseRecords_behind_question [Runtime] {header after : Bytes} {q : Question} (hheader : header.length = 12)
    {ttl : ℕ} {answers : List (ℕ × Bytes)} (httl : answers ≠ [] → ttl < 256 ^ 4)
    (hanswers : ∀ a ∈ answers, a.1 < 65536 ∧ a.2.length < 65536) :
    parseRecords (header ++ (q.bytes ++ (answers.flatMap (answerBytes ttl) ++ after))) answers.length q.stop =
      .ok (answers.map (readAnswer q.labels ttl)) := by
  rcases hnil : answers with _ | ⟨a, rest⟩
  · rfl
  · have hstop : q.stop = (header ++ q.bytes).length := by
      rw [length_append, hheader, Question.stop]
    have hname : parseNameAt (header ++ (encodeLabels q.labels ++ (beBytes 2 q.qtype ++ beBytes 2 q.qclass ++
        (answers.flatMap (answerBytes ttl) ++ after)))) (9 + 1) header.length = _ := parseNameAt_encode 9 q.labels
    rw [hheader, ← append_assoc (encodeLabels q.labels)] at hname
    rw [← hnil, hstop, ← append_assoc]
    refine parseRecords_answers (12 + (encodeLabels q.labels).length) (httl (by simp [hnil])) answers
      hanswers _ _ ?_
    rw [append_assoc]
    exact hname

/-! ## Responses -/

/-- The TC bit of a message. -/
def truncated (message : Bytes) : Bool := word message 2 &&& 0x0200 ≠ 0

theorem responseFlags_bits (query : Query) (args : ResponseArgs) :
    responseFlags query args < 65536 ∧ responseFlags query args &&& 0x0200 = 0 ∧
      responseFlags query args ||| 0x0200 < 65536 ∧
      (responseFlags query args ||| 0x0200) &&& 0x0200 ≠ 0 ∧
      responseFlags query args &&& 0x0F = args.rcode &&& 0x0F := by
  have hall : ∀ op < 16, ∀ rcode < 16, ∀ aa rd ra : Bool,
      let flags := 0x8000 ||| op <<< 11 ||| (if aa then 0x0400 else 0) ||| (if rd then 0x0100 else 0) |||
        (if ra then 0x0080 else 0) ||| rcode
      flags < 65536 ∧ flags &&& 0x0200 = 0 ∧ flags ||| 0x0200 < 65536 ∧ (flags ||| 0x0200) &&& 0x0200 ≠ 0 ∧
        flags &&& 0x0F = rcode := by
    decide
  have hlow : ∀ n : ℕ, n &&& 0x0F < 16 := fun n => by
    rw [show (0x0F : ℕ) = 2 ^ 4 - 1 from rfl, Nat.and_two_pow_sub_one_eq_mod]
    exact Nat.mod_lt _ (by decide)
  exact hall _ (hlow _) _ (hlow _) args.authoritative query.recursionDesired args.recursionAvailable

/-- Every section of a response. -/
def fullMessage (query : Query) (args : ResponseArgs) (question : Bytes) (body ns : List Bytes) : Bytes :=
  headerBytes query.txid (responseFlags query args) (if query.question.isSome then 1 else 0)
    args.answers.length args.authority.length ++ (question ++ (body.flatten ++ ns.flatten))

/-- What is sent when that is too long. -/
def shortMessage (query : Query) (args : ResponseArgs) (question : Bytes) : Bytes :=
  headerBytes query.txid (responseFlags query args ||| 0x0200) (if query.question.isSome then 1 else 0) 0 0 ++
    question

/-- A response that is built. -/
theorem buildResponse_eq_ok {query : Query} {args : ResponseArgs} {message : Bytes}
    (h : buildResponse query args = .ok message) :
    ∃ question body ns, questionBytes query.question = .ok question ∧
      List.Forall₂ (fun a bs => record qnamePointer a.1 args.ttl a.2 = .ok bs) args.answers body ∧
      query.txid < 65536 ∧ args.answers.length < 65536 ∧
      message = if maxUdp < (fullMessage query args question body ns).length then
        shortMessage query args question else fullMessage query args question body ns := by
  obtain ⟨question, hquestion, h⟩ := bind_eq_ok.mp h
  obtain ⟨body, hbody, h⟩ := bind_eq_ok.mp h
  obtain ⟨ns, -, h⟩ := bind_eq_ok.mp h
  obtain ⟨header, hheader, h⟩ := bind_eq_ok.mp h
  obtain ⟨rfl, htxid, -, -, hanswers⟩ := packAll_header hheader
  refine ⟨question, body, ns, hquestion, mapM_eq_ok.mp hbody, htxid, hanswers, ?_⟩
  have hfull : headerBytes query.txid (responseFlags query args) (if query.question.isSome then 1 else 0)
      args.answers.length args.authority.length ++ question ++ body.flatten ++ ns.flatten =
        fullMessage query args question body ns := by
    simp [fullMessage]
  dsimp only at h
  rw [hfull] at h
  by_cases hlong : maxUdp < (fullMessage query args question body ns).length
  · rw [if_pos hlong] at h ⊢
    obtain ⟨short, hshort, h⟩ := bind_eq_ok.mp h
    obtain ⟨rfl, -⟩ := packAll_header hshort
    exact (Except.ok.inj h).symm
  · rw [if_neg hlong] at h ⊢
    exact (Except.ok.inj h).symm

/-- A response that is built and not truncated has all its sections. -/
theorem eq_fullMessage {query : Query} {args : ResponseArgs} {question message : Bytes} {body ns : List Bytes}
    (hmessage : message = if maxUdp < (fullMessage query args question body ns).length then
      shortMessage query args question else fullMessage query args question body ns)
    (htc : truncated message = false) : message = fullMessage query args question body ns := by
  obtain ⟨-, -, hlt, hset, -⟩ := responseFlags_bits query args
  split_ifs at hmessage with hlong
  · rw [hmessage, truncated, shortMessage, word_header_flags _ hlt] at htc
    simp [hset] at htc
  · exact hmessage

theorem flatten_answers {answers : List (ℕ × Bytes)} {ttl : ℕ} {body : List Bytes}
    (h : List.Forall₂ (fun a bs => record qnamePointer a.1 ttl a.2 = .ok bs) answers body) :
    body.flatten = answers.flatMap (answerBytes ttl) ∧
      (∀ a ∈ answers, a.1 < 65536 ∧ a.2.length < 65536) ∧ (answers ≠ [] → ttl < 256 ^ 4) := by
  induction h with
  | nil => simp
  | cons ha _ ih =>
    obtain ⟨rfl, htype, httl, hlen⟩ := record_eq_ok ha
    obtain ⟨hflat, hall, -⟩ := ih
    refine ⟨?_, ?_, fun _ => httl⟩
    · rw [flatten_cons, flatMap_cons, hflat]
    · rw [forall_mem_cons]
      exact ⟨⟨htype, hlen⟩, hall⟩

/-- The labels that stand at offset 12. -/
def Query.labels (query : Query) : List Label := query.question.elim [] Question.labels

/-- **A response that was not truncated is read back as it was built.**  Without a question there is no
name for an answer to point to. -/
theorem parseResponse_buildResponse [Runtime] {query : Query} {args : ResponseArgs} {message : Bytes}
    (h : buildResponse query args = .ok message) (htc : truncated message = false)
    (howner : query.question = none → args.answers = []) :
    parseResponse message =
      .ok
        { txid := query.txid
          flags := responseFlags query args
          rcode := args.rcode &&& 0x0F
          question := query.question
          answers := args.answers.map (readAnswer query.labels args.ttl) } := by
  obtain ⟨question, body, ns, hquestion, hbody, htxid, hcount, hmessage⟩ := buildResponse_eq_ok h
  obtain ⟨hflat, hanswers, httl⟩ := flatten_answers hbody
  obtain ⟨hflags, -, -, -, hrcode⟩ := responseFlags_bits query args
  rw [eq_fullMessage hmessage htc, fullMessage, hflat]
  have hlength : ∀ qd rest, ¬ (headerBytes query.txid (responseFlags query args) qd args.answers.length
      args.authority.length ++ rest).length < 12 := by
    intro qd rest
    rw [length_append, length_headerBytes]
    omega
  rw [parseResponse, if_neg (hlength _ _), word_header_txid _ htxid, word_header_flags _ hflags,
    word_header_ancount _ hcount, hrcode]
  cases hq : query.question with
  | none =>
    rw [hq] at hquestion
    obtain rfl := Except.ok.inj hquestion
    rw [howner hq]
    have hqd : word (headerBytes query.txid (responseFlags query args) (if (none : Option Question).isSome then 1
        else 0) args.answers.length args.authority.length ++ ([] ++ ([] ++ ns.flatten))) 4 = 0 :=
      word_header_qdcount _ (by decide)
    rw [howner hq] at hqd
    simp only [flatMap_nil, hqd]
    rfl
  | some q =>
    rw [hq] at hquestion
    obtain ⟨rfl, htype, hclass⟩ := questionBytes_some hquestion
    have hqd : word (headerBytes query.txid (responseFlags query args) (if (some q).isSome then 1 else 0)
        args.answers.length args.authority.length ++ (q.bytes ++
          (args.answers.flatMap (answerBytes args.ttl) ++ ns.flatten))) 4 = 1 :=
      word_header_qdcount _ (by simp)
    rw [hqd, parseQuestions_one length_headerBytes htype hclass]
    have hlabels : query.labels = q.labels := by rw [Query.labels, hq]; rfl
    dsimp only
    rw [parseRecords_behind_question length_headerBytes httl hanswers, hlabels]
    rfl

/-- A response with an answer to no question. -/
def answerToNothing : Fallible Bytes :=
  buildResponse { txid := 7, flags := 0, question := none } { answers := [(typeA, [10, 0, 0, 1])] }

/-- Offset 12 is then the pointer itself, and the reader goes in circles. -/
theorem answerToNothing_unreadable :
    let _ := Runtime.ascii
    (answerToNothing.map fun message => (truncated message, (parseResponse message).map Response.txid)) =
      .ok (false, .error "compression pointer loop") := by
  decide +kernel

/-- **The codec round-trips**: a name wherever it stands; a query; and a response that was not truncated
and has a question for its answers. -/
theorem codec_round_trips [Runtime] :
    (∀ (labels : List Label) (before after : Bytes),
      parseName (before ++ (encodeLabels labels ++ after)) before.length =
        .ok (labels, before.length + (encodeLabels labels).length)) ∧
    (∀ name qtype txid message, buildQuery name qtype txid = .ok message →
      ∃ labels, labels.map (fun l => latin1 l.1) = nameParts name ∧
        parseQuery message =
          .ok
            { txid := txid
              flags := 0x0100
              question := some { labels := labels, qtype := qtype, qclass := classIn }
              qdcount := 1
              raw := message
              trailing := [] }) ∧
    ∀ query args message, buildResponse query args = .ok message → truncated message = false →
      (query.question = none → args.answers = []) →
      parseResponse message =
        .ok
          { txid := query.txid
            flags := responseFlags query args
            rcode := args.rcode &&& 0x0F
            question := query.question
            answers := args.answers.map (readAnswer query.labels args.ttl) } := by
  refine ⟨fun labels before after => parseName_encode labels, fun name qtype txid message h => ?_,
    fun query args message h htc howner => parseResponse_buildResponse h htc howner⟩
  obtain ⟨labels, hlabels, hparse⟩ := parseQuery_buildQuery h
  exact ⟨labels, latin1_labelsOf hlabels, hparse⟩

end PtaasBench.EdgeResolver.DnsWire
