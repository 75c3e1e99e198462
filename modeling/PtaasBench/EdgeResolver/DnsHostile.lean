import PtaasBench.EdgeResolver.DnsListener
import PtaasBench.Lib.Fields

/-!
# PtaasBench.EdgeResolver.DnsHostile — any bytes at the decoder and at the handler (`dnswire.py`, `listeners/dns.py`)

The decoder returns, or refuses with one of its own errors.  The handler has a reply for every message but one
kind: a mail question whose name does not go into a record.
-/

namespace PtaasBench.EdgeResolver.DnsListener

open Py Lib DnsWire List

/-! ## The decoder -/

/-- A text of `DnsFormatError`, as the parser raises it. -/
def FormatError (e : String) : Prop :=
  e ∈ ["compression pointer loop", "name runs past end of message", "truncated compression pointer",
      "label runs past end of message", "message shorter than a DNS header", "truncated question",
      "truncated record header", "truncated record data"] ∨
    ∃ n, e = "reserved label type 0x" ++ hex2 n

/-- It returns a value with a property, or raises `DnsFormatError`. -/
def Decodes {α : Type} (good : α → Prop) (x : Fallible α) : Prop :=
  (∃ a, x = .ok a ∧ good a) ∨ ∃ e, x = .error e ∧ FormatError e

/-- The offset behind a name lies behind its start, and in the buffer. -/
def StopsWithin (data : Bytes) (offset : ℕ) (result : List Label × ℕ) : Prop :=
  offset < result.2 ∧ result.2 ≤ data.length

section Decoder

variable {data : Bytes}

theorem Decodes.error {α : Type} {good : α → Prop} {e : String} (h : FormatError e) :
    Decodes good (.error e : Fallible α) := Or.inr ⟨e, rfl, h⟩

theorem Decodes.map {α β : Type} {good : α → Prop} {good' : β → Prop} {f : α → β} {x : Fallible α}
    (h : Decodes good x) (hf : ∀ a, good a → good' (f a)) : Decodes good' (x.map f) := by
  rcases h with ⟨a, rfl, ha⟩ | ⟨e, rfl, he⟩
  · exact Or.inl ⟨f a, rfl, hf a ha⟩
  · exact Or.inr ⟨e, rfl, he⟩

theorem lt_length_of_getElem? {i : ℕ} {b : UInt8} (h : data[i]? = some b) : i < data.length :=
  (List.getElem?_eq_some_iff.mp h).1

theorem decodes_parseLabels {pointed : ℕ → Fallible (List Label × ℕ)}
    (hpointed : ∀ offset, Decodes (fun _ => True) (pointed offset)) (turns pos : ℕ) :
    Decodes (StopsWithin data pos) (parseLabels data pointed turns pos) := by
  induction turns generalizing pos with
  | zero => exact Decodes.error (Or.inl (by simp))
  | succ turns ih =>
    rw [parseLabels]
    cases hbyte : data[pos]? with
    | none => exact Decodes.error (Or.inl (by simp))
    | some byte =>
      have hpos := lt_length_of_getElem? hbyte
      dsimp only
      split_ifs with h0 hpointer hbits hstop
      · exact Or.inl ⟨_, rfl, Nat.lt_succ_self pos, hpos⟩
      · cases hlow : data[pos + 1]? with
        | none => exact Decodes.error (Or.inl (by simp))
        | some low =>
          have hnext := lt_length_of_getElem? hlow
          exact (hpointed _).map fun sub _ => ⟨show pos < pos + 2 by omega, hnext⟩
      · refine (ih _).map fun rest hrest => ⟨?_, hrest.2⟩
        have hbehind := hrest.1
        show pos < rest.2
        omega
      · exact Decodes.error (Or.inl (by simp))
      · exact Decodes.error (Or.inr ⟨_, rfl⟩)

theorem decodes_parseNameAt (depth offset : ℕ) :
    Decodes (StopsWithin data offset) (parseNameAt data depth offset) := by
  induction depth generalizing offset with
  | zero => exact Decodes.error (Or.inl (by simp))
  | succ depth ih =>
    rw [parseNameAt]
    refine decodes_parseLabels (fun start => ?_) _ _
    rcases ih start with ⟨a, ha, -⟩ | he
    · exact Or.inl ⟨a, ha, trivial⟩
    · exact Or.inr he

/-- The loop ends by itself: with a turn for each byte that is left and one more, it has turns to spare. -/
theorem parseLabels_turns {pointed : ℕ → Fallible (List Label × ℕ)} (more : ℕ) {turns pos : ℕ}
    (h : data.length < turns + pos) :
    parseLabels data pointed (turns + more) pos = parseLabels data pointed turns pos := by
  induction turns generalizing pos with
  | zero =>
    have hnone : data[pos]? = none := List.getElem?_eq_none (by omega)
    cases more with
    | zero => rfl
    | succ more => rw [Nat.zero_add, parseLabels, parseLabels, hnone]
  | succ turns ih =>
    rw [Nat.add_right_comm, parseLabels, parseLabels]
    cases hbyte : data[pos]? with
    | none => rfl
    | some byte =>
      dsimp only
      split_ifs with h0 hpointer hbits hstop
      · rfl
      · rfl
      · rw [ih (by omega)]
      · rfl
      · rfl

theorem decodes_parseQuery : Decodes (fun _ => True) (parseQuery data) := by
  rw [parseQuery]
  split_ifs with hshort hcount
  · exact Decodes.error (Or.inl (by simp))
  · exact Or.inl ⟨_, rfl, trivial⟩
  · rcases @decodes_parseNameAt data 11 12 with ⟨result, hname, -⟩ | ⟨e, hname, he⟩
    · obtain ⟨labels, pos⟩ := result
      rw [parseName, hname]
      dsimp only
      split_ifs with hroom
      · exact Decodes.error (Or.inl (by simp))
      · exact Or.inl ⟨_, rfl, trivial⟩
    · rw [parseName, hname]
      exact Decodes.error he

/-- Behind the questions the parser is still in the buffer. -/
theorem decodes_parseQuestions (count : ℕ) {pos : ℕ} (h : pos ≤ data.length) :
    Decodes (fun result => pos ≤ result.2 ∧ result.2 ≤ data.length) (parseQuestions data count pos) := by
  induction count generalizing pos with
  | zero => exact Or.inl ⟨_, rfl, le_refl pos, h⟩
  | succ count ih =>
    rw [parseQuestions]
    rcases @decodes_parseNameAt data 11 pos with ⟨result, hname, hstop⟩ | ⟨e, hname, he⟩
    · obtain ⟨labels, stop⟩ := result
      obtain ⟨hbehind, -⟩ : pos < stop ∧ stop ≤ data.length := hstop
      rw [parseName, hname]
      dsimp only
      split_ifs with hroom
      · exact Decodes.error (Or.inl (by simp))
      · refine (ih (show stop + 4 ≤ data.length by omega)).map fun rest hrest => ⟨?_, hrest.2⟩
        have hfrom := hrest.1
        show pos ≤ rest.2
        omega
    · rw [parseName, hname]
      exact Decodes.error he

theorem decodes_parseRecords [Runtime] (count pos : ℕ) :
    Decodes (fun _ => True) (parseRecords data count pos) := by
  induction count generalizing pos with
  | zero => exact Or.inl ⟨_, rfl, trivial⟩
  | succ count ih =>
    rw [parseRecords]
    rcases @decodes_parseNameAt data 11 pos with ⟨result, hname, -⟩ | ⟨e, hname, he⟩
    · obtain ⟨labels, stop⟩ := result
      rw [parseName, hname]
      dsimp only
      split_ifs with hhead hroom
      · exact Decodes.error (Or.inl (by simp))
      · exact Decodes.error (Or.inl (by simp))
      · exact (ih _).map fun _ _ => trivial
    · rw [parseName, hname]
      exact Decodes.error he

theorem decodes_parseResponse [Runtime] : Decodes (fun _ => True) (parseResponse data) := by
  rw [parseResponse]
  split_ifs with hshort
  · exact Decodes.error (Or.inl (by simp))
  · rcases @decodes_parseQuestions data (word data 4) 12 (by omega) with
      ⟨result, hquestions, -⟩ | ⟨e, hquestions, he⟩
    · obtain ⟨question, pos⟩ := result
      rw [hquestions]
      exact (decodes_parseRecords _ _).map fun _ _ => trivial
    · rw [hquestions]
      exact Decodes.error he

end Decoder

/-! ## A name that was read can be written -/

/-- `str.lower` of a character that Latin-1 has. -/
def latin1Lower (c : Char) : Char :=
  if (0x41 ≤ c.toNat ∧ c.toNat ≤ 0x5A) ∨ (0xC0 ≤ c.toNat ∧ c.toNat ≤ 0xDE ∧ c.toNat ≠ 0xD7) then
    Char.ofNat (c.toNat + 0x20)
  else c

/-- A runtime that lowers all of Latin-1. -/
class Latin1Runtime extends Runtime where
  lower_latin1 : ∀ s : String, (∀ c ∈ s.toList, c.toNat < 256) → lower s = mapChars latin1Lower s

theorem toNat_latin1Lower {c : Char} (h : c.toNat < 256) : (latin1Lower c).toNat < 256 := by
  unfold latin1Lower
  split_ifs with hupper
  · rw [Char.ofNat, dif_pos (Or.inl (by omega))]
    show c.toNat + 0x20 < 256
    omega
  · exact h

theorem toList_latin1 (bs : Bytes) : ∀ c ∈ (latin1 bs).toList, c.toNat < 256 := by
  intro c hc
  rw [latin1, String.toList_ofList] at hc
  obtain ⟨b, -, rfl⟩ := mem_map.mp hc
  rw [Char.ofNat, dif_pos (Or.inl (by have := b.toNat_lt; omega))]
  exact b.toNat_lt

theorem latin1Lower_ne_dot {c : Char} (h : c ≠ '.') : latin1Lower c ≠ '.' := by
  unfold latin1Lower
  split_ifs with hupper
  · intro heq
    have hnat := congrArg Char.toNat heq
    rw [Char.ofNat, dif_pos (Or.inl (by omega))] at hnat
    have hdot : c.toNat + 0x20 = 0x2E := hnat
    omega
  · exact h

theorem length_encodeLabels (labels : List Label) :
    (encodeLabels labels).length = (labels.map fun l => l.1.length + 1).sum + 1 := by
  induction labels with
  | nil => rfl
  | cons l ls ih =>
    rw [length_encodeLabels_cons, ih, map_cons, sum_cons]
    omega

section Names

variable [Latin1Runtime]

/-- The characters of a rendered name. -/
def nameChars (labels : List Label) : List Char :=
  joined '.' (labels.map fun l => (latin1 l.1).toList.map latin1Lower)

theorem toList_dotted (labels : List Label) : (DnsWire.dotted labels).toList = nameChars labels := by
  have htext : (".".intercalate (labels.map fun l => latin1 l.1)).toList =
      joined '.' (labels.map fun l => (latin1 l.1).toList) := by
    rw [String.toList_intercalate, map_map]
    rfl
  have hlow : ∀ c ∈ (".".intercalate (labels.map fun l => latin1 l.1)).toList, c.toNat < 256 := by
    intro c hc
    rw [htext] at hc
    rcases mem_joined hc with rfl | ⟨field, hfield, hc⟩
    · decide
    · obtain ⟨l, -, rfl⟩ := mem_map.mp hfield
      exact toList_latin1 l.1 c hc
  rw [DnsWire.dotted, Latin1Runtime.lower_latin1 _ hlow, mapChars, String.toList_ofList, htext, joined_map,
    map_map]
  rfl

/-- The parts of a name that was read are short, and in Latin-1. -/
theorem nameParts_dotted {labels : List Label} {part : String} (h : part ∈ nameParts (DnsWire.dotted labels)) :
    (1 ≤ part.toList.length ∧ part.toList.length ≤ 63) ∧ ∀ c ∈ part.toList, c.toNat < 256 := by
  obtain ⟨hpiece, hne⟩ := mem_filter.mp h
  have hfields : ∀ field ∈ labels.map fun l => (latin1 l.1).toList.map latin1Lower,
      field.length ≤ 63 ∧ ∀ c ∈ field, c.toNat < 256 := by
    intro field hfield
    obtain ⟨l, -, rfl⟩ := mem_map.mp hfield
    refine ⟨?_, fun c hc => ?_⟩
    · rw [length_map, latin1, String.toList_ofList, length_map]
      exact l.2.2
    · obtain ⟨d, hd, rfl⟩ := mem_map.mp hc
      exact toNat_latin1Lower (toList_latin1 l.1 d hd)
  have hwithin : part.toList <:+: nameChars labels := by
    obtain ⟨piece, hmem, rfl⟩ := mem_map.mp hpiece
    rw [String.toList_ofList]
    rw [stripBy, String.toList_ofList, toList_dotted] at hmem
    exact (infix_of_mem_splitOn hmem).trans
      ((List.rdropWhile_prefix _ _).isInfix.trans (dropWhile_suffix _).isInfix)
  refine ⟨⟨?_, ?_⟩, fun c hc => ?_⟩
  · refine length_pos_iff.mpr fun hnil => of_decide_eq_true hne ?_
    rw [← String.ofList_toList (s := part), hnil]
  · exact length_le_of_infix_joined (fun field hfield => (hfields field hfield).1) (notMem_of_mem_splitChar hpiece)
      hwithin
  · rcases mem_joined (hwithin.subset hc) with rfl | ⟨field, hfield, hc⟩
    · decide
    · exact (hfields field hfield).2 c hc

theorem exists_encodeName (labels : List Label) : ∃ bs, encodeName (DnsWire.dotted labels) = .ok bs := by
  have hencoded : ∃ encoded, (nameParts (DnsWire.dotted labels)).mapM encodeLatin1 = .ok encoded ∧
      ∀ bs ∈ encoded, 1 ≤ bs.length ∧ bs.length ≤ 63 := by
    refine exists_mapM_eq_ok fun part hpart => ?_
    obtain ⟨hlength, hlow⟩ := nameParts_dotted hpart
    have hall : (part.toList.all (·.toNat < 256)) = true :=
      all_eq_true.mpr fun c hc => decide_eq_true (hlow c hc)
    refine ⟨_, by rw [encodeLatin1, if_pos hall], ?_⟩
    rwa [length_map]
  obtain ⟨encoded, hencoded, hlengths⟩ := hencoded
  obtain ⟨written, hwritten, -⟩ : ∃ written, encoded.mapM checkLabel = .ok written ∧ ∀ l ∈ written, True :=
    exists_mapM_eq_ok fun bs hbs => ⟨⟨bs, hlengths bs hbs⟩, by rw [checkLabel, dif_pos (hlengths bs hbs)], trivial⟩
  exact ⟨encodeLabels written, map_eq_ok.mpr ⟨written, bind_eq_ok.mpr ⟨encoded, hencoded, hwritten⟩, rfl⟩⟩

/-- Labels without a dot are the parts of the name. -/
theorem nameParts_of_noDot {labels : List Label} (hne : labels ≠ []) (hdot : ∀ l ∈ labels, (0x2E : UInt8) ∉ l.1) :
    nameParts (DnsWire.dotted labels) = labels.map fun l => String.ofList ((latin1 l.1).toList.map latin1Lower) := by
  have hfields : ∀ field ∈ labels.map fun l => (latin1 l.1).toList.map latin1Lower,
      field ≠ [] ∧ ∀ c ∈ field, (c == '.') = false := by
    intro field hfield
    obtain ⟨l, hl, rfl⟩ := mem_map.mp hfield
    rw [latin1, String.toList_ofList, map_map]
    refine ⟨ne_nil_of_length_pos (by rw [length_map]; exact l.2.1), fun c hc => ?_⟩
    obtain ⟨b, hb, rfl⟩ := mem_map.mp hc
    refine beq_eq_false_iff_ne.mpr (latin1Lower_ne_dot fun heq => hdot l hl ?_)
    have hnat : (Char.ofNat b.toNat).toNat = 0x2E := congrArg Char.toNat heq
    rw [Char.ofNat, dif_pos (Or.inl (by have := b.toNat_lt; omega))] at hnat
    have hbyte : b = 0x2E := UInt8.toNat_inj.mp hnat
    rwa [← hbyte]
  have hnil : (labels.map fun l => (latin1 l.1).toList.map latin1Lower) ≠ [] := mt map_eq_nil_iff.mp hne
  rw [nameParts, splitChar, stripBy, String.toList_ofList, toList_dotted, nameChars, dropWhile_joined hnil hfields,
    rdropWhile_joined hnil hfields, joined, splitOn_intercalate '.' (fun field hfield hin =>
      Bool.eq_false_iff.mp ((hfields field hfield).2 '.' hin) rfl) hnil, map_map]
  refine filter_eq_self.mpr fun part hpart => decide_eq_true fun hempty => ?_
  obtain ⟨l, hl, rfl⟩ := mem_map.mp hpart
  have htext := congrArg String.toList hempty
  rw [Function.comp_apply, String.toList_ofList] at htext
  exact (hfields _ (mem_map_of_mem hl)).1 htext

/-- Such a name is written as long as it was read. -/
theorem length_encodeName {labels : List Label} (hne : labels ≠ []) (hdot : ∀ l ∈ labels, (0x2E : UInt8) ∉ l.1)
    {bs : Bytes} (h : encodeName (DnsWire.dotted labels) = .ok bs) : bs.length = (encodeLabels labels).length := by
  obtain ⟨written, hlabels, rfl⟩ := map_eq_ok.mp h
  have hread := latin1_labelsOf hlabels
  rw [nameParts_of_noDot hne hdot] at hread
  have hlengths : written.map (fun l => l.1.length + 1) = labels.map (fun l => l.1.length + 1) := by
    have hcount := congrArg (List.map fun s => s.toList.length + 1) hread
    simpa [map_map, Function.comp_def, latin1] using hcount
  rw [length_encodeLabels, length_encodeLabels, hlengths]

end Names

/-! ## The handler -/

/-- A configuration that has something to answer with. -/
structure Deployed (handler : DnsHandler) : Prop where
  zone : ∃ owner, encodeName handler.ownedZone = .ok owner
  server : ∃ name, encodeName ("ns1." ++ handler.ownedZone) = .ok name ∧ name.length < 65536
  soa : ∃ soa, soaRdata handler.ownedZone = .ok soa ∧ soa.length < 65536
  ttl : handler.dnsTtl < 256 ^ 4
  address : ∀ peerIp, ∃ ip, handler.inetAton (handler.answerIp peerIp) = .ok ip ∧ ip.length < 65536
  claims : ∀ claimOf, handler.upstream = some claimOf → ∀ name critical,
    (claimOf name critical).addresses.length < 65536 ∧
      ∀ address ∈ (claimOf name critical).addresses, ∃ ip, handler.inetAton address = .ok ip ∧ ip.length < 65536

/-- Arguments that fit the fields of a message. -/
structure Sendable (args : ResponseArgs) : Prop where
  answers : ∀ a ∈ args.answers, a.1 < 65536 ∧ a.2.length < 65536
  answerCount : args.answers.length < 65536
  authority : ∀ a ∈ args.authority, (∃ owner, encodeName a.1 = .ok owner) ∧ a.2.1 < 65536 ∧ a.2.2.length < 65536
  authorityCount : args.authority.length < 65536
  ttl : args.ttl < 256 ^ 4

section Replies

variable {data : Bytes} {query : Query} {args : ResponseArgs}

theorem word_lt (data : Bytes) (offset : ℕ) : word data offset < 65536 := by
  have hlength : (slice data offset (offset + 2)).length ≤ 2 := by
    unfold slice
    simp only [length_take, length_drop]
    omega
  exact (beNat_lt _).trans_le (Nat.pow_le_pow_right (by decide) hlength)

theorem parseQuery_spec (h : parseQuery data = .ok query) :
    12 ≤ data.length ∧ query.txid = word data 0 ∧
      ∀ question, query.question = some question → question.qtype < 65536 ∧ question.qclass < 65536 := by
  unfold parseQuery at h
  split_ifs at h with hshort hcount
  · obtain rfl := Except.ok.inj h
    exact ⟨not_lt.mp hshort, rfl, nofun⟩
  · cases hname : parseName data 12 with
    | error e =>
      rw [hname] at h
      cases h
    | ok result =>
      obtain ⟨labels, pos⟩ := result
      rw [hname] at h
      dsimp only at h
      split_ifs at h
      obtain rfl := Except.ok.inj h
      refine ⟨not_lt.mp hshort, rfl, fun question hquestion => ?_⟩
      obtain rfl := Option.some.inj hquestion
      exact ⟨word_lt _ _, word_lt _ _⟩

theorem exists_record (nameField : Bytes) {rrtype ttl : ℕ} {rdata : Bytes} (htype : rrtype < 65536)
    (httl : ttl < 256 ^ 4) (hdata : rdata.length < 65536) : ∃ bs, DnsWire.record nameField rrtype ttl rdata = .ok bs :=
  ⟨_, bind_eq_ok.mpr ⟨_, packAll_eq_ok.mpr ⟨by simp [htype, hdata, classIn]; omega, rfl⟩, rfl⟩⟩

theorem exists_buildResponse (htxid : query.txid < 65536)
    (hquestion : ∀ question, query.question = some question → question.qtype < 65536 ∧ question.qclass < 65536)
    (hargs : Sendable args) : ∃ reply, buildResponse query args = .ok reply ∧ word reply 0 = query.txid := by
  obtain ⟨question, hbytes⟩ : ∃ bs, questionBytes query.question = .ok bs := by
    cases hq : query.question with
    | none => exact ⟨[], rfl⟩
    | some question =>
      obtain ⟨htype, hclass⟩ := hquestion question hq
      exact ⟨_, bind_eq_ok.mpr ⟨_, packAll_eq_ok.mpr ⟨by simp [htype, hclass], rfl⟩, rfl⟩⟩
  obtain ⟨body, hbody, -⟩ : ∃ body,
      (args.answers.mapM fun a => DnsWire.record qnamePointer a.1 args.ttl a.2) = .ok body ∧ ∀ b ∈ body, True := by
    refine exists_mapM_eq_ok fun a ha => ?_
    obtain ⟨bs, hbs⟩ := exists_record qnamePointer (hargs.answers a ha).1 hargs.ttl (hargs.answers a ha).2
    exact ⟨bs, hbs, trivial⟩
  obtain ⟨ns, hns, -⟩ : ∃ ns, (args.authority.mapM fun a => do
      let owner ← encodeName a.1
      DnsWire.record owner a.2.1 args.ttl a.2.2) = .ok ns ∧ ∀ b ∈ ns, True := by
    refine exists_mapM_eq_ok fun a ha => ?_
    obtain ⟨⟨owner, howner⟩, htype, hlength⟩ := hargs.authority a ha
    obtain ⟨bs, hbs⟩ := exists_record owner htype hargs.ttl hlength
    exact ⟨bs, bind_eq_ok.mpr ⟨owner, howner, hbs⟩, trivial⟩
  obtain ⟨hflags, -, htc, -, -⟩ := responseFlags_bits query args
  have hcount : (if query.question.isSome then 1 else 0) < 65536 := by split_ifs <;> decide
  have hheader : ∀ {flags an ns}, flags < 65536 → an < 65536 → ns < 65536 →
      packAll [(2, query.txid), (2, flags), (2, if query.question.isSome then 1 else 0), (2, an), (2, ns), (2, 0)] =
        .ok (headerBytes query.txid flags (if query.question.isSome then 1 else 0) an ns) := fun hf ha hn =>
    packAll_eq_ok.mpr ⟨by simpa [htxid, hf, ha, hn] using hcount, by simp [headerBytes]⟩
  obtain ⟨reply, hreply⟩ : ∃ reply, buildResponse query args = .ok reply := by
    by_cases hlong : maxUdp < (headerBytes query.txid (responseFlags query args)
        (if query.question.isSome then 1 else 0) args.answers.length args.authority.length ++ question ++
          body.flatten ++ ns.flatten).length
    · exact ⟨_, bind_eq_ok.mpr ⟨question, hbytes, bind_eq_ok.mpr ⟨body, hbody, bind_eq_ok.mpr ⟨ns, hns,
        bind_eq_ok.mpr ⟨_, hheader hflags hargs.answerCount hargs.authorityCount,
          (if_pos hlong).trans (bind_eq_ok.mpr ⟨_, hheader htc (by decide) (by decide), rfl⟩)⟩⟩⟩⟩⟩
    · exact ⟨_, bind_eq_ok.mpr ⟨question, hbytes, bind_eq_ok.mpr ⟨body, hbody, bind_eq_ok.mpr ⟨ns, hns,
        bind_eq_ok.mpr ⟨_, hheader hflags hargs.answerCount hargs.authorityCount, if_neg hlong⟩⟩⟩⟩⟩
  refine ⟨reply, hreply, ?_⟩
  obtain ⟨question', body', ns', -, -, -, -, rfl⟩ := buildResponse_eq_ok hreply
  split_ifs
  · exact word_header_txid _ htxid
  · exact word_header_txid _ htxid

theorem exists_buildFormatError (h : 12 ≤ data.length) :
    ∃ reply, buildFormatError data = .ok reply ∧ word reply 0 = word data 0 := by
  have htxid := word_lt data 0
  have hpack : buildFormatError data = .ok (headerBytes (word data 0) (0x8000 ||| rcodeFormerr) 0 0 0) := by
    rw [buildFormatError, if_pos (by omega)]
    exact packAll_eq_ok.mpr ⟨by simp [htxid, rcodeFormerr], by simp [headerBytes]⟩
  refine ⟨_, hpack, ?_⟩
  rw [← append_nil (headerBytes _ _ _ _ _)]
  exact word_header_txid [] htxid

end Replies

/-! ## What it answers with -/

/-- A name that the forwarder answers itself. -/
def DnsHandler.Sinkholes [Runtime] (handler : DnsHandler) (name : String) : Prop :=
  handler.isDenied name = false ∧
    ∀ claimOf, handler.upstream = some claimOf →
      (claimOf name (handler.isInternalName name)).claimed = false ∧ handler.isInternalName name = false

/-- A mail question whose name does not go into a record. -/
def DnsHandler.MailTooLong [Runtime] (handler : DnsHandler) (data : Bytes) : Prop :=
  ∃ query question bs, parseQuery data = .ok query ∧ query.question = some question ∧ question.qtype = typeMx ∧
    (question.qclass = classIn ∨ question.qclass = classAny) ∧ handler.Sinkholes question.name ∧
      encodeName question.name = .ok bs ∧ 65536 ≤ 2 + bs.length

section Answers

variable {handler : DnsHandler}

/-- An answer of one type, where it is asked for. -/
theorem exists_answer {rrtype : ℕ} (htype : rrtype < 65536) {x : Fallible Bytes} (g : Bytes → Bytes) (asked : Prop)
    [Decidable asked] (h : asked → ∃ written, x = .ok written ∧ (g written).length < 65536) :
    ∃ answers, (if asked then (do let written ← x; pure [(rrtype, g written)]) else .ok [] :
      Fallible (List (ℕ × Bytes))) = .ok answers ∧ answers.length ≤ 1 ∧
        ∀ a ∈ answers, a.1 < 65536 ∧ a.2.length < 65536 := by
  by_cases hasked : asked
  · obtain ⟨written, hx, hlength⟩ := h hasked
    refine ⟨[(rrtype, g written)], ?_, le_refl 1, forall_mem_singleton.mpr ⟨htype, hlength⟩⟩
    rw [if_pos hasked, hx]
    rfl
  · exact ⟨[], if_neg hasked, Nat.zero_le 1, forall_mem_nil _⟩

theorem ite_bind {α β γ : Type} {c : Prop} [Decidable c] (x : Fallible α) (f : α → β) (d : β) (k : β → Fallible γ) :
    (if c then x >>= fun a => pure (f a) >>= k else Except.ok d >>= k) =
      (if c then x >>= fun a => pure (f a) else Except.ok d) >>= k := by
  split_ifs
  · cases x <;> rfl
  · rfl

/-- The answers of each type, one type after the other. -/
theorem ownAnswers_eq {question : Question} (name address : String)
    (hclass : question.qclass = classIn ∨ question.qclass = classAny) :
    handler.ownAnswers question name address =
      (if question.qtype = typeA ∨ question.qtype = typeAny then
        handler.inetAton address >>= fun ip => pure [(typeA, ip)] else .ok []) >>= fun a =>
      (if question.qtype = typeMx then
        encodeName name >>= fun encoded => pure [(typeMx, beBytes 2 10 ++ encoded)] else .ok []) >>= fun mx =>
      (if question.qtype = typeNs ∨ question.qtype = typeAny then
        encodeName ("ns1." ++ handler.ownedZone) >>= fun encoded => pure [(typeNs, encoded)] else .ok []) >>= fun ns =>
      (if question.qtype = typeSoa ∧ handler.owned name = true then
        soaRdata handler.ownedZone >>= fun rdata => pure [(typeSoa, rdata)] else .ok []) >>= fun soa =>
      .ok (a ++ (if question.qtype = typeTxt ∨ question.qtype = typeAny then [(typeTxt, txtRdata txtAnswer)] else []) ++
        mx ++ ns ++ soa) := by
  unfold DnsHandler.ownAnswers
  rw [if_pos hclass]
  simp only [ite_bind]
  rfl

theorem exists_ownAnswers (hd : Deployed handler) {question : Question} {name : String} (peerIp : String)
    (hmail : question.qtype = typeMx → (question.qclass = classIn ∨ question.qclass = classAny) →
      ∃ bs, encodeName name = .ok bs ∧ 2 + bs.length < 65536) :
    ∃ answers, handler.ownAnswers question name (handler.answerIp peerIp) = .ok answers ∧ answers.length < 65536 ∧
      ∀ a ∈ answers, a.1 < 65536 ∧ a.2.length < 65536 := by
  by_cases hclass : question.qclass = classIn ∨ question.qclass = classAny
  · rw [ownAnswers_eq name _ hclass]
    obtain ⟨a, ha, hna, hga⟩ := exists_answer (show typeA < 65536 by decide) (fun ip => ip)
      (question.qtype = typeA ∨ question.qtype = typeAny) fun _ => hd.address peerIp
    obtain ⟨mx, hmx, hnmx, hgmx⟩ := exists_answer (show typeMx < 65536 by decide)
      (fun encoded => beBytes 2 10 ++ encoded) (question.qtype = typeMx) fun hasked => by
        obtain ⟨bs, hbs, hlength⟩ := hmail hasked hclass
        exact ⟨bs, hbs, by rwa [length_append, length_beBytes]⟩
    obtain ⟨ns, hns, hnns, hgns⟩ := exists_answer (show typeNs < 65536 by decide) (fun encoded => encoded)
      (question.qtype = typeNs ∨ question.qtype = typeAny) fun _ => hd.server
    obtain ⟨soa, hsoa, hnsoa, hgsoa⟩ := exists_answer (show typeSoa < 65536 by decide) (fun rdata => rdata)
      (question.qtype = typeSoa ∧ handler.owned name = true) fun _ => hd.soa
    have htxt : ∀ b ∈ (if question.qtype = typeTxt ∨ question.qtype = typeAny then [(typeTxt, txtRdata txtAnswer)]
        else []), b.1 < 65536 ∧ b.2.length < 65536 := by
      split_ifs
      · exact forall_mem_singleton.mpr (by decide)
      · exact forall_mem_nil _
    have hntxt : (if question.qtype = typeTxt ∨ question.qtype = typeAny then [(typeTxt, txtRdata txtAnswer)]
        else []).length ≤ 1 := by split_ifs <;> decide
    refine ⟨_, bind_eq_ok.mpr ⟨a, ha, bind_eq_ok.mpr ⟨mx, hmx, bind_eq_ok.mpr ⟨ns, hns,
      bind_eq_ok.mpr ⟨soa, hsoa, rfl⟩⟩⟩⟩, ?_, ?_⟩
    · simp only [length_append]
      omega
    · intro b hb
      simp only [mem_append] at hb
      rcases hb with (((hb | hb) | hb) | hb) | hb
      · exact hga b hb
      · exact htxt b hb
      · exact hgmx b hb
      · exact hgns b hb
      · exact hgsoa b hb
  · refine ⟨[], ?_, by decide, forall_mem_nil _⟩
    unfold DnsHandler.ownAnswers
    rw [if_neg hclass]
    rfl

/-- The mail answer carries the name. -/
theorem mail_mem_ownAnswers {question : Question} {name address : String} {bs : Bytes} {answers : List (ℕ × Bytes)}
    (hmail : question.qtype = typeMx) (hclass : question.qclass = classIn ∨ question.qclass = classAny)
    (hbs : encodeName name = .ok bs) (h : handler.ownAnswers question name address = .ok answers) :
    (typeMx, beBytes 2 10 ++ bs) ∈ answers := by
  rw [ownAnswers_eq name _ hclass] at h
  obtain ⟨a, -, h⟩ := bind_eq_ok.mp h
  obtain ⟨mx, hmx, h⟩ := bind_eq_ok.mp h
  obtain ⟨ns, -, h⟩ := bind_eq_ok.mp h
  obtain ⟨soa, -, h⟩ := bind_eq_ok.mp h
  obtain rfl := Except.ok.inj h
  rw [if_pos hmail, hbs] at hmx
  obtain rfl := Except.ok.inj hmx
  simp

theorem sendable_zoneAuthority (hd : Deployed handler) : ∃ authority, handler.zoneAuthority = .ok authority ∧
    authority.length < 65536 ∧
      ∀ a ∈ authority, (∃ owner, encodeName a.1 = .ok owner) ∧ a.2.1 < 65536 ∧ a.2.2.length < 65536 := by
  obtain ⟨soa, hsoa, hlength⟩ := hd.soa
  exact ⟨_, bind_eq_ok.mpr ⟨soa, hsoa, rfl⟩, by simp,
    forall_mem_singleton.mpr ⟨hd.zone, show typeSoa < 65536 by decide, hlength⟩⟩

theorem ite_ok_bind {α β : Type} {c : Prop} [Decidable c] (x : Fallible α) (d : α) (k : α → Fallible β) :
    (if c then x >>= k else Except.ok d >>= k) = (if c then x else Except.ok d) >>= k := by
  split_ifs <;> rfl

/-- The zone's authority, where it is called for. -/
theorem exists_authority (hd : Deployed handler) (needed : Prop) [Decidable needed] :
    ∃ authority, (if needed then handler.zoneAuthority else .ok []) = .ok authority ∧ authority.length < 65536 ∧
      ∀ a ∈ authority, (∃ owner, encodeName a.1 = .ok owner) ∧ a.2.1 < 65536 ∧ a.2.2.length < 65536 := by
  by_cases hneeded : needed
  · rw [if_pos hneeded]
    exact sendable_zoneAuthority hd
  · exact ⟨[], if_neg hneeded, by decide, forall_mem_nil _⟩

theorem sinkholed_eq (question : Question) (name address : String) :
    handler.sinkholed question name address = handler.ownAnswers question name address >>= fun answers =>
      (if answers.isEmpty = true ∧ handler.owned name = true then handler.zoneAuthority else .ok []) >>=
        fun authority => .ok
          { answers := answers, authority := authority, authoritative := handler.owned name
            ttl := handler.dnsTtl } := by
  unfold DnsHandler.sinkholed
  simp only [ite_ok_bind]
  rfl

theorem exists_sinkholed (hd : Deployed handler) {question : Question} {name : String} (peerIp : String)
    (hmail : question.qtype = typeMx → (question.qclass = classIn ∨ question.qclass = classAny) →
      ∃ bs, encodeName name = .ok bs ∧ 2 + bs.length < 65536) :
    ∃ args, handler.sinkholed question name (handler.answerIp peerIp) = .ok args ∧ Sendable args := by
  obtain ⟨answers, hanswers, hcount, hgood⟩ := exists_ownAnswers hd peerIp hmail
  obtain ⟨authority, hauthority, hacount, hagood⟩ :=
    exists_authority hd (answers.isEmpty = true ∧ handler.owned name = true)
  exact ⟨_, (sinkholed_eq question name _).trans
    (bind_eq_ok.mpr ⟨answers, hanswers, bind_eq_ok.mpr ⟨authority, hauthority, rfl⟩⟩),
    hgood, hcount, hagood, hacount, hd.ttl⟩

theorem forwarded_eq (question : Question) (addresses : List String) :
    handler.forwarded question addresses =
      (if question.qtype = typeA ∨ question.qtype = typeAny then addresses.mapM handler.inetAton else .ok []) >>=
        fun rdata =>
          .ok { answers := rdata.map fun ip => (typeA, ip), authoritative := false, ttl := handler.dnsTtl } := by
  unfold DnsHandler.forwarded
  simp only [ite_ok_bind]
  rfl

theorem exists_forwarded (hd : Deployed handler) {claimOf : String → Bool → Claim}
    (hup : handler.upstream = some claimOf) (question : Question) (name : String) (critical : Bool) :
    ∃ args, handler.forwarded question (claimOf name critical).addresses = .ok args ∧ Sendable args := by
  obtain ⟨hcount, haddresses⟩ := hd.claims claimOf hup name critical
  obtain ⟨rdata, hrdata, hgood, hlength⟩ : ∃ rdata, (if question.qtype = typeA ∨ question.qtype = typeAny then
      (claimOf name critical).addresses.mapM handler.inetAton else .ok []) = .ok rdata ∧
        (∀ ip ∈ rdata, ip.length < 65536) ∧ rdata.length < 65536 := by
    split_ifs
    · obtain ⟨rdata, hrdata, hgood⟩ := exists_mapM_eq_ok haddresses
      exact ⟨rdata, hrdata, hgood, (mapM_eq_ok.mp hrdata).length_eq ▸ hcount⟩
    · exact ⟨[], rfl, forall_mem_nil _, by decide⟩
  refine ⟨_, (forwarded_eq question _).trans (bind_eq_ok.mpr ⟨rdata, hrdata, rfl⟩), ?_, ?_, forall_mem_nil _,
    Nat.zero_lt_succ _, hd.ttl⟩
  · intro a ha
    obtain ⟨ip, hip, rfl⟩ := mem_map.mp ha
    exact ⟨show typeA < 65536 by decide, hgood ip hip⟩
  · rw [length_map]
    exact hlength

theorem denied_eq [Latin1Runtime] {query : Query} {question : Question} (peerIp : String)
    (hquestion : query.question = some question) (hdenied : handler.isDenied question.name = true) :
    handler.replyArgs query peerIp =
      (if handler.owned question.name = true then handler.zoneAuthority else .ok []) >>= fun authority =>
        .ok { rcode := rcodeNxdomain, authority := authority, ttl := handler.dnsTtl } := by
  unfold DnsHandler.replyArgs
  rw [hquestion]
  dsimp only
  rw [if_pos hdenied]
  simp only [ite_ok_bind]
  rfl

/-- Every path of the handler ends in arguments that fit. -/
theorem exists_replyArgs [Latin1Runtime] (hd : Deployed handler) {query : Query} (peerIp : String)
    (hmail : ∀ question, query.question = some question → question.qtype = typeMx →
      (question.qclass = classIn ∨ question.qclass = classAny) → handler.Sinkholes question.name →
        ∃ bs, encodeName question.name = .ok bs ∧ 2 + bs.length < 65536) :
    ∃ args, handler.replyArgs query peerIp = .ok args ∧ Sendable args := by
  have hplain : ∀ rcode, Sendable { rcode := rcode, authoritative := false } := fun rcode =>
    ⟨forall_mem_nil _, Nat.zero_lt_succ _, forall_mem_nil _, Nat.zero_lt_succ _, show 30 < 256 ^ 4 by decide⟩
  cases hquestion : query.question with
  | none =>
    refine ⟨_, ?_, hplain rcodeFormerr⟩
    unfold DnsHandler.replyArgs
    rw [hquestion]
  | some question =>
    by_cases hdenied : handler.isDenied question.name = true
    · obtain ⟨authority, hauthority, hcount, hgood⟩ := exists_authority hd (handler.owned question.name = true)
      exact ⟨_, (denied_eq peerIp hquestion hdenied).trans (bind_eq_ok.mpr ⟨authority, hauthority, rfl⟩),
        forall_mem_nil _, Nat.zero_lt_succ _, hgood, hcount, hd.ttl⟩
    · have hnot : handler.isDenied question.name = false := Bool.eq_false_iff.mpr hdenied
      have hown := fun hsink => @exists_sinkholed handler hd question question.name peerIp
        fun htype hclass => hmail question hquestion htype hclass hsink
      unfold DnsHandler.replyArgs
      rw [hquestion]
      dsimp only
      rw [if_neg hdenied]
      cases hup : handler.upstream with
      | none => exact hown ⟨hnot, fun claimOf h => nomatch hup.symm.trans h⟩
      | some claimOf =>
        dsimp only
        by_cases hclaimed : (claimOf question.name (handler.isInternalName question.name)).claimed = true
        · rw [if_pos hclaimed]
          exact exists_forwarded hd hup question question.name _
        · rw [if_neg hclaimed]
          by_cases hinternal : handler.isInternalName question.name = true
          · exact ⟨_, if_pos hinternal, hplain rcodeServfail⟩
          · rw [if_neg hinternal]
            refine hown ⟨hnot, fun claimOf' h => ?_⟩
            obtain rfl := Option.some.inj (hup.symm.trans h)
            exact ⟨Bool.eq_false_iff.mpr hclaimed, Bool.eq_false_iff.mpr hinternal⟩

/-- The arguments of a name that the forwarder answers itself. -/
theorem replyArgs_of_sinkholes [Runtime] {query : Query} {question : Question} (peerIp : String)
    (hquestion : query.question = some question) (h : handler.Sinkholes question.name) :
    handler.replyArgs query peerIp = handler.sinkholed question question.name (handler.answerIp peerIp) := by
  unfold DnsHandler.replyArgs
  rw [hquestion]
  dsimp only
  rw [if_neg (Bool.eq_false_iff.mp h.1)]
  cases hup : handler.upstream with
  | none => rfl
  | some claimOf =>
    obtain ⟨hclaimed, hinternal⟩ := h.2 claimOf hup
    dsimp only
    rw [if_neg (Bool.eq_false_iff.mp hclaimed), if_neg (Bool.eq_false_iff.mp hinternal)]

/-- The handler has a reply under the message's id for every message but the mail questions. -/
theorem handle_replies_iff [Latin1Runtime] (hd : Deployed handler) {data : Bytes} (peerIp : String)
    (hlength : 12 ≤ data.length) :
    (∃ reply, handler.handle data peerIp = .ok reply ∧ word reply 0 = word data 0) ↔ ¬ handler.MailTooLong data := by
  constructor
  · rintro ⟨reply, hreply, -⟩ ⟨query, question, bs, hquery, hquestion, htype, hclass, hsink, hbs, hlong⟩
    unfold DnsHandler.handle at hreply
    rw [hquery] at hreply
    obtain ⟨args, hargs, hbuild⟩ := bind_eq_ok.mp hreply
    rw [replyArgs_of_sinkholes peerIp hquestion hsink, sinkholed_eq] at hargs
    obtain ⟨answers, hanswers, hargs⟩ := bind_eq_ok.mp hargs
    obtain ⟨authority, -, hargs⟩ := bind_eq_ok.mp hargs
    obtain rfl := Except.ok.inj hargs
    obtain ⟨-, body, -, -, hbody, -⟩ := buildResponse_eq_ok hbuild
    have hfits : ∀ a ∈ answers, a.2.length < 65536 :=
      ((forall₂_and_left answers body).mp (hbody.imp fun a b h => ⟨(record_eq_ok h).2.2.2, h⟩)).1
    have hmail := hfits _ (mail_mem_ownAnswers htype hclass hbs hanswers)
    rw [length_append, length_beBytes] at hmail
    exact absurd hmail (not_lt.mpr hlong)
  · intro hshort
    unfold DnsHandler.handle
    cases hquery : parseQuery data with
    | error e => exact exists_buildFormatError hlength
    | ok query =>
      obtain ⟨-, htxid, hquestion⟩ := parseQuery_spec hquery
      obtain ⟨args, hargs, hsendable⟩ := @exists_replyArgs handler _ hd query peerIp
        fun question hquestion htype hclass hsink => by
          obtain ⟨bs, hbs⟩ := exists_encodeName question.labels
          refine ⟨bs, hbs, not_le.mp fun hlong => hshort ?_⟩
          exact ⟨query, question, bs, hquery, hquestion, htype, hclass, hsink, hbs, hlong⟩
      obtain ⟨reply, hreply, hword⟩ := exists_buildResponse (htxid ▸ word_lt data 0) hquestion hsendable
      exact ⟨reply, bind_eq_ok.mpr ⟨args, hargs, hreply⟩, hword.trans htxid⟩

end Answers

/-! ## Any bytes -/

/-- Every entry of the decoder ends, in the buffer or with the decoder's own error. -/
structure DecoderSafe [Runtime] (data : Bytes) : Prop where
  /-- The loop of `parse_name` ends before its budget does, at every depth. -/
  loops : ∀ depth offset more,
    parseLabels data (parseNameAt data depth) (data.length + 1 + more) offset = parseNameAt data (depth + 1) offset
  names : ∀ offset, Decodes (StopsWithin data offset) (parseName data offset)
  query : Decodes (fun _ => True) (parseQuery data)
  response : Decodes (fun _ => True) (parseResponse data)

theorem decoderSafe [Runtime] (data : Bytes) : DecoderSafe data where
  loops _ _ more := parseLabels_turns more (by omega)
  names := decodes_parseNameAt 11
  query := decodes_parseQuery
  response := decodes_parseResponse

/-- Whatever the bytes: the decoder is safe, and a message with a header has a reply under its id, exactly if it is
no mail question whose name does not go into a record. -/
theorem hostile_safe_iff [Latin1Runtime] {handler : DnsHandler} (hd : Deployed handler) (data : Bytes)
    (peerIp : String) :
    (DecoderSafe data ∧
      (12 ≤ data.length → ∃ reply, handler.handle data peerIp = .ok reply ∧ word reply 0 = word data 0)) ↔
      ¬ handler.MailTooLong data := by
  constructor
  · rintro ⟨-, hreplies⟩ hmail
    have hlength : 12 ≤ data.length := by
      obtain ⟨query, -, -, hquery, -⟩ := hmail
      exact (parseQuery_spec hquery).1
    exact (handle_replies_iff hd peerIp hlength).mp (hreplies hlength) hmail
  · intro hshort
    exact ⟨decoderSafe data, fun hlength => (handle_replies_iff hd peerIp hlength).mpr hshort⟩

/-! ## A name that is read twice -/

theorem latin1Lower_ascii {s : String} (h : IsAscii s) : mapChars latin1Lower s = mapChars Char.toLower s := by
  have htable : ∀ n < 128, latin1Lower (Char.ofNat n) = (Char.ofNat n).toLower := by decide +kernel
  refine congrArg String.ofList (map_congr_left fun c hc => ?_)
  rw [← Char.ofNat_toNat c]
  exact htable c.toNat (h c hc)

/-- A runtime that knows the lower case of Latin-1 and no other. -/
@[reducible] def Latin1Runtime.table : Latin1Runtime where
  toRuntime := { Runtime.ascii with
    lower := mapChars latin1Lower
    lower_ascii := fun _ => latin1Lower_ascii }
  lower_latin1 _ _ := rfl

/-- A resolver without an upstream. -/
def sinkhole : DnsHandler where
  ownedZone := "edge.test"
  answerIp _ := "10.88.0.2"
  inetAton _ := .ok [10, 88, 0, 2]

theorem deployed_sinkhole : Deployed sinkhole where
  zone := ⟨_, rfl⟩
  server := ⟨_, rfl, by decide⟩
  soa := ⟨_, rfl, by decide⟩
  ttl := by decide
  address _ := ⟨_, rfl, by decide⟩
  claims _ h := nomatch h

/-- The question for an address has its reply. -/
theorem address_question_answered :
    let _ := Latin1Runtime.table
    DecoderSafe (addressQuestion 3) ∧ ∃ reply, sinkhole.handle (addressQuestion 3) "10.88.0.9" = .ok reply ∧
      word reply 0 = word (addressQuestion 3) 0 := by
  intro rt
  have hshort : ¬ sinkhole.MailTooLong (addressQuestion 3) := by
    rintro ⟨query, question, -, hquery, hquestion, htype, -⟩
    have hasked : (parseQuery (addressQuestion 3)).map (fun q => q.question.map (·.qtype)) = .ok (some typeA) := by
      decide +kernel
    rw [hquery] at hasked
    have hsome : query.question.map (·.qtype) = some typeA := Except.ok.inj hasked
    rw [hquestion] at hsome
    exact absurd ((Option.some.inj hsome).symm.trans htype) (by decide)
  obtain ⟨hsafe, hreplies⟩ := (hostile_safe_iff deployed_sinkhole (addressQuestion 3) "10.88.0.9").mpr hshort
  exact ⟨hsafe, hreplies (by decide +kernel)⟩

/-- A label of 63 question marks. -/
def fill : Label := ⟨List.replicate 63 0x3F, by decide⟩

/-- A label that ends with the bytes of a pointer. -/
def bent : Label := ⟨List.replicate 61 0x3F ++ [0xC0, 14], by decide⟩

/-- A mail question whose name ends with a pointer two bytes behind its start: read again from there, its labels lie
two bytes in the others, and the pointer is the end of a label. -/
def overlappingQuestion (n : ℕ) : Bytes :=
  headerBytes 1 0x0100 1 0 0 ++ (List.replicate (64 * (n + 1)) 0x3F ++ [0xC0, 14, 0, 15, 0, 1])

/-- The labels as they are read. -/
def overlappingLabels (n : ℕ) : List Label := List.replicate (n + 1) fill ++ (List.replicate n fill ++ [bent])

def labelBytes (labels : List Label) : Bytes := labels.flatMap fun l => UInt8.ofNat l.1.length :: l.1

theorem labelBytes_fill (n : ℕ) : labelBytes (List.replicate n fill) = List.replicate (64 * n) 0x3F := by
  induction n with
  | zero => rfl
  | succ n ih =>
    have hone : (UInt8.ofNat fill.1.length :: fill.1 : Bytes) = List.replicate 64 0x3F := by decide
    have hcons : labelBytes (List.replicate (n + 1) fill) =
        (UInt8.ofNat fill.1.length :: fill.1) ++ labelBytes (List.replicate n fill) := by
      rw [replicate_succ, labelBytes, flatMap_cons]
      rfl
    rw [hcons, hone, ih, replicate_append_replicate, Nat.mul_succ, Nat.add_comm 64]

/-- The labels of a run are read one after the other. -/
theorem parseLabels_labels {data before after : Bytes} {pointed : ℕ → Fallible (List Label × ℕ)} {labels : List Label}
    (turns : ℕ) (h : data = before ++ (labelBytes labels ++ after)) :
    parseLabels data pointed (turns + labels.length) before.length =
      (parseLabels data pointed turns (before.length + (labelBytes labels).length)).map
        fun rest => (labels ++ rest.1, rest.2) := by
  induction labels generalizing before with
  | nil =>
    have hstop : before.length + (labelBytes []).length = before.length := Nat.add_zero _
    rw [hstop]
    cases parseLabels data pointed turns before.length <;> rfl
  | cons l ls ih =>
    have hcons : labelBytes (l :: ls) = (UInt8.ofNat l.1.length :: l.1) ++ labelBytes ls := flatMap_cons
    rw [hcons, append_assoc] at h
    have hturn : parseLabels (before ++ ((UInt8.ofNat l.1.length :: l.1) ++ (labelBytes ls ++ after))) pointed
        (turns + ls.length + 1) before.length = _ := parseLabels_label l (turns + ls.length)
    have hbefore : (before ++ (UInt8.ofNat l.1.length :: l.1)).length = before.length + (l.1.length + 1) := by
      rw [length_append, length_cons]
    have hrest := @ih (before ++ (UInt8.ofNat l.1.length :: l.1)) (by rw [h, append_assoc])
    rw [hbefore] at hrest
    rw [← h, hrest] at hturn
    rw [length_cons, ← Nat.add_assoc, hturn, hcons, length_append, length_cons,
      Nat.add_assoc before.length]
    cases parseLabels data pointed turns (before.length + (l.1.length + 1 + (labelBytes ls).length)) <;> rfl

/-- A pointer is followed, and the name ends behind it. -/
theorem parseLabels_pointer {data before after : Bytes} {pointed : ℕ → Fallible (List Label × ℕ)} (turns : ℕ)
    (h : data = before ++ (0xC0 :: 14 :: after)) :
    parseLabels data pointed (turns + 1) before.length =
      (pointed 14).map fun sub => (sub.1, before.length + 2) := by
  have hhigh : data[before.length]? = some 0xC0 := by
    rw [h, List.getElem?_append_right (le_refl _), Nat.sub_self]
    rfl
  have hlow : data[before.length + 1]? = some 14 := by
    rw [h, List.getElem?_append_right (by omega), Nat.add_sub_cancel_left]
    rfl
  rw [parseLabels, hhigh]
  dsimp only
  rw [hlow]
  rfl

/-- The first reading: the labels and the pointer. -/
theorem overlapping_first (n : ℕ) : overlappingQuestion n = headerBytes 1 0x0100 1 0 0 ++
    (labelBytes (List.replicate (n + 1) fill) ++ (0xC0 :: 14 :: [0, 15, 0, 1])) := by
  rw [labelBytes_fill]
  rfl

/-- The second, from two bytes behind the start to the byte behind the pointer. -/
theorem overlapping_second (n : ℕ) : overlappingQuestion n = (headerBytes 1 0x0100 1 0 0 ++ List.replicate 2 0x3F) ++
    (encodeLabels (List.replicate n fill ++ [bent]) ++ [15, 0, 1]) := by
  have hsplit : List.replicate (64 * (n + 1)) (0x3F : UInt8) =
      List.replicate 2 0x3F ++ (List.replicate (64 * n) 0x3F ++ List.replicate 62 0x3F) := by
    rw [replicate_append_replicate, replicate_append_replicate]
    congr 1
    omega
  have hlast : (UInt8.ofNat bent.1.length :: bent.1 : Bytes) = List.replicate 62 0x3F ++ [0xC0, 14] := by decide
  have hlabels : encodeLabels (List.replicate n fill ++ [bent]) =
      labelBytes (List.replicate n fill) ++ (UInt8.ofNat bent.1.length :: bent.1) ++ [0] := by
    rw [encodeLabels, flatMap_append, flatMap_singleton]
    rfl
  rw [hlabels, labelBytes_fill, hlast, overlappingQuestion, hsplit]
  simp only [append_assoc, cons_append, nil_append]

theorem parseName_overlapping (n : ℕ) :
    parseName (overlappingQuestion n) 12 = .ok (overlappingLabels n, 12 + 64 * (n + 1) + 2) := by
  have hheader : (headerBytes 1 0x0100 1 0 0).length = 12 := length_headerBytes
  obtain ⟨stop, hsecond⟩ : ∃ stop, parseNameAt (overlappingQuestion n) 10 14 =
      .ok (List.replicate n fill ++ [bent], stop) := by
    have hname : parseNameAt ((headerBytes 1 0x0100 1 0 0 ++ List.replicate 2 0x3F) ++
        (encodeLabels (List.replicate n fill ++ [bent]) ++ [15, 0, 1])) 10
        (headerBytes 1 0x0100 1 0 0 ++ List.replicate 2 0x3F).length = _ :=
      parseNameAt_encode 9 (List.replicate n fill ++ [bent])
    rw [← overlapping_second, length_append, hheader, length_replicate] at hname
    exact ⟨_, hname⟩
  have hlabels : (labelBytes (List.replicate (n + 1) fill)).length = 64 * (n + 1) := by
    rw [labelBytes_fill, length_replicate]
  have hlength : (overlappingQuestion n).length = 12 + 64 * (n + 1) + 6 := by
    rw [overlapping_first, length_append, length_append, hheader, hlabels]
    rfl
  obtain ⟨turns, hturns⟩ : ∃ turns,
      (overlappingQuestion n).length + 1 = turns + 1 + (List.replicate (n + 1) fill).length :=
    ⟨(overlappingQuestion n).length - (n + 1), by rw [length_replicate]; omega⟩
  have hrun := @parseLabels_labels _ _ _ (parseNameAt (overlappingQuestion n) 10) _ (turns + 1) (overlapping_first n)
  have hpointer := @parseLabels_pointer _ _ _ (parseNameAt (overlappingQuestion n) 10) turns
    ((overlapping_first n).trans (append_assoc _ _ _).symm)
  rw [length_append, hheader, hsecond, hlabels] at hpointer
  rw [hheader, ← hturns, hlabels, hpointer] at hrun
  exact hrun

theorem parseQuery_overlapping (n : ℕ) : ∃ query, parseQuery (overlappingQuestion n) = .ok query ∧
    query.question = some { labels := overlappingLabels n, qtype := typeMx, qclass := classIn } := by
  have hbefore : (headerBytes 1 0x0100 1 0 0 ++ (List.replicate (64 * (n + 1)) 0x3F ++ [0xC0, 14])).length =
      12 + 64 * (n + 1) + 2 := by
    rw [length_append, length_append, length_replicate, length_headerBytes]
    rfl
  have htype : overlappingQuestion n =
      (headerBytes 1 0x0100 1 0 0 ++ (List.replicate (64 * (n + 1)) 0x3F ++ [0xC0, 14])) ++
        (beBytes 2 typeMx ++ beBytes 2 classIn) := by
    rw [append_assoc, append_assoc]
    rfl
  have hclass : overlappingQuestion n =
      (headerBytes 1 0x0100 1 0 0 ++ (List.replicate (64 * (n + 1)) 0x3F ++ [0xC0, 14]) ++ beBytes 2 typeMx) ++
        (beBytes 2 classIn ++ []) := by
    rw [htype, append_nil, append_assoc _ (beBytes 2 typeMx)]
  have hlength : (overlappingQuestion n).length = 12 + 64 * (n + 1) + 2 + 4 := by
    rw [htype, length_append, hbefore]
    rfl
  have hqtype : word (overlappingQuestion n) (12 + 64 * (n + 1) + 2) = typeMx := by
    rw [htype]
    exact word_append (by decide) hbefore.symm
  have hqclass : word (overlappingQuestion n) (12 + 64 * (n + 1) + 2 + 2) = classIn := by
    rw [hclass]
    refine word_append (by decide) ?_
    rw [length_append, hbefore, length_beBytes]
  have hcount : word (overlappingQuestion n) 4 = 1 := by
    rw [overlappingQuestion]
    exact word_header_qdcount _ (by decide)
  let query : Query :=
    { txid := word (overlappingQuestion n) 0
      flags := word (overlappingQuestion n) 2
      question := some { labels := overlappingLabels n, qtype := typeMx, qclass := classIn }
      qdcount := 1
      raw := overlappingQuestion n
      trailing := (overlappingQuestion n).drop (12 + 64 * (n + 1) + 2 + 4) }
  refine ⟨query, ?_, rfl⟩
  rw [parseQuery, if_neg (by omega), hcount, if_neg one_ne_zero, parseName_overlapping]
  dsimp only
  rw [if_neg (by omega), hqtype, hqclass]

theorem mailTooLong_overlapping [Latin1Runtime] {n : ℕ} (h : 511 ≤ n) :
    sinkhole.MailTooLong (overlappingQuestion n) := by
  obtain ⟨query, hquery, hquestion⟩ := parseQuery_overlapping n
  obtain ⟨bs, hbs⟩ := exists_encodeName (overlappingLabels n)
  refine ⟨query, _, bs, hquery, hquestion, rfl, Or.inl rfl, ⟨rfl, fun claimOf hup => nomatch hup⟩, hbs, ?_⟩
  have hdot : ∀ l ∈ overlappingLabels n, (0x2E : UInt8) ∉ l.1 := by
    intro l hl
    rcases mem_append.mp hl with hl | hl
    · rw [eq_of_mem_replicate hl]
      decide
    · rcases mem_append.mp hl with hl | hl
      · rw [eq_of_mem_replicate hl]
        decide
      · rw [mem_singleton.mp hl]
        decide
  have hne : overlappingLabels n ≠ [] := append_ne_nil_of_left_ne_nil (cons_ne_nil fill _) _
  have hfill : fill.1.length + 1 = 64 := by decide
  have hbent : bent.1.length + 1 = 64 := by decide
  rw [length_encodeName hne hdot hbs, length_encodeLabels, overlappingLabels]
  simp only [map_append, map_replicate, map_cons, map_nil, sum_append, sum_replicate_nat,
    sum_cons, sum_nil, hfill, hbent]
  omega

/-- The reply to a question of 32786 bytes would take a record of 65539, and none is sent. -/
theorem overlapping_question_unanswered :
    let _ := Latin1Runtime.table
    ¬ (DecoderSafe (overlappingQuestion 511) ∧ (12 ≤ (overlappingQuestion 511).length →
      ∃ reply, sinkhole.handle (overlappingQuestion 511) "10.88.0.9" = .ok reply ∧
        word reply 0 = word (overlappingQuestion 511) 0)) := by
  intro rt
  rintro ⟨-, hreplies⟩
  have hlength : 12 ≤ (overlappingQuestion 511).length := by
    obtain ⟨query, hquery, -⟩ := parseQuery_overlapping 511
    exact (parseQuery_spec hquery).1
  exact (handle_replies_iff deployed_sinkhole "10.88.0.9" hlength).mp (hreplies hlength)
    (mailTooLong_overlapping (le_refl 511))

end PtaasBench.EdgeResolver.DnsListener
