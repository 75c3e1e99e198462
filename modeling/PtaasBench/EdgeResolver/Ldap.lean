import PtaasBench.EdgeResolver.Ber
import PtaasBench.EdgeResolver.DnsWire

/-!
# PtaasBench.EdgeResolver.Ldap — the LDAP listener (`listeners/ldap.py`)

One connection: messages are framed, dispatched and answered one after the other.  A timeout ends the
bytes of a connection as its client does.
-/

namespace PtaasBench.EdgeResolver.Ldap

open Py Lib Ber
open DnsWire (hex2)

def maxMessage : ℕ := 65536

/-- What `_record` is told about an operation. -/
structure Lookup where
  operation : String
  dn : List Char := []
  detail : List (String × ℤ) := []

/-! ## The listener -/

/-- The body of a message, behind the octets that frame it. -/
def readBody (framing : Bytes) (length : ℕ) (rest : Bytes) : Option (Bytes × Bytes) :=
  if maxMessage < length then none
  else if rest.length < length then none
  else some (framing ++ rest.take length, rest.drop length)

/-- `_read_message`: one message, and the bytes behind it. -/
def readMessage : Bytes → Option (Bytes × Bytes)
  | tag :: byte :: rest =>
    let first := byte.toNat
    if first < 0x80 then readBody [tag, byte] first rest
    else if first = 0x80 then none
    else
      let count := first &&& 0x7F
      if 4 < count then none
      else if rest.length < count then none
      else readBody (tag :: byte :: rest.take count) (beNat (rest.take count)) (rest.drop count)
  | _ => none

/-- The message id of an LDAPMessage, and its operation. -/
def openEnvelope (envelope : Tlv) : Except String (ℤ × Tlv) :=
  if envelope.tag ≠ tagSequence then
    .error ("LDAPMessage is not a SEQUENCE (tag 0x" ++ hex2 envelope.tag.toNat ++ ")")
  else
    match iterTlv envelope.content with
    | .error e => .error e
    | .ok (id :: op :: _) => .ok (id.int, op)
    | .ok _ => .error "LDAPMessage without a protocol op"

def parseMessage (message : Bytes) : Except String (ℤ × Tlv) := do
  let envelope ← readTlv message 0
  openEnvelope envelope

/-- `_attribute` -/
def attributeOf (name value : String) : Bytes :=
  encSeq [encStr name.toList, encSet [encStr value.toList]]

/-- The fields of a result of success. -/
def success : Bytes := encEnum 0 ++ encStr [] ++ encStr []

/-- The attribute list of the one entry. -/
def entryAttributes : Bytes := encSeq [attributeOf "objectClass" "top"]

/-- `_dispatch`: the response, and what was recorded. -/
def dispatch (message : Bytes) : Except String (Option Bytes × Option Lookup) := do
  let (id, op) ← parseMessage message
  if op.tag = appUnbindRequest then return (none, none)
  else if op.tag = appBindRequest then
    let fields ← iterTlv op.content
    let version := fields[0]?.elim 0 Tlv.int
    let dn := fields[1]?.elim [] Tlv.text
    return (some (encSeq [encInt id, tlv appBindResponse success]),
      some { operation := "bind", dn := dn, detail := [("version", version)] })
  else if op.tag = appSearchRequest then
    let fields ← iterTlv op.content
    let base := fields[0]?.elim [] Tlv.text
    let scope := fields[1]?.elim (-1) Tlv.int
    return (some (encSeq [encInt id, tlv appSearchEntry (encStr base ++ entryAttributes)] ++
        encSeq [encInt id, tlv appSearchDone success]),
      some { operation := "search", dn := base, detail := [("scope", scope)] })
  else if op.tag = appExtendedRequest then
    return (some (encSeq [encInt id, tlv appExtendedResponse success]), some { operation := "extended" })
  else return (none, some { operation := "op-0x" ++ hex2 op.tag.toNat })

theorem length_readBody {framing rest message tail : Bytes} {length : ℕ}
    (h : readBody framing length rest = some (message, tail)) :
    message.length ≤ framing.length + maxMessage ∧ tail.length ≤ rest.length := by
  unfold readBody at h
  by_cases hlong : maxMessage < length
  · rw [if_pos hlong] at h
    cases h
  · rw [if_neg hlong] at h
    by_cases hshort : rest.length < length
    · rw [if_pos hshort] at h
      cases h
    · rw [if_neg hshort] at h
      obtain ⟨rfl, rfl⟩ := Prod.mk.inj (Option.some.inj h)
      simp only [List.length_append, List.length_take, List.length_drop]
      omega

/-- A message is of bounded size, and takes bytes off the connection. -/
theorem length_readMessage {stream message rest : Bytes} (h : readMessage stream = some (message, rest)) :
    message.length ≤ 6 + maxMessage ∧ rest.length < stream.length := by
  rcases stream with _ | ⟨tag, _ | ⟨byte, stream⟩⟩
  · cases h
  · cases h
  · simp only [readMessage] at h
    split_ifs at h with hshort hindefinite hcount hroom
    · have hbody := length_readBody h
      simp only [List.length_cons, List.length_nil] at hbody ⊢
      omega
    · have hbody := length_readBody h
      simp only [List.length_cons, List.length_take, List.length_drop] at hbody ⊢
      omega

/-- `__call__`: the messages of a connection that are answered, each with its response. -/
def serve (stream : Bytes) : List (Bytes × Bytes) :=
  match _h : readMessage stream with
  | none => []
  | some (message, rest) =>
    match dispatch message with
    | .ok (some response, _) => (message, response) :: serve rest
    | _ => []
termination_by stream.length
decreasing_by exact (length_readMessage _h).2

/-! ## What a client reads -/

/-- The messages of a response. -/
def messagesOf (response : Bytes) : Except String (List (ℤ × Tlv)) := do
  let envelopes ← iterTlv response
  envelopes.mapM openEnvelope

/-- The operations a response to an operation has. -/
def responseTags (op : UInt8) : List UInt8 :=
  if op = appBindRequest then [appBindResponse]
  else if op = appSearchRequest then [appSearchEntry, appSearchDone]
  else if op = appExtendedRequest then [appExtendedResponse]
  else []

/-- A response carries the id of the message it answers, once for each operation it has. -/
def Answers (message response : Bytes) : Prop :=
  ∃ id op ops, parseMessage message = .ok (id, op) ∧ messagesOf response = .ok (ops.map fun o => (id, o)) ∧
    ops.map Tlv.tag = responseTags op.tag ∧ ops ≠ []

/-- One message with a body under a tag. -/
def messageItem (id : ℤ) (body : UInt8 × Bytes) : UInt8 × Bytes :=
  (tagSequence, tlv tagInteger (intContent id) ++ tlv body.1 body.2)

theorem encSeq_message (id : ℤ) (body : UInt8 × Bytes) :
    encSeq [encInt id, tlv body.1 body.2] = tlv tagSequence (messageItem id body).2 := by
  rw [encSeq, encInt, List.flatten_cons, List.flatten_cons, List.flatten_nil, List.append_nil, messageItem]

theorem length_encodeLength_le {length : ℕ} (h : length < 2 ^ 32) : (encodeLength length).length ≤ 5 := by
  have hcount := size_div_le (k := 4) h
  unfold encodeLength
  split_ifs with hshort
  · rw [List.length_singleton]
    omega
  · rw [List.length_cons, length_beBytes]
    omega

theorem length_tlv_le (tag : UInt8) (content : Bytes) (h : content.length < 2 ^ 32) :
    (tlv tag content).length ≤ content.length + 6 := by
  have hlength := length_encodeLength_le h
  rw [tlv, List.length_cons, List.length_append]
  omega

/-- A message of a response is opened again. -/
theorem openEnvelope_messageItem (id : ℤ) (hid : (intContent id).length < 2 ^ 32) {body : UInt8 × Bytes}
    (htag : ShortTag body.1) (hbody : body.2.length < 2 ^ 32) (stop : ℕ) :
    ∃ op : Tlv, op.tag = body.1 ∧
      openEnvelope { tag := tagSequence, content := (messageItem id body).2, stop := stop } =
        .ok (id, op) := by
  have hitems : ∀ item ∈ [(tagInteger, intContent id), body], ShortTag item.1 ∧ item.2.length < 2 ^ 32 := by
    intro item hitem
    rcases List.mem_cons.mp hitem with rfl | hitem
    · exact ⟨(by decide : ShortTag tagInteger), hid⟩
    · obtain rfl := List.mem_singleton.mp hitem
      exact ⟨htag, hbody⟩
  have hread := iterTlv_tlvs hitems
  rw [List.flatMap_cons, List.flatMap_cons, List.flatMap_nil, List.append_nil] at hread
  dsimp only at hread
  refine ⟨{ tag := body.1, content := body.2
            stop := 0 + (tlv tagInteger (intContent id)).length + (tlv body.1 body.2).length }, rfl, ?_⟩
  unfold openEnvelope
  rw [if_neg (fun h => h rfl)]
  dsimp only [messageItem]
  rw [hread]
  dsimp only [placed]
  rw [int_intContent]

/-- Every message of a response is opened again, wherever it stands. -/
theorem mapM_openEnvelope (id : ℤ) (hid : (intContent id).length < 2 ^ 32) {bodies : List (UInt8 × Bytes)}
    (hbodies : ∀ body ∈ bodies, ShortTag body.1 ∧ body.2.length < 2 ^ 32) (pos : ℕ) :
    ∃ ops : List Tlv, ops.map Tlv.tag = bodies.map Prod.fst ∧
      (placed pos (bodies.map (messageItem id))).mapM openEnvelope = .ok (ops.map fun o => (id, o)) := by
  induction bodies generalizing pos with
  | nil => exact ⟨[], rfl, rfl⟩
  | cons body bodies ih =>
    obtain ⟨htag, hsize⟩ := hbodies body List.mem_cons_self
    obtain ⟨op, hop, hread⟩ := openEnvelope_messageItem id hid htag hsize
      (pos + (tlv tagSequence (messageItem id body).2).length)
    obtain ⟨ops, hops, hrest⟩ := ih (fun b hb => hbodies b (List.mem_cons_of_mem _ hb))
      (pos + (tlv tagSequence (messageItem id body).2).length)
    refine ⟨op :: ops, ?_, ?_⟩
    · rw [List.map_cons, List.map_cons, hop, hops]
    · rw [List.map_cons, placed, List.mapM_cons]
      exact bind_eq_ok.mpr ⟨_, hread, bind_eq_ok.mpr ⟨_, hrest, rfl⟩⟩

/-- The messages of a response built of bodies with one id. -/
theorem messagesOf_bodies (id : ℤ) (hid : (intContent id).length < 2 ^ 20) (bodies : List (UInt8 × Bytes))
    (hbodies : ∀ body ∈ bodies, ShortTag body.1 ∧ body.2.length < 2 ^ 30) :
    ∃ ops : List Tlv, ops.map Tlv.tag = bodies.map Prod.fst ∧
      messagesOf (bodies.flatMap fun body => encSeq [encInt id, tlv body.1 body.2]) =
        .ok (ops.map fun o => (id, o)) := by
  have hflat : (bodies.flatMap fun body => encSeq [encInt id, tlv body.1 body.2]) =
      (bodies.map (messageItem id)).flatMap fun item => tlv item.1 item.2 := by
    rw [List.flatMap_map]
    simp only [encSeq_message]
    rfl
  have hitems : ∀ item ∈ bodies.map (messageItem id), ShortTag item.1 ∧ item.2.length < 2 ^ 32 := by
    intro item hitem
    obtain ⟨body, hbody, rfl⟩ := List.mem_map.mp hitem
    have hsize := (hbodies body hbody).2
    have hint := length_tlv_le tagInteger (intContent id) (by omega)
    have hrest := length_tlv_le body.1 body.2 (by omega)
    refine ⟨(by decide : ShortTag tagSequence), ?_⟩
    rw [messageItem, List.length_append]
    omega
  have hsmall : ∀ body ∈ bodies, ShortTag body.1 ∧ body.2.length < 2 ^ 32 := by
    intro body hbody
    obtain ⟨htag, hsize⟩ := hbodies body hbody
    exact ⟨htag, by omega⟩
  obtain ⟨ops, hops, hmap⟩ := mapM_openEnvelope id (by omega) hsmall 0
  refine ⟨ops, hops, ?_⟩
  rw [messagesOf, hflat]
  exact bind_eq_ok.mpr ⟨_, iterTlv_tlvs hitems, hmap⟩

/-! ## The parts of a message are no larger than it -/

theorem content_le {buf : Bytes} {pos : ℕ} {t : Tlv} (h : readTlv buf pos = .ok t) :
    t.content.length ≤ buf.length := by
  unfold readTlv at h
  split at h
  · cases h
  · split_ifs at h with htag
    split at h
    · cases h
    · dsimp only at h
      split_ifs at h with hend
      obtain rfl := Except.ok.inj h
      dsimp only
      rw [slice, List.length_take, List.length_drop]
      omega

theorem content_le_of_mem_iterFrom {buf : Bytes} {turns pos : ℕ} {ts : List Tlv}
    (h : iterFrom buf turns pos = .ok ts) : ∀ t ∈ ts, t.content.length ≤ buf.length := by
  induction turns generalizing pos ts with
  | zero =>
    obtain rfl := Except.ok.inj h
    intro t ht
    cases ht
  | succ turns ih =>
    rw [iterFrom] at h
    split_ifs at h with hmore
    · split at h
      · cases h
      · rename_i element helement
        obtain ⟨rest, hrest, rfl⟩ := map_eq_ok.mp h
        intro t ht
        rcases List.mem_cons.mp ht with rfl | ht
        · exact content_le helement
        · exact ih hrest t ht
    · obtain rfl := Except.ok.inj h
      intro t ht
      cases ht

theorem content_le_of_mem_iterTlv {buf : Bytes} {ts : List Tlv} (h : iterTlv buf = .ok ts) {t : Tlv}
    (ht : t ∈ ts) : t.content.length ≤ buf.length := content_le_of_mem_iterFrom h t ht

/-- An integer that was read is written with at most one byte more. -/
theorem length_intContent_beInt (bs : Bytes) : (intContent (beInt bs)).length ≤ bs.length + 1 := by
  have hlt := beNat_lt bs
  have habs : (beInt bs).natAbs ≤ 256 ^ bs.length := by
    zify at hlt
    unfold beInt
    split_ifs
    · omega
    · have hcast : ((256 ^ bs.length : ℕ) : ℤ) = (256 : ℤ) ^ bs.length := by norm_num
      omega
  have hsize : (beInt bs).natAbs.size ≤ 8 * bs.length + 1 := by
    refine Nat.size_le.mpr ?_
    rw [pow_succ, pow_mul, show (2 : ℕ) ^ 8 = 256 by rfl]
    have hpos : 0 < 256 ^ bs.length := by positivity
    omega
  rw [length_intContent]
  omega

theorem length_intContent_int (t : Tlv) : (intContent t.int).length ≤ t.content.length + 1 := by
  unfold Tlv.int
  split_ifs with hempty
  · rw [show (intContent 0).length = 1 by decide]
    omega
  · exact length_intContent_beInt _

/-- The id and the operation of a message are bounded by its size. -/
theorem length_parseMessage {message : Bytes} {id : ℤ} {op : Tlv} (h : parseMessage message = .ok (id, op)) :
    (intContent id).length ≤ message.length + 1 ∧ op.content.length ≤ message.length := by
  obtain ⟨envelope, henvelope, hopen⟩ := bind_eq_ok.mp h
  have houter := content_le henvelope
  unfold openEnvelope at hopen
  split_ifs at hopen with htag
  split at hopen
  · cases hopen
  · rename_i t op' rest hparts
    obtain ⟨rfl, rfl⟩ := Prod.mk.inj (Except.ok.inj hopen)
    have hid := content_le_of_mem_iterTlv hparts List.mem_cons_self
    have hop := content_le_of_mem_iterTlv hparts (List.mem_cons_of_mem _ List.mem_cons_self)
    have hint := length_intContent_int t
    omega
  · cases hopen

/-! ## Responses -/

theorem length_success : success.length < 2 ^ 30 := by decide

theorem length_entryAttributes : entryAttributes.length < 2 ^ 20 := by decide

/-- The base object of a search is written again on at most three times its bytes. -/
theorem length_encStr_text {fields : List Tlv} {buf : Bytes} (h : iterTlv buf = .ok fields)
    (hbuf : buf.length ≤ 6 + maxMessage) :
    (encStr (fields[0]?.elim [] Tlv.text)).length ≤ 3 * buf.length + 6 := by
  have hsize : (utf8Encode (fields[0]?.elim [] Tlv.text)).length ≤ 3 * buf.length := by
    rcases fields with _ | ⟨field, fields⟩
    · exact Nat.zero_le _
    · have hfield := content_le_of_mem_iterTlv h List.mem_cons_self
      have htext := length_utf8_decode field.content
      exact htext.trans (by omega)
  have hmax : maxMessage = 65536 := rfl
  have htlv := length_tlv_le tagOctetString (utf8Encode (fields[0]?.elim [] Tlv.text)) (by omega)
  rw [encStr]
  omega

/-- Bodies under the tags of the operation's response answer a message that can arrive. -/
theorem answers_of_bodies {message : Bytes} {id : ℤ} {op : Tlv} (hsize : message.length ≤ 6 + maxMessage)
    (hparse : parseMessage message = .ok (id, op)) {bodies : List (UInt8 × Bytes)} (hsome : bodies ≠ [])
    (htags : bodies.map Prod.fst = responseTags op.tag)
    (hbodies : ∀ body ∈ bodies, ShortTag body.1 ∧ body.2.length < 2 ^ 30) :
    Answers message (bodies.flatMap fun body => encSeq [encInt id, tlv body.1 body.2]) := by
  obtain ⟨hid, -⟩ := length_parseMessage hparse
  have hmax : maxMessage = 65536 := rfl
  obtain ⟨ops, hops, hmessages⟩ := messagesOf_bodies id (by omega) bodies hbodies
  refine ⟨id, op, ops, hparse, hmessages, hops.trans htags, ?_⟩
  rintro rfl
  exact hsome (List.map_eq_nil_iff.mp hops.symm)

/-- So does a result that only says success. -/
theorem answers_of_success {message : Bytes} {id : ℤ} {op : Tlv} (hsize : message.length ≤ 6 + maxMessage)
    (hparse : parseMessage message = .ok (id, op)) {tag : UInt8} (htag : ShortTag tag)
    (htags : [tag] = responseTags op.tag) : Answers message (encSeq [encInt id, tlv tag success]) := by
  have hanswers : Answers message ([(tag, success)].flatMap fun body => encSeq [encInt id, tlv body.1 body.2]) := by
    refine answers_of_bodies hsize hparse (List.cons_ne_nil _ _) htags fun body hbody => ?_
    obtain rfl := List.mem_singleton.mp hbody
    exact ⟨htag, length_success⟩
  rwa [List.flatMap_singleton] at hanswers

/-- A response carries the id of its message. -/
theorem answers_of_dispatch {message response : Bytes} {lookup : Option Lookup}
    (hsize : message.length ≤ 6 + maxMessage) (h : dispatch message = .ok (some response, lookup)) :
    Answers message response := by
  obtain ⟨⟨id, op⟩, hparse, hrest⟩ := bind_eq_ok.mp h
  obtain ⟨-, hop⟩ := length_parseMessage hparse
  have hmax : maxMessage = 65536 := rfl
  dsimp only at hrest
  split_ifs at hrest with hunbind hbind hsearch hextended
  · cases hrest
  · obtain ⟨fields, -, hbody⟩ := bind_eq_ok.mp hrest
    obtain ⟨hresponse, -⟩ := Prod.mk.inj (Except.ok.inj hbody)
    obtain rfl := Option.some.inj hresponse
    exact answers_of_success hsize hparse (by decide) (by rw [hbind]; rfl)
  · obtain ⟨fields, hfields, hbody⟩ := bind_eq_ok.mp hrest
    obtain ⟨hresponse, -⟩ := Prod.mk.inj (Except.ok.inj hbody)
    obtain rfl := Option.some.inj hresponse
    have hbase := length_encStr_text hfields (by omega)
    have hattributes := length_entryAttributes
    have hanswers : Answers message ([(appSearchEntry, encStr (fields[0]?.elim [] Tlv.text) ++ entryAttributes),
        (appSearchDone, success)].flatMap fun body => encSeq [encInt id, tlv body.1 body.2]) := by
      refine answers_of_bodies hsize hparse (List.cons_ne_nil _ _) (by rw [hsearch]; rfl) fun body hbody => ?_
      rcases List.mem_cons.mp hbody with rfl | hbody
      · refine ⟨(by decide : ShortTag appSearchEntry), ?_⟩
        rw [List.length_append]
        omega
      · obtain rfl := List.mem_singleton.mp hbody
        exact ⟨by decide, length_success⟩
    rwa [List.flatMap_cons, List.flatMap_singleton] at hanswers
  · obtain ⟨hresponse, -⟩ := Prod.mk.inj (Except.ok.inj hrest)
    obtain rfl := Option.some.inj hresponse
    exact answers_of_success hsize hparse (by decide) (by rw [hextended]; rfl)
  · cases hrest

/-- Every response of a connection answers its message. -/
theorem answers_of_mem_serve (stream : Bytes) : ∀ exchange ∈ serve stream, Answers exchange.1 exchange.2 := by
  fun_induction serve stream with
  | case1 stream hnone =>
    intro exchange hexchange
    cases hexchange
  | case2 stream message rest hread response lookup hdispatch ih =>
    intro exchange hexchange
    rcases List.mem_cons.mp hexchange with rfl | hexchange
    · exact answers_of_dispatch (length_readMessage hread).1 hdispatch
    · exact ih exchange hexchange
  | case3 stream message rest hread hdispatch =>
    intro exchange hexchange
    cases hexchange

/-- **BER decoding undoes encoding**: elements, rows of elements, integers whose content a length can
count, and the responses of the listener. -/
theorem ber_round_trips :
    (∀ (tag : UInt8) (content before suffix : Bytes), ShortTag tag → content.length < 2 ^ 32 →
      readTlv (before ++ (tlv tag content ++ suffix)) before.length =
        .ok { tag := tag, content := content, stop := before.length + (tlv tag content).length }) ∧
    (∀ items : List (UInt8 × Bytes), (∀ item ∈ items, ShortTag item.1 ∧ item.2.length < 2 ^ 32) →
      iterTlv (items.flatMap fun item => tlv item.1 item.2) = .ok (placed 0 items)) ∧
    (∀ (value : ℤ) (tag : UInt8) (suffix : Bytes), ShortTag tag → (intContent value).length < 2 ^ 32 →
      (readTlv (encInt value tag ++ suffix) 0).map Tlv.int = .ok value) ∧
    ∀ stream, ∀ exchange ∈ serve stream, Answers exchange.1 exchange.2 := by
  refine ⟨fun tag content before suffix htag h => readTlv_tlv htag h, fun items hitems => iterTlv_tlvs hitems,
    fun value tag suffix htag h => ?_, answers_of_mem_serve⟩
  have hread : readTlv ([] ++ (tlv tag (intContent value) ++ suffix)) ([] : Bytes).length = _ := readTlv_tlv htag h
  rw [List.nil_append] at hread
  rw [encInt, List.length_nil] at *
  rw [hread]
  exact congrArg Except.ok (int_intContent tag value _)

end PtaasBench.EdgeResolver.Ldap
