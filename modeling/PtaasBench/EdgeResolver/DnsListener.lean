import PtaasBench.EdgeResolver.DnsRoundTrip
import PtaasBench.Py.Utf8

/-!
# PtaasBench.EdgeResolver.DnsListener — the resolver for the application network (`listeners/dns.py`)

The reply to one message.  What the recorder makes of it is not part of the reply; the upstream resolver,
the address a client can reach and `inet_aton` are parameters.
-/

namespace PtaasBench.EdgeResolver.DnsListener

open Py Lib DnsWire

/-- What the upstream said about a name. -/
structure Claim where
  claimed : Bool
  addresses : List String := []

structure DnsHandler where
  ownedZone : String
  dnsTtl : ℕ := 30
  internal : List String := []
  denylist : List String := []
  upstream : Option (String → Bool → Claim) := none
  answerIp : String → String
  inetAton : String → Fallible Bytes

def txtAnswer : String := "v=spf1 -all"

/-- `txt_rdata` -/
def txtRdata (text : String) : Bytes :=
  let payload := (utf8Encode text.toList).take 255
  UInt8.ofNat payload.length :: payload

/-- `soa_rdata` -/
def soaRdata (zone : String) : Fallible Bytes := do
  let mname ← encodeName ("ns1." ++ zone)
  let rname ← encodeName ("hostmaster." ++ zone)
  let numbers ← packAll [(4, 1), (4, 300), (4, 60), (4, 3600), (4, 30)]
  return mname ++ rname ++ numbers

namespace DnsHandler

variable (handler : DnsHandler)

/-- `_matches` -/
def matchesAny (name : String) (patterns : List String) : Bool :=
  patterns.any fun pattern => name = pattern || endsWith name ("." ++ pattern)

def isInternalName (name : String) : Bool := matchesAny name handler.internal

def isDenied (name : String) : Bool := matchesAny name handler.denylist

def owned (name : String) : Bool :=
  name = handler.ownedZone || endsWith name ("." ++ handler.ownedZone)

/-- The authority section of a name in the owned zone. -/
def zoneAuthority : Fallible (List (String × ℕ × Bytes)) := do
  let soa ← soaRdata handler.ownedZone
  return [(handler.ownedZone, typeSoa, soa)]

/-- The arguments of `_forwarded_response`. -/
def forwarded (question : Question) (addresses : List String) : Fallible ResponseArgs := do
  let rdata ← if question.qtype = typeA ∨ question.qtype = typeAny then addresses.mapM handler.inetAton
    else .ok []
  return { answers := rdata.map fun ip => (typeA, ip), authoritative := false, ttl := handler.dnsTtl }

/-- The answers of the forwarder. -/
def ownAnswers (question : Question) (name address : String) : Fallible (List (ℕ × Bytes)) := do
  if question.qclass = classIn ∨ question.qclass = classAny then
    let a ← if question.qtype = typeA ∨ question.qtype = typeAny then do
        let ip ← handler.inetAton address
        pure [(typeA, ip)]
      else .ok []
    let txt := if question.qtype = typeTxt ∨ question.qtype = typeAny then [(typeTxt, txtRdata txtAnswer)] else []
    let mx ← if question.qtype = typeMx then do
        let encoded ← encodeName name
        pure [(typeMx, beBytes 2 10 ++ encoded)]
      else .ok []
    let ns ← if question.qtype = typeNs ∨ question.qtype = typeAny then do
        let encoded ← encodeName ("ns1." ++ handler.ownedZone)
        pure [(typeNs, encoded)]
      else .ok []
    let soa ← if question.qtype = typeSoa ∧ handler.owned name then do
        let rdata ← soaRdata handler.ownedZone
        pure [(typeSoa, rdata)]
      else .ok []
    return a ++ txt ++ mx ++ ns ++ soa
  else return []

/-- The arguments of the sinkhole's own reply. -/
def sinkholed (question : Question) (name address : String) : Fallible ResponseArgs := do
  let answers ← handler.ownAnswers question name address
  let authority ← if answers.isEmpty ∧ handler.owned name then handler.zoneAuthority else .ok []
  return { answers := answers, authority := authority, authoritative := handler.owned name
           ttl := handler.dnsTtl }

variable [Runtime]

/-- The arguments `handle` calls `build_response` with. -/
def replyArgs (query : Query) (peerIp : String) : Fallible ResponseArgs :=
  match query.question with
  | none => .ok { rcode := rcodeFormerr, authoritative := false }
  | some question =>
    let name := question.name
    if handler.isDenied name then do
      let authority ← if handler.owned name then handler.zoneAuthority else .ok []
      return { rcode := rcodeNxdomain, authority := authority, ttl := handler.dnsTtl }
    else
      match handler.upstream with
      | none => handler.sinkholed question name (handler.answerIp peerIp)
      | some claimOf =>
        let claim := claimOf name (handler.isInternalName name)
        if claim.claimed then handler.forwarded question claim.addresses
        else if handler.isInternalName name then .ok { rcode := rcodeServfail, authoritative := false }
        else handler.sinkholed question name (handler.answerIp peerIp)

/-- `handle`: an error is an exception, and nothing is sent. -/
def handle (data : Bytes) (peerIp : String) : Fallible Bytes :=
  match parseQuery data with
  | .error _ => buildFormatError data
  | .ok query => do
    let args ← handler.replyArgs query peerIp
    buildResponse query args

/-! ## The size of a reply -/

/-- A reply fits a datagram of the classic size, and says so when answers had to be left out. -/
def Fits (data : Bytes) (peerIp : String) (reply : Bytes) : Prop :=
  reply.length ≤ maxUdp ∧
    ∀ query args, parseQuery data = .ok query → handler.replyArgs query peerIp = .ok args →
      word reply 6 < args.answers.length → truncated reply = true

omit [Runtime] in
/-- The question of a message leaves room for it in a reply. -/
def ShortQuestion (data : Bytes) : Prop :=
  ∀ query question, parseQuery data = .ok query → query.question = some question →
    12 + (encodeLabels question.labels).length + 4 ≤ maxUdp

end DnsHandler

theorem length_buildFormatError {data reply : Bytes} (h : buildFormatError data = .ok reply) :
    reply.length = 12 := by
  obtain ⟨rfl, -⟩ := packAll_header h
  exact length_headerBytes

theorem length_questionBytes {question : Option Question} {bs : Bytes} (h : questionBytes question = .ok bs) :
    bs.length = question.elim 0 fun q => (encodeLabels q.labels).length + 4 := by
  cases question with
  | none =>
    obtain rfl := Except.ok.inj h
    rfl
  | some q =>
    obtain ⟨rfl, -⟩ := questionBytes_some h
    exact length_question q

/-- A response is at most 512 bytes long exactly if its header and question are. -/
theorem length_buildResponse_le_iff {query : Query} {args : ResponseArgs} {reply : Bytes}
    (h : buildResponse query args = .ok reply) :
    reply.length ≤ maxUdp ↔
      12 + query.question.elim 0 (fun q => (encodeLabels q.labels).length + 4) ≤ maxUdp := by
  obtain ⟨question, body, ns, hquestion, -, -, -, hreply⟩ := buildResponse_eq_ok h
  rw [← length_questionBytes hquestion]
  by_cases hlong : maxUdp < (fullMessage query args question body ns).length
  · rw [if_pos hlong] at hreply
    rw [hreply, shortMessage, List.length_append, length_headerBytes]
  · rw [if_neg hlong] at hreply
    have hsize : (fullMessage query args question body ns).length ≤ maxUdp := not_lt.mp hlong
    rw [hreply]
    refine iff_of_true hsize ?_
    rw [fullMessage, List.length_append, length_headerBytes, List.length_append] at hsize
    omega

/-- A response without all the answers has the TC bit. -/
theorem truncated_of_missing {query : Query} {args : ResponseArgs} {reply : Bytes}
    (h : buildResponse query args = .ok reply) (hmissing : word reply 6 < args.answers.length) :
    truncated reply = true := by
  obtain ⟨question, body, ns, -, -, -, hcount, hreply⟩ := buildResponse_eq_ok h
  cases htc : truncated reply with
  | true => rfl
  | false =>
    rw [eq_fullMessage hreply htc, fullMessage, word_header_ancount _ hcount] at hmissing
    exact absurd hmissing (lt_irrefl _)

/-- A reply that is sent fits exactly if the question of the message it answers leaves room for it. -/
theorem reply_fits_iff [Runtime] (handler : DnsHandler) {data reply : Bytes} {peerIp : String}
    (h : handler.handle data peerIp = .ok reply) :
    handler.Fits data peerIp reply ↔ DnsHandler.ShortQuestion data := by
  unfold DnsHandler.handle at h
  cases hquery : parseQuery data with
  | error e =>
    rw [hquery] at h
    refine iff_of_true ⟨?_, fun query args hparse => ?_⟩ fun query question hparse => ?_
    · rw [length_buildFormatError h]
      decide
    · rw [hquery] at hparse
      cases hparse
    · rw [hquery] at hparse
      cases hparse
  | ok query =>
    rw [hquery] at h
    obtain ⟨args, hargs, hbuild⟩ := bind_eq_ok.mp h
    have hsize := length_buildResponse_le_iff hbuild
    constructor
    · rintro ⟨hlength, -⟩ query' question hparse hquestion
      rw [hquery] at hparse
      obtain rfl := Except.ok.inj hparse
      have hroom := hsize.mp hlength
      rw [hquestion] at hroom
      exact hroom
    · intro hshort
      refine ⟨hsize.mpr ?_, fun query' args' hparse hargs' hmissing => ?_⟩
      · cases hquestion : query.question with
        | none => decide
        | some question => exact hshort query question hquery hquestion
      · rw [hquery] at hparse
        obtain rfl := Except.ok.inj hparse
        rw [hargs] at hargs'
        obtain rfl := Except.ok.inj hargs'
        exact truncated_of_missing hbuild hmissing

/-! ## Questions of two sizes -/

/-- A resolver whose upstream has an address for every name. -/
def forwarder : DnsHandler where
  ownedZone := "edge.test"
  upstream := some fun _ _ => { claimed := true, addresses := ["10.88.0.2"] }
  answerIp _ := "10.88.0.2"
  inetAton _ := .ok [10, 88, 0, 2]

/-- A question for the address of a name of so many labels of 63 bytes. -/
def addressQuestion (count : ℕ) : Bytes :=
  headerBytes 1 0x0100 1 0 0 ++
    (encodeLabels (List.replicate count ⟨List.replicate 63 0x61, by decide⟩) ++ [0, 1, 0, 1])

/-- A reply of so many bytes. -/
theorem exists_reply [Runtime] {handler : DnsHandler} {data : Bytes} {peerIp : String} {size : ℕ} {tc : Bool}
    (h : (handler.handle data peerIp).map (fun r => (r.length, truncated r)) = .ok (size, tc)) :
    ∃ reply, handler.handle data peerIp = .ok reply ∧ reply.length = size ∧ truncated reply = tc := by
  obtain ⟨reply, hreply, hpair⟩ := map_eq_ok.mp h
  obtain ⟨hlength, htc⟩ := Prod.mk.inj hpair
  exact ⟨reply, hreply, hlength, htc⟩

/-- A reply of too many bytes. -/
theorem exists_overflow [Runtime] {handler : DnsHandler} {data : Bytes} {peerIp : String} {size : ℕ} {tc : Bool}
    (h : (handler.handle data peerIp).map (fun r => (r.length, truncated r)) = .ok (size, tc))
    (hsize : maxUdp < size) :
    ∃ reply, handler.handle data peerIp = .ok reply ∧ reply.length = size ∧ truncated reply = tc ∧
      ¬ handler.Fits data peerIp reply := by
  obtain ⟨reply, hreply, rfl, htc⟩ := exists_reply h
  exact ⟨reply, hreply, rfl, htc, fun hfits => absurd hfits.1 (not_le.mpr hsize)⟩

theorem shortQuestion_of_length {data : Bytes} (size : ℕ)
    (h : (parseQuery data).map (fun q => q.question.map fun question => (encodeLabels question.labels).length) =
      .ok (some size)) (hsize : 12 + size + 4 ≤ maxUdp) : DnsHandler.ShortQuestion data := by
  intro query question hparse hquestion
  obtain ⟨query', hparse', hmap⟩ := map_eq_ok.mp h
  rw [hparse] at hparse'
  obtain rfl := Except.ok.inj hparse'
  rw [hquestion] at hmap
  have hlength : (encodeLabels question.labels).length = size := Option.some.inj hmap
  rw [hlength]
  exact hsize

/-- Eight labels are read, and echoed in a reply of 529 bytes. -/
theorem long_question_overflows :
    let _ := Runtime.ascii
    ∃ reply, forwarder.handle (addressQuestion 8) "10.88.0.9" = .ok reply ∧ reply.length = 529 ∧
      truncated reply = true ∧ ¬ forwarder.Fits (addressQuestion 8) "10.88.0.9" reply := by
  intro rt
  exact exists_overflow (by decide +kernel) (by decide)

/-- Three labels leave room for the answer. -/
theorem short_question_fits :
    let _ := Runtime.ascii
    ∃ reply, forwarder.handle (addressQuestion 3) "10.88.0.9" = .ok reply ∧ truncated reply = false ∧
      forwarder.Fits (addressQuestion 3) "10.88.0.9" reply := by
  intro rt
  have hshort : DnsHandler.ShortQuestion (addressQuestion 3) :=
    shortQuestion_of_length 193 (by decide +kernel) (by decide)
  have hsize : (forwarder.handle (addressQuestion 3) "10.88.0.9").map (fun r => (r.length, truncated r)) =
      .ok (225, false) := by decide +kernel
  refine (exists_reply hsize).imp fun reply hreply => ?_
  exact ⟨hreply.1, hreply.2.2, (reply_fits_iff forwarder hreply.1).mpr hshort⟩

end PtaasBench.EdgeResolver.DnsListener
