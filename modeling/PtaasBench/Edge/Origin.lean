import Mathlib.Data.List.DropRight
import PtaasBench.Lib.Addresses
import PtaasBench.Lib.Fallible
import PtaasBench.Py.Utf8

/-!
# PtaasBench.Edge.Origin — who the edge origin thinks a client is (`wire.go`, `main.go`)

Header lines, the names they fold to, and the attested client.  The Unicode case table and the address
parser of the Go library are parameters.
-/

namespace PtaasBench.Edge

open Py Lib

/-- The bytes of a text. -/
def text (s : String) : Bytes := utf8Encode s.toList

def lowerByte (b : UInt8) : UInt8 := if 65 ≤ b.toNat ∧ b.toNat ≤ 90 then b + 32 else b

class GoRuntime where
  /-- `strings.ToLower` -/
  toLower : Bytes → Bytes
  /-- `net.ParseIP`, an IPv4-mapped address read as IPv4. -/
  parseIP : Bytes → Option Addr
  toLower_ascii : ∀ bs, (∀ b ∈ bs, b.toNat < 128) → toLower bs = bs.map lowerByte

export GoRuntime (toLower parseIP)

/-! ## Strings -/

/-- The white space of Unicode, in UTF-8. -/
def spaces : List Bytes :=
  [[9], [10], [11], [12], [13], [32], [0xC2, 0x85], [0xC2, 0xA0], [0xE1, 0x9A, 0x80]] ++
    (List.range 11).map (fun n => [0xE2, 0x80, UInt8.ofNat (0x80 + n)]) ++
    [[0xE2, 0x80, 0xA8], [0xE2, 0x80, 0xA9], [0xE2, 0x80, 0xAF], [0xE2, 0x81, 0x9F], [0xE3, 0x80, 0x80]]

/-- Drop what is in a list from the front; a turn for each byte is enough. -/
def trimLeft (drop : List Bytes) : ℕ → Bytes → Bytes
  | 0, bs => bs
  | turns + 1, bs =>
    match drop.find? (·.isPrefixOf bs) with
    | none => bs
    | some space => trimLeft drop turns (bs.drop space.length)

/-- `strings.TrimSpace` -/
def trimSpace (bs : Bytes) : Bytes :=
  let left := trimLeft spaces bs.length bs
  (trimLeft (spaces.map List.reverse) left.length left.reverse).reverse

/-- `strings.Trim(s, " \t")` -/
def trimOws (bs : Bytes) : Bytes := (bs.dropWhile (· ∈ [32, 9])).rdropWhile (· ∈ [32, 9])

variable [GoRuntime]

/-! ## Headers -/

def foldName (s : Bytes) : Bytes := toLower ((trimSpace s).map fun b => if b = 0x5F then 0x2D else b)

structure WireHeader where
  raw : Bytes
  canon : Bytes
  value : Bytes

omit [GoRuntime] in
/-- The name of a header line, and what is behind its colon. -/
def splitHeader (line : Bytes) : Option (Bytes × Bytes) :=
  if 0x3A ∈ line then some (line.takeWhile (· ≠ 0x3A), (line.dropWhile (· ≠ 0x3A)).drop 1) else none

/-- The header of a line; a line without a colon is dropped. -/
def headerOf (line : Bytes) : Option WireHeader :=
  (splitHeader line).map fun parts =>
    { raw := parts.1, canon := foldName parts.1, value := trimOws parts.2 }

def maxHeaderCount : ℕ := 100

/-- The header loop of `readRequest`, over the lines behind the request line. -/
def readHeaders (headers : List WireHeader) : List Bytes → Except String (List WireHeader)
  | [] => .error "EOF"
  | line :: lines =>
    if line = [] then .ok headers
    else if maxHeaderCount ≤ headers.length then .error "too many headers"
    else readHeaders (headers ++ (headerOf line).toList) lines

/-- `Header`: the value of the first header whose name folds to the same. -/
def header (headers : List WireHeader) (name : Bytes) : Bytes :=
  (headers.find? fun h => h.canon = foldName name).elim [] WireHeader.value

/-! ## Addresses -/

structure Server where
  hopNets : List Prefix
  internalNets : List Prefix

def ipInAny (host : Bytes) (nets : List Prefix) : Bool :=
  match parseIP (trimSpace host) with
  | none => false
  | some ip => nets.any (·.contains ip)

def realIp : Bytes := text "X-Real-IP"

namespace Server

variable (s : Server)

def attestedClient (peer : Bytes) (headers : List WireHeader) : Bytes :=
  if ipInAny peer s.hopNets then
    let v := trimSpace (header headers realIp)
    if v ≠ [] then v else peer
  else peer

/-- The `client` of a request, and whether it is `internal`. -/
def classify (peer : Bytes) (headers : List WireHeader) : Bytes × Bool :=
  let client := s.attestedClient peer headers
  (client, ipInAny client s.internalNets)

end Server

/-! ## The hop in front -/

/-- A header line as the origin reads it. -/
abbrev Line := { line : Bytes // line ≠ [] }

omit [GoRuntime] in
/-- Is a line the header the hop sets?  Case does not matter, anything else does. -/
def namedRealIp (line : Line) : Bool :=
  (splitHeader line.1).any fun parts => parts.1.map lowerByte = realIp.map lowerByte

omit [GoRuntime] in
/-- `X-Real-IP: %[src]` -/
def realIpLine (addr : Bytes) : Bytes := text "X-Real-IP: " ++ addr

omit [GoRuntime] in
/-- The lines of a request behind a hop that has set the header: what is left of the client's, the
hop's own, the headers added behind it, and the empty line. -/
def forwarded (client : List Line) (addr : Bytes) (others : List Line) : List Bytes :=
  ((client.filter fun line => !namedRealIp line).map Subtype.val) ++
    (realIpLine addr :: others.map Subtype.val) ++ [[]]

/-- The value of the first header a client sent that the hop leaves and the origin takes for the hop's. -/
def shadow (client : List Line) : Option Bytes :=
  (client.filter fun line => !namedRealIp line).findSome? fun line =>
    ((headerOf line.1).filter fun h => h.canon = foldName realIp).map WireHeader.value

/-- No header of the client stands in for the address, or the first that does leads to it too. -/
def Unshadowed (peer addr : Bytes) (client : List Line) : Prop :=
  ∀ value ∈ shadow client, trimSpace value = addr ∨ (trimSpace value = [] ∧ peer = addr)

/-- An address as a hop writes it. -/
def IsAddressText (addr : Bytes) : Prop := addr ≠ [] ∧ ∀ b ∈ addr, 46 ≤ b.toNat ∧ b.toNat ≤ 102

/-! ## What the origin reads behind the hop -/

section Trimming

omit [GoRuntime]

variable {addr : Bytes}

theorem trimLeft_eq_self {drop : List Bytes} {bs : Bytes} (h : ∀ space ∈ drop, space.isPrefixOf bs = false)
    (turns : ℕ) : trimLeft drop turns bs = bs := by
  cases turns with
  | zero => rfl
  | succ turns =>
    have hnone : drop.find? (·.isPrefixOf bs) = none := by
      rw [List.find?_eq_none]
      intro space hspace
      rw [h space hspace]
      exact Bool.false_ne_true
    rw [trimLeft, hnone]

/-- Nothing that starts outside the bytes of an address starts an address. -/
theorem trimLeft_address {drop : List Bytes}
    (hdrop : ∀ space ∈ drop, space.head?.any (fun b => b.toNat < 46 || 102 < b.toNat) = true) {bs : Bytes}
    (hbs : ∀ b ∈ bs, 46 ≤ b.toNat ∧ b.toNat ≤ 102) (turns : ℕ) : trimLeft drop turns bs = bs := by
  refine trimLeft_eq_self (fun space hspace => ?_) turns
  have hhead := hdrop space hspace
  rcases space with _ | ⟨b, space⟩
  · cases hhead
  · rcases bs with _ | ⟨c, bs⟩
    · rfl
    · have hc := hbs c List.mem_cons_self
      have hne : (b == c) = false := by
        rw [beq_eq_false_iff_ne]
        rintro rfl
        simp only [List.head?_cons, Option.any_some, Bool.or_eq_true, decide_eq_true_eq] at hhead
        omega
      rw [List.isPrefixOf_cons_cons, hne, Bool.false_and]

theorem trimSpace_address (h : IsAddressText addr) : trimSpace addr = addr := by
  have hleft : trimLeft spaces addr.length addr = addr := trimLeft_address (by decide) h.2 _
  have hright : trimLeft (spaces.map List.reverse) addr.length addr.reverse = addr.reverse :=
    trimLeft_address (by decide) (fun b hb => h.2 b (List.mem_reverse.mp hb)) _
  unfold trimSpace
  dsimp only
  rw [hleft, hright, List.reverse_reverse]

theorem trimOws_address (h : IsAddressText addr) : trimOws (32 :: addr) = addr := by
  obtain ⟨hsome, hbytes⟩ := h
  have hkeep : ∀ b ∈ addr, decide (b ∈ ([32, 9] : Bytes)) = false := by
    intro b hb
    have hrange := hbytes b hb
    rw [decide_eq_false_iff_not]
    intro hmem
    simp only [List.mem_cons, List.not_mem_nil, or_false] at hmem
    rcases hmem with rfl | rfl
    · revert hrange
      decide
    · revert hrange
      decide
  have hleft : (32 :: addr).dropWhile (· ∈ ([32, 9] : Bytes)) = addr := by
    rcases addr with _ | ⟨b, addr⟩
    · exact absurd rfl hsome
    · rw [List.dropWhile_cons_of_pos (by decide),
        List.dropWhile_cons_of_neg (by rw [hkeep b List.mem_cons_self]; exact Bool.false_ne_true)]
  rw [trimOws, hleft, List.rdropWhile_eq_self_iff]
  intro hne
  rw [hkeep _ (List.getLast_mem hne)]
  exact Bool.false_ne_true

end Trimming

theorem headerOf_realIpLine {addr : Bytes} (h : IsAddressText addr) :
    headerOf (realIpLine addr) = some { raw := realIp, canon := foldName realIp, value := addr } := by
  have hline : realIpLine addr = realIp ++ 0x3A :: 32 :: addr := by
    rw [realIpLine, show text "X-Real-IP: " = realIp ++ [0x3A, 32] by rfl]
    simp
  have hname : ∀ b ∈ realIp, decide (b ≠ (0x3A : UInt8)) = true := by decide +kernel
  have hsplit : splitHeader (realIpLine addr) = some (realIp, 32 :: addr) := by
    rw [splitHeader, hline, if_pos (by simp), List.takeWhile_append_of_pos hname,
      List.dropWhile_append_of_pos hname, List.takeWhile_cons_of_neg (by decide),
      List.dropWhile_cons_of_neg (by decide), List.append_nil]
    rfl
  rw [headerOf, hsplit, Option.map_some, trimOws_address h]

/-- The headers of a request that is read are those of its lines. -/
theorem readHeaders_eq {headers out : List WireHeader} {lines : List Bytes} (hlines : ∀ line ∈ lines, line ≠ [])
    (h : readHeaders headers (lines ++ [[]]) = .ok out) : out = headers ++ lines.filterMap headerOf := by
  induction lines generalizing headers with
  | nil =>
    obtain rfl := Except.ok.inj h
    rw [List.filterMap_nil, List.append_nil]
  | cons line lines ih =>
    rw [List.cons_append, readHeaders, if_neg (hlines line List.mem_cons_self)] at h
    by_cases hmany : maxHeaderCount ≤ headers.length
    · rw [if_pos hmany] at h
      cases h
    · rw [if_neg hmany] at h
      rw [ih (fun l hl => hlines l (List.mem_cons_of_mem _ hl)) h, List.append_assoc]
      cases hline : headerOf line with
      | none => rw [List.filterMap_cons_none hline]; rfl
      | some header => rw [List.filterMap_cons_some hline]; rfl

theorem shadow_eq (client : List Line) :
    shadow client = ((((client.filter fun line => !namedRealIp line).map Subtype.val).filterMap headerOf).find?
      fun h => h.canon = foldName realIp).map WireHeader.value := by
  unfold shadow
  induction client.filter fun line => !namedRealIp line with
  | nil => rfl
  | cons line lines ih =>
    rw [List.findSome?_cons, List.map_cons]
    cases hline : headerOf line.1 with
    | none =>
      rw [List.filterMap_cons_none hline, ← ih]
      rfl
    | some h =>
      rw [List.filterMap_cons_some hline, List.find?_cons]
      by_cases hcanon : h.canon = foldName realIp
      · simp [Option.filter, hcanon]
      · simp only [Option.filter, hcanon, decide_false, Bool.false_eq_true, if_false, Option.map_none]
        exact ih

/-- Behind the hop, the header is the client's, where one stands in for the hop's, or else the address. -/
theorem header_forwarded {client others : List Line} {addr : Bytes} (haddr : IsAddressText addr)
    {headers : List WireHeader} (h : readHeaders [] (forwarded client addr others) = .ok headers) :
    header headers realIp = (shadow client).getD addr := by
  have hlines : ∀ line ∈ ((client.filter fun line => !namedRealIp line).map Subtype.val) ++
      (realIpLine addr :: others.map Subtype.val), line ≠ [] := by
    intro line hline
    rcases List.mem_append.mp hline with hline | hline
    · obtain ⟨l, -, rfl⟩ := List.mem_map.mp hline
      exact l.2
    · rcases List.mem_cons.mp hline with rfl | hline
      · rw [realIpLine]
        exact List.append_ne_nil_of_left_ne_nil (by decide) _
      · obtain ⟨l, -, rfl⟩ := List.mem_map.mp hline
        exact l.2
  rw [readHeaders_eq hlines h, List.nil_append, List.filterMap_append,
    List.filterMap_cons_some (headerOf_realIpLine haddr), header, List.find?_append, shadow_eq]
  cases ((client.filter fun line => !namedRealIp line).map Subtype.val).filterMap headerOf |>.find?
      fun h => h.canon = foldName realIp with
  | none =>
    rw [Option.none_or, List.find?_cons_of_pos (by simp)]
    rfl
  | some h => rfl

/-- A request is classified by the address of its client exactly if no header of the client stands in
for the one the hop sets, or leads to the same address. -/
theorem classify_forwarded_iff (s : Server) {peer addr : Bytes} {client others : List Line}
    {headers : List WireHeader} (hpeer : ipInAny peer s.hopNets = true) (haddr : IsAddressText addr)
    (h : readHeaders [] (forwarded client addr others) = .ok headers) :
    s.classify peer headers = (addr, ipInAny addr s.internalNets) ↔ Unshadowed peer addr client := by
  have hclient : s.classify peer headers = (addr, ipInAny addr s.internalNets) ↔
      s.attestedClient peer headers = addr := by
    unfold Server.classify
    constructor
    · intro heq
      exact (Prod.mk.inj heq).1
    · intro heq
      rw [heq]
  rw [hclient, Server.attestedClient, if_pos hpeer, header_forwarded haddr h]
  unfold Unshadowed
  cases shadow client with
  | none =>
    rw [Option.getD_none, trimSpace_address haddr]
    dsimp only
    rw [if_pos haddr.1]
    simp
  | some value =>
    rw [Option.getD_some]
    dsimp only
    simp only [Option.mem_def, Option.some.injEq, forall_eq']
    by_cases hblank : trimSpace value = []
    · rw [if_neg (not_not.mpr hblank)]
      constructor
      · intro heq
        exact Or.inr ⟨hblank, heq⟩
      · rintro (heq | ⟨-, heq⟩)
        · exact absurd (heq.symm.trans hblank) haddr.1
        · exact heq
    · rw [if_pos hblank]
      exact ⟨Or.inl, fun hcase => hcase.resolve_right fun hboth => hblank hboth.1⟩

/-! ## A header spelled with an underscore -/

/-- The library on ASCII names and dotted decimals. -/
@[reducible] def GoRuntime.ascii : GoRuntime where
  toLower bs := bs.map lowerByte
  parseIP bs := (parseDotted (bs.map fun b => Char.ofNat b.toNat)).map .v4
  toLower_ascii _ _ := rfl

/-- The estate, `10.77.0.0/24`, has the hops and is the internal network. -/
def estate : Server where
  hopNets := [{ network := .v4 0x0A4D0000#32, length := 24 }]
  internalNets := [{ network := .v4 0x0A4D0000#32, length := 24 }]

def hostLine : Line := ⟨text "Host: edge.test", by decide⟩
def viaLine : Line := ⟨text "Via: 1.1 edge-lb", by decide⟩

/-- The header under its own name, and with an underscore. -/
def namedLine : Line := ⟨text "x-real-ip: 10.77.0.5", by decide⟩
def underscoreLine : Line := ⟨text "X_Real-IP: 10.77.0.5", by decide⟩

omit [GoRuntime] in
/-- A customer is classified as the estate's own traffic. -/
theorem underscore_chooses_address :
    let _ := GoRuntime.ascii
    ipInAny (text "10.77.0.20") estate.hopNets = true ∧
      ((readHeaders [] (forwarded [hostLine, underscoreLine] (text "203.0.113.9") [viaLine])).map fun headers =>
        estate.classify (text "10.77.0.20") headers) = .ok (text "10.77.0.5", true) ∧
      ipInAny (text "203.0.113.9") estate.internalNets = false := by
  intro rt
  exact ⟨by decide, by decide, by decide⟩

omit [GoRuntime] in
/-- A customer who sends the header under its own name is a customer. -/
theorem own_name_keeps_address :
    let _ := GoRuntime.ascii
    ∃ headers, readHeaders [] (forwarded [hostLine, namedLine] (text "203.0.113.9") [viaLine]) = .ok headers ∧
      estate.classify (text "10.77.0.20") headers =
        (text "203.0.113.9", ipInAny (text "203.0.113.9") estate.internalNets) := by
  intro rt
  have hpeer : ipInAny (text "10.77.0.20") estate.hopNets = true := by rfl
  have haddr : IsAddressText (text "203.0.113.9") := ⟨by decide +kernel, by decide +kernel⟩
  have hshadow : (shadow [hostLine, namedLine]).isNone = true := by rfl
  have hclient : Unshadowed (text "10.77.0.20") (text "203.0.113.9") [hostLine, namedLine] := by
    intro value hvalue
    rw [Option.isNone_iff_eq_none.mp hshadow] at hvalue
    cases hvalue
  have hread : (readHeaders [] (forwarded [hostLine, namedLine] (text "203.0.113.9") [viaLine])).map List.length =
      .ok 3 := by
    rfl
  exact (map_eq_ok.mp hread).imp fun headers h =>
    ⟨h.1, (classify_forwarded_iff estate hpeer haddr h.1).mpr hclient⟩

end PtaasBench.Edge
