import PtaasBench.BenchCollector.Ingest
import PtaasBench.Lib.Addresses

/-!
# PtaasBench.Sdk.Networks — the platform's own networks, four times

Whether a socket peer lies in the configured networks: the collector (`ingest.py`), and the agents for
Python (`_client.py`), Node (`net.ts`) and PHP (`Net.php`).  What the address libraries make of literals is
a parameter; the texts around the literals are modelled.
-/

namespace PtaasBench.Sdk

open Py Lib

abbrev Text := List Char

/-! ## Texts -/

def stripText (p : Char → Bool) (s : Text) : Text := (s.dropWhile p).rdropWhile p

/-- What `String.prototype.trim` removes. -/
def jsSpace (c : Char) : Bool :=
  c.toNat ∈ [9, 10, 11, 12, 13, 32, 0xa0, 0x1680, 0x2000, 0x2001, 0x2002, 0x2003, 0x2004, 0x2005, 0x2006,
    0x2007, 0x2008, 0x2009, 0x200a, 0x2028, 0x2029, 0x202f, 0x205f, 0x3000, 0xfeff]

/-- What PHP's `trim` removes. -/
def phpSpace (c : Char) : Bool := c.toNat ∈ [32, 9, 10, 13, 0, 11]

/-- `char.IsWhiteSpace` of .NET. -/
def dotnetSpace (c : Char) : Bool := isSpace c && !(28 ≤ c.toNat && c.toNat ≤ 31)

/-- A text before and behind its last separator. -/
def splitLast (sep : Char) (s : Text) : Text × Option Text :=
  if sep ∈ s then (((s.reverse.dropWhile (· ≠ sep)).drop 1).reverse, some (s.reverse.takeWhile (· ≠ sep)).reverse)
  else (s, none)

/-- The pattern `(\d{1,3}(?:\.\d{1,3}){3})`. -/
def dottedShape (s : Text) : Bool :=
  let parts := s.splitOn '.'
  parts.length = 4 && parts.all fun part => 1 ≤ part.length && part.length ≤ 3 && part.all Char.isDigit

def mappedStart : Text := "::ffff:".toList

/-- The pattern `^::ffff:(\d{1,3}(?:\.\d{1,3}){3})$` without regard to case: what it captures. -/
def mappedMatch (s : Text) : Option Text :=
  if (s.take 7).map Char.toLower = mappedStart ∧ dottedShape (s.drop 7) then some (s.drop 7) else none

/-- A character of an address without a zone. -/
def literalChar (c : Char) : Bool := c.isDigit || "abcdefABCDEF:.".toList.contains c

def digits (n : ℕ) : Text := Nat.toDigits 10 n

/-! ## The libraries -/

/-- `ipaddress`, `net.BlockList` and `inet_pton`: the literals they read alike. -/
structure Addresses where
  parse : Text → Option Addr
  /-- `ipaddress.ip_network(text, strict=False)` -/
  ipNetwork : Text → Option Prefix
  /-- An IPv4 literal is a dotted decimal. -/
  parse_v4 : ∀ text bits, parse text = some (.v4 bits) ↔ parseDotted text = some bits
  /-- A literal with a dotted decimal behind `::ffff:` is the mapped address. -/
  parse_mapped : ∀ text rest a, mappedMatch text = some rest → parse text = some a →
    ∃ bits, parseDotted rest = some bits ∧ a = .mapped bits
  parse_chars : ∀ text a, parse text = some a → text ≠ [] ∧ ∀ c ∈ text, literalChar c = true
  parse_colons : ∀ text bits, parse text = some (.v6 bits) → 2 ≤ text.count ':'
  ipNetwork_length : ∀ literal a n, parse literal = some a → n ≤ a.width →
    ipNetwork (literal ++ '/' :: digits n) = some { network := a, length := n }
  ipNetwork_host : ∀ literal a, parse literal = some a →
    ipNetwork literal = some { network := a, length := a.width }

namespace Addresses

variable (lib : Addresses)

/-- `ipaddress.ip_address`: an IPv6 literal may have a zone. -/
def ipAddress (text : Text) : Option Addr :=
  match text.splitOn '%' with
  | [literal] => lib.parse literal
  | [literal, zone] => if zone.isEmpty then none else (lib.parse literal).filter fun a => a.width = 128
  | _ => none

/-- `inet_pton` -/
def inetPton (text : Text) : Option Bytes := (lib.parse text).map Addr.packed

/-! ## The collector -/

/-- `parse_address` -/
def parseAddress (raw : Text) : Option Addr :=
  let text := stripText isSpace raw
  if raw = [] then none
  else if ',' ∈ text ∨ ' ' ∈ text then none
  else if text.head? = some '[' then lib.ipAddress ((text.drop 1).takeWhile (· ≠ ']'))
  else if text.count ':' = 1 then lib.ipAddress (text.takeWhile (· ≠ ':'))
  else lib.ipAddress text

/-- `is_synthetic_source`, of the peer fields of an event. -/
def isSyntheticSource (networks : List Prefix) (peerFields : List (Option Text)) : Bool :=
  if networks.isEmpty then false
  else
    match peerFields.findSome? fun field => field.bind lib.parseAddress with
    | none => false
    | some address => networks.any (·.contains address)

/-- `parse_cidrs`, of the chunks of the variable. -/
def parseCidrs (chunks : List Text) : List Prefix := chunks.filterMap lib.ipNetwork

/-! ## The agent for Python -/

/-- `is_synthetic_peer` -/
def isSyntheticPeer (cidrs : List Text) (peerIp : Text) : Bool :=
  if peerIp = [] then false
  else
    let networks := cidrs.filterMap lib.ipNetwork
    if networks.isEmpty then false
    else
      match lib.ipAddress (stripText isSpace peerIp) with
      | none => false
      | some address => networks.any (·.contains address)

/-! ## The agent for Node -/

def normaliseAddress (address : Text) : Option Text :=
  if address = [] then none
  else
    let value := stripText jsSpace address
    let value := if value.head? = some '[' ∧ value.getLast? = some ']' then (value.drop 1).dropLast else value
    let bare := value.takeWhile (· ≠ '%')
    let value := if bare = [] then value else bare
    let value := (mappedMatch value).getD value
    if (lib.parse value).isNone then none else some value

/-- `Number.parseInt(s, 10)`; `none` is `NaN`. -/
def jsParseInt (s : Text) : Option ℤ :=
  let body := s.dropWhile jsSpace
  let (negative, body) : Bool × Text := match body with
    | '-' :: rest => (true, rest)
    | '+' :: rest => (false, rest)
    | rest => (false, rest)
  let number := body.takeWhile Char.isDigit
  if number = [] then none
  else
    let n : ℕ := Nat.ofDigitChars 10 number 0
    some (if negative then -n else n)

/-- What `compileSourceMatcher` adds to the list for one entry. -/
def sourceEntry (raw : Text) : Option Prefix :=
  let entry := stripText jsSpace raw
  if entry = [] then none
  else
    let (addressPart, lengthPart) := splitLast '/' entry
    match (lib.normaliseAddress addressPart).bind lib.parse with
    | none => none
    | some address =>
      match lengthPart.elim (some (address.width : ℤ)) jsParseInt with
      | none => none
      | some length =>
        if length < 0 ∨ address.width < length then none
        else some { network := address, length := length.toNat }

/-- `matches` of a compiled matcher. -/
def sourceMatches (prefixes : List Text) (candidate : Text) : Bool :=
  let list := prefixes.filterMap lib.sourceEntry
  if list.length = 0 then false
  else
    match (lib.normaliseAddress candidate).bind lib.parse with
    | none => false
    | some address => list.any (·.contains address)

/-! ## The agent for PHP -/

def phpIntMax : ℕ := 2 ^ 63 - 1

/-- `matches`: bytes, then the bits of one more. -/
def matchesCidr (packed : Bytes) (cidr : Text) : Bool :=
  let cidr := stripText phpSpace cidr
  if cidr = [] then false
  else
    match splitLast '/' cidr with
    | (whole, none) => lib.inetPton whole = some packed
    | (literal, some bits) =>
      match lib.inetPton literal with
      | none => false
      | some network =>
        if bits = [] ∨ ¬ bits.all Char.isDigit then false
        else
          let bits := min (Nat.ofDigitChars 10 bits 0) phpIntMax
          if network.length ≠ packed.length then false
          else if network.length * 8 < bits then false
          else
            let wholeBytes := bits / 8
            if 0 < wholeBytes ∧ packed.take wholeBytes ≠ network.take wholeBytes then false
            else
              let remainder := bits % 8
              if remainder = 0 then true
              else
                let mask := (0xFF <<< (8 - remainder)) &&& 0xFF
                (packed.getD wholeBytes 0).toNat &&& mask = (network.getD wholeBytes 0).toNat &&& mask

def inNetworks (address : Text) (cidrs : List Text) : Bool :=
  let address := stripText phpSpace address
  if address = [] ∨ cidrs = [] then false
  else
    match lib.inetPton address with
    | none => false
    | some packed => cidrs.any (lib.matchesCidr packed)

end Addresses

/-! ## Peers and networks -/

/-- A peer as a listener reports it: a literal, in dotted form if it is IPv4-mapped. -/
structure Peer (lib : Addresses) where
  text : Text
  address : Addr
  parses : lib.parse text = some address
  reported : ∀ bits, address = .mapped bits → text = mappedStart ++ dotted bits

/-- An entry of a list of networks: a literal, with a length or as a host. -/
structure Cidr (lib : Addresses) where
  literal : Text
  address : Addr
  length : Option ℕ
  parses : lib.parse literal = some address
  valid : ∀ n ∈ length, n ≤ address.width

namespace Cidr

variable {lib : Addresses} (c : Cidr lib)

def text : Text := c.literal ++ c.length.elim [] fun n => '/' :: digits n

def range : Prefix := { network := c.address, length := c.length.getD c.address.width }

/-- Is the literal of the form `::ffff:a.b.c.d`? -/
def SpelledMapped : Prop := (mappedMatch c.literal).isSome = true

instance : Decidable c.SpelledMapped := inferInstanceAs (Decidable (_ = true))

/-- The entry with the literal read as IPv4, if its length can be one of IPv4. -/
def folded : Option Prefix :=
  let n := c.length.getD c.address.fold.width
  if n ≤ c.address.fold.width then some { network := c.address.fold, length := n } else none

end Cidr

/-- Is the peer, read as IPv4 where it is IPv4-mapped, in one of the networks? -/
def Recognised {lib : Addresses} (peer : Peer lib) (cidrs : List (Cidr lib)) : Prop :=
  ∃ c ∈ cidrs, c.range.contains peer.address.fold = true

end PtaasBench.Sdk
