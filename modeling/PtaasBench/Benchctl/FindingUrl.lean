import PtaasBench.Py.Url
import PtaasBench.Benchctl.HostForm
import PtaasBench.Benchctl.Findings

/-!
# PtaasBench.Benchctl.FindingUrl — the parts of a finding's URL

The path is `urlsplit`'s; the authority is cut by hand, at the first slash, and the host is what `normalize_host`
makes of it.  A URL is kept as its parts, and what a finding reads is compared with them.
-/

namespace PtaasBench.Benchctl

open Py

/-- `urlsplit`, on the authorities it takes: an address stands in the brackets, and no character normalises to a
delimiter. -/
class UrlRuntime extends Runtime where
  accepts : List Char → Prop
  accepts_plain : ∀ netloc : List Char, (∀ c ∈ netloc, c.toNat < 128 ∧ c ≠ '[' ∧ c ≠ ']') → accepts netloc
  urlPath_eq : ∀ (url : String) (parts : SplitResult), urlsplit url.toList = some parts → accepts parts.netloc →
    urlPath url = String.ofList parts.path

/-- A printable character of an authority, none of its delimiters. -/
def isAuthorityChar (c : Char) : Bool :=
  (33 ≤ c.toNat && c.toNat ≤ 126) && !(['/', '?', '#', '@', '[', ']'].contains c)

inductive UrlHost where
  | name (text : List Char)
  | literal (address : List Char)

/-- The host as a URL writes it. -/
def UrlHost.text : UrlHost → List Char
  | name text => text
  | literal address => '[' :: (address ++ [']'])

/-- `scheme://[userinfo@]host[:port][/path][?query][#fragment]` -/
structure Url where
  scheme : List Char
  userinfo : Option (List Char) := none
  host : UrlHost
  port : Option (List Char) := none
  path : List Char := []
  query : Option (List Char) := none
  fragment : Option (List Char) := none
  scheme_ok : ∃ c rest, scheme = c :: rest ∧ c.isAlpha = true ∧ rest.all isSchemeChar = true
  userinfo_ok : ∀ ui, userinfo = some ui → ui.all isAuthorityChar = true
  name_ok : ∀ n, host = .name n → n.all isAuthorityChar = true ∧ ':' ∉ n
  literal_ok : ∀ a, host = .literal a → a.all isAuthorityChar = true
  port_ok : ∀ ds, port = some ds → ds.all Char.isDigit = true
  path_ok : (path = [] ∨ path.head? = some '/') ∧ ∀ c ∈ path, c ∉ ['?', '#', '\t', '\r', '\n']
  query_ok : ∀ q, query = some q → '#' ∉ q

namespace Url

variable (u : Url)

def portText : List Char := u.port.elim [] (':' :: ·)

def userinfoText : List Char := u.userinfo.elim [] (· ++ ['@'])

def authority : List Char := u.userinfoText ++ (u.host.text ++ u.portText)

/-- What follows the path. -/
def tail : List Char := u.query.elim [] ('?' :: ·) ++ u.fragment.elim [] ('#' :: ·)

def text : String := String.ofList (u.scheme ++ ("://".toList ++ (u.authority ++ (u.path ++ u.tail))))

end Url

/-! ## The parts, as `urlsplit` finds them -/

section Parts

variable {u : Url}

theorem isAuthorityChar_iff {c : Char} : isAuthorityChar c = true ↔
    (33 ≤ c.toNat ∧ c.toNat ≤ 126) ∧ c ≠ '/' ∧ c ≠ '?' ∧ c ≠ '#' ∧ c ≠ '@' ∧ c ≠ '[' ∧ c ≠ ']' := by
  simp [isAuthorityChar]

/-- A character of an authority: of one of its parts, or a delimiter between them. -/
theorem mem_authority {c : Char} (h : c ∈ u.authority) : isAuthorityChar c = true ∨ c = '@' ∨ c = '[' ∨ c = ']' := by
  have hdigit : ∀ d : Char, d.isDigit = true → isAuthorityChar d = true := by
    intro d hd
    have hrange := graphic_of_isDigit hd
    refine isAuthorityChar_iff.mpr ⟨hrange, ?_, ?_, ?_, ?_, ?_, ?_⟩ <;> rintro rfl <;> cases hd
  rcases List.mem_append.mp h with h | h
  · rw [Url.userinfoText] at h
    cases hui : u.userinfo with
    | none => rw [hui] at h; exact absurd h List.not_mem_nil
    | some ui =>
      rw [hui] at h
      rcases List.mem_append.mp h with h | h
      · exact Or.inl (List.all_eq_true.mp (u.userinfo_ok ui hui) c h)
      · exact Or.inr (Or.inl (List.mem_singleton.mp h))
  · rcases List.mem_append.mp h with h | h
    · cases hhost : u.host with
      | name n =>
        rw [hhost] at h
        exact Or.inl (List.all_eq_true.mp (u.name_ok n hhost).1 c h)
      | literal a =>
        rw [hhost] at h
        rcases List.mem_cons.mp h with rfl | h
        · exact Or.inr (Or.inr (Or.inl rfl))
        · rcases List.mem_append.mp h with h | h
          · exact Or.inl (List.all_eq_true.mp (u.literal_ok a hhost) c h)
          · exact Or.inr (Or.inr (Or.inr (List.mem_singleton.mp h)))
    · rw [Url.portText] at h
      cases hport : u.port with
      | none => rw [hport] at h; exact absurd h List.not_mem_nil
      | some ds =>
        rw [hport] at h
        rcases List.mem_cons.mp h with rfl | h
        · exact Or.inl (by decide)
        · exact Or.inl (hdigit c (List.all_eq_true.mp (u.port_ok ds hport) c h))

/-- The characters of an authority are visible, and none ends it. -/
theorem authority_visible {c : Char} (h : c ∈ u.authority) :
    (33 ≤ c.toNat ∧ c.toNat ≤ 126) ∧ c ≠ '/' ∧ c ≠ '?' ∧ c ≠ '#' := by
  rcases mem_authority h with h | rfl | rfl | rfl
  · obtain ⟨hrange, hslash, hquery, hhash, -⟩ := isAuthorityChar_iff.mp h
    exact ⟨hrange, hslash, hquery, hhash⟩
  all_goals decide

theorem tail_head (u : Url) : u.tail = [] ∨ ∃ c rest, u.tail = c :: rest ∧ (c = '?' ∨ c = '#') := by
  rw [Url.tail]
  cases u.query with
  | some q => exact Or.inr ⟨_, _, rfl, Or.inl rfl⟩
  | none =>
    cases u.fragment with
    | some f => exact Or.inr ⟨_, _, rfl, Or.inr rfl⟩
    | none => exact Or.inl rfl

theorem tail_eq_nil_iff : u.tail = [] ↔ u.query = none ∧ u.fragment = none := by
  rw [Url.tail]
  cases u.query <;> cases u.fragment <;> simp

theorem takeWhile_append_stop {p : Char → Bool} {xs ys : List Char} (hxs : ∀ c ∈ xs, p c = true)
    (hys : ys = [] ∨ ∃ c rest, ys = c :: rest ∧ p c = false) :
    (xs ++ ys).takeWhile p = xs ∧ (xs ++ ys).dropWhile p = ys := by
  rw [List.takeWhile_append_of_pos hxs, List.dropWhile_append_of_pos hxs]
  rcases hys with rfl | ⟨c, rest, rfl, hc⟩
  · simp
  · simp [hc]

theorem scheme_chars {c : Char} (h : c ∈ u.scheme) : isSchemeChar c = true := by
  obtain ⟨d, rest, hscheme, hd, hrest⟩ := u.scheme_ok
  rw [hscheme] at h
  rcases List.mem_cons.mp h with rfl | h
  · simp [isSchemeChar, Char.isAlphanum, hd]
  · exact List.all_eq_true.mp hrest c h

theorem isSchemeChar_range {c : Char} (h : isSchemeChar c = true) :
    (33 ≤ c.toNat ∧ c.toNat ≤ 126) ∧ c ≠ ':' ∧ c ≠ '/' := by
  refine ⟨?_, ?_, ?_⟩
  · have hletter : c.isAlpha = (c.isUpper || c.isLower) := rfl
    simp only [isSchemeChar, Char.isAlphanum, hletter, Bool.or_eq_true, decide_eq_true_eq] at h
    rcases h with ((((h | h) | h) | h) | h) | h
    · exact graphic_of_isUpper h
    · exact graphic_of_isLower h
    · exact graphic_of_isDigit h
    all_goals rw [h]; decide
  all_goals rintro rfl; cases h

theorem keep_of_graphic {c : Char} (h : 33 ≤ c.toNat ∧ c.toNat ≤ 126) :
    decide (c ≠ '\t' ∧ c ≠ '\r' ∧ c ≠ '\n') = true := by
  refine decide_eq_true ⟨?_, ?_, ?_⟩ <;> rintro rfl <;> exact absurd h.1 (by decide)

theorem bracket_notMem_of_all {l : List Char} (hl : l.all isAuthorityChar = true) : '[' ∉ l ∧ ']' ∉ l := by
  constructor
  · exact fun h => (isAuthorityChar_iff.mp (List.all_eq_true.mp hl _ h)).2.2.2.2.2.1 rfl
  · exact fun h => (isAuthorityChar_iff.mp (List.all_eq_true.mp hl _ h)).2.2.2.2.2.2 rfl

theorem bracket_notMem_userinfo (u : Url) : '[' ∉ u.userinfoText ∧ ']' ∉ u.userinfoText := by
  rw [Url.userinfoText]
  cases h : u.userinfo with
  | none => exact ⟨List.not_mem_nil, List.not_mem_nil⟩
  | some ui =>
    have := bracket_notMem_of_all (u.userinfo_ok ui h)
    simpa using this

theorem bracket_notMem_port (u : Url) : '[' ∉ u.portText ∧ ']' ∉ u.portText := by
  rw [Url.portText]
  cases h : u.port with
  | none => exact ⟨List.not_mem_nil, List.not_mem_nil⟩
  | some ds =>
    have hdigit := List.all_eq_true.mp (u.port_ok ds h)
    have hmark : ∀ c : Char, c = '[' ∨ c = ']' → c ∉ ds := by
      rintro c (rfl | rfl) hc <;> exact absurd (hdigit _ hc) (by decide)
    simpa using And.intro (hmark '[' (Or.inl rfl)) (hmark ']' (Or.inr rfl))

theorem brackets_balanced (u : Url) : ('[' ∈ u.authority) = (']' ∈ u.authority) := by
  obtain ⟨huo, huc⟩ := bracket_notMem_userinfo u
  obtain ⟨hpo, hpc⟩ := bracket_notMem_port u
  rw [Url.authority]
  simp only [List.mem_append, huo, huc, hpo, hpc, false_or, or_false, eq_iff_iff]
  cases h : u.host with
  | name n =>
    obtain ⟨ho, hc⟩ := bracket_notMem_of_all (u.name_ok n h).1
    exact iff_of_false ho hc
  | literal a => exact iff_of_true List.mem_cons_self (by simp [UrlHost.text])

theorem bracket_notMem_of_name {n : List Char} (h : u.host = .name n) : '[' ∉ u.authority := by
  rw [Url.authority, h]
  simp only [List.mem_append, not_or]
  exact ⟨(bracket_notMem_userinfo u).1, (bracket_notMem_of_all (u.name_ok n h).1).1, (bracket_notMem_port u).1⟩

theorem splitScheme_text (rest : List Char) :
    (splitScheme (u.scheme ++ ("://".toList ++ rest))).2 = '/' :: '/' :: rest := by
  obtain ⟨c, name, hscheme, hc, hname⟩ := u.scheme_ok
  have hcut : partition ':' (u.scheme ++ ("://".toList ++ rest)) = (u.scheme, '/' :: '/' :: rest) := by
    obtain ⟨htake, hdrop⟩ := @takeWhile_append_stop (· ≠ ':') u.scheme ("://".toList ++ rest)
      (fun d hd => decide_eq_true (isSchemeChar_range (scheme_chars hd)).2.1) (Or.inr ⟨':', '/' :: '/' :: rest, rfl, rfl⟩)
    rw [partition, htake, hdrop]
    rfl
  have hall : u.scheme.all isSchemeChar = true := List.all_eq_true.mpr fun d hd => scheme_chars hd
  rw [hscheme] at hcut hall ⊢
  rw [List.cons_append, splitScheme]
  rw [List.cons_append] at hcut
  rw [hcut, if_pos ⟨List.mem_append_right _ List.mem_cons_self, hc, hall⟩]

/-- `urlsplit` gives back the authority and the path. -/
theorem urlsplit_text (u : Url) : ∃ parts, urlsplit u.text.toList = some parts ∧ parts.netloc = u.authority ∧
    parts.path = u.path := by
  let kept := u.tail.filter fun c => c ≠ '\t' ∧ c ≠ '\r' ∧ c ≠ '\n'
  have hkept : kept = [] ∨ ∃ c rest, kept = c :: rest ∧ (c = '?' ∨ c = '#') := by
    rcases tail_head u with h | ⟨c, rest, h, hc⟩
    · left
      show List.filter _ u.tail = []
      rw [h]
      rfl
    · right
      refine ⟨c, rest.filter fun c => c ≠ '\t' ∧ c ≠ '\r' ∧ c ≠ '\n', ?_, hc⟩
      show List.filter _ u.tail = _
      rw [h, List.filter_cons_of_pos]
      rcases hc with rfl | rfl <;> decide
  have hclean : ((u.text.toList.dropWhile fun c => c ≤ ' ').filter fun c => c ≠ '\t' ∧ c ≠ '\r' ∧ c ≠ '\n') =
      u.scheme ++ ("://".toList ++ (u.authority ++ (u.path ++ kept))) := by
    have hfront : u.text.toList.dropWhile (fun c => decide (c ≤ ' ')) = u.text.toList := by
      obtain ⟨c, name, hscheme, hc, -⟩ := u.scheme_ok
      rw [Url.text, String.toList_ofList, hscheme, List.cons_append, List.dropWhile_cons_of_neg]
      have hrange := (isSchemeChar_range (scheme_chars (u := u) (c := c) (by rw [hscheme]; exact List.mem_cons_self))).1
      rw [decide_eq_true_eq]
      intro hle
      have : c.toNat ≤ 32 := UInt32.le_iff_toNat_le.mp (Char.le_def.mp hle)
      omega
    have hself : ∀ l : List Char, (∀ c ∈ l, 33 ≤ c.toNat ∧ c.toNat ≤ 126) →
        l.filter (fun c => c ≠ '\t' ∧ c ≠ '\r' ∧ c ≠ '\n') = l :=
      fun l hl => List.filter_eq_self.mpr fun c hc => keep_of_graphic (hl c hc)
    have hpath : u.path.filter (fun c => c ≠ '\t' ∧ c ≠ '\r' ∧ c ≠ '\n') = u.path := by
      refine List.filter_eq_self.mpr fun c hc => decide_eq_true ?_
      have := u.path_ok.2 c hc
      simp only [List.mem_cons, not_or] at this
      exact ⟨this.2.2.1, this.2.2.2.1, this.2.2.2.2.1⟩
    rw [hfront, Url.text, String.toList_ofList]
    simp only [List.filter_append]
    rw [hself _ fun c hc => (isSchemeChar_range (scheme_chars hc)).1, hself _ fun c hc => (authority_visible hc).1, hpath]
    rfl
  have hnet : splitNetloc ('/' :: '/' :: (u.authority ++ (u.path ++ kept))) = (u.authority, u.path ++ kept) := by
    have hstop : u.path ++ kept = [] ∨ ∃ c rest, u.path ++ kept = c :: rest ∧
        decide (c ≠ '/' ∧ c ≠ '?' ∧ c ≠ '#') = false := by
      rcases u.path_ok.1 with hnil | hhead
      · rw [hnil, List.nil_append]
        refine hkept.imp_right ?_
        rintro ⟨c, rest, h, hc⟩
        refine ⟨c, rest, h, ?_⟩
        rcases hc with rfl | rfl <;> decide
      · obtain ⟨rest, hpath⟩ := List.head?_eq_some_iff.mp hhead
        exact Or.inr ⟨'/', rest ++ kept, by rw [hpath]; rfl, by decide⟩
    obtain ⟨htake, hdrop⟩ := takeWhile_append_stop (p := fun c => decide (c ≠ '/' ∧ c ≠ '?' ∧ c ≠ '#'))
      (fun c hc => decide_eq_true (authority_visible hc).2) hstop
    rw [splitNetloc]
    exact Prod.ext htake hdrop
  have hcut : (partition '?' (partition '#' (u.path ++ kept)).1).1 = u.path := by
    have hpath : ∀ d, d = '?' ∨ d = '#' → ∀ c ∈ u.path, decide (c ≠ d) = true := by
      rintro d hd c hc
      refine decide_eq_true ?_
      rintro rfl
      exact u.path_ok.2 c hc (by rcases hd with rfl | rfl <;> simp)
    rw [partition, partition, List.takeWhile_append_of_pos (hpath '#' (Or.inr rfl))]
    refine (takeWhile_append_stop (hpath '?' (Or.inl rfl)) ?_).1
    rcases hkept with h | ⟨c, rest, h, rfl | rfl⟩
    · left
      rw [h]
      rfl
    · right
      rw [h]
      exact ⟨'?', _, List.takeWhile_cons_of_pos (by decide), by decide⟩
    · left
      rw [h]
      exact List.takeWhile_cons_of_neg (by decide)
  rw [urlsplit]
  dsimp only
  rw [hclean, splitScheme_text, hnet]
  dsimp only
  rw [if_neg (not_not.mpr (brackets_balanced u))]
  exact ⟨_, rfl, rfl, hcut⟩

end Parts

/-! ## The parts, as a finding reads them -/

section Reads

variable {u : Url} {f : Finding}

/-- The authority a finding should report; an empty one is none. -/
def Url.wantedAuthority (u : Url) : Option String := textOrNone u.authority

theorem afterScheme_append {scheme rest : List Char} (h : ':' ∉ scheme) :
    afterScheme (scheme ++ ':' :: '/' :: '/' :: rest) = some rest := by
  induction scheme with
  | nil => rfl
  | cons c scheme ih =>
    rw [List.mem_cons, not_or] at h
    rw [List.cons_append, afterScheme, if_neg fun hc => h.1 hc.2.symm, ih h.2]

theorem authority_of_url (hf : f.url = u.text) :
    f.authority = textOrNone ((u.authority ++ (u.path ++ u.tail)).takeWhile (· != '/')) := by
  have hcolon : ':' ∉ u.scheme := fun h => (isSchemeChar_range (scheme_chars h)).2.1 rfl
  rw [Finding.authority, hf, Url.text, String.toList_ofList]
  rw [show "://".toList = [':', '/', '/'] by rfl, List.cons_append, List.cons_append, List.cons_append, List.nil_append,
    afterScheme_append hcolon, Option.bind_some, beforeChar, String.toList_ofList]
  dsimp only
  rw [textOrNone]
  exact if_congr String.ofList_eq_empty_iff rfl rfl

theorem textOrNone_injective {a b : List Char} (h : textOrNone a = textOrNone b) : a = b := by
  unfold textOrNone at h
  split_ifs at h with ha hb
  · rw [ha, hb]
  · exact String.ofList_injective (Option.some.inj h)

/-- The authority is cut off at a path, or at the end of the URL; nowhere else. -/
theorem authority_iff (hf : f.url = u.text) :
    f.authority = u.wantedAuthority ↔ u.path ≠ [] ∨ (u.query = none ∧ u.fragment = none) := by
  have hvisible : ∀ c ∈ u.authority, (c != '/') = true := fun c hc => bne_iff_ne.mpr (authority_visible hc).2.1
  rw [authority_of_url hf, Url.wantedAuthority, ← tail_eq_nil_iff, List.takeWhile_append_of_pos hvisible]
  rcases u.path_ok.1 with hnil | hhead
  · rw [hnil, List.nil_append]
    rcases tail_head u with htail | ⟨c, rest, htail, hc⟩
    · rw [htail]
      simp
    · rw [htail]
      have hkeep : (c != '/') = true := by rcases hc with rfl | rfl <;> rfl
      refine iff_of_false (fun h => ?_) (by simp)
      have := congrArg List.length (textOrNone_injective h)
      rw [List.takeWhile_cons_of_pos (p := fun a => a != '/') hkeep, List.length_append, List.length_cons] at this
      omega
  · obtain ⟨rest, hpath⟩ := List.head?_eq_some_iff.mp hhead
    rw [hpath]
    simp

/-- Lower case of a host in ASCII. -/
def lowered (l : List Char) : List Char := l.map Char.toLower

theorem toLower_eq_mark {c d : Char} (hd : d = ':' ∨ d = '@' ∨ d = '[' ∨ d = ']' ∨ d = '.') :
    c.toLower = d ↔ c = d := by
  by_cases h : c.toNat < 128
  · have hcode : ∀ n < 128, (Char.ofNat n).toLower = d ↔ Char.ofNat n = d := by
      rcases hd with rfl | rfl | rfl | rfl | rfl <;> decide
    have := hcode c.toNat h
    rwa [Char.ofNat_toNat] at this
  · rw [toLower_of_not_ascii (not_lt.mp h)]

theorem mem_lowered {l : List Char} {d : Char} (hd : d = ':' ∨ d = '@' ∨ d = '[' ∨ d = ']' ∨ d = '.') :
    d ∈ lowered l ↔ d ∈ l := by
  rw [lowered, List.mem_map]
  constructor
  · rintro ⟨c, hc, h⟩
    rwa [← (toLower_eq_mark hd).mp h]
  · exact fun h => ⟨d, h, (toLower_eq_mark hd).mpr rfl⟩

theorem lowered_digits {ds : List Char} (h : ds.all Char.isDigit = true) : lowered ds = ds := by
  have hcode : ∀ n < 128, (Char.ofNat n).isDigit = true → (Char.ofNat n).toLower = Char.ofNat n := by decide
  refine (List.map_congr_left fun c hc => ?_).trans (List.map_id ds)
  have hdigit := List.all_eq_true.mp h c hc
  have hrange := graphic_of_isDigit hdigit
  have := hcode c.toNat (by omega)
  rw [Char.ofNat_toNat] at this
  exact this hdigit

section Host

variable [Runtime]

theorem normalizeHost_ascii {l : List Char} (h : ∀ c ∈ l, 33 ≤ c.toNat ∧ c.toNat ≤ 126) :
    normalizeHost (some (String.ofList l)) = textOrNone (reading (lowered l)) := by
  have hstrip : strip (String.ofList l) = String.ofList l := by
    refine stripBy_eq_self fun c hc => isSpace_of_graphic (h c ?_)
    rwa [String.toList_ofList] at hc
  have hascii : IsAscii (String.ofList l) := by
    intro c hc
    rw [String.toList_ofList] at hc
    have := h c hc
    omega
  rw [normalizeHost_eq_reading, hstrip, Runtime.lower_ascii _ hascii, mapChars, String.toList_ofList,
    String.toList_ofList]
  rfl

theorem normalizeHost_textOrNone (l : List Char) : normalizeHost (textOrNone l) = normalizeHost (some (String.ofList l)) := by
  unfold textOrNone
  split_ifs with h
  · rw [h]
    rfl
  · rfl

theorem portDigits_of_ascii {ds : List Char} (hne : ds ≠ []) (h : ds.all Char.isDigit = true) : PortDigits ds := by
  refine ⟨hne, fun d hd => ?_⟩
  have hdigit := List.all_eq_true.mp h d hd
  have := graphic_of_isDigit hdigit
  rw [Runtime.isDigit_ascii d (by omega)]
  exact hdigit

omit [Runtime] in
theorem mem_rdropWhile_dot {l : List Char} {c : Char} (hc : c ∈ l) (hdot : c ≠ '.') :
    c ∈ l.rdropWhile (· == '.') := by
  obtain ⟨dots, hl, hdots, -⟩ := exists_dots l
  rw [hl] at hc
  exact (List.mem_append.mp hc).resolve_right fun h => hdot (hdots c h)

theorem at_mem_reading {front back : List Char} (hhead : (front ++ '@' :: back).head? ≠ some '[') :
    '@' ∈ reading (front ++ '@' :: back) := by
  have hmem : '@' ∈ front ++ '@' :: back := List.mem_append_right _ List.mem_cons_self
  rw [reading, if_neg hhead]
  refine mem_rdropWhile_dot ?_ (by decide)
  split_ifs with hport
  · obtain ⟨name, ds, hv, hname, hds⟩ := hport
    rw [hv] at hmem ⊢
    rw [(takeWhile_ne_append hname (Or.inr rfl)).1]
    refine (List.mem_append.mp hmem).resolve_right fun h => ?_
    have hdigit := hds.2 '@' ((List.mem_cons.mp h).resolve_left (by decide))
    rw [Runtime.isDigit_ascii _ (by decide)] at hdigit
    exact absurd hdigit (by decide)
  · exact hmem

/-- The authority is read as its host, but for user information and for a colon without a port behind a name. -/
theorem host_iff (u : Url) : normalizeHost (some (String.ofList u.authority)) =
      normalizeHost (some (String.ofList u.host.text)) ↔
    u.userinfo = none ∧ (u.port = some [] → ∃ a, u.host = .literal a) := by
  have hhost : ∀ c ∈ u.host.text, c ∈ u.authority := fun c hc =>
    List.mem_append_right _ (List.mem_append_left _ hc)
  rw [normalizeHost_ascii fun c hc => (authority_visible hc).1,
    normalizeHost_ascii fun c hc => (authority_visible (hhost c hc)).1]
  have hname : ∀ n, u.host = .name n → (∀ c, c = '@' ∨ c = '[' ∨ c = ']' → c ∉ n) := by
    rintro n hn c hc hmem
    obtain ⟨-, -, -, -, hat, hopen, hclose⟩ := isAuthorityChar_iff.mp (List.all_eq_true.mp (u.name_ok n hn).1 c hmem)
    rcases hc with h | h | h
    · exact hat h
    · exact hopen h
    · exact hclose h
  have hliteral : ∀ a, u.host = .literal a → '@' ∉ a ∧ ']' ∉ a := by
    refine fun a ha => ⟨fun hmem => ?_, fun hmem => ?_⟩
    · exact (isAuthorityChar_iff.mp (List.all_eq_true.mp (u.literal_ok a ha) _ hmem)).2.2.2.2.1 rfl
    · exact (isAuthorityChar_iff.mp (List.all_eq_true.mp (u.literal_ok a ha) _ hmem)).2.2.2.2.2.2 rfl
  cases hui : u.userinfo with
  | some ui =>
    refine iff_of_false (fun h => ?_) (by simp)
    have hopen : '[' ∉ ui := fun hmem =>
      (isAuthorityChar_iff.mp (List.all_eq_true.mp (u.userinfo_ok ui hui) _ hmem)).2.2.2.2.2.1 rfl
    have hauthority : lowered u.authority = lowered ui ++ '@' :: lowered (u.host.text ++ u.portText) := by
      rw [Url.authority, Url.userinfoText, hui]
      simp [lowered]
    have hat : '@' ∈ reading (lowered u.authority) := by
      rw [hauthority]
      refine at_mem_reading fun hhead => ?_
      rw [head?_append_mark (by decide)] at hhead
      exact hopen ((mem_lowered (by simp)).mp (List.mem_of_head? hhead))
    rw [textOrNone_injective h] at hat
    have hmem := (mem_lowered (by simp)).mp (mem_of_mem_reading hat)
    cases hh : u.host with
    | name n =>
      rw [hh] at hmem
      exact hname n hh '@' (Or.inl rfl) hmem
    | literal a =>
      rw [hh] at hmem
      have : '@' ∈ a := by simpa [UrlHost.text] using hmem
      exact (hliteral a hh).1 this
  | none =>
    have hauthority : lowered u.authority = lowered u.host.text ++ u.portText := by
      have hport : lowered u.portText = u.portText := by
        rw [Url.portText]
        cases hp : u.port with
        | none => rfl
        | some ds =>
          show ':' :: lowered ds = ':' :: ds
          rw [lowered_digits (u.port_ok ds hp)]
      rw [Url.authority, Url.userinfoText, hui, Option.elim_none, List.nil_append, lowered, List.map_append, ← lowered,
        ← lowered, hport]
    rw [hauthority]
    cases hh : u.host with
    | literal a =>
      have hclose : ']' ∉ lowered a := fun h => (hliteral a hh).2 ((mem_lowered (by simp)).mp h)
      have htext : ∀ rest, lowered (UrlHost.literal a).text ++ rest = '[' :: (lowered a ++ (']' :: rest)) := by
        intro rest
        simp [UrlHost.text, lowered]
      have hbare := htext []
      rw [List.append_nil] at hbare
      rw [htext, hbare, reading_bracket hclose (Or.inr rfl), reading_bracket hclose (Or.inr rfl)]
      exact iff_of_true rfl ⟨rfl, fun _ => ⟨a, rfl⟩⟩
    | name n =>
      have hhead : (lowered n).head? ≠ some '[' := fun h =>
        hname n hh '[' (by simp) ((mem_lowered (by simp)).mp (List.mem_of_head? h))
      have hcolon : ':' ∉ lowered n := fun h => (u.name_ok n hh).2 ((mem_lowered (by simp)).mp h)
      have hplain : ∀ v : List Char, ':' ∉ v → ¬ HasPort v := by
        rintro v hv ⟨name, ds, rfl, -⟩
        exact hv (List.mem_append_right _ List.mem_cons_self)
      rw [Url.portText, show (UrlHost.name n).text = n by rfl, reading_plain hhead (hplain _ hcolon)]
      cases hp : u.port with
      | none =>
        rw [Option.elim_none, List.append_nil, reading_plain hhead (hplain _ hcolon)]
        exact iff_of_true rfl ⟨rfl, fun h => absurd h (by simp)⟩
      | some ds =>
        rw [Option.elim_some]
        by_cases hds : ds = []
        · subst hds
          refine iff_of_false (fun h => ?_) fun h => ?_
          · have hport : ¬ HasPort (lowered n ++ [':']) := by
              rintro ⟨name, ds, hv, hname', hds⟩
              obtain ⟨hn, -⟩ := @takeWhile_ne_append ':' (lowered n) [':'] hcolon (Or.inr rfl)
              obtain ⟨hn', hd'⟩ := @takeWhile_ne_append ':' name (':' :: ds) hname' (Or.inr rfl)
              rw [hv] at hn
              obtain rfl := hn'.symm.trans hn
              exact hds.1 (List.cons.inj (List.append_cancel_left hv)).2.symm
            have hhead' : (lowered n ++ [':']).head? ≠ some '[' := fun h => hhead ((head?_append_mark (by decide)).mp h)
            rw [reading_plain hhead' hport] at h
            have hmem := mem_rdropWhile_dot (l := lowered n ++ [':']) (c := ':') (by simp) (by decide)
            rw [textOrNone_injective h] at hmem
            exact hcolon ((List.rdropWhile_prefix _ _).subset hmem)
          · obtain ⟨a, ha⟩ := h.2 rfl
            cases ha
        · rw [reading_port hhead hcolon (portDigits_of_ascii hds (u.port_ok ds hp))]
          exact iff_of_true rfl ⟨rfl, fun h => absurd (Option.some.inj h) hds⟩

end Host

theorem stripQueryAux_of_notMem {cs : List Char} (h : '?' ∉ cs) (depth : ℕ) : stripQueryAux depth cs = cs := by
  induction cs generalizing depth with
  | nil => rfl
  | cons c cs ih =>
    rw [List.mem_cons, not_or] at h
    rw [stripQueryAux]
    split_ifs with hopen hclose hquery
    · rw [ih h.2]
    · rw [ih h.2]
    · exact absurd hquery.1.symm h.1
    · rw [ih h.2]

/-- The path is `urlsplit`'s. -/
theorem path_of_url [UrlRuntime] (hf : f.url = u.text)
    (hliteral : ∀ a, u.host = .literal a → UrlRuntime.accepts u.authority) :
    f.path = if u.path = [] then "/" else String.ofList u.path := by
  obtain ⟨parts, hparts, hnetloc, hpath⟩ := urlsplit_text u
  have haccepts : UrlRuntime.accepts u.authority := by
    cases hhost : u.host with
    | literal a => exact hliteral a hhost
    | name n =>
      have hopen : '[' ∉ u.authority := bracket_notMem_of_name hhost
      have hclose : ']' ∉ u.authority := fun h => hopen (by rwa [brackets_balanced u])
      refine UrlRuntime.accepts_plain _ fun c hc => ⟨?_, ?_, ?_⟩
      · have := (authority_visible hc).1
        omega
      · exact fun h => hopen (h ▸ hc)
      · exact fun h => hclose (h ▸ hc)
  have hurl : urlPath u.text = String.ofList u.path := by
    rw [UrlRuntime.urlPath_eq u.text parts hparts (hnetloc ▸ haccepts), hpath]
  have hscheme : hasInfix u.text "://" = true := by
    refine decide_eq_true ⟨u.scheme, u.authority ++ (u.path ++ u.tail), ?_⟩
    rw [Url.text, String.toList_ofList, List.append_assoc, String.toList_ofList]
  have hquery : '?' ∉ u.path := fun h => u.path_ok.2 '?' h (by simp)
  rw [Finding.path, hf, pathFromUrl, if_pos hscheme, hurl, stripQuery, String.toList_ofList,
    stripQueryAux_of_notMem hquery]
  exact if_congr String.ofList_eq_empty_iff rfl rfl

end Reads

/-- A finding reads its URL right just if a path or nothing follows the authority, no user information stands in it
and no colon without a port follows a name. -/
theorem finding_url_iff [UrlRuntime] (u : Url) (hliteral : ∀ a, u.host = .literal a → UrlRuntime.accepts u.authority)
    (f : Finding) (hf : f.url = u.text) :
    (f.authority = u.wantedAuthority ∧ f.host = normalizeHost (some (String.ofList u.host.text)) ∧
      f.path = if u.path = [] then "/" else String.ofList u.path) ↔
    (u.path ≠ [] ∨ (u.query = none ∧ u.fragment = none)) ∧ u.userinfo = none ∧
      (u.port = some [] → ∃ a, u.host = .literal a) := by
  have hhost : f.authority = u.wantedAuthority → (f.host = normalizeHost (some (String.ofList u.host.text)) ↔
      u.userinfo = none ∧ (u.port = some [] → ∃ a, u.host = .literal a)) := by
    intro hauthority
    rw [Finding.host, hauthority, Url.wantedAuthority, normalizeHost_textOrNone]
    exact host_iff u
  constructor
  · rintro ⟨hauthority, h, -⟩
    exact ⟨(authority_iff hf).mp hauthority, (hhost hauthority).mp h⟩
  · rintro ⟨hcut, hrest⟩
    have hauthority := (authority_iff hf).mpr hcut
    exact ⟨hauthority, (hhost hauthority).mpr hrest, path_of_url hf hliteral⟩

/-! ## A search without a path -/

/-- The path between the authority and the query, for a runtime in ASCII. -/
def netPath (url : List Char) : List Char := ((urlsplit url).map SplitResult.path).getD []

@[reducible] def UrlRuntime.ascii : UrlRuntime where
  toRuntime := { Runtime.ascii with urlPath := fun url => String.ofList (netPath url.toList) }
  accepts netloc := ∀ c ∈ netloc, c.toNat < 128
  accepts_plain netloc h c hc := (h c hc).1
  urlPath_eq url parts h _ := by
    show String.ofList (netPath url.toList) = _
    rw [netPath, h]
    rfl

/-- A search of the shop, with its path or without. -/
def searchUrl (path : List Char)
    (hpath : (path = [] ∨ path.head? = some '/') ∧ ∀ c ∈ path, c ∉ ['?', '#', '\t', '\r', '\n']) : Url where
  scheme := "http".toList
  host := .name "shop.example".toList
  port := some "8080".toList
  path := path
  query := some "q=1".toList
  scheme_ok := ⟨'h', "ttp".toList, rfl, rfl, rfl⟩
  userinfo_ok ui h := absurd h (Option.some_ne_none ui).symm
  name_ok n h := by
    obtain rfl := UrlHost.name.inj h
    decide
  literal_ok a h := UrlHost.noConfusion h
  port_ok ds h := by
    obtain rfl := Option.some.inj h
    rfl
  path_ok := hpath
  query_ok q h := by
    obtain rfl := Option.some.inj h
    decide

/-- With its path the URL is read right. -/
theorem finding_url_search :
    let _ := UrlRuntime.ascii
    let u := searchUrl ['/'] ⟨Or.inr rfl, by simp⟩
    ({ url := u.text } : Finding).authority = u.wantedAuthority := by
  intro _ u
  exact ((finding_url_iff u (fun a h => UrlHost.noConfusion h) { url := u.text } rfl).mpr
    ⟨Or.inl (by decide), rfl, fun h => absurd (Option.some.inj h) (by decide)⟩).1

/-- Without it the query is taken into the authority, and the port is not seen. -/
theorem finding_url_pathless :
    let _ := UrlRuntime.ascii
    let u := searchUrl [] ⟨Or.inl rfl, by simp⟩
    let f : Finding := { url := "http://shop.example:8080?q=1" }
    f.url = u.text ∧ f.authority = some "shop.example:8080?q=1" ∧ f.authority ≠ u.wantedAuthority ∧
      f.host = some "shop.example:8080?q=1" := by
  decide +kernel

end PtaasBench.Benchctl
