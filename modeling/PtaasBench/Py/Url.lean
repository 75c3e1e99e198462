import Mathlib.Data.List.DropRight
import Mathlib.Data.Nat.Notation

/-!
# PtaasBench.Py.Url — the parts of a URL (`urllib.parse`)

A URL is taken apart once and kept as its parts.
-/

namespace PtaasBench.Py

/-! ## Cutting a text at a character -/

section Cuts

/-- `s.partition(c)`, without the separator. -/
def partition (c : Char) (s : List Char) : List Char × List Char :=
  (s.takeWhile (· ≠ c), (s.dropWhile (· ≠ c)).tail)

/-- `s.rpartition(c)`, if the separator is there. -/
def rpartition (c : Char) (s : List Char) : Option (List Char × List Char) :=
  if c ∈ s then some ((s.rdropWhile (· ≠ c)).dropLast, s.rtakeWhile (· ≠ c)) else none

theorem rpartition_append {c : Char} {front back : List Char} (h : c ∉ back) :
    rpartition c (front ++ c :: back) = some (front, back) := by
  have hback : ∀ d ∈ back, decide (d ≠ c) = true := by
    intro d hd
    rw [decide_eq_true_eq]
    rintro rfl
    exact h hd
  have hsplit : ∀ back : List Char, (∀ d ∈ back, decide (d ≠ c) = true) →
      (front ++ c :: back).rdropWhile (· ≠ c) = front ++ [c] ∧ (front ++ c :: back).rtakeWhile (· ≠ c) = back := by
    intro back hback
    induction back using List.reverseRecOn with
    | nil =>
      rw [List.rdropWhile_concat_neg _ _ _ (by simp), List.rtakeWhile_concat_neg _ _ _ (by simp)]
      exact ⟨rfl, rfl⟩
    | append_singleton back d ih =>
      obtain ⟨hdrop, htake⟩ := ih fun e he => hback e (List.mem_append_left _ he)
      have hd := hback d (List.mem_append_right _ List.mem_cons_self)
      rw [← List.cons_append, ← List.append_assoc, List.rdropWhile_concat_pos (· ≠ c) _ _ hd,
        List.rtakeWhile_concat_pos (· ≠ c) _ _ hd, hdrop, htake]
      exact ⟨rfl, rfl⟩
  obtain ⟨hdrop, htake⟩ := hsplit back hback
  rw [rpartition, if_pos (by simp), hdrop, htake, List.dropLast_concat]

theorem rpartition_of_notMem {c : Char} {s : List Char} (h : c ∉ s) : rpartition c s = none := if_neg h

end Cuts

/-! ## Taking a URL apart -/

structure SplitResult where
  scheme : List Char := []
  netloc : List Char := []
  path : List Char := []
  query : List Char := []
  fragment : List Char := []
deriving DecidableEq

def isSchemeChar (c : Char) : Bool := c.isAlphanum || c = '+' || c = '-' || c = '.'

/-- The scheme of a URL, and what follows. -/
def splitScheme (url : List Char) : List Char × List Char :=
  match url with
  | [] => ([], [])
  | c :: rest =>
    if ':' ∈ rest ∧ c.isAlpha ∧ (partition ':' url).1.all isSchemeChar then
      ((partition ':' url).1.map Char.toLower, (partition ':' url).2)
    else ([], url)

/-- `_splitnetloc` -/
def splitNetloc (url : List Char) : List Char × List Char :=
  let inside (c : Char) : Bool := c ≠ '/' ∧ c ≠ '?' ∧ c ≠ '#'
  match url with
  | '/' :: '/' :: rest => (rest.takeWhile inside, rest.dropWhile inside)
  | _ => ([], url)

/-- `urlsplit(url)`; `none` is a `ValueError`. -/
def urlsplit (url : List Char) : Option SplitResult :=
  let url := (url.dropWhile fun c => c ≤ ' ').filter fun c => c ≠ '\t' ∧ c ≠ '\r' ∧ c ≠ '\n'
  let (scheme, url) := splitScheme url
  let (netloc, url) := splitNetloc url
  if ('[' ∈ netloc) ≠ (']' ∈ netloc) then none
  else
    let (url, fragment) := partition '#' url
    let (path, query) := partition '?' url
    some { scheme := scheme, netloc := netloc, path := path, query := query, fragment := fragment }

/-- The port of a URL as it is written. -/
def SplitResult.writtenPort (parts : SplitResult) : List Char :=
  let hostinfo := ((rpartition '@' parts.netloc).map Prod.snd).getD parts.netloc
  if '[' ∈ hostinfo then (partition ':' (partition ']' (partition '[' hostinfo).2).2).2
  else (partition ':' hostinfo).2

/-- `parts.port`, where `some none` is a URL without one; `none` is a `ValueError`. -/
def SplitResult.port (parts : SplitResult) : Option (Option ℕ) :=
  if parts.writtenPort = [] then some none
  else if parts.writtenPort.all Char.isDigit ∧ Nat.ofDigitChars 10 parts.writtenPort 0 ≤ 65535 then
    some (some (Nat.ofDigitChars 10 parts.writtenPort 0))
  else none

theorem SplitResult.port_le {parts : SplitResult} {port : ℕ} (h : parts.port = some (some port)) :
    port ≤ 65535 := by
  rw [SplitResult.port] at h
  split_ifs at h with hnone hport
  · cases h
  · obtain rfl := Option.some.inj (Option.some.inj h)
    exact hport.2

/-! ## Resolving a URL against another -/

/-- Schemes whose URLs may be relative. -/
def usesRelative : List (List Char) :=
  ["", "ftp", "http", "gopher", "nntp", "imap", "wais", "file", "https", "shttp", "mms", "prospero", "rtsp",
    "rtsps", "rtspu", "sftp", "svn", "svn+ssh", "ws", "wss"].map String.toList

/-- The segments of a path, without the dots. -/
def withoutDots (segments : List (List Char)) : List (List Char) :=
  let resolved := segments.foldl
    (fun resolved seg =>
      if seg = ['.', '.'] then resolved.dropLast else if seg = ['.'] then resolved else resolved ++ [seg]) []
  if segments.getLast? = some ['.'] ∨ segments.getLast? = some ['.', '.'] then resolved ++ [[]] else resolved

/-- The path of `path` against `base`. -/
def resolvePath (base path : List Char) : List Char :=
  let resolved :=
    if path.head? = some '/' then withoutDots (path.splitOn '/')
    else
      let baseParts := base.splitOn '/'
      let baseParts := if baseParts.getLast? = some [] then baseParts else baseParts.dropLast
      let segments := baseParts ++ path.splitOn '/'
      -- no empty segment between the first and the last
      withoutDots (segments.take 1 ++ (segments.drop 1).dropLast.filter (· ≠ []) ++ (segments.drop 1).drop
        ((segments.drop 1).length - 1))
  let joined := (resolved.intersperse ['/']).flatten
  if joined = [] then ['/'] else joined

/-- `urljoin(base, url)` -/
def urljoin (base url : SplitResult) : SplitResult :=
  if url = {} then base
  else
    let scheme := if url.scheme = [] then base.scheme else url.scheme
    if scheme ≠ base.scheme ∨ scheme ∉ usesRelative then url
    else if url.netloc ≠ [] then { url with scheme := scheme }
    else if url.path = [] then
      { url with
        scheme := scheme
        netloc := base.netloc
        path := base.path
        query := if url.query = [] then base.query else url.query }
    else { url with scheme := scheme, netloc := base.netloc, path := resolvePath base.path url.path }

/-- The scheme of `url` against `base`. -/
theorem urljoin_named {base url : SplitResult} (hbase : base.scheme ∈ usesRelative) (h : url.netloc ≠ []) :
    (urljoin base url).scheme = (if url.scheme = [] then base.scheme else url.scheme) ∧
      (urljoin base url).netloc = url.netloc := by
  have hsome : url ≠ {} := by
    rintro rfl
    exact h rfl
  rw [urljoin, if_neg hsome]
  dsimp only
  by_cases hscheme : url.scheme = []
  · rw [if_pos hscheme, if_neg (by simp [hbase]), if_pos h]
    exact ⟨rfl, rfl⟩
  · rw [if_neg hscheme, if_pos h]
    split_ifs
    · exact ⟨rfl, rfl⟩
    · exact ⟨rfl, rfl⟩

theorem urljoin_relative {base url : SplitResult} (hbase : base.scheme ∈ usesRelative)
    (hscheme : url.scheme = [] ∨ url.scheme = base.scheme) (h : url.netloc = []) :
    (urljoin base url).scheme = base.scheme ∧ (urljoin base url).netloc = base.netloc := by
  have hbase' : (if url.scheme = [] then base.scheme else url.scheme) = base.scheme := by
    rcases hscheme with hnone | hsame
    · rw [if_pos hnone]
    · rw [hsame, ite_self]
  rw [urljoin]
  dsimp only
  rw [hbase', if_neg (by simp [hbase] : ¬ (base.scheme ≠ base.scheme ∨ base.scheme ∉ usesRelative)),
    if_neg (not_not.mpr h)]
  by_cases hsome : url = {}
  · rw [if_pos hsome]
    exact ⟨rfl, rfl⟩
  · rw [if_neg hsome]
    by_cases hpath : url.path = []
    · rw [if_pos hpath]
      exact ⟨rfl, rfl⟩
    · rw [if_neg hpath]
      exact ⟨rfl, rfl⟩

theorem urljoin_other {base url : SplitResult} (hsome : url.scheme ≠ []) (h : url.scheme ≠ base.scheme) :
    urljoin base url = url := by
  have hne : url ≠ {} := by
    rintro rfl
    exact hsome rfl
  rw [urljoin, if_neg hne]
  dsimp only
  rw [if_neg hsome, if_pos (Or.inl h)]

end PtaasBench.Py
