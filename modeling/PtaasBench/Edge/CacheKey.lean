import PtaasBench.Edge.Target
import PtaasBench.Py.Text

/-!
# PtaasBench.Edge.CacheKey — the cache tier's key and the probe's URL (`default.vcl`, `routes.go`)

The cache tier deletes the `lang` parameters of a URL with a regular expression; the origin cuts the query into
pieces, leaves some out and joins the others.  Both are brought to the list of the pieces that stay.
-/

namespace PtaasBench.Edge

open Py Lib List

/-! ## The key -/

/-- `regsuball(url, "[?&]lang=[^&]*", "")`; `skipping` inside a match, which goes on up to the next ampersand. -/
def dropLang : Bool → Bytes → Bytes
  | _, [] => []
  | skipping, b :: bs =>
    if skipping = true ∧ b ≠ 0x26 then dropLang true bs
    else if (b = 0x3F ∨ b = 0x26) ∧ (text "lang=").isPrefixOf bs = true then dropLang true bs
    else b :: dropLang false bs

/-- `regsub(url, "^([^?&]*)&", "\1?")` -/
def leadingSeparator : Bytes → Bytes
  | [] => []
  | b :: bs => if b = 0x26 then 0x3F :: bs else if b = 0x3F then b :: bs else b :: leadingSeparator bs

/-- What `vcl_hash` hands to `hash_data`. -/
def vclKey (url : Bytes) : Bytes :=
  if (text "/news").isPrefixOf url then leadingSeparator (dropLang false url) else url

/-- Is a match still open behind a text? -/
def openAfter : Bool → Bytes → Bool
  | skipping, [] => skipping
  | skipping, b :: bs =>
    if skipping = true ∧ b ≠ 0x26 then openAfter true bs
    else if (b = 0x3F ∨ b = 0x26) ∧ (text "lang=").isPrefixOf bs = true then openAfter true bs
    else openAfter false bs

/-- The text before the part of a target that `splitTarget` reads. -/
def authorityOf (target : Bytes) : Bytes := target.take (target.length - (withoutAuthority target).length)

/-- The probe looks at the object of the request. -/
def SameObject (target : Bytes) : Prop := vclKey (stripParam target (text "lang")) = vclKey target

/-- The handler of `/news` sees another locale than `en`. -/
def SeesLang (target : Bytes) : Prop :=
  (splitTarget target).1 = text "/news" ∧
    (splitTarget target).2.get (text "lang") ≠ [] ∧ (splitTarget target).2.get (text "lang") ≠ text "en"

/-! ## Matches and texts -/

theorem dropLang_cons (skipping : Bool) (b : UInt8) (bs : Bytes) : dropLang skipping (b :: bs) =
    if skipping = true ∧ b ≠ 0x26 then dropLang true bs
    else if (b = 0x3F ∨ b = 0x26) ∧ (text "lang=").isPrefixOf bs = true then dropLang true bs
    else b :: dropLang false bs := rfl

theorem isPrefixOf_append {l p X : Bytes} (h : ∀ x, X.head? = some x → x ∉ l) :
    l.isPrefixOf (p ++ X) = l.isPrefixOf p := by
  induction l generalizing p with
  | nil => cases p <;> simp
  | cons a l ih =>
    have hrest : ∀ x, X.head? = some x → x ∉ l := fun x hx hmem => h x hx (mem_cons_of_mem _ hmem)
    cases p with
    | cons b p => rw [cons_append, isPrefixOf_cons_cons, isPrefixOf_cons_cons, ih hrest]
    | nil =>
      cases X with
      | nil => rfl
      | cons x X =>
        have hne : (a == x) = false := beq_false_of_ne fun heq => h x rfl (heq ▸ mem_cons_self)
        rw [nil_append, isPrefixOf_cons_cons, hne, Bool.false_and]
        rfl

/-- A text that goes on with a byte that is not in `lang=`. -/
theorem dropLang_append {X : Bytes} (h : ∀ x, X.head? = some x → x ∉ text "lang=") (skipping : Bool) (p : Bytes) :
    dropLang skipping (p ++ X) = dropLang skipping p ++ dropLang (openAfter skipping p) X := by
  induction p generalizing skipping with
  | nil => rfl
  | cons b p ih =>
    rw [cons_append, dropLang_cons, dropLang_cons, openAfter, isPrefixOf_append h]
    by_cases hskip : skipping = true ∧ b ≠ 0x26
    · rw [if_pos hskip, if_pos hskip, if_pos hskip, ih]
    · rw [if_neg hskip, if_neg hskip, if_neg hskip]
      by_cases hmatch : (b = 0x3F ∨ b = 0x26) ∧ (text "lang=").isPrefixOf p = true
      · rw [if_pos hmatch, if_pos hmatch, if_pos hmatch, ih]
      · rw [if_neg hmatch, if_neg hmatch, if_neg hmatch, ih, cons_append]

/-- An ampersand ends a match. -/
theorem dropLang_ampersand (skipping : Bool) (X : Bytes) : dropLang skipping (0x26 :: X) = dropLang false (0x26 :: X) := by
  have hopen (skipping : Bool) : ¬ (skipping = true ∧ (0x26 : UInt8) ≠ 0x26) := fun h => h.2 rfl
  rw [dropLang_cons, dropLang_cons, if_neg (hopen skipping), if_neg (hopen false)]

/-- Within a piece a match goes on to its end. -/
theorem dropLang_true {p : Bytes} (h : 0x26 ∉ p) : dropLang true p = [] := by
  induction p with
  | nil => rfl
  | cons b p ih =>
    obtain ⟨hb, hp⟩ := not_or.mp (mem_cons.not.mp h)
    rw [dropLang_cons, if_pos ⟨rfl, Ne.symm hb⟩, ih hp]

theorem dropLang_subset (skipping : Bool) (p : Bytes) : dropLang skipping p ⊆ p := by
  induction p generalizing skipping with
  | nil => exact List.Subset.refl _
  | cons b p ih =>
    rw [dropLang_cons]
    split_ifs
    · exact List.Subset.trans (ih true) (subset_cons_self _ _)
    · exact List.Subset.trans (ih true) (subset_cons_self _ _)
    · exact cons_subset_cons _ (ih false)

/-! ## Pieces -/

/-- The text of a query behind a path. -/
def queryText (ps : List Bytes) : Bytes := if ps = [] then [] else 0x3F :: [0x26].intercalate ps

def behind (ps : List Bytes) : Bytes := ps.flatMap fun p => 0x26 :: p

theorem intercalate_cons (p : Bytes) (ps : List Bytes) : [0x26].intercalate (p :: ps) = p ++ behind ps := by
  induction ps generalizing p with
  | nil => simp [behind]
  | cons q ps ih =>
    rw [intercalate_cons_cons, ih, behind, behind, flatMap_cons]
    simp

/-- The pieces that stay, each up to a match inside. -/
def staying (ps : List Bytes) : List Bytes := (ps.filter fun p => !(text "lang=").isPrefixOf p).map (dropLang false)

theorem head_behind {ps : List Bytes} {x : UInt8} (h : (behind ps).head? = some x) : x ∉ text "lang=" := by
  cases ps with
  | nil => exact absurd h.symm (Option.some_ne_none _)
  | cons p ps =>
    rw [behind, flatMap_cons, cons_append, List.head?_cons] at h
    rw [← Option.some.inj h]
    decide

theorem staying_cons (p : Bytes) (ps : List Bytes) : staying (p :: ps) =
    if (text "lang=").isPrefixOf p then staying ps else dropLang false p :: staying ps := by
  rw [staying, filter_cons]
  cases (text "lang=").isPrefixOf p <;> rfl

/-- A piece with the separator before it, and more pieces behind. -/
theorem dropLang_piece {sep : UInt8} (hsep : sep = 0x3F ∨ sep = 0x26) {p : Bytes} (hp : 0x26 ∉ p) (ps : List Bytes) :
    dropLang false (sep :: (p ++ behind ps)) =
      (if (text "lang=").isPrefixOf p then [] else sep :: dropLang false p) ++ dropLang false (behind ps) := by
  have hbehind (skipping : Bool) : dropLang skipping (behind ps) = dropLang false (behind ps) := by
    cases ps with
    | nil => rfl
    | cons q ps => exact dropLang_ampersand skipping _
  rw [dropLang_cons, if_neg fun h => Bool.false_ne_true h.1, isPrefixOf_append fun x hx => head_behind hx]
  by_cases hlang : (text "lang=").isPrefixOf p = true
  · rw [if_pos ⟨hsep, hlang⟩, if_pos hlang, dropLang_append fun x hx => head_behind hx, dropLang_true hp, hbehind]
  · rw [if_neg fun h => hlang h.2, if_neg hlang, dropLang_append fun x hx => head_behind hx, hbehind, cons_append]

theorem dropLang_behind {ps : List Bytes} (h : ∀ p ∈ ps, 0x26 ∉ p) : dropLang false (behind ps) = behind (staying ps) := by
  induction ps with
  | nil => rfl
  | cons p ps ih =>
    have hstep : behind (p :: ps) = 0x26 :: (p ++ behind ps) := by rw [behind, flatMap_cons]; rfl
    rw [hstep, dropLang_piece (.inr rfl) (h p mem_cons_self), ih fun q hq => h q (mem_cons_of_mem _ hq),
      staying_cons]
    split_ifs
    · rfl
    · rw [behind, behind, flatMap_cons]

theorem leadingSeparator_behind (ps : List Bytes) : leadingSeparator (behind ps) = queryText ps := by
  cases ps with
  | nil => rfl
  | cons p ps =>
    rw [queryText, if_neg (cons_ne_nil _ _), intercalate_cons]
    rfl

/-- The key of a query: what stays of its pieces, behind a question mark. -/
theorem leadingSeparator_queryText {ps : List Bytes} (h : ∀ p ∈ ps, 0x26 ∉ p) :
    leadingSeparator (dropLang false (queryText ps)) = queryText (staying ps) := by
  cases ps with
  | nil => rfl
  | cons p ps =>
    rw [queryText, if_neg (cons_ne_nil _ _), intercalate_cons, dropLang_piece (.inl rfl) (h p mem_cons_self),
      dropLang_behind fun q hq => h q (mem_cons_of_mem _ hq), staying_cons]
    split_ifs
    · exact leadingSeparator_behind _
    · rw [queryText, if_neg (cons_ne_nil _ _), intercalate_cons]
      rfl

theorem vclKey_news {ps : List Bytes} (h : ∀ p ∈ ps, 0x26 ∉ p) :
    vclKey (text "/news" ++ queryText ps) = text "/news" ++ queryText (staying ps) := by
  have hstarts : (text "/news").isPrefixOf (text "/news" ++ queryText ps) = true :=
    List.isPrefixOf_iff_prefix.mpr (prefix_append _ _)
  have hdrop (X : Bytes) : dropLang false (text "/news" ++ X) = text "/news" ++ dropLang false X := rfl
  have hlead (X : Bytes) : leadingSeparator (text "/news" ++ X) = text "/news" ++ leadingSeparator X := rfl
  rw [vclKey, if_pos hstarts, hdrop, hlead, leadingSeparator_queryText h]

/-! ## The probe's URL -/

/-- A piece that `stripParam` keeps. -/
def kept (kv : Bytes) : Bool := kv ≠ [] && kv.takeWhile (· ≠ 0x3D) ≠ text "lang"

theorem not_mem_of_mem_splitOn {query p : Bytes} (h : p ∈ query.splitOn 0x26) : 0x26 ∉ p := by
  rw [splitOn_eq_splitOnP] at h
  intro hmem
  have hfalse := forall_of_mem_splitOnP h _ hmem
  simp at hfalse

/-- A URL of `/news` that `splitTarget` reads as it stands. -/
theorem news_eq {t : Bytes} (hpath : pathOf t = text "/news") (hquery : 0x3F ∈ t) :
    t = text "/news" ++ queryText ((queryOf t).splitOn 0x26) := by
  rw [queryText, if_neg (splitOn_ne_nil _ _), intercalate_splitOn, queryOf, ← hpath, pathOf]
  have hne : t.dropWhile (· ≠ 0x3F) ≠ [] := fun hnil =>
    absurd (dropWhile_eq_nil_iff.mp hnil _ hquery) (by simp)
  obtain ⟨b, bs, hcons⟩ := exists_cons_of_ne_nil hne
  have hb := head_dropWhile_not (· ≠ (0x3F : UInt8)) hne
  simp only [hcons, head_cons, decide_eq_false_iff_not, not_not] at hb
  conv_lhs => rw [← @takeWhile_append_dropWhile _ (· ≠ (0x3F : UInt8)) t, hcons, hb]
  rw [hcons]
  rfl

theorem stripParam_news {target : Bytes} (hpath : pathOf (pathAndQuery target) = text "/news")
    (hquery : 0x3F ∈ pathAndQuery target) : stripParam target (text "lang") =
      text "/news" ++ queryText (((queryOf (pathAndQuery target)).splitOn 0x26).filter kept) := by
  have hbase : (pathAndQuery target).takeWhile (· ≠ 0x3F) = text "/news" := hpath
  rw [stripParam]
  dsimp only
  rw [if_pos hquery, hbase, queryText]
  split_ifs with hnone hnil hnil
  · rw [append_nil]
  · exact absurd hnone hnil
  · exact absurd hnil hnone
  · rfl

theorem queryText_inj {ps qs : List Bytes} (hp : ∀ p ∈ ps, 0x26 ∉ p) (hq : ∀ q ∈ qs, 0x26 ∉ q)
    (h : queryText ps = queryText qs) : ps = qs := by
  rw [queryText, queryText] at h
  split_ifs at h with hps hqs hqs
  · rw [hps, hqs]
  · rw [← splitOn_intercalate 0x26 hp hps, (List.cons.inj h).2, splitOn_intercalate 0x26 hq hqs]

/-- A piece that the cache tier leaves in the key and the probe's URL has not. -/
theorem kept_of_staying {p : Bytes} (hlang : (text "lang=").isPrefixOf p = false) :
    kept p = true ↔ p ≠ [] ∧ p ≠ text "lang" := by
  rw [kept, Bool.and_eq_true, decide_eq_true_iff, decide_eq_true_iff]
  refine and_congr_right fun _ => not_congr ⟨fun hname => ?_, fun h => by rw [h]; decide⟩
  cases hrest : p.dropWhile (· ≠ 0x3D) with
  | nil =>
    rw [← @takeWhile_append_dropWhile _ (· ≠ (0x3D : UInt8)) p, hname, hrest, append_nil]
  | cons b rest =>
    have hne : p.dropWhile (· ≠ 0x3D) ≠ [] := by rw [hrest]; exact cons_ne_nil _ _
    have hb := head_dropWhile_not (· ≠ (0x3D : UInt8)) hne
    simp only [hrest, head_cons, decide_eq_false_iff_not, not_not] at hb
    have hp : p = text "lang=" ++ rest := by
      conv_lhs => rw [← @takeWhile_append_dropWhile _ (· ≠ (0x3D : UInt8)) p, hname, hrest, hb]
      rfl
    have hstarts : (text "lang=").isPrefixOf p = true :=
      List.isPrefixOf_iff_prefix.mpr (hp ▸ prefix_append _ _)
    rw [hlang] at hstarts
    cases hstarts

theorem staying_filter (ps : List Bytes) : staying (ps.filter kept) =
    (((ps.filter fun p => !(text "lang=").isPrefixOf p).filter kept).map (dropLang false)) := by
  rw [staying, filter_filter, filter_filter]
  refine congrArg _ (filter_congr fun p _ => Bool.and_comm _ _)

/-- The same pieces stay exactly if none of them is empty or `lang` without a value. -/
theorem staying_filter_eq_iff (ps : List Bytes) :
    staying (ps.filter kept) = staying ps ↔ ∀ p ∈ ps, p ≠ [] ∧ p ≠ text "lang" := by
  have hkept : staying (ps.filter kept) = staying ps ↔
      ∀ p ∈ ps.filter fun p => !(text "lang=").isPrefixOf p, kept p = true := by
    rw [staying_filter, staying]
    refine ⟨fun h => ?_, fun h => by rw [filter_eq_self.mpr h]⟩
    have hlength := congrArg List.length h
    rw [length_map, length_map] at hlength
    have hself := filter_sublist.eq_of_length hlength
    exact filter_eq_self.mp hself
  rw [hkept]
  refine ⟨fun h p hp => ?_, fun h p hp => ?_⟩
  · cases hlang : (text "lang=").isPrefixOf p with
    | false => exact (kept_of_staying hlang).mp (h p (mem_filter.mpr ⟨hp, by rw [hlang]; rfl⟩))
    | true =>
      refine ⟨fun hnil => ?_, fun hname => ?_⟩
      · rw [hnil] at hlang
        exact absurd hlang (by decide)
      · rw [hname] at hlang
        exact absurd hlang (by decide)
  · obtain ⟨hmem, hlang⟩ := mem_filter.mp hp
    exact (kept_of_staying (by simpa using hlang)).mpr (h p hmem)

theorem free_staying {ps : List Bytes} (h : ∀ p ∈ ps, 0x26 ∉ p) : ∀ p ∈ staying ps, 0x26 ∉ p := by
  intro p hp hmem
  obtain ⟨q, hq, rfl⟩ := mem_map.mp hp
  exact h q (mem_of_mem_filter hq) (dropLang_subset false q hmem)

/-- The keys of the probe's URL and of the URL `splitTarget` reads. -/
theorem strip_key_iff {target : Bytes} (hpath : pathOf (pathAndQuery target) = text "/news")
    (hquery : 0x3F ∈ pathAndQuery target) :
    vclKey (stripParam target (text "lang")) = vclKey (pathAndQuery target) ↔
      ∀ p ∈ (queryOf (pathAndQuery target)).splitOn 0x26, p ≠ [] ∧ p ≠ text "lang" := by
  have hfree : ∀ p ∈ (queryOf (pathAndQuery target)).splitOn 0x26, 0x26 ∉ p := fun p hp => not_mem_of_mem_splitOn hp
  have hfilter : ∀ p ∈ ((queryOf (pathAndQuery target)).splitOn 0x26).filter kept, 0x26 ∉ p :=
    fun p hp => hfree p (mem_of_mem_filter hp)
  have hkey : vclKey (pathAndQuery target) =
      text "/news" ++ queryText (staying ((queryOf (pathAndQuery target)).splitOn 0x26)) := by
    conv_lhs => rw [news_eq hpath hquery]
    exact vclKey_news hfree
  rw [stripParam_news hpath hquery, vclKey_news hfilter, hkey, append_right_inj, ← staying_filter_eq_iff]
  exact ⟨queryText_inj (free_staying hfilter) (free_staying hfree), congrArg _⟩

/-! ## The object the probe asks for -/

theorem authorityOf_append {target : Bytes} (hroot : withoutAuthority target ≠ [0x2F]) :
    authorityOf target ++ withoutAuthority target = target := by
  obtain ⟨x, hx⟩ := withoutAuthority_suffix hroot
  have hlength : target.length - (withoutAuthority target).length = x.length := by
    have hsum := congrArg List.length hx
    rw [length_append] at hsum
    omega
  have htake : target.take x.length = x := by
    rw [← hx]
    exact take_left
  rw [authorityOf, hlength, htake, hx]

theorem length_leadingSeparator (bs : Bytes) : (leadingSeparator bs).length = bs.length := by
  induction bs with
  | nil => rfl
  | cons b bs ih =>
    rw [leadingSeparator]
    split_ifs
    · rfl
    · rfl
    · rw [length_cons, length_cons, ih]

theorem length_queryText (ps : List Bytes) : (queryText ps).length = (ps.map fun p => p.length + 1).sum := by
  have hbehind : ∀ ps : List Bytes, (behind ps).length = (ps.map fun p => p.length + 1).sum := by
    intro ps
    rw [behind, length_flatMap]
    rfl
  cases ps with
  | nil => rfl
  | cons p ps =>
    rw [queryText, if_neg (cons_ne_nil _ _), intercalate_cons, length_cons, length_append, hbehind,
      map_cons, sum_cons]
    omega

/-- The probe's URL has no longer key than the URL `splitTarget` reads. -/
theorem length_strip_key {target : Bytes} (hpath : pathOf (pathAndQuery target) = text "/news")
    (hquery : 0x3F ∈ pathAndQuery target) :
    (vclKey (stripParam target (text "lang"))).length ≤ (dropLang false (pathAndQuery target)).length := by
  have hfree : ∀ p ∈ (queryOf (pathAndQuery target)).splitOn 0x26, 0x26 ∉ p := fun p hp => not_mem_of_mem_splitOn hp
  have hfilter : ∀ p ∈ ((queryOf (pathAndQuery target)).splitOn 0x26).filter kept, 0x26 ∉ p :=
    fun p hp => hfree p (mem_of_mem_filter hp)
  have hdrop : (dropLang false (pathAndQuery target)).length =
      (text "/news" ++ queryText (staying ((queryOf (pathAndQuery target)).splitOn 0x26))).length := by
    rw [← vclKey_news hfree, ← news_eq hpath hquery, vclKey, if_pos, length_leadingSeparator]
    rw [news_eq hpath hquery]
    exact List.isPrefixOf_iff_prefix.mpr (prefix_append _ _)
  have hsublist : (staying (((queryOf (pathAndQuery target)).splitOn 0x26).filter kept)).Sublist
      (staying ((queryOf (pathAndQuery target)).splitOn 0x26)) :=
    (filter_sublist.filter _).map _
  have hsum := (hsublist.map fun p => p.length + 1).sum_le_sum fun _ _ => Nat.zero_le _
  rw [stripParam_news hpath hquery, vclKey_news hfilter, hdrop, length_append, length_append,
    length_queryText, length_queryText]
  omega

theorem pathAndQuery_eq {target : Bytes} (hhead : target.head? = some 0x2F) :
    pathAndQuery target = withoutAuthority target := by
  have hstart : (withoutAuthority target).head? = some 0x2F := by
    cases hmarker : afterFirst (text "://") target with
    | none => rw [withoutAuthority_of_none hmarker, hhead]
    | some rest => exact withoutAuthority_head hmarker
  exact if_pos hstart

/-- A match that is over before the `://` leaves a longer key. -/
theorem not_sameObject {target rest : Bytes} (hnews : (text "/news").isPrefixOf target = true)
    (hmarker : afterFirst (text "://") target = some rest) (hhead : target.head? = some 0x2F)
    (hpath : pathOf (pathAndQuery target) = text "/news") (hquery : 0x3F ∈ pathAndQuery target)
    (hclosed : openAfter false (authorityOf target) = false) : ¬ SameObject target := by
  have heq := pathAndQuery_eq hhead
  have hroot : withoutAuthority target ≠ [0x2F] := by
    intro hroot
    rw [heq, hroot] at hquery
    exact absurd hquery (by decide)
  have happend := authorityOf_append hroot
  have hstart : ∀ x, (withoutAuthority target).head? = some x → x ∉ text "lang=" := by
    intro x hx
    rw [withoutAuthority_head hmarker] at hx
    rw [← Option.some.inj hx]
    decide
  have hkey : (vclKey target).length =
      (dropLang false (authorityOf target)).length + (dropLang false (pathAndQuery target)).length := by
    rw [vclKey, if_pos hnews, length_leadingSeparator]
    conv_lhs => rw [← happend, dropLang_append hstart, hclosed, length_append]
    rw [heq]
  have hpos : 0 < (dropLang false (authorityOf target)).length := by
    have hlt := length_withoutAuthority hmarker
    cases hauthority : authorityOf target with
    | nil =>
      rw [hauthority, nil_append] at happend
      rw [happend] at hlt
      exact absurd hlt (lt_irrefl _)
    | cons b a =>
      rw [← happend, hauthority, cons_append, List.head?_cons, Option.some.injEq] at hhead
      rw [dropLang_cons, if_neg fun h => Bool.false_ne_true h.1, if_neg, length_cons]
      · exact Nat.succ_pos _
      · rw [hhead]
        exact fun h => absurd h.1 (by decide)
  intro hsame
  have hlength := congrArg List.length hsame
  have hle := length_strip_key hpath hquery
  omega

/-- The probe's URL has the key of the request if the target has no `://` in it and no piece of the query is empty
or `lang` without a value.  Otherwise it has not, but where a match that begins before the `://` goes on behind it. -/
theorem news_same_object {target : Bytes} (hnews : (text "/news").isPrefixOf target = true)
    (hlang : SeesLang target) :
    (afterFirst (text "://") target = none ∧
        (∀ p ∈ (queryOf target).splitOn 0x26, p ≠ [] ∧ p ≠ text "lang") → SameObject target) ∧
      (SameObject target →
        afterFirst (text "://") target = none ∧
            (∀ p ∈ (queryOf target).splitOn 0x26, p ≠ [] ∧ p ≠ text "lang") ∨
          (afterFirst (text "://") target).isSome ∧ openAfter false (authorityOf target) = true) := by
  obtain ⟨hpath, hseen, -⟩ := hlang
  have hhead : target.head? = some 0x2F := by
    obtain ⟨x, rfl⟩ := List.isPrefixOf_iff_prefix.mp hnews
    rfl
  have heq := pathAndQuery_eq hhead
  rw [splitTarget_path, ← heq] at hpath
  have hquery : 0x3F ∈ pathAndQuery target := by
    by_contra hnone
    rw [heq] at hnone
    rw [splitTarget] at hseen
    rw [if_neg hnone] at hseen
    exact hseen rfl
  have hiff := strip_key_iff hpath hquery
  cases hmarker : afterFirst (text "://") target with
  | none =>
    rw [heq, withoutAuthority_of_none hmarker] at hiff
    exact ⟨fun h => hiff.mpr h.2, fun h => .inl ⟨rfl, hiff.mp h⟩⟩
  | some rest =>
    refine ⟨fun h => absurd h.1 (Option.some_ne_none _), fun h => .inr ⟨rfl, ?_⟩⟩
    by_contra hclosed
    exact not_sameObject hnews hmarker hhead hpath hquery (Bool.eq_false_iff.mpr hclosed) h

/-- A query with an empty piece, in another locale. -/
def emptyPiece : Bytes := text "/news?a=1&&lang=fr"

theorem seesLang_of {target : Bytes} (hpath : (splitTarget target).1 = text "/news")
    (hlang : (splitTarget target).2.get (text "lang") = text "fr") : SeesLang target := by
  rw [SeesLang, hlang]
  exact ⟨hpath, by decide, by decide⟩

/-- The probe asks for `/news?a=1`, and the cache tier keeps the page under `/news?a=1&`. -/
theorem empty_piece_other_object :
    (text "/news").isPrefixOf emptyPiece = true ∧ SeesLang emptyPiece ∧ ¬ SameObject emptyPiece := by
  refine ⟨by decide, seesLang_of (by decide) (by decide +kernel), ?_⟩
  unfold SameObject
  decide

def frenchNews : Bytes := text "/news?a=1&lang=fr"

theorem french_news_same_object : SameObject frenchNews := by
  have hseen : SeesLang frenchNews := seesLang_of (by decide) (by decide +kernel)
  have hpieces : (queryOf frenchNews).splitOn 0x26 = [text "a=1", text "lang=fr"] := by decide
  refine (news_same_object (by decide) hseen).1 ⟨by decide, fun p hp => ?_⟩
  rw [hpieces] at hp
  rcases mem_cons.mp hp with rfl | hp
  · decide
  · rw [mem_singleton.mp hp]
    decide

end PtaasBench.Edge
