import PtaasBench.Edge.Target

/-!
# PtaasBench.Edge.StaticAssets — what the cache tier keeps as an asset (`default.vcl`, `routes.go`)

The cache tier looks for an extension in the whole URL, in front of a question mark or at the end; the origin looks
for one at the end of the path.
-/

namespace PtaasBench.Edge

open Py Lib List

/-- `strings.ToLower` character by character: an ASCII byte by itself wherever it stands, and of the other
characters only the dotted capital I and the Kelvin sign have an ASCII letter for a lower case. -/
class GoCase extends GoRuntime where
  toLower_append : ∀ a b c, b.toNat < 128 → toLower (a ++ b :: c) = toLower a ++ lowerByte b :: toLower c
  toLower_dotted : toLower [0xC4, 0xB0] = [0x69]
  toLower_last : ∀ a b, 128 ≤ b.toNat →
    (∃ x y, toLower (a ++ [b]) = x ++ [y] ∧ 128 ≤ y.toNat) ∨
    (∃ q, a ++ [b] = q ++ [0xC4, 0xB0] ∧ toLower (a ++ [b]) = toLower q ++ [0x69]) ∨
    ∃ q, a ++ [b] = q ++ [0xE2, 0x84, 0xAA] ∧ toLower (a ++ [b]) = toLower q ++ [0x6B]

/-! ## The rule of the cache tier -/

/-- The alternatives of the regular expression, each behind its dot. -/
def vclExts : List Bytes := [".css", ".js", ".png", ".jpg", ".ico", ".svg", ".txt", ".woff2"].map text

/-- `(?i)\.(css|js|png|jpg|ico|svg|txt|woff2)(\?|$)` here; a URL has no line feed, so `$` is its end. -/
def keepsAt (bs : Bytes) : Bool :=
  vclExts.any fun e => e.isPrefixOf (bs.map lowerByte) && (bs.drop e.length).head?.all (· = 0x3F)

/-- The expression matches somewhere, and `vcl_backend_response` keeps what comes back. -/
def cacheKeeps : Bytes → Bool
  | [] => false
  | b :: bs => keepsAt (b :: bs) || cacheKeeps bs

/-- A text that ends in an extension, in ASCII letters of either case. -/
def endsInExt (s : Bytes) : Bool := vclExts.any fun e => e.isSuffixOf (s.map lowerByte)

/-- A text that ends in `.ico` with a dotted capital I. -/
def dottedIco (s : Bytes) : Bool := [0x2E, 0xC4, 0xB0, 0x63, 0x6F].isSuffixOf (s.map lowerByte)

/-- The request is answered by `profile`; is it reached through an extension? -/
def accountPage (target : Bytes) : Option Bool :=
  if (matchRoute target).1 = "/account/profile" then some false
  else if (matchRoute target).1 = "/account/profile.:ext" then some true
  else none

theorem lowerByte_eq_iff {b : UInt8} {x : UInt8} (hx : ¬ (97 ≤ x.toNat ∧ x.toNat ≤ 122)) :
    lowerByte b = x ↔ b = x ∧ ¬ (65 ≤ b.toNat ∧ b.toNat ≤ 90) := by
  unfold lowerByte
  split_ifs with hb
  · refine ⟨fun h => absurd ?_ hx, fun h => absurd hb h.2⟩
    have hsum := congrArg UInt8.toNat h
    rw [UInt8.toNat_add] at hsum
    have h32 : (32 : UInt8).toNat = 32 := rfl
    omega
  · exact ⟨fun h => ⟨h, hb⟩, And.left⟩

/-- Extensions have no question mark. -/
theorem vclExts_free : ∀ e ∈ vclExts, 0x3F ∉ e := by decide

/-- The expression matches here if an extension is the text up to the next question mark. -/
theorem keepsAt_eq (bs : Bytes) :
    keepsAt bs = vclExts.any fun e => e = (bs.takeWhile (· ≠ 0x3F)).map lowerByte := by
  rw [keepsAt, Bool.eq_iff_iff, any_eq_true, any_eq_true]
  refine exists_congr fun e => and_congr_right fun he => ?_
  have hfree := vclExts_free e he
  rw [Bool.and_eq_true, List.isPrefixOf_iff_prefix, decide_eq_true_iff]
  have hquestion : ∀ b : UInt8, lowerByte b = 0x3F ↔ b = 0x3F := by
    intro b
    rw [lowerByte_eq_iff (by decide)]
    exact ⟨And.left, fun h => ⟨h, by rw [h]; decide⟩⟩
  refine ⟨fun ⟨hstarts, hnext⟩ => ?_, fun h => ?_⟩
  · obtain ⟨t, ht⟩ := hstarts
    obtain ⟨x, y, rfl, hx, hy⟩ := map_eq_append_iff.mp ht.symm
    have hlength : e.length = x.length := by rw [← hx, length_map]
    have hnone : ∀ b ∈ x, decide (b ≠ 0x3F) = true := by
      intro b hb
      refine decide_eq_true fun hq => hfree ?_
      rw [← hx]
      exact mem_map.mpr ⟨b, hb, (hquestion b).mpr hq⟩
    rw [hlength, drop_left] at hnext
    have hwhile : y.takeWhile (· ≠ 0x3F) = [] := by
      cases y with
      | nil => rfl
      | cons c y =>
        rw [List.head?_cons, Option.all_some, decide_eq_true_iff] at hnext
        rw [hnext]
        rfl
    rw [takeWhile_append_of_pos hnone, hwhile, append_nil, hx]
  · have hsplit := @takeWhile_append_dropWhile _ (· ≠ (0x3F : UInt8)) bs
    have hlength : e.length = (bs.takeWhile (· ≠ 0x3F)).length := by rw [h, length_map]
    refine ⟨⟨(bs.dropWhile (· ≠ 0x3F)).map lowerByte, ?_⟩, ?_⟩
    · conv_rhs => rw [← hsplit]
      rw [map_append, ← h]
    · have hdrop : bs.drop e.length = bs.dropWhile (· ≠ 0x3F) := by
        conv_lhs => rw [← hsplit]
        rw [hlength, drop_left]
      rw [hdrop]
      cases hrest : bs.dropWhile (· ≠ 0x3F) with
      | nil => rfl
      | cons c rest =>
        have hne : bs.dropWhile (· ≠ 0x3F) ≠ [] := by rw [hrest]; exact cons_ne_nil _ _
        have hc := head_dropWhile_not (· ≠ (0x3F : UInt8)) hne
        simp only [hrest, head_cons, decide_eq_false_iff_not, not_not] at hc
        rw [hc]
        rfl

theorem splitOn_head (bs : Bytes) : ∃ rest, bs.splitOn 0x3F = bs.takeWhile (· ≠ 0x3F) :: rest := by
  induction bs with
  | nil => exact ⟨[], rfl⟩
  | cons b bs ih =>
    rw [splitOn_cons_eq_if_modifyHead]
    by_cases hb : b = 0x3F
    · refine ⟨bs.splitOn 0x3F, ?_⟩
      rw [if_pos (by rw [hb]; rfl), hb]
      rfl
    · obtain ⟨rest, hrest⟩ := ih
      refine ⟨rest, ?_⟩
      rw [if_neg (by simpa using hb), hrest, takeWhile_cons_of_pos (by simpa using hb)]
      rfl

theorem endsInExt_cons (b : UInt8) (s : Bytes) :
    endsInExt (b :: s) = ((vclExts.any fun e => e = (b :: s).map lowerByte) || endsInExt s) := by
  rw [Bool.eq_iff_iff, Bool.or_eq_true, endsInExt, endsInExt, any_eq_true, any_eq_true, any_eq_true]
  simp only [isSuffixOf_iff_suffix, map_cons, suffix_cons_iff, decide_eq_true_iff]
  exact ⟨fun ⟨e, he, h⟩ => h.imp (fun h => ⟨e, he, h⟩) fun h => ⟨e, he, h⟩,
    fun h => h.elim (fun ⟨e, he, h⟩ => ⟨e, he, .inl h⟩) fun ⟨e, he, h⟩ => ⟨e, he, .inr h⟩⟩

theorem not_ext_nil : (vclExts.any fun e => decide (e = ([] : Bytes))) = false := by decide

/-- The cache tier keeps a URL if a segment between question marks ends in an extension. -/
theorem cacheKeeps_eq (url : Bytes) : cacheKeeps url = (url.splitOn 0x3F).any endsInExt := by
  induction url with
  | nil => decide
  | cons b bs ih =>
    rw [cacheKeeps, ih, keepsAt_eq, splitOn_cons_eq_if_modifyHead]
    by_cases hb : b = 0x3F
    · have hnone : ((b :: bs).takeWhile (· ≠ 0x3F)).map lowerByte = [] := by rw [hb]; rfl
      have hnil : endsInExt [] = false := by decide
      rw [hnone, not_ext_nil, if_pos (by rw [hb]; rfl), any_cons, hnil]
    · obtain ⟨rest, hrest⟩ := splitOn_head bs
      rw [if_neg (by simpa using hb), hrest, takeWhile_cons_of_pos (by simpa using hb), modifyHead_cons,
        any_cons, any_cons, endsInExt_cons, Bool.or_assoc]

/-! ## The rule of the origin -/

section Lower

variable [GoCase]

theorem toLower_nil : toLower [] = [] := GoRuntime.toLower_ascii [] fun _ hb => absurd hb not_mem_nil

theorem toLower_concat (a : Bytes) {b : UInt8} (hb : b.toNat < 128) : toLower (a ++ [b]) = toLower a ++ [lowerByte b] := by
  rw [GoCase.toLower_append a b [] hb, toLower_nil]

/-- The last letter of a suffix in ASCII, and how it may be spelled. -/
theorem suffix_concat {l p : Bytes} {x : UInt8} (hx : x.toNat < 128) (h : l ++ [x] <:+ toLower p) :
    (∃ a b, p = a ++ [b] ∧ lowerByte b = x ∧ l <:+ toLower a) ∨
      (x = 0x69 ∧ ∃ a, p = a ++ [0xC4, 0xB0] ∧ l <:+ toLower a) ∨ x = 0x6B := by
  have hlast {a : Bytes} {y : UInt8} (h : l ++ [x] <:+ a ++ [y]) : y = x ∧ l <:+ a := by
    obtain ⟨t, ht⟩ := h
    rw [← append_assoc] at ht
    obtain ⟨hrest, hy⟩ := append_inj' ht rfl
    exact ⟨(List.cons.inj hy).1.symm, t, hrest⟩
  rcases eq_nil_or_concat' p with rfl | ⟨a, b, rfl⟩
  · rw [toLower_nil] at h
    exact absurd (suffix_nil.mp h) (append_ne_nil_of_right_ne_nil _ (cons_ne_nil _ _))
  · by_cases hb : b.toNat < 128
    · rw [toLower_concat a hb] at h
      obtain ⟨hxb, hl⟩ := hlast h
      exact .inl ⟨a, b, rfl, hxb, hl⟩
    · rcases GoCase.toLower_last a b (not_lt.mp hb) with ⟨t, y, ht, hy⟩ | ⟨q, hq, ht⟩ | ⟨q, hq, ht⟩
      · rw [ht] at h
        obtain ⟨rfl, -⟩ := hlast h
        exact absurd hx (not_lt.mpr hy)
      · rw [ht] at h
        obtain ⟨hxb, hl⟩ := hlast h
        exact .inr (.inl ⟨hxb.symm, q, hq, hl⟩)
      · rw [ht] at h
        exact .inr (.inr (hlast h).1.symm)

/-- Letters that only ASCII bytes are lowered to. -/
def Plainly (l : Bytes) : Prop := ∀ x ∈ l, x.toNat < 128 ∧ x ≠ 0x69 ∧ x ≠ 0x6B

instance (l : Bytes) : Decidable (Plainly l) := List.decidableBAll (fun x : UInt8 => x.toNat < 128 ∧ x ≠ 0x69 ∧ x ≠ 0x6B) l

theorem suffix_of_plainly {l p : Bytes} (hl : Plainly l) (h : l <:+ toLower p) :
    ∃ q w, p = q ++ w ∧ w.map lowerByte = l := by
  induction l using List.reverseRecOn generalizing p with
  | nil => exact ⟨p, [], (append_nil p).symm, rfl⟩
  | append_singleton l x ih =>
    obtain ⟨hx, hi, hk⟩ := hl x (mem_append_right _ (mem_singleton_self x))
    rcases suffix_concat hx h with ⟨a, b, rfl, hb, hl'⟩ | ⟨hx, -⟩ | hx
    · obtain ⟨q, w, rfl, hw⟩ := ih (fun y hy => hl y (mem_append_left _ hy)) hl'
      refine ⟨q, w ++ [b], append_assoc _ _ _, ?_⟩
      rw [map_append, hw, map_singleton, hb]
    · exact absurd hx hi
    · exact absurd hx hk

omit [GoCase] in
theorem lowerByte_lt {b : UInt8} (h : (lowerByte b).toNat < 128) : b.toNat < 128 := by
  unfold lowerByte at h
  split_ifs at h with hb
  · omega
  · exact h

/-- What ends in a text in ASCII does so in lower case. -/
theorem suffix_of_ascii {l p : Bytes} (hl : ∀ x ∈ l, x.toNat < 128) (h : l <:+ p.map lowerByte) : l <:+ toLower p := by
  obtain ⟨t, ht⟩ := h
  obtain ⟨q, w, rfl, -, hw⟩ := map_eq_append_iff.mp ht.symm
  subst hw
  clear ht t
  induction w using List.reverseRecOn with
  | nil => exact nil_suffix
  | append_singleton w b ih =>
    have hb : b.toNat < 128 := lowerByte_lt (hl _ (mem_map_of_mem (mem_append_right _ (mem_singleton_self b))))
    have hrest := ih fun x hx => hl x (by rw [map_append]; exact mem_append_left _ hx)
    rw [← append_assoc, toLower_concat _ hb, map_append, map_singleton]
    obtain ⟨t, ht⟩ := hrest
    exact ⟨t, by rw [← append_assoc, ht]⟩

omit [GoCase] in
theorem ico_or_plainly : ∀ e ∈ vclExts, e = text ".ico" ∨ Plainly e := by decide

/-- `hasStaticExt` finds an extension in ASCII letters, or `.ico` with a dotted capital I. -/
theorem hasStaticExt_iff (p : Bytes) : hasStaticExt p = true ↔ endsInExt p = true ∨ dottedIco p = true := by
  have hsame : staticExts = vclExts := rfl
  have hico : text ".ico" = [0x2E] ++ [0x69] ++ [0x63] ++ [0x6F] := by decide
  rw [hasStaticExt, endsInExt, dottedIco, any_eq_true, any_eq_true, hsame]
  simp only [isSuffixOf_iff_suffix]
  refine ⟨?_, ?_⟩
  · rintro ⟨e, he, hsuffix⟩
    rcases ico_or_plainly e he with rfl | hplain
    · rw [hico] at hsuffix
      rcases suffix_concat (by decide) hsuffix with ⟨a, o, rfl, ho, hsuffix⟩ | ⟨hx, -⟩ | hx
      · rcases suffix_concat (by decide) hsuffix with ⟨a, c, rfl, hc, hsuffix⟩ | ⟨hx, -⟩ | hx
        · rcases suffix_concat (by decide) hsuffix with ⟨a, i, rfl, hi, hdot⟩ | ⟨-, a, rfl, hdot⟩ | hx
          · obtain ⟨q, w, rfl, hw⟩ := suffix_of_plainly (by decide) hdot
            refine .inl ⟨_, he, ⟨q.map lowerByte, ?_⟩⟩
            simp only [map_append, map_cons, map_nil, hw, hi, hc, ho, hico, append_assoc]
          · obtain ⟨q, w, rfl, hw⟩ := suffix_of_plainly (by decide) hdot
            refine .inr ⟨q.map lowerByte, ?_⟩
            have h1 : lowerByte 0xC4 = 0xC4 := by decide
            have h2 : lowerByte 0xB0 = 0xB0 := by decide
            simp only [map_append, map_cons, map_nil, hw, hc, ho, h1, h2, append_assoc]
            rfl
          · exact absurd hx (by decide)
        · exact absurd hx (by decide)
        · exact absurd hx (by decide)
      · exact absurd hx (by decide)
      · exact absurd hx (by decide)
    · obtain ⟨q, w, rfl, hw⟩ := suffix_of_plainly hplain hsuffix
      refine .inl ⟨e, he, q.map lowerByte, ?_⟩
      rw [map_append, hw]
  · rintro (⟨e, he, hsuffix⟩ | ⟨t, ht⟩)
    · have hascii : (vclExts.all fun e => e.all fun x => x.toNat < 128) = true := by decide
      have hsmall := all_eq_true.mp (all_eq_true.mp hascii e he)
      exact ⟨e, he, suffix_of_ascii (fun x hx => of_decide_eq_true (hsmall x hx)) hsuffix⟩
    · obtain ⟨q, w, rfl, -, hw⟩ := map_eq_append_iff.mp ht.symm
      obtain ⟨d, w, rfl, hd, hw⟩ := map_eq_cons_iff.mp hw
      obtain ⟨x, w, rfl, hx, hw⟩ := map_eq_cons_iff.mp hw
      obtain ⟨y, w, rfl, hy, hw⟩ := map_eq_cons_iff.mp hw
      obtain ⟨c, w, rfl, hc, hw⟩ := map_eq_cons_iff.mp hw
      obtain ⟨o, w, rfl, ho, hw⟩ := map_eq_cons_iff.mp hw
      obtain rfl := map_eq_nil_iff.mp hw
      obtain ⟨rfl, -⟩ := (lowerByte_eq_iff (by decide)).mp hd
      obtain ⟨rfl, -⟩ := (lowerByte_eq_iff (by decide)).mp hx
      obtain ⟨rfl, -⟩ := (lowerByte_eq_iff (by decide)).mp hy
      have hc' : c.toNat < 128 := lowerByte_lt (by rw [hc]; decide)
      have ho' : o.toNat < 128 := lowerByte_lt (by rw [ho]; decide)
      have hend : toLower [0xC4, 0xB0, c, o] = [0x69, 0x63, 0x6F] := by
        have h := GoCase.toLower_append [0xC4, 0xB0] c [o] hc'
        have hlast := toLower_concat [] ho'
        rw [nil_append, toLower_nil, nil_append] at hlast
        rw [GoCase.toLower_dotted, hlast, hc, ho] at h
        exact h
      refine ⟨text ".ico", by decide, toLower q, ?_⟩
      rw [GoCase.toLower_append q 0x2E [0xC4, 0xB0, c, o] (by decide), hend, hico]
      rfl

end Lower

/-! ## The account page -/

theorem route_result (c : RouteCase) (p : Bytes) : (c.result p).1 = c.route := by
  cases c <;> rfl

/-- A path with the route of the account page. -/
theorem path_of_accountPage {target : Bytes} {viaExt : Bool} (h : accountPage target = some viaExt) :
    ((splitTarget target).1 = text "/account/profile" ∧ viaExt = false) ∨
      (text "/account/profile.").isPrefixOf (splitTarget target).1 = true ∧ viaExt = true := by
  have hroute (route : String) (hr : (matchRoute target).1 = route)
      (hpages : ∀ page ∈ staticPages, page ≠ route) (hhome : "/" ≠ route) (hmiss : "<unmatched>" ≠ route) :
      ∃ c ∈ routeCases, c.route = route ∧ c.matches (splitTarget target).1 = true := by
    rw [matchRoute, routeOf] at hr
    cases hpage : staticPages.find? fun page => text page = (splitTarget target).1 with
    | some page =>
      rw [hpage] at hr
      exact absurd hr (hpages page (mem_of_find?_eq_some hpage))
    | none =>
      rw [hpage] at hr
      dsimp only at hr
      split_ifs at hr
      · exact absurd hr hhome
      · cases hcase : routeCases.find? fun c => c.matches (splitTarget target).1 with
        | none =>
          rw [hcase] at hr
          exact absurd hr hmiss
        | some c =>
          rw [hcase] at hr
          have hmatches := @List.find?_some _ (fun c : RouteCase => c.matches (splitTarget target).1) _ _ hcase
          exact ⟨c, mem_of_find?_eq_some hcase, (route_result c _).symm.trans hr, hmatches⟩
  rw [accountPage] at h
  split_ifs at h with hplain hext
  · obtain ⟨c, hc, hcroute, hmatches⟩ := hroute _ hplain (by decide) (by decide) (by decide)
    have hone : ∀ c ∈ routeCases, c.route = "/account/profile" → c = .page "/account/profile" := by decide
    rw [hone c hc hcroute] at hmatches
    exact .inl ⟨of_decide_eq_true hmatches, (Option.some.inj h).symm⟩
  · obtain ⟨c, hc, hcroute, hmatches⟩ := hroute _ hext (by decide) (by decide) (by decide)
    have hone : ∀ c ∈ routeCases, c.route = "/account/profile.:ext" →
        c = .below "/account/profile." "ext" "/account/profile.:ext" := by decide
    rw [hone c hc hcroute] at hmatches
    exact .inr ⟨hmatches, (Option.some.inj h).symm⟩

theorem cacheKeeps_of_suffix {t url : Bytes} (h : t <:+ url) (ht : cacheKeeps t = true) : cacheKeeps url = true := by
  obtain ⟨a, rfl⟩ := h
  induction a with
  | nil => exact ht
  | cons b a ih => rw [cons_append, cacheKeeps, ih, Bool.or_true]

/-- A path that ends in an extension has its URL kept. -/
theorem cacheKeeps_of_path {target : Bytes} (hroot : (splitTarget target).1 ≠ [0x2F])
    (h : endsInExt (splitTarget target).1 = true) : cacheKeeps target = true := by
  rw [splitTarget_path] at h hroot
  have hsuffix : withoutAuthority target <:+ target :=
    withoutAuthority_suffix fun heq => hroot (by rw [heq]; rfl)
  refine cacheKeeps_of_suffix hsuffix ?_
  obtain ⟨rest, hrest⟩ := splitOn_head (withoutAuthority target)
  have hhead : (withoutAuthority target).takeWhile (· ≠ 0x3F) = pathOf (withoutAuthority target) := rfl
  rw [cacheKeeps_eq, hrest, any_cons, hhead, h, Bool.true_or]

/-- The page of a signed-in customer is kept exactly if the probe is queued, for the URLs whose path ends in an
extension; for the others a segment of the URL between question marks must end in one exactly if the path ends in
`.ico` with a dotted capital I. -/
theorem static_rules_agree_iff [GoCase] (cs : ConnState) (req : WireRequest) (reqID : Bytes) (acct : Account)
    {viaExt : Bool} (h : accountPage req.target = some viaExt) :
    (cacheKeeps req.target = true ↔
        (profile cs req reqID (splitTarget req.target).1 (some acct) viaExt).isSome = true) ↔
      endsInExt (splitTarget req.target).1 = true ∨
        ((∃ segment ∈ req.target.splitOn 0x3F, endsInExt segment = true) ↔
          dottedIco (splitTarget req.target).1 = true) := by
  have hprobe : (profile cs req reqID (splitTarget req.target).1 (some acct) viaExt).isSome = true ↔
      endsInExt (splitTarget req.target).1 = true ∨ dottedIco (splitTarget req.target).1 = true := by
    rw [← hasStaticExt_iff, profile]
    rcases path_of_accountPage h with ⟨hpath, rfl⟩ | ⟨-, rfl⟩
    · have hnone : hasStaticExt (splitTarget req.target).1 = false := by
        rw [Bool.eq_false_iff, ne_eq, hasStaticExt_iff, hpath]
        decide
      rw [hnone]
      exact Iff.rfl
    · cases hasStaticExt (splitTarget req.target).1 <;> exact Iff.rfl
  have hkeeps : cacheKeeps req.target = true ↔ ∃ segment ∈ req.target.splitOn 0x3F, endsInExt segment = true := by
    rw [cacheKeeps_eq, any_eq_true]
  by_cases hend : endsInExt (splitTarget req.target).1 = true
  · have hroot : (splitTarget req.target).1 ≠ [0x2F] := by
      rintro heq
      rw [heq] at hend
      exact absurd hend (by decide)
    exact ⟨fun _ => .inl hend, fun _ => ⟨fun _ => hprobe.mpr (.inl hend), fun _ => cacheKeeps_of_path hroot hend⟩⟩
  · rw [hprobe, hkeeps]
    exact ⟨fun hiff => .inr (hiff.trans (or_iff_right hend)), fun hor => (hor.resolve_left hend).trans (or_iff_right hend).symm⟩

/-! ## A query that ends in an extension -/

/-- Lowers ASCII letters and the dotted capital I, from the end of a text on. -/
def lowerBack : Bytes → Bytes
  | [] => []
  | b :: rest =>
    match rest with
    | [] => [lowerByte b]
    | c :: rest => if b = 0xB0 ∧ c = 0xC4 then 0x69 :: lowerBack rest else lowerByte b :: lowerBack (c :: rest)

theorem lowerBack_cons {b : UInt8} {rest : Bytes} (h : ¬ (b = 0xB0 ∧ rest.head? = some 0xC4)) :
    lowerBack (b :: rest) = lowerByte b :: lowerBack rest := by
  cases rest with
  | nil => rfl
  | cons c rest =>
    rw [lowerBack]
    exact if_neg fun hbc => h ⟨hbc.1, by rw [List.head?_cons, hbc.2]⟩

theorem lowerBack_append (x y : Bytes) {b : UInt8} (hb : b.toNat < 128) :
    lowerBack (x ++ b :: y) = lowerBack x ++ lowerByte b :: lowerBack y := by
  have hstop : ¬ (b = 0xB0 ∧ y.head? = some 0xC4) := fun h => absurd hb (by rw [h.1]; decide)
  induction x using lowerBack.induct with
  | case1 => exact lowerBack_cons hstop
  | case2 c =>
    have hc : ¬ (c = 0xB0 ∧ (b :: y).head? = some 0xC4) := by
      rintro ⟨-, h⟩
      rw [List.head?_cons, Option.some.injEq] at h
      exact absurd hb (by rw [h]; decide)
    rw [singleton_append, lowerBack_cons hc, lowerBack_cons hstop]
    rfl
  | case3 c d rest hdotted ih =>
    have hleft : lowerBack (c :: d :: rest ++ b :: y) = 0x69 :: lowerBack (rest ++ b :: y) := if_pos hdotted
    have hright : lowerBack (c :: d :: rest) = 0x69 :: lowerBack rest := if_pos hdotted
    rw [hleft, hright, ih, cons_append]
  | case4 c d rest hdotted ih =>
    have hleft : lowerBack (c :: d :: rest ++ b :: y) = lowerByte c :: lowerBack (d :: rest ++ b :: y) := if_neg hdotted
    have hright : lowerBack (c :: d :: rest) = lowerByte c :: lowerBack (d :: rest) := if_neg hdotted
    rw [hleft, hright, ih, cons_append]

theorem lowerBack_ascii {bs : Bytes} (h : ∀ b ∈ bs, b.toNat < 128) : lowerBack bs = bs.map lowerByte := by
  induction bs with
  | nil => rfl
  | cons b bs ih =>
    have hb := h b mem_cons_self
    rw [lowerBack_cons fun hbc => absurd hb (by rw [hbc.1]; decide), ih fun c hc => h c (mem_cons_of_mem _ hc)]
    rfl

theorem lowerByte_high {b : UInt8} (h : 128 ≤ b.toNat) : lowerByte b = b :=
  if_neg fun hb => absurd hb.2 (by omega)

/-- The library on ASCII, the dotted capital I and dotted decimals. -/
@[reducible] def GoCase.ascii : GoCase where
  toLower bs := (lowerBack bs.reverse).reverse
  parseIP := GoRuntime.ascii.parseIP
  toLower_ascii bs h := by
    rw [lowerBack_ascii fun b hb => h b (mem_reverse.mp hb), map_reverse, reverse_reverse]
  toLower_append a b c hb := by
    rw [reverse_append, reverse_cons, append_assoc, singleton_append, lowerBack_append _ _ hb,
      reverse_append, reverse_cons, append_assoc, singleton_append]
  toLower_dotted := by decide
  toLower_last a b hb := by
    by_cases hdotted : b = 0xB0 ∧ a.reverse.head? = some 0xC4
    · obtain ⟨rfl, hhead⟩ := hdotted
      obtain ⟨q, hq⟩ := List.head?_eq_some_iff.mp hhead
      have ha : a = q.reverse ++ [0xC4] := by rw [← reverse_reverse a, hq, reverse_cons]
      refine .inr (.inl ⟨q.reverse, by rw [ha, append_assoc]; rfl, ?_⟩)
      rw [reverse_append, hq, reverse_reverse]
      exact (reverse_cons ..)
    · refine .inl ⟨(lowerBack a.reverse).reverse, b, ?_, hb⟩
      rw [reverse_append, reverse_singleton, singleton_append, lowerBack_cons hdotted,
        reverse_cons, lowerByte_high hb]

def session : ConnState where
  id := text "c000001"
  peer := text "10.77.0.20"
  client := text "203.0.113.9"
  internal := false

def customer : Account where
  login := text "ada@marlow.test"
  token := text "tok_4f1c"

def profileTarget : WireRequest where
  method := text "GET"
  target := text "/account/profile?x=.css"
  headers := []

def profileAsset : WireRequest where
  method := text "GET"
  target := text "/account/profile.CSS?x=1"
  headers := []

/-- The cache tier keeps the page for the end of the query, and no probe is queued. -/
theorem query_extension_kept :
    let _ := GoCase.ascii
    accountPage profileTarget.target = some false ∧ cacheKeeps profileTarget.target = true ∧
      profile session profileTarget (text "c000001/1") (splitTarget profileTarget.target).1 (some customer) false = none := by
  refine ⟨by decide, by decide, rfl⟩

theorem asset_rules_agree :
    let _ := GoCase.ascii
    cacheKeeps profileAsset.target = true ↔ (profile session profileAsset (text "c000001/1")
      (splitTarget profileAsset.target).1 (some customer) true).isSome = true := by
  intro _
  have hpage : accountPage profileAsset.target = some true := by decide
  exact (static_rules_agree_iff session profileAsset (text "c000001/1") customer hpage).mpr (.inl (by decide))

end PtaasBench.Edge
