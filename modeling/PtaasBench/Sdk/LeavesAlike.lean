import PtaasBench.Sdk.Decoding
import PtaasBench.Sdk.NumberTexts

/-!
# PtaasBench.Sdk.LeavesAlike — when the four agents describe a document alike

Every agent ought to hand on the leaves of a document as they are on the wire.  A language that reads numbers
and objects into its own writes them back in its own way, and loses what its own does not hold.
-/

namespace PtaasBench.JsonLeaves

open Js Lib.Double Py List

variable {ν μ α β : Type}

/-! ## Texts of leaves -/

theorem Leaf.text_eq_iff {f g : ν → Text} {leaf : Leaf ν} :
    leaf.text f = leaf.text g ↔ ∀ n, leaf = .number n → f n = g n := by
  cases leaf with
  | number n =>
    constructor
    · rintro h _ ⟨⟩
      exact h
    · exact fun h => h n rfl
  | _ => exact iff_of_true rfl nofun

/-- What Node writes for a leaf of the wire. -/
def Node.textOf (leaf : Leaf Numeral) : Text := leafText (leaf.map .ofNumeral)

theorem Node.textOf_eq_iff {leaf : Leaf Numeral} :
    Node.textOf leaf = leaf.text wire ↔ leaf ≠ .null ∧ ∀ n, leaf = .number n → Node.numberText n = wire n := by
  cases leaf with
  | null => exact iff_of_false (by decide) fun h => h.1 rfl
  | number n =>
    constructor
    · intro h
      refine ⟨nofun, ?_⟩
      rintro _ ⟨⟩
      exact h
    · exact fun h => h.2 n rfl
  | _ => exact iff_of_true rfl ⟨nofun, nofun⟩

/-- A number that Node has written is written by Node as it is. -/
theorem Node.numberText_idem {m n : Numeral} (h : numberText m = wire n) : numberText n = wire n := by
  cases hm : binary64 m.magnitude with
  | none =>
    rw [numberText, hm, signedToString] at h
    split_ifs at h
    · exact absurd h (wire_ne_ofString n rfl)
    · exact absurd h (wire_ne_ofString n rfl)
  | some x =>
    rw [numberText, hm, signedToString] at h
    have hn : { spell x with neg := m.neg && decide (x ≠ 0) } = n := wire_injective h
    have hmagnitude : n.magnitude = (spell x).magnitude := by rw [← hn]; rfl
    have hread : binary64 n.magnitude = some x := by
      rw [hmagnitude]
      exact binary64_spell hm (binary64_nonneg hm m.magnitude_nonneg)
    have hneg : (n.neg && decide (x ≠ 0)) = (m.neg && decide (x ≠ 0)) := by
      rw [← hn, Bool.and_assoc, Bool.and_self]
    rw [numberText, hread, signedToString, hneg, hn]
    rfl

theorem Node.numberText_ne_null (m : Numeral) : numberText m ≠ ofString "null" := fun h => by
  rw [numberText] at h
  cases hm : binary64 m.magnitude with
  | none =>
    rw [hm, signedToString] at h
    split_ifs at h
    · exact absurd (ofString_injective h) (by decide)
    · exact absurd (ofString_injective h) (by decide)
  | some x =>
    rw [hm, signedToString] at h
    exact wire_ne_ofString { spell x with neg := m.neg && decide (x ≠ 0) } rfl h.symm

/-- What Node writes for a leaf that is neither a number nor a string. -/
def Node.words : List String := ["", "true", "false", "[]", "{}"]

theorem Node.textOf_word {leaf : Leaf Numeral} (hnumber : ∀ n, leaf ≠ .number n) (hstr : ∀ s, leaf ≠ .str s) :
    ∃ w ∈ words, Node.textOf leaf = ofString w := by
  cases leaf with
  | null => exact ⟨"", by decide, rfl⟩
  | bool b =>
    cases b with
    | true => exact ⟨"true", by decide, rfl⟩
    | false => exact ⟨"false", by decide, rfl⟩
  | number n => exact absurd rfl (hnumber n)
  | str s => exact absurd rfl (hstr s)
  | emptyArr => exact ⟨"[]", by decide, rfl⟩
  | emptyObj => exact ⟨"{}", by decide, rfl⟩

theorem Node.read_words : ∀ w ∈ words, Numeral.read w.toList = none := by decide

/-- A leaf that is no string, and reads as Node writes another, is written by Node as it is. -/
theorem Node.textOf_idem {leaf other : Leaf Numeral} (hleaf : ∀ s, leaf ≠ .str s) (hother : ∀ s, other ≠ .str s)
    (h : Node.textOf other = leaf.text wire) : Node.textOf leaf = leaf.text wire := by
  by_cases hnumber : ∃ m, other = .number m
  · obtain ⟨m, rfl⟩ := hnumber
    cases leaf with
    | null => exact absurd h (numberText_ne_null m)
    | number n => exact numberText_idem h
    | str s => exact absurd rfl (hleaf s)
    | _ => rfl
  · obtain ⟨w, hw, htext⟩ := textOf_word (fun n hn => hnumber ⟨n, hn⟩) hother
    rw [htext] at h
    cases leaf with
    | null =>
      have hnull : w = "null" := ofString_injective h
      rw [hnull] at hw
      exact absurd hw (by decide)
    | number n => exact absurd h (wire_ne_ofString n (read_words w hw))
    | str s => exact absurd rfl (hleaf s)
    | _ => rfl

/-! ## Python and Java -/

section

variable {bound : ℕ} {d : Doc Numeral}

/-- The walk over a dictionary hands on what is on the wire just if no key is there twice, and every number is
written as it is spelled. -/
theorem flattenTo_merge_iff (text : μ → Text) (number : Numeral → μ) (h : nesting d ≤ bound) :
    flattenTo text bound [] 0 (decode number merge d) = leaves d ↔
      Distinct d ∧ ∀ x ∈ leafs [] d, ∀ n, x.2 = .number n → text (number n) = wire n := by
  have hnesting : 0 + nesting (decode number merge d) ≤ bound := by
    rw [Nat.zero_add]
    exact (nesting_decode_le (fun _ _ => mem_of_mem_merge) d).trans h
  have hkept : Distinct d → leafs [] (decode number merge d) = (leafs [] d).map fun x => (x.1, x.2.map number) :=
    fun hdistinct => by
      have hdecode : decode number merge d = decode number id d :=
        decode_congr (fun _ hnodup => merge_eq_self hnodup) hdistinct
      rw [hdecode, leafs_decode_id]
  rw [flattenTo_eq text bound _ _ _ hnesting]
  constructor
  · intro heq
    have hdistinct : Distinct d := by
      refine (size_decode_merge number d).2 ?_
      have hlength := congrArg List.length heq
      rwa [leaves, length_map, length_map, length_leafs, length_leafs] at hlength
    refine ⟨hdistinct, fun x hx => Leaf.text_eq_iff.mp ?_⟩
    rw [hkept hdistinct, map_map, leaves] at heq
    have htext := map_inj_left.mp heq x hx
    rw [← Leaf.text_map]
    exact congrArg Prod.snd htext
  · rintro ⟨hdistinct, hnumbers⟩
    rw [hkept hdistinct, map_map, leaves]
    refine map_congr_left fun x hx => Prod.ext rfl ?_
    show (x.2.map number).text text = x.2.text wire
    rw [Leaf.text_map]
    exact Leaf.text_eq_iff.mpr (hnumbers x hx)

end

/-! ## Node -/

theorem fill_empty (most : ℕ) (l : List α) : fill most [] l = l.take most := by
  rw [fill, nil_append, length_nil]
  split_ifs with h
  · rw [Nat.le_zero.mp h, take_zero]
  · rfl

theorem take_eq_iff {most : ℕ} {l l' : List α} (h : l.length = l'.length) :
    l.take most = l' ↔ l'.length ≤ most ∧ l = l' := by
  constructor
  · intro heq
    have hlength : l'.length ≤ most := by
      rw [← heq, length_take]
      exact min_le_left _ _
    rw [take_of_length_le (h.trans_le hlength)] at heq
    exact ⟨hlength, heq⟩
  · rintro ⟨hlength, rfl⟩
    exact take_of_length_le hlength

def Leaf.isStr : Leaf ν → Bool
  | .str _ => true
  | _ => false

theorem Leaf.ne_str {leaf : Leaf ν} (h : leaf.isStr = false) (s : Text) : leaf ≠ .str s := fun hs => by
  rw [hs] at h
  exact Bool.false_ne_true h.symm

theorem Node.textOf_str {leaf : Leaf Numeral} (h : leaf.isStr = true) : Node.textOf leaf = leaf.text wire := by
  cases leaf with
  | str s => rfl
  | _ => exact absurd h Bool.false_ne_true

/-- Texts that are those of the wire in another order are those of the wire. -/
theorem Node.textOf_eq_of_perm {l l' : List (Leaf Numeral)} (hperm : l'.Perm l)
    (h : l'.map Node.textOf = l.map fun leaf => leaf.text wire) : ∀ leaf ∈ l, Node.textOf leaf = leaf.text wire := by
  have hsplit : (l.filter Leaf.isStr ++ l.filter fun leaf => !leaf.isStr).Perm l := filter_append_perm _ _
  have htexts : (l.map Node.textOf).Perm (l.map fun leaf => leaf.text wire) := by
    rw [← h]
    exact (hperm.map _).symm
  have hstrings : (l.filter Leaf.isStr).map Node.textOf = (l.filter Leaf.isStr).map fun leaf => leaf.text wire :=
    map_congr_left fun leaf hleaf => textOf_str (mem_filter.mp hleaf).2
  -- the strings are written as they are, so that the other texts are those of the wire among themselves
  have hothers : ((l.filter fun leaf => !leaf.isStr).map Node.textOf).Perm
      ((l.filter fun leaf => !leaf.isStr).map fun leaf => leaf.text wire) := by
    have hboth := ((hsplit.map Node.textOf).trans htexts).trans (hsplit.map fun leaf => leaf.text wire).symm
    rw [map_append, map_append, hstrings] at hboth
    exact (perm_append_left_iff _).mp hboth
  intro leaf hleaf
  cases hstr : leaf.isStr with
  | true => exact textOf_str hstr
  | false =>
    have hmem : leaf ∈ l.filter fun leaf => !leaf.isStr := mem_filter.mpr ⟨hleaf, by rw [hstr]; rfl⟩
    obtain ⟨other, hother, htext⟩ := mem_map.mp (hothers.mem_iff.mpr (mem_map_of_mem hmem))
    have hno : other.isStr = false := by
      have hneg := (mem_filter.mp hother).2
      rwa [Bool.not_eq_true'] at hneg
    exact textOf_idem (Leaf.ne_str hstr) (Leaf.ne_str hno) htext

theorem Node.parse_eq {d : Doc Numeral} (h : Distinct d) : parse d = decode .ofNumeral id (arranged d) := by
  rw [← decode_ownKeys]
  exact decode_congr (fun ms hnodup => congrArg ownKeys (merge_eq_self hnodup)) h

theorem Node.describe_iff {stringify : Doc Binary → Text} {options : Options} {d : Doc Numeral}
    (h : nesting d ≤ options.maxDepth) (hdistinct : Distinct d) :
    describe stringify options d = leaves d ↔ size d ≤ options.maxAttributes ∧
      (∀ x ∈ leafs [] d, x.2 ≠ .null ∧ ∀ n, x.2 = .number n → numberText n = wire n) ∧ leaves (arranged d) = leaves d := by
  have hnesting : 0 + nesting (parse d) ≤ options.maxDepth := by
    rw [Nat.zero_add]
    refine (nesting_decode_le (fun ms m hm => ?_) d).trans h
    exact mem_of_mem_merge ((perm_ownKeys _).mem_iff.mp hm)
  have hperm := perm_leafs_arranged d []
  have hwritten : written [] (parse d) = (leafs [] (arranged d)).map fun x => (x.1, textOf x.2) := by
    rw [written, parse_eq hdistinct, leafs_decode_id, map_map]
    rfl
  have hlength : (written [] (parse d)).length = (leaves d).length := by
    rw [hwritten, leaves, length_map, length_map, hperm.length_eq]
  have hsize : (leaves d).length = size d := by rw [leaves, length_map, length_leafs]
  rw [describe, flattenInto_eq _ _ _ hnesting, fill_empty, take_eq_iff hlength, hsize, hwritten]
  refine and_congr_right fun _ => ?_
  have hleaf : (∀ x ∈ leafs [] d, x.2 ≠ .null ∧ ∀ n, x.2 = .number n → numberText n = wire n) ↔
      ∀ x ∈ leafs [] d, textOf x.2 = x.2.text wire :=
    forall₂_congr fun x _ => textOf_eq_iff.symm
  rw [hleaf]
  have hsame : (∀ x ∈ leafs [] d, textOf x.2 = x.2.text wire) →
      ((leafs [] (arranged d)).map fun x => (x.1, textOf x.2)) = leaves (arranged d) := fun htexts =>
    map_congr_left fun x hx => Prod.ext rfl (htexts x (hperm.mem_iff.mp hx))
  constructor
  · intro heq
    have htexts : ∀ leaf ∈ (leafs [] d).map Prod.snd, textOf leaf = leaf.text wire := by
      refine textOf_eq_of_perm (hperm.map Prod.snd) ?_
      have hsnd := congrArg (List.map Prod.snd) heq
      rw [leaves, map_map, map_map] at hsnd
      rw [map_map, map_map]
      exact hsnd
    have hall : ∀ x ∈ leafs [] d, textOf x.2 = x.2.text wire := fun x hx => htexts _ (mem_map_of_mem hx)
    exact ⟨hall, (hsame hall).symm.trans heq⟩
  · rintro ⟨hall, harranged⟩
    exact (hsame hall).trans harranged

/-! ## The four together -/

section

variable (stringify : Doc Binary → Text) (options : Node.Options) (rawText : Doc Numeral → Text) (maxDepth : ℕ)
  (d : Doc Numeral)

/-- Every agent hands on the leaves as they are on the wire. -/
structure Alike : Prop where
  python : Python.describe d = some (leaves d)
  node : Node.describe stringify options d = leaves d
  java : Java.describe d = leaves d
  dotnet : Dotnet.describe rawText maxDepth d = some (leaves d)

/-- The document is nested no deeper than the agents go. -/
structure InBounds : Prop where
  common : nesting d ≤ JSON_DEPTH_MAX
  node : nesting d ≤ options.maxDepth
  dotnet : nesting d ≤ maxDepth

structure Portable : Prop where
  not_null : ∀ x ∈ leafs [] d, x.2 ≠ .null
  spelled : ∀ x ∈ leafs [] d, ∀ n, x.2 = .number n → Spelled n
  distinct : Distinct d
  paired : Paired d
  arranged_eq : leaves (arranged d) = leaves d
  size_le : size d ≤ options.maxAttributes

end

theorem Python.acceptsLeaf_iff {leaf : Leaf Numeral} :
    acceptsLeaf leaf = true ↔ ∀ n, leaf = .number n → accepts n = true := by
  cases leaf with
  | number n =>
    constructor
    · intro h m hm
      rwa [← Leaf.number.inj hm]
    · exact fun h => h n rfl
  | _ => exact iff_of_true rfl nofun

theorem Python.loads_iff {d : Doc Numeral} {l : List (Text × Text)} :
    describe d = some l ↔ (∀ x ∈ leafs [] d, ∀ n, x.2 = .number n → accepts n = true) ∧
      flattenJson (decode number merge d) = l := by
  have hall : ((leafs [] d).all fun x => acceptsLeaf x.2) = true ↔
      ∀ x ∈ leafs [] d, ∀ n, x.2 = .number n → accepts n = true := by
    rw [all_eq_true]
    exact forall₂_congr fun x _ => acceptsLeaf_iff
  rw [describe, loads, ← hall]
  split_ifs with h
  · exact ⟨fun heq => ⟨h, Option.some.inj heq⟩, fun heq => congrArg some heq.2⟩
  · exact iff_of_false (fun heq => Option.some_ne_none _ heq.symm) fun heq => h heq.1

theorem Dotnet.describe_iff {rawText : Doc Numeral → Text} {maxDepth : ℕ} {d : Doc Numeral} (h : nesting d ≤ maxDepth) :
    describe rawText maxDepth d = some (leaves d) ↔ Paired d := by
  have hnesting : 0 + nesting d ≤ maxDepth := by rwa [Nat.zero_add]
  have hyields : Yields (flatten rawText maxDepth [] 0 d) (Paired d) (leaves d) := flatten_eq d [] hnesting
  constructor
  · intro heq
    by_contra hno
    rw [describe, hyields.2 hno] at heq
    exact Option.some_ne_none _ heq.symm
  · intro hpaired
    exact hyields.1 hpaired

/-- The four agents describe a document as it is on the wire just if it holds no null, no key twice and no
surrogate alone, spells its numbers as they are written, and JavaScript neither moves nor cuts its leaves. -/
theorem leaves_alike_iff (stringify : Doc Binary → Text) (options : Node.Options) (rawText : Doc Numeral → Text)
    (maxDepth : ℕ) (d : Doc Numeral) (h : InBounds options maxDepth d) :
    Alike stringify options rawText maxDepth d ↔ Portable options d := by
  have hpython := flattenTo_merge_iff Python.dumps Python.number h.common
  have hjava := flattenTo_merge_iff Java.write Java.number h.common
  constructor
  · intro halike
    obtain ⟨haccepts, hwritten⟩ := Python.loads_iff.mp halike.python
    obtain ⟨hdistinct, hdumps⟩ := hpython.mp hwritten
    have hwrite := (hjava.mp halike.java).2
    obtain ⟨hsize, hnode, harranged⟩ := (Node.describe_iff h.node hdistinct).mp halike.node
    exact {
      not_null := fun x hx => (hnode x hx).1
      spelled := fun x hx n hn => 
        spelled_iff.mpr ⟨haccepts x hx n hn, hdumps x hx n hn, (hnode x hx).2 n hn, hwrite x hx n hn⟩
      distinct := hdistinct
      paired := (Dotnet.describe_iff h.dotnet).mp halike.dotnet
      arranged_eq := harranged
      size_le := hsize }
  · intro hp
    have hspelled := fun x hx n hn => spelled_iff.mp (hp.spelled x hx n hn)
    refine ⟨Python.loads_iff.mpr ⟨fun x hx n hn => (hspelled x hx n hn).1, hpython.mpr ⟨hp.distinct, ?_⟩⟩,
      (Node.describe_iff h.node hp.distinct).mpr ⟨hp.size_le, fun x hx => ⟨hp.not_null x hx, ?_⟩, hp.arranged_eq⟩,
      hjava.mpr ⟨hp.distinct, ?_⟩, (Dotnet.describe_iff h.dotnet).mpr hp.paired⟩
    · exact fun x hx n hn => (hspelled x hx n hn).2.1
    · exact fun n hn => (hspelled x hx n hn).2.2.1
    · exact fun x hx n hn => (hspelled x hx n hn).2.2.2

namespace Basket

def options : Node.Options := { maxDepth := 8, maxAttributes := 512 }

def price : Numeral := { neg := false, whole := 19, frac := [digit 9, digit 5], exp := none }

def basket : Doc Numeral :=
  .obj [(ofString "coupon", .str (ofString "SPRING")),
    (ofString "items", .arr [.obj [(ofString "price", .number price)], .obj []])]

theorem basket_alike : Alike (fun _ => []) options (fun _ => []) 8 basket := by
  have hbounds : InBounds options 8 basket := ⟨by decide, by decide, by decide⟩
  have hprice : Spelled price :=
    ⟨(binary64 price.magnitude).getD 0, by decide +kernel, by decide +kernel,
      .inr ⟨rfl, nofun, by decide, by decide +kernel, by decide +kernel⟩⟩
  have hleafs : leafs [] basket = [(ofString "coupon", .str (ofString "SPRING")),
      (ofString "items.0.price", .number price), (ofString "items.1", .emptyObj)] := by rfl
  have hplain : ∀ x ∈ leafs [] basket, x.2 ≠ .null ∧ ∀ n, x.2 = .number n → Spelled n := by
    rw [hleafs]
    intro x hx
    rcases mem_cons.mp hx with rfl | hx
    · exact ⟨nofun, nofun⟩
    rcases mem_cons.mp hx with rfl | hx
    · refine ⟨nofun, ?_⟩
      rintro _ ⟨⟩
      exact hprice
    rw [mem_singleton.mp hx]
    exact ⟨nofun, nofun⟩
  refine (leaves_alike_iff _ options _ 8 basket hbounds).mpr {
    not_null := fun x hx => (hplain x hx).1
    spelled := fun x hx => (hplain x hx).2
    distinct := ?_
    paired := ?_
    arranged_eq := by rfl
    size_le := by decide }
  · have hkeys : ofString "coupon" ≠ ofString "items" := by decide
    simp [basket, Distinct, DistinctMembers, DistinctItems, hkeys]
  · simp only [basket, Paired, PairedMembers, PairedItems]
    exact ⟨rfl, rfl, rfl, ⟨⟨rfl, trivial, trivial⟩, trivial, trivial⟩, trivial⟩

/-- A null is written by Node as nothing. -/
theorem null_told_apart :
    InBounds options 8 (.obj [(ofString "coupon", .null)]) ∧
      ¬ Alike (fun _ => []) options (fun _ => []) 8 (.obj [(ofString "coupon", .null)]) := by
  refine ⟨⟨by decide, by decide, by decide⟩, fun h => ?_⟩
  exact absurd h.node (by decide)

end Basket

end PtaasBench.JsonLeaves
