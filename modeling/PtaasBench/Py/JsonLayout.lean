import PtaasBench.Py.JsonText

/-!
# PtaasBench.Py.JsonLayout — JSON texts with white space anywhere

A layout is the text of a value as it stands: white space in every place, and strings of any kind.
`loads_text` reads it when its strings are written the way `json.dumps` writes them.
-/

namespace PtaasBench.Py

open List

/-- White space of JSON. -/
abbrev Gap := { g : List Char // ∀ c ∈ g, isJsonSpace c = true }

/-- A value whose text has no parts. -/
inductive Scalar where
  | null
  | bool (b : Bool)
  | int (n : ℤ)
  | float (f : FloatLit)

def Scalar.value : Scalar → Json
  | .null => .null
  | .bool b => .bool b
  | .int n => .int n
  | .float f => .float f

def Scalar.text (x : Scalar) : List Char := encode x.value

mutual

/-- The text of a value, with strings of the type `α`. -/
inductive Layout (α : Type) where
  | scalar (x : Scalar)
  | str (a : α)
  | noItems (inner : Gap)
  | arr (lead : Gap) (items : LayoutItems α)
  | noFields (inner : Gap)
  | obj (lead : Gap) (fields : LayoutFields α)

inductive LayoutItems (α : Type) where
  | last (x : Layout α) (behind : Gap)
  | more (x : Layout α) (behind next : Gap) (rest : LayoutItems α)

inductive LayoutFields (α : Type) where
  | last (key : α) (colon lead : Gap) (x : Layout α) (behind : Gap)
  | more (key : α) (colon lead : Gap) (x : Layout α) (behind next : Gap) (rest : LayoutFields α)

end

section

variable {α : Type}

mutual

def Layout.text (write : α → List Char) : Layout α → List Char
  | .scalar x => x.text
  | .str a => write a
  | .noItems g => '[' :: (g.1 ++ [']'])
  | .arr g items => '[' :: (g.1 ++ (items.text write ++ [']']))
  | .noFields g => '{' :: (g.1 ++ ['}'])
  | .obj g fields => '{' :: (g.1 ++ (fields.text write ++ ['}']))

def LayoutItems.text (write : α → List Char) : LayoutItems α → List Char
  | .last x g => x.text write ++ g.1
  | .more x g next rest => x.text write ++ (g.1 ++ ',' :: (next.1 ++ rest.text write))

def LayoutFields.text (write : α → List Char) : LayoutFields α → List Char
  | .last k colon lead x g => write k ++ (colon.1 ++ ':' :: (lead.1 ++ (x.text write ++ g.1)))
  | .more k colon lead x g next rest =>
    write k ++ (colon.1 ++ ':' :: (lead.1 ++ (x.text write ++ (g.1 ++ ',' :: (next.1 ++ rest.text write)))))

end

mutual

/-- The value, with what the strings stand for; of a key that is there twice, the last field counts. -/
def Layout.value (read : α → String) : Layout α → Json
  | .scalar x => x.value
  | .str a => .str (read a)
  | .noItems _ => .arr []
  | .arr _ items => .arr (items.values read)
  | .noFields _ => .obj []
  | .obj _ fields => .obj (dictOf (fields.values read))

def LayoutItems.values (read : α → String) : LayoutItems α → List Json
  | .last x _ => [x.value read]
  | .more x _ _ rest => x.value read :: rest.values read

def LayoutFields.values (read : α → String) : LayoutFields α → List (String × Json)
  | .last k _ _ x _ => [(read k, x.value read)]
  | .more k _ _ x _ _ rest => (read k, x.value read) :: rest.values read

end

mutual

/-- Every string has a property, keys and values. -/
def Layout.All (p : α → Prop) : Layout α → Prop
  | .str a => p a
  | .arr _ items => items.All p
  | .obj _ fields => fields.All p
  | .scalar _ | .noItems _ | .noFields _ => True

def LayoutItems.All (p : α → Prop) : LayoutItems α → Prop
  | .last x _ => x.All p
  | .more x _ _ rest => x.All p ∧ rest.All p

def LayoutFields.All (p : α → Prop) : LayoutFields α → Prop
  | .last k _ _ x _ => p k ∧ x.All p
  | .more k _ _ x _ _ rest => p k ∧ x.All p ∧ rest.All p

end

mutual

/-- No object has a key twice. -/
def Layout.Distinct (read : α → String) : Layout α → Prop
  | .arr _ items => items.Distinct read
  | .obj _ fields => ((fields.values read).map Prod.fst).Nodup ∧ fields.Distinct read
  | .scalar _ | .str _ | .noItems _ | .noFields _ => True

def LayoutItems.Distinct (read : α → String) : LayoutItems α → Prop
  | .last x _ => x.Distinct read
  | .more x _ _ rest => x.Distinct read ∧ rest.Distinct read

def LayoutFields.Distinct (read : α → String) : LayoutFields α → Prop
  | .last _ _ _ x _ => x.Distinct read
  | .more _ _ _ x _ _ rest => x.Distinct read ∧ rest.Distinct read

end

/-! ## Reading -/

theorem numberEnd_gap (g : Gap) {c : Char} (cs : List Char)
    (hc : digitOf? c = none ∧ c ≠ '.' ∧ c ≠ 'e' ∧ c ≠ 'E') : NumberEnd (g.1 ++ c :: cs) := by
  obtain ⟨g, hg⟩ := g
  cases g with
  | nil => exact numberEnd_cons cs hc
  | cons d g =>
    have hspace : ∀ d, isJsonSpace d = true → digitOf? d = none ∧ d ≠ '.' ∧ d ≠ 'e' ∧ d ≠ 'E' := by
      intro d hd
      have hmem : d ∈ [' ', '\t', '\n', '\r'] := of_decide_eq_true hd
      simp only [mem_cons, not_mem_nil, or_false] at hmem
      rcases hmem with rfl | rfl | rfl | rfl <;> decide
    exact numberEnd_cons _ (hspace d (hg d mem_cons_self))

theorem skipWs_gap_cons (g : Gap) {c : Char} (hc : isJsonSpace c = false) (cs : List Char) :
    skipWs (g.1 ++ c :: cs) = c :: cs := by
  rw [skipWs, dropWhile_append_of_pos g.2]
  exact skipWs_cons hc cs

theorem Scalar.text_head (x : Scalar) (r : List Char) : ∃ c t, x.text ++ r = c :: t ∧ ValueHead c :=
  encode_head x.value r

variable {write : α → List Char} {read : α → String}

theorem Layout.text_head (hwrite : ∀ a, write a = encodeString (read a)) (x : Layout α) (r : List Char) :
    ∃ c t, x.text write ++ r = c :: t ∧ ValueHead c := by
  cases x with
  | scalar x => exact x.text_head r
  | str a =>
    rw [Layout.text, hwrite]
    exact ⟨'"', _, rfl, by decide⟩
  | noItems g => exact ⟨'[', _, rfl, by decide⟩
  | arr g items => exact ⟨'[', _, rfl, by decide⟩
  | noFields g => exact ⟨'{', _, rfl, by decide⟩
  | obj g fields => exact ⟨'{', _, rfl, by decide⟩

theorem LayoutItems.text_head (hwrite : ∀ a, write a = encodeString (read a)) (xs : LayoutItems α)
    (r : List Char) : ∃ c t, xs.text write ++ r = c :: t ∧ ValueHead c := by
  cases xs with
  | last x g =>
    rw [LayoutItems.text, append_assoc]
    exact x.text_head hwrite _
  | more x g next rest =>
    rw [LayoutItems.text, append_assoc]
    exact x.text_head hwrite _

theorem LayoutFields.text_head (hwrite : ∀ a, write a = encodeString (read a)) (fs : LayoutFields α)
    (r : List Char) : ∃ t, fs.text write ++ r = '"' :: t := by
  cases fs with
  | last k colon lead x g =>
    rw [LayoutFields.text, hwrite]
    exact ⟨_, rfl⟩
  | more k colon lead x g next rest =>
    rw [LayoutFields.text, hwrite]
    exact ⟨_, rfl⟩

theorem Scalar.distinct (x : Scalar) : x.value.Distinct := by cases x <;> trivial

theorem length_text_pos (hwrite : ∀ a, write a = encodeString (read a)) (x : Layout α) :
    0 < (x.text write).length := by
  obtain ⟨c, t, h, -⟩ := x.text_head hwrite []
  rw [append_nil] at h
  rw [h]
  exact Nat.succ_pos _

section

variable (hwrite : ∀ a, write a = encodeString (read a))
include hwrite

mutual

theorem scanValue_text : ∀ (x : Layout α) (n : ℕ) (r : List Char), (x.text write).length ≤ n → NumberEnd r →
    scanValue n (x.text write ++ r) = some (x.value read, r)
  | x, 0, _, hn, _ => absurd hn (by have := length_text_pos hwrite x; omega)
  | .scalar x, n + 1, r, hn, hr => by
    rw [Layout.text, Scalar.text, encode_eq] at hn ⊢
    exact scanValue_encodeWith (forall_mem_singleton.mpr rfl) x.value (n + 1) r x.distinct hn hr
  | .str a, n + 1, r, _, _ => by
    rw [Layout.text, hwrite, encodeString, cons_append, append_assoc, singleton_append]
    show (scanString _).map _ = _
    rw [scanString_encodeString]
    rfl
  | .noItems g, n + 1, r, _, _ => by
    rw [Layout.text, cons_append, append_assoc, singleton_append]
    show (match skipWs (g.1 ++ ']' :: r) with
      | ']' :: rest => some (Json.arr [], rest)
      | cs => (scanElements n cs).map fun p : List Json × List Char => (Json.arr p.1, p.2)) = _
    rw [skipWs_gap_cons g (by decide)]
    rfl
  | .arr g items, n + 1, r, hn, _ => by
    rw [Layout.text, length_cons, length_append, length_append, length_singleton] at hn
    have hitems := scanElements_text items n r (by omega)
    obtain ⟨c, t, h, hc⟩ := items.text_head hwrite (']' :: r)
    rw [Layout.text, cons_append, append_assoc, append_assoc, singleton_append, h]
    rw [h] at hitems
    show (match skipWs (g.1 ++ c :: t) with
      | ']' :: rest => some (Json.arr [], rest)
      | cs => (scanElements n cs).map fun p : List Json × List Char => (Json.arr p.1, p.2)) = _
    rw [skipWs_gap_cons g hc.1]
    split
    · rename_i h'; exact absurd (List.cons.inj h').1 hc.2.1
    · rw [hitems]; rfl
  | .noFields g, n + 1, r, _, _ => by
    rw [Layout.text, cons_append, append_assoc, singleton_append]
    show (match skipWs (g.1 ++ '}' :: r) with
      | '}' :: rest => some (Json.obj [], rest)
      | cs => (scanMembers n cs).map fun p : List (String × Json) × List Char => (Json.obj (dictOf p.1), p.2)) = _
    rw [skipWs_gap_cons g (by decide)]
    rfl
  | .obj g fields, n + 1, r, hn, _ => by
    rw [Layout.text, length_cons, length_append, length_append, length_singleton] at hn
    have hfields := scanMembers_text fields n r (by omega)
    obtain ⟨t, h⟩ := fields.text_head hwrite ('}' :: r)
    rw [Layout.text, cons_append, append_assoc, append_assoc, singleton_append, h]
    rw [h] at hfields
    show (match skipWs (g.1 ++ '"' :: t) with
      | '}' :: rest => some (Json.obj [], rest)
      | cs => (scanMembers n cs).map fun p : List (String × Json) × List Char => (Json.obj (dictOf p.1), p.2)) = _
    rw [skipWs_gap_cons g (by decide)]
    show ((scanMembers n ('"' :: t)).map fun p => (Json.obj (dictOf p.1), p.2)) = _
    rw [hfields]
    rfl

theorem scanElements_text : ∀ (xs : LayoutItems α) (n : ℕ) (r : List Char), (xs.text write).length < n →
    scanElements n (xs.text write ++ ']' :: r) = some (xs.values read, r)
  | .last x g, n + 1, r, hn => by
    rw [LayoutItems.text, length_append] at hn
    rw [LayoutItems.text, append_assoc, scanElements,
      scanValue_text x n _ (by omega) (numberEnd_gap g _ (by decide)), Option.bind_some]
    show (match skipWs (g.1 ++ ']' :: r) with
      | ']' :: rest => some ([x.value read], rest)
      | ',' :: rest => (scanElements n (skipWs rest)).map fun q : List Json × List Char => (x.value read :: q.1, q.2)
      | _ => none) = _
    rw [skipWs_gap_cons g (by decide)]
    rfl
  | .more x g next rest, n + 1, r, hn => by
    rw [LayoutItems.text, length_append, length_append, length_cons, length_append] at hn
    have hrest := scanElements_text rest n r (by omega)
    obtain ⟨c, t, h, hc⟩ := rest.text_head hwrite (']' :: r)
    rw [LayoutItems.text, append_assoc, append_assoc, cons_append, append_assoc, h, scanElements,
      scanValue_text x n _ (by omega) (numberEnd_gap g _ (by decide)), Option.bind_some]
    rw [h] at hrest
    show (match skipWs (g.1 ++ ',' :: (next.1 ++ c :: t)) with
      | ']' :: rest => some ([x.value read], rest)
      | ',' :: rest => (scanElements n (skipWs rest)).map fun q : List Json × List Char => (x.value read :: q.1, q.2)
      | _ => none) = _
    rw [skipWs_gap_cons g (by decide)]
    show ((scanElements n (skipWs (next.1 ++ c :: t))).map fun q => (x.value read :: q.1, q.2)) = _
    rw [skipWs_gap_cons next hc.1, hrest]
    rfl

theorem scanMembers_text : ∀ (fs : LayoutFields α) (n : ℕ) (r : List Char), (fs.text write).length < n →
    scanMembers n (fs.text write ++ '}' :: r) = some (fs.values read, r)
  | .last k colon lead x g, n + 1, r, hn => by
    rw [LayoutFields.text, length_append, length_append, length_cons, length_append,
      length_append] at hn
    obtain ⟨c, t, h, hc⟩ := x.text_head hwrite (g.1 ++ '}' :: r)
    have hv := scanValue_text x n _ (by omega) (numberEnd_gap g r (by decide : digitOf? '}' = none ∧ _))
    rw [h] at hv
    rw [LayoutFields.text, append_assoc, append_assoc, cons_append, append_assoc,
      append_assoc, h, hwrite, encodeString, cons_append, append_assoc, singleton_append]
    show ((scanString _).bind _) = _
    rw [scanString_encodeString, Option.bind_some]
    dsimp only
    rw [skipWs_gap_cons colon (by decide)]
    show ((scanValue n (skipWs (lead.1 ++ c :: t))).bind _) = _
    rw [skipWs_gap_cons lead hc.1, hv, Option.bind_some]
    dsimp only
    rw [skipWs_gap_cons g (by decide)]
    rfl
  | .more k colon lead x g next rest, n + 1, r, hn => by
    rw [LayoutFields.text, length_append, length_append, length_cons, length_append,
      length_append, length_append, length_cons, length_append] at hn
    have hrest := scanMembers_text rest n r (by omega)
    obtain ⟨t', h'⟩ := rest.text_head hwrite ('}' :: r)
    rw [h'] at hrest
    obtain ⟨c, t, h, hc⟩ := x.text_head hwrite (g.1 ++ ',' :: (next.1 ++ '"' :: t'))
    have hv := scanValue_text x n _ (by omega)
      (numberEnd_gap g (next.1 ++ '"' :: t') (by decide : digitOf? ',' = none ∧ _))
    rw [h] at hv
    rw [LayoutFields.text, append_assoc, append_assoc, cons_append, append_assoc,
      append_assoc, append_assoc, cons_append, append_assoc, h', h, hwrite, encodeString,
      cons_append, append_assoc, singleton_append]
    show ((scanString _).bind _) = _
    rw [scanString_encodeString, Option.bind_some]
    dsimp only
    rw [skipWs_gap_cons colon (by decide)]
    show ((scanValue n (skipWs (lead.1 ++ c :: t))).bind _) = _
    rw [skipWs_gap_cons lead hc.1, hv, Option.bind_some]
    dsimp only
    rw [skipWs_gap_cons g (by decide)]
    show ((scanMembers n (skipWs (next.1 ++ '"' :: t'))).map _) = _
    rw [skipWs_gap_cons next (by decide), hrest]
    rfl

end

end

/-! ## The same value -/

theorem nodup_dictOf (ps : List (String × Json)) : ((dictOf ps).map Prod.fst).Nodup := by
  induction ps using List.reverseRecOn with
  | nil => exact nodup_nil
  | append_singleton ps p ih =>
    rw [dictOf_concat]
    exact Obj.nodup_set ih p.1 p.2

theorem keys_dictOf_subset (ps : List (String × Json)) : (dictOf ps).map Prod.fst ⊆ ps.map Prod.fst := by
  induction ps using List.reverseRecOn with
  | nil => exact List.Subset.refl _
  | append_singleton ps p ih =>
    rw [dictOf_concat]
    intro k hk
    obtain ⟨e, he, rfl⟩ := mem_map.mp hk
    rw [map_append]
    rcases Obj.mem_set he with rfl | he
    · exact mem_append_right _ (by simp)
    · exact mem_append_left _ (ih (mem_map_of_mem he))

/-- A dictionary as long as its list of fields is that list. -/
theorem eq_of_dictOf {ps qs : List (String × Json)} (h : dictOf ps = qs) (hlength : ps.length = qs.length) :
    ps = qs := by
  have hperm : (qs.map Prod.fst).Perm (ps.map Prod.fst) := by
    rw [← h]
    refine (subperm_of_subset (nodup_dictOf ps) (keys_dictOf_subset ps)).perm_of_length_le ?_
    rw [h, length_map, length_map, hlength]
  have hnodup : (ps.map Prod.fst).Nodup := hperm.nodup_iff.mp (h ▸ nodup_dictOf ps)
  rw [← h, dictOf_eq_self hnodup]

theorem LayoutFields.length_values (f g : α → String) : ∀ fs : LayoutFields α,
    (fs.values f).length = (fs.values g).length
  | .last _ _ _ _ _ => rfl
  | .more _ _ _ _ _ _ rest => congrArg (· + 1) (rest.length_values f g)

mutual

/-- Two readings of the strings that make one value are the same on all of them. -/
theorem Layout.all_of_value_eq {f g : α → String} : ∀ x : Layout α, x.Distinct g → x.value f = x.value g →
    x.All fun a => f a = g a
  | .scalar _, _, _ => trivial
  | .str _, _, h => Json.str.inj h
  | .noItems _, _, _ => trivial
  | .arr _ items, hd, h => items.all_of_values_eq hd (Json.arr.inj h)
  | .noFields _, _, _ => trivial
  | .obj _ fields, hd, h => by
    have hdict := Json.obj.inj h
    rw [dictOf_eq_self hd.1] at hdict
    exact fields.all_of_values_eq hd.2 (eq_of_dictOf hdict (fields.length_values f g))

theorem LayoutItems.all_of_values_eq {f g : α → String} : ∀ xs : LayoutItems α, xs.Distinct g →
    xs.values f = xs.values g → xs.All fun a => f a = g a
  | .last x _, hd, h => x.all_of_value_eq hd (List.cons.inj h).1
  | .more x _ _ rest, hd, h =>
    ⟨x.all_of_value_eq hd.1 (List.cons.inj h).1, rest.all_of_values_eq hd.2 (List.cons.inj h).2⟩

theorem LayoutFields.all_of_values_eq {f g : α → String} : ∀ fs : LayoutFields α, fs.Distinct g →
    fs.values f = fs.values g → fs.All fun a => f a = g a
  | .last k _ _ x _, hd, h => by
    obtain ⟨hkey, hvalue⟩ := Prod.mk.inj (List.cons.inj h).1
    exact ⟨hkey, x.all_of_value_eq hd hvalue⟩
  | .more k _ _ x _ _ rest, hd, h => by
    obtain ⟨hkey, hvalue⟩ := Prod.mk.inj (List.cons.inj h).1
    exact ⟨hkey, x.all_of_value_eq hd.1 hvalue, rest.all_of_values_eq hd.2 (List.cons.inj h).2⟩

end

mutual

theorem Layout.value_congr {f g : α → String} : ∀ x : Layout α, (x.All fun a => f a = g a) → x.value f = x.value g
  | .scalar _, _ => rfl
  | .str _, h => congrArg Json.str h
  | .noItems _, _ => rfl
  | .arr _ items, h => congrArg Json.arr (items.values_congr h)
  | .noFields _, _ => rfl
  | .obj _ fields, h => congrArg (fun fs => Json.obj (dictOf fs)) (fields.values_congr h)

theorem LayoutItems.values_congr {f g : α → String} : ∀ xs : LayoutItems α, (xs.All fun a => f a = g a) →
    xs.values f = xs.values g
  | .last x _, h => by rw [LayoutItems.values, LayoutItems.values, x.value_congr h]
  | .more x _ _ rest, h => by
    rw [LayoutItems.values, LayoutItems.values, x.value_congr h.1, rest.values_congr h.2]

theorem LayoutFields.values_congr {f g : α → String} : ∀ fs : LayoutFields α, (fs.All fun a => f a = g a) →
    fs.values f = fs.values g
  | .last k _ _ x _, h => by rw [LayoutFields.values, LayoutFields.values, h.1, x.value_congr h.2]
  | .more k _ _ x _ _ rest, h => by
    rw [LayoutFields.values, LayoutFields.values, h.1, x.value_congr h.2.1, rest.values_congr h.2.2]

end

end

end PtaasBench.Py
