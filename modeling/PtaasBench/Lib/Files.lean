import Mathlib.Data.List.Basic
import PtaasBench.Lib.Splitting

/-!
# PtaasBench.Lib.Files — trees of files with symbolic links, and the paths through them

A path is resolved segment by segment, and a link on its way is followed before the next segment.
-/

namespace PtaasBench.Lib.Files

/-- The characters a path is made with. -/
class PathChar (α : Type) where
  slash : α
  dot : α
  zero : α
  dot_ne : dot ≠ slash

instance : PathChar Char := ⟨'/', '.', Char.ofNat 0, by decide⟩

instance : PathChar UInt8 := ⟨47, 46, 0, by decide⟩

open PathChar List

variable {α : Type} [PathChar α]

/-- A name that can stand in a directory. -/
def Proper (c : List α) : Prop := c ≠ [] ∧ c ≠ [dot] ∧ c ≠ [dot, dot] ∧ slash ∉ c

instance [DecidableEq α] (c : List α) : Decidable (Proper c) :=
  inferInstanceAs (Decidable (c ≠ [] ∧ c ≠ [dot] ∧ c ≠ [dot, dot] ∧ slash ∉ c))

inductive Node (α : Type)
  | dir
  | link (target : List α)
  | file (content : List UInt8)
  deriving DecidableEq

/-- What stands at a place, which is the list of the names down to it. -/
structure Disk (α : Type) [PathChar α] where
  node : List (List α) → Option (Node α)
  root : node [] = some .dir
  parent : ∀ p c, (node (p ++ [c])).isSome = true → node p = some .dir ∧ Proper c

/-- An empty disk. -/
instance : Inhabited (Disk α) where
  default := {
    node := fun p => match p with
      | [] => some .dir
      | _ :: _ => none
    root := rfl
    parent := fun p c h => by cases p <;> exact nomatch h }

/-- What a walk does where a name is missing. -/
inductive Missing
  | stops
  | ends
  | passes

/-- Whether a walk goes on at a missing name that so many segments follow. -/
def Missing.lets : Missing → ℕ → Bool
  | stops, _ => false
  | ends, n => n == 0
  | passes, _ => true

/-- Where a path starts: at the root, or here. -/
def start [DecidableEq α] (here : List (List α)) (path : List α) : List (List α) :=
  if path.head? = some slash then [] else here

variable [DecidableEq α]

/-- The place that segments lead to, where `follow` goes on behind a link. -/
def Disk.walkWith (t : Disk α) (m : Missing) (follow : List (List α) → List (List α) → Option (List (List α))) :
    List (List α) → List (List α) → Option (List (List α))
  | here, [] => some here
  | here, c :: rest =>
    if c = [] ∨ c = [dot] then t.walkWith m follow here rest
    else if c = [dot, dot] then t.walkWith m follow here.dropLast rest
    else
      match t.node (here ++ [c]) with
      | some .dir => t.walkWith m follow (here ++ [c]) rest
      | some (.file _) => if rest = [] then some (here ++ [c]) else none
      | some (.link target) => follow (start here target) (target.splitOn slash ++ rest)
      | none => if m.lets rest.length then t.walkWith m follow (here ++ [c]) rest else none

/-- The walk that follows so many links. -/
def Disk.walk (t : Disk α) (m : Missing) : ℕ → List (List α) → List (List α) → Option (List (List α))
  | 0 => t.walkWith m fun _ _ => none
  | links + 1 => t.walkWith m (t.walk m links)

def Disk.resolve (t : Disk α) (m : Missing) (links : ℕ) (here : List (List α)) (path : List α) :
    Option (List (List α)) :=
  t.walk m links (start here path) (path.splitOn slash)

/-- A file lies in the directory that a folder's path leads to. -/
def Disk.Inside (t : Disk α) (links : ℕ) (here : List (List α)) (folder : List α) (file : List (List α)) : Prop :=
  ∃ dir, t.resolve .stops links here folder = some dir ∧ dir <+: file ∧ dir ≠ file

/-- The text of a place. -/
def pathText (p : List (List α)) : List α := if p = [] then [slash] else led slash p

/-! ## Places -/

variable {t : Disk α} {here p : List (List α)}

omit [DecidableEq α] in
/-- What is above a place is a directory. -/
theorem Disk.dir_above (t : Disk α) {q r : List (List α)} (hr : r ≠ []) (h : (t.node (q ++ r)).isSome = true) :
    t.node q = some .dir := by
  induction r using List.reverseRecOn with
  | nil => exact absurd rfl hr
  | append_singleton r c ih =>
    rw [← append_assoc] at h
    have hdir := (t.parent (q ++ r) c h).1
    by_cases hnil : r = []
    · rwa [hnil, append_nil] at hdir
    · exact ih hnil (by rw [hdir]; rfl)

omit [DecidableEq α] in
theorem Disk.proper_of_mem (t : Disk α) {p : List (List α)} (h : (t.node p).isSome = true) : ∀ c ∈ p, Proper c := by
  intro c hc
  obtain ⟨q, r, rfl⟩ := append_of_mem hc
  rw [show q ++ c :: r = q ++ [c] ++ r by simp] at h
  cases r with
  | nil => exact (t.parent q c (by rwa [append_nil] at h)).2
  | cons d r => exact (t.parent q c (by rw [t.dir_above (cons_ne_nil d r) h]; rfl)).2

/-! ## Walks -/

variable {m : Missing} {follow : List (List α) → List (List α) → Option (List (List α))}

theorem Disk.walkWith_proper {c : List α} (hc : Proper c) (rest : List (List α)) :
    t.walkWith m follow here (c :: rest) =
      match t.node (here ++ [c]) with
      | some .dir => t.walkWith m follow (here ++ [c]) rest
      | some (.file _) => if rest = [] then some (here ++ [c]) else none
      | some (.link target) => follow (start here target) (target.splitOn slash ++ rest)
      | none => if m.lets rest.length then t.walkWith m follow (here ++ [c]) rest else none := by
  rw [walkWith, if_neg (fun h => h.elim hc.1 hc.2.1), if_neg hc.2.2.1]

/-- Directories are walked down. -/
theorem Disk.walkWith_append {r : List (List α)} (h : t.node (here ++ r) = some .dir) (rest : List (List α)) :
    t.walkWith m follow here (r ++ rest) = t.walkWith m follow (here ++ r) rest := by
  induction r generalizing here with
  | nil => rw [nil_append, append_nil]
  | cons c r ih =>
    have hsplit : here ++ c :: r = here ++ [c] ++ r := by simp
    have hdir : t.node (here ++ [c]) = some .dir := by
      rw [hsplit] at h
      by_cases hr : r = []
      · rwa [hr, append_nil] at h
      · exact t.dir_above hr (by rw [h]; rfl)
    have hc : Proper c := (t.parent here c (by rw [hdir]; rfl)).2
    rw [cons_append, walkWith_proper hc, hdir, hsplit]
    exact ih (hsplit ▸ h)

/-- What stands in front of a last name that is found, and what the name adds: a link, or itself. -/
theorem Disk.walkWith_concat {c : List α} (hc : Proper c)
    (hfollow : ∀ here cs p, follow here (cs ++ [c]) = some p → ∃ q, follow here cs = some q ∧
      follow here (cs ++ [[]]) = some q ∧ ((∃ target, t.node (q ++ [c]) = some (.link target)) ∨ p = q ++ [c]))
    (hm : m.lets 0 = m.lets 1) {cs : List (List α)} (h : t.walkWith m follow here (cs ++ [c]) = some p) :
    ∃ q, t.walkWith m follow here cs = some q ∧ t.walkWith m follow here (cs ++ [[]]) = some q ∧
      ((∃ target, t.node (q ++ [c]) = some (.link target)) ∨ p = q ++ [c]) := by
  induction cs generalizing here with
  | nil =>
    refine ⟨here, rfl, by rw [nil_append, walkWith, if_pos (Or.inl rfl), walkWith], ?_⟩
    rw [nil_append, walkWith_proper hc] at h
    cases hnode : t.node (here ++ [c]) with
    | none =>
      rw [hnode] at h
      dsimp only at h
      split_ifs at h
      exact Or.inr (Option.some.inj h).symm
    | some node =>
      rw [hnode] at h
      cases node with
      | dir => exact Or.inr (Option.some.inj h).symm
      | file content => exact Or.inr (Option.some.inj ((if_pos rfl).symm.trans h)).symm
      | link target => exact Or.inl ⟨target, rfl⟩
  | cons d rest ih =>
    rw [cons_append, walkWith] at h
    rw [cons_append, walkWith, walkWith]
    by_cases hblank : d = [] ∨ d = [dot]
    · rw [if_pos hblank] at h ⊢
      rw [if_pos hblank]
      exact ih h
    by_cases hup : d = [dot, dot]
    · rw [if_neg hblank, if_pos hup] at h
      rw [if_neg hblank, if_pos hup, if_neg hblank, if_pos hup]
      exact ih h
    rw [if_neg hblank, if_neg hup] at h
    rw [if_neg hblank, if_neg hup, if_neg hblank, if_neg hup]
    cases hnode : t.node (here ++ [d]) with
    | none =>
      rw [hnode] at h
      dsimp only at h ⊢
      have hlets : ∀ n, m.lets n = m.lets 0 := fun n => by cases m <;> first | rfl | cases hm
      rw [hlets] at h
      split_ifs at h with hgo
      rw [if_pos ((hlets _).trans hgo), if_pos ((hlets _).trans hgo)]
      exact ih h
    | some node =>
      rw [hnode] at h
      cases node with
      | dir => exact ih h
      | file content => exact nomatch (if_neg (append_ne_nil_of_right_ne_nil rest (cons_ne_nil c []))).symm.trans h
      | link target =>
        dsimp only at h ⊢
        rw [← append_assoc] at h ⊢
        exact hfollow _ _ _ h

theorem Disk.walk_concat {links : ℕ} {c : List α} (hc : Proper c) (hm : m.lets 0 = m.lets 1) {cs : List (List α)}
    (h : t.walk m links here (cs ++ [c]) = some p) :
    ∃ q, t.walk m links here cs = some q ∧ t.walk m links here (cs ++ [[]]) = some q ∧
      ((∃ target, t.node (q ++ [c]) = some (.link target)) ∨ p = q ++ [c]) := by
  induction links generalizing here cs p with
  | zero => exact walkWith_concat hc (fun _ _ _ hnone => by cases hnone) hm h
  | succ links ih => exact walkWith_concat hc (fun _ _ _ hsome => ih hsome) hm h

omit [DecidableEq α] in
theorem Disk.dir_dropLast (t : Disk α) {p : List (List α)} (h : t.node p = some .dir) : t.node p.dropLast = some .dir := by
  rcases eq_nil_or_concat p with rfl | ⟨q, c, rfl⟩
  · exact h
  · rw [concat_eq_append] at h ⊢
    rw [dropLast_concat]
    exact (t.parent q c (by rw [h]; rfl)).1

/-- What a path with a slash at its end leads to is a directory. -/
theorem Disk.walkWith_slash
    (hfollow : ∀ here cs p, t.node here = some .dir → follow here (cs ++ [[]]) = some p → t.node p = some .dir)
    (hhere : t.node here = some .dir) {cs : List (List α)}
    (h : t.walkWith .stops follow here (cs ++ [[]]) = some p) : t.node p = some .dir := by
  induction cs generalizing here with
  | nil =>
    rw [nil_append, walkWith, if_pos (Or.inl rfl), walkWith] at h
    exact Option.some.inj h ▸ hhere
  | cons c rest ih =>
    rw [cons_append, walkWith] at h
    by_cases hblank : c = [] ∨ c = [dot]
    · rw [if_pos hblank] at h
      exact ih hhere h
    by_cases hup : c = [dot, dot]
    · rw [if_neg hblank, if_pos hup] at h
      exact ih (t.dir_dropLast hhere) h
    rw [if_neg hblank, if_neg hup] at h
    cases hnode : t.node (here ++ [c]) with
    | none =>
      rw [hnode] at h
      exact nomatch h
    | some node =>
      rw [hnode] at h
      cases node with
      | dir => exact ih hnode h
      | file content => exact nomatch (if_neg (append_ne_nil_of_right_ne_nil rest (cons_ne_nil [] []))).symm.trans h
      | link target =>
        dsimp only at h
        rw [← append_assoc] at h
        refine hfollow _ _ _ ?_ h
        rw [start]
        split_ifs
        · exact t.root
        · exact hhere

theorem Disk.walk_slash {links : ℕ} (hhere : t.node here = some .dir) {cs : List (List α)}
    (h : t.walk .stops links here (cs ++ [[]]) = some p) : t.node p = some .dir := by
  induction links generalizing here cs p with
  | zero => exact walkWith_slash (fun _ _ _ _ hnone => by cases hnone) hhere h
  | succ links ih => exact walkWith_slash (fun _ _ _ hdir hsome => ih hdir hsome) hhere h

/-- Names in front of which a walk was found lead to a directory. -/
theorem Disk.walk_front {links : ℕ} {cs names : List (List α)} (hnames : ∀ c ∈ names, Proper c) (hne : names ≠ [])
    (h : t.walk .stops links here (cs ++ names) = some p) :
    ∃ q, t.walk .stops links here cs = some q ∧ t.walk .stops links here (cs ++ [[]]) = some q := by
  induction names using List.reverseRecOn generalizing p with
  | nil => exact absurd rfl hne
  | append_singleton names c ih =>
    rw [← append_assoc] at h
    obtain ⟨q, hq, hslash, -⟩ := walk_concat (hnames c (by simp)) rfl h
    by_cases hnil : names = []
    · subst hnil
      rw [append_nil] at hq hslash
      exact ⟨q, hq, hslash⟩
    · exact ih (fun d hd => hnames d (mem_append_left _ hd)) hnil hq

/-! ## A tree that grows -/

def Node.isFile : Node α → Bool
  | file _ => true
  | _ => false

/-- Directories and files were made, and files written: the links are the old ones. -/
def Disk.Grew (t t' : Disk α) : Prop :=
  ∀ p, t'.node p = t.node p ∨ (t.node p = none ∧ t'.node p = some .dir) ∨
    ((t.node p).all Node.isFile = true ∧ ∃ content, t'.node p = some (.file content))

omit [DecidableEq α] in
theorem Disk.Grew.refl (t : Disk α) : t.Grew t := fun _ => Or.inl rfl

omit [DecidableEq α] in
theorem Disk.Grew.trans {t₁ t₂ t₃ : Disk α} (h : t₁.Grew t₂) (h' : t₂.Grew t₃) : t₁.Grew t₃ := by
  intro p
  rcases h p with h | ⟨hnone, hdir⟩ | ⟨hfile, content, hnew⟩
  · rw [← h]
    exact h' p
  · rcases h' p with h' | ⟨hnone', -⟩ | ⟨-, hnew⟩
    · exact Or.inr (Or.inl ⟨hnone, h'.trans hdir⟩)
    · rw [hdir] at hnone'
      cases hnone'
    · exact Or.inr (Or.inr ⟨by rw [hnone]; rfl, hnew⟩)
  · rcases h' p with h' | ⟨hnone', -⟩ | ⟨-, hnew'⟩
    · exact Or.inr (Or.inr ⟨hfile, content, h'.trans hnew⟩)
    · rw [hnew] at hnone'
      cases hnone'
    · exact Or.inr (Or.inr ⟨hfile, hnew'⟩)

/-- What a strict walk finds in the grown tree, a walk that passes missing names found before. -/
theorem Disk.walkWith_of_grew {t' : Disk α} (hgrew : t.Grew t')
    {follow' : List (List α) → List (List α) → Option (List (List α))}
    (hfollow : ∀ here cs p, follow' here cs = some p → follow here cs = some p) {cs : List (List α)}
    (h : t'.walkWith .stops follow' here cs = some p) : t.walkWith .passes follow here cs = some p := by
  induction cs generalizing here with
  | nil => exact h
  | cons c rest ih =>
    rw [walkWith] at h ⊢
    by_cases hblank : c = [] ∨ c = [dot]
    · rw [if_pos hblank] at h ⊢
      exact ih h
    by_cases hup : c = [dot, dot]
    · rw [if_neg hblank, if_pos hup] at h ⊢
      exact ih h
    rw [if_neg hblank, if_neg hup] at h ⊢
    rcases hgrew (here ++ [c]) with hsame | ⟨hnone, hdir⟩ | ⟨hfile, content, hnew⟩
    · rw [← hsame]
      cases hnode : t'.node (here ++ [c]) with
      | none =>
        rw [hnode] at h
        exact nomatch h
      | some node =>
        rw [hnode] at h
        cases node with
        | dir => exact ih h
        | file content => exact h
        | link target => exact hfollow _ _ _ h
    · rw [hdir] at h
      rw [hnone]
      exact ih h
    · rw [hnew] at h
      have hrest : rest = [] := by
        by_contra hrest
        exact nomatch (if_neg hrest).symm.trans h
      have hplace := Option.some.inj ((if_pos hrest).symm.trans h)
      cases hnode : t.node (here ++ [c]) with
      | none =>
        rw [hrest, hplace]
        rfl
      | some node =>
        rw [hnode] at hfile
        cases node with
        | file old => exact (if_pos hrest).trans (congrArg some hplace)
        | dir => exact Bool.noConfusion hfile
        | link target => exact Bool.noConfusion hfile

theorem Disk.walk_of_grew {t' : Disk α} (hgrew : t.Grew t') {links : ℕ} {cs : List (List α)}
    (h : t'.walk .stops links here cs = some p) : t.walk .passes links here cs = some p := by
  induction links generalizing here cs p with
  | zero => exact walkWith_of_grew hgrew (fun _ _ _ hnone => hnone) h
  | succ links ih => exact walkWith_of_grew hgrew (fun _ _ _ hsome => ih hsome) h

theorem Disk.resolve_of_stops {links : ℕ} {path : List α} (h : t.resolve .stops links here path = some p) :
    t.resolve .passes links here path = some p := walk_of_grew (Grew.refl t) h

/-! ## The last link on the way -/

/-- No link stands on the way of names from a place. -/
def Disk.Straight (t : Disk α) (here names : List (List α)) : Prop :=
  ∀ front, front <+: names → front ≠ [] → ∀ target, t.node (here ++ front) ≠ some (.link target)

/-- The names end on a link, and it leads to a place. -/
def Disk.LinkLeads (t : Disk α) (links : ℕ) (names place : List (List α)) : Prop :=
  ∃ above c q target, names = above ++ [c] ∧ t.walk .passes links [] above = some q ∧
    t.node (q ++ [c]) = some (.link target) ∧ t.walk .passes links [] names = some place

/-- Behind a place, names without a link lead down from it. -/
theorem Disk.walk_straight {links : ℕ} {cs names z : List (List α)} (hnames : ∀ c ∈ names, Proper c)
    (hz : t.walk .passes links here cs = some z) (hstraight : t.Straight z names)
    (h : t.walk .passes links here (cs ++ names) = some p) : p = z ++ names := by
  induction names using List.reverseRecOn generalizing p with
  | nil =>
    rw [append_nil] at h ⊢
    exact Option.some.inj (h.symm.trans hz)
  | append_singleton names c ih =>
    rw [← append_assoc] at h
    obtain ⟨q, hq, -, hlast⟩ := walk_concat (hnames c (by simp)) rfl h
    have hq' := ih (fun d hd => hnames d (mem_append_left _ hd))
      (fun front hfront => hstraight front (hfront.trans (prefix_append _ _))) hq
    rw [hq', append_assoc] at hlast
    rcases hlast with ⟨target, hlink⟩ | hplace
    · exact absurd hlink (hstraight _ prefix_rfl (by simp) target)
    · exact hplace

omit [DecidableEq α] in
theorem Disk.Straight.concat {z names : List (List α)} {c : List α} (h : t.Straight z names)
    (hc : ∀ target, t.node (z ++ names ++ [c]) ≠ some (.link target)) : t.Straight z (names ++ [c]) := by
  intro front hfront hne target
  rcases prefix_concat_iff.mp hfront with rfl | hfront
  · rw [← append_assoc]
    exact hc target
  · exact h front hfront hne target

/-- A way goes straight down, or it goes straight down behind its last link. -/
theorem Disk.walk_last_link {links : ℕ} {names : List (List α)} (hnames : ∀ c ∈ names, Proper c)
    (h : t.walk .passes links [] names = some p) :
    (t.Straight [] names ∧ p = names) ∨
      ∃ front z behind, names = front ++ behind ∧ t.LinkLeads links front z ∧ t.Straight z behind ∧ p = z ++ behind := by
  induction names using List.reverseRecOn generalizing p with
  | nil =>
    refine Or.inl ⟨fun front hfront hne => absurd (prefix_nil.mp hfront) hne, ?_⟩
    cases links <;> exact (Option.some.inj h).symm
  | append_singleton names c ih =>
    obtain ⟨q, hq, -, hlast⟩ := walk_concat (hnames c (by simp)) rfl h
    by_cases hlink : ∃ target, t.node (q ++ [c]) = some (.link target)
    · obtain ⟨target, hlink⟩ := hlink
      refine Or.inr ⟨names ++ [c], p, [], (append_nil _).symm, ⟨names, c, q, target, rfl, hq, hlink, h⟩, ?_,
        (append_nil p).symm⟩
      exact fun front hfront hne => absurd (prefix_nil.mp hfront) hne
    · have hnot : ∀ target, t.node (q ++ [c]) ≠ some (.link target) := fun target hnode => hlink ⟨target, hnode⟩
      have hp := hlast.resolve_left hlink
      rcases ih (fun d hd => hnames d (mem_append_left _ hd)) hq with
        ⟨hstraight, rfl⟩ | ⟨front, z, behind, rfl, hleads, hstraight, rfl⟩
      · exact Or.inl ⟨hstraight.concat hnot, hp⟩
      · exact Or.inr ⟨front, z, behind ++ [c], append_assoc _ _ _, hleads, hstraight.concat hnot,
          hp.trans (append_assoc _ _ _)⟩

/-! ## The text of a place -/

theorem splitOn_led {lines : List (List α)} (hne : lines ≠ []) (h : ∀ line ∈ lines, slash ∉ line) :
    (led slash lines).splitOn slash = [] :: lines := by
  have hall : ∀ line ∈ [] :: lines, slash ∉ line := forall_mem_cons.mpr ⟨not_mem_nil, h⟩
  have hjoined : led slash lines = [slash].intercalate ([] :: lines) := by
    rw [led_eq_intercalate slash hne]
    cases lines with
    | nil => exact absurd rfl hne
    | cons line lines => rw [intercalate_cons_cons]; rfl
  rw [hjoined]
  exact splitOn_intercalate slash hall (cons_ne_nil _ _)

/-- A path of names from the root is walked name by name. -/
theorem Disk.resolve_led {links : ℕ} {names : List (List α)} (hne : names ≠ []) (h : ∀ c ∈ names, slash ∉ c) :
    t.resolve m links here (led slash names) = t.walk m links [] names := by
  have hhead : (led slash names).head? = some slash := by
    obtain ⟨c, names, rfl⟩ := exists_cons_of_ne_nil hne
    rfl
  rw [resolve, start, if_pos hhead, splitOn_led hne h]
  cases links with
  | zero => rw [walk, walkWith, if_pos (Or.inl rfl)]
  | succ links => rw [walk, walkWith, if_pos (Or.inl rfl)]

omit [DecidableEq α] in
theorem led_slash (names : List (List α)) : led slash names ++ [slash] = led slash (names ++ [[]]) := by
  rw [led, led, flatMap_append]
  rfl

theorem Disk.resolve_led_slash {links : ℕ} {names : List (List α)} (h : ∀ c ∈ names, slash ∉ c) :
    t.resolve m links here (led slash names ++ [slash]) = t.walk m links [] (names ++ [[]]) := by
  rw [led_slash]
  refine resolve_led (by simp) fun c hc => ?_
  rcases mem_append.mp hc with hc | hc
  · exact h c hc
  · rw [mem_singleton.mp hc]
    exact not_mem_nil

/-- A directory is found by its text, with a slash behind it. -/
theorem Disk.resolve_dir {links : ℕ} (h : t.node p = some .dir) :
    t.resolve m links here (led slash p ++ [slash]) = some p := by
  have hwalk : ∀ follow, t.walkWith m follow [] (p ++ [[]]) = some p := by
    intro follow
    rw [walkWith_append (by rwa [nil_append]), nil_append, walkWith, if_pos (Or.inl rfl), walkWith]
  rw [resolve_led_slash fun c hc => (t.proper_of_mem (by rw [h]; rfl) c hc).2.2.2]
  cases links with
  | zero => exact hwalk _
  | succ links => exact hwalk _

theorem led_injective {p q : List (List α)} (hp : ∀ c ∈ p, slash ∉ c) (hq : ∀ c ∈ q, slash ∉ c)
    (h : led slash p = led slash q) : p = q := by
  cases p with
  | nil => cases q with
    | nil => rfl
    | cons c q => cases h
  | cons c p => cases q with
    | nil => cases h
    | cons d q =>
      have hsplit := congrArg (List.splitOn slash) h
      rw [splitOn_led (cons_ne_nil c p) hp, splitOn_led (cons_ne_nil d q) hq] at hsplit
      exact (List.cons.inj hsplit).2

omit [DecidableEq α] in
/-- A text and a slash in front of the text of a place: the text of a place above it. -/
theorem prefix_led {base : List α} {p : List (List α)} (hp : ∀ c ∈ p, slash ∉ c) (h : base ++ [slash] <+: led slash p) :
    ∃ q r, p = q ++ r ∧ r ≠ [] ∧ base = led slash q := by
  induction p generalizing base with
  | nil => exact absurd (prefix_nil.mp h) (by simp)
  | cons c p ih =>
    cases base with
    | nil => exact ⟨[], c :: p, rfl, cons_ne_nil c p, rfl⟩
    | cons b base =>
      rw [led_cons, cons_append, cons_append, cons_prefix_cons] at h
      obtain ⟨rfl, h⟩ := h
      obtain ⟨hc, hp⟩ := forall_mem_cons.mp hp
      obtain ⟨base, rfl⟩ : ∃ rest, base = c ++ rest := by
        rcases List.prefix_or_prefix_of_prefix h (prefix_append c (led slash p)) with hin | ⟨rest, hrest⟩
        · exact absurd (hin.subset (mem_append_right base (mem_singleton_self slash))) hc
        · rcases eq_nil_or_concat rest with rfl | ⟨rest, d, rfl⟩
          · rw [append_nil] at hrest
            exact absurd (hrest ▸ mem_append_right base (mem_singleton_self slash)) hc
          · rw [concat_eq_append, ← append_assoc] at hrest
            exact ⟨rest, (append_inj' hrest rfl).1.symm⟩
      rw [append_assoc, prefix_append_right_inj] at h
      obtain ⟨q, r, rfl, hr, rfl⟩ := ih hp h
      exact ⟨c :: q, r, rfl, hr, by rw [led_cons]; rfl⟩

omit [DecidableEq α] in
theorem led_prefix (q : List (List α)) {r : List (List α)} (hr : r ≠ []) :
    led slash q ++ [slash] <+: led slash (q ++ r) := by
  obtain ⟨c, r, rfl⟩ := exists_cons_of_ne_nil hr
  refine ⟨c ++ led slash r, ?_⟩
  rw [led, led, led, flatMap_append, flatMap_cons, append_assoc]
  rfl

/-! ## Changes to a tree -/

/-- The tree with something else at one place. -/
def Disk.put (t : Disk α) (p : List (List α)) (c : List α) (node : Node α) (hdir : t.node p = some .dir) (hc : Proper c)
    (hfree : t.node (p ++ [c]) ≠ some .dir) : Disk α where
  node q := if q = p ++ [c] then some node else t.node q
  root := by
    rw [if_neg (by simp)]
    exact t.root
  parent q d h := by
    by_cases heq : q ++ [d] = p ++ [c]
    · obtain ⟨rfl, hd⟩ := append_inj' heq rfl
      obtain rfl := (List.cons.inj hd).1
      rw [if_neg (by simp)]
      exact ⟨hdir, hc⟩
    · rw [if_neg heq] at h
      obtain ⟨hq, hd⟩ := t.parent q d h
      rw [if_neg fun hplace : q = p ++ [c] => hfree (hplace ▸ hq)]
      exact ⟨hq, hd⟩

def Disk.mkdir (t : Disk α) (p : List (List α)) (c : List α) : Option (Disk α) :=
  if h : t.node p = some .dir ∧ Proper c ∧ t.node (p ++ [c]) = none then
    some (t.put p c .dir h.1 h.2.1 (fun hdir => by rw [h.2.2] at hdir; cases hdir))
  else none

theorem Disk.mkdir_grew {t' : Disk α} {c : List α} (h : t.mkdir p c = some t') : t.Grew t' := by
  unfold mkdir at h
  split_ifs at h with hfree
  obtain rfl := Option.some.inj h
  intro q
  by_cases hq : q = p ++ [c]
  · exact Or.inr (Or.inl ⟨hq ▸ hfree.2.2, if_pos hq⟩)
  · exact Or.inl (if_neg hq)

/-- `mkdir -p`: the missing directories of a path are made, one by one. -/
def Disk.createDirectory (links : ℕ) : Disk α → List (List α) → List (List α) → Option (Disk α)
  | t, _, [] => some t
  | t, done, c :: rest =>
    match t.walk .stops links [] (done ++ [c]) with
    | some p => if t.node p = some .dir then createDirectory links t (done ++ [c]) rest else none
    | none =>
      match (t.walk .stops links [] done).bind (t.mkdir · c) with
      | some t => createDirectory links t (done ++ [c]) rest
      | none => none

theorem Disk.createDirectory_grew {links : ℕ} {t' : Disk α} {done rest : List (List α)}
    (h : t.createDirectory links done rest = some t') : t.Grew t' := by
  induction rest generalizing t done with
  | nil => exact Option.some.inj h ▸ Grew.refl t
  | cons c rest ih =>
    rw [createDirectory] at h
    cases hfound : t.walk .stops links [] (done ++ [c]) with
    | some q =>
      rw [hfound] at h
      dsimp only at h
      split_ifs at h
      exact ih h
    | none =>
      rw [hfound] at h
      dsimp only at h
      cases hmade : (t.walk .stops links [] done).bind (t.mkdir · c) with
      | none =>
        rw [hmade] at h
        exact nomatch h
      | some made =>
        rw [hmade] at h
        obtain ⟨q, -, hmkdir⟩ := Option.bind_eq_some_iff.mp hmade
        exact (mkdir_grew hmkdir).trans (ih h)

/-- A file is opened to be written, and made if it is not there: what stands where afterwards. -/
def Disk.create (t : Disk α) (links : ℕ) (path : List α) (content : List UInt8) : Option (Disk α × List (List α)) :=
  match t.resolve .ends links [] path with
  | none => none
  | some [] => none
  | some (d :: p) =>
    let c := (d :: p).getLast (cons_ne_nil d p)
    let q := (d :: p).dropLast
    if h : t.node q = some .dir ∧ Proper c ∧ (t.node (q ++ [c])).all Node.isFile = true then
      some (t.put q c (.file content) h.1 h.2.1 (fun hdir => by rw [hdir] at h; exact Bool.noConfusion h.2.2), d :: p)
    else none

/-- A walk that may end at a missing name ends where the file is made. -/
theorem Disk.walkWith_create {t' : Disk α} {content : List UInt8} (hnew : t'.node p = some (.file content))
    (hold : ∀ q, q ≠ p → t'.node q = t.node q) (hfree : (t.node p).all Node.isFile = true)
    {follow' : List (List α) → List (List α) → Option (List (List α))}
    (hfollow : ∀ here cs, follow here cs = some p → follow' here cs = some p) {cs : List (List α)}
    (h : t.walkWith .ends follow here cs = some p) : t'.walkWith .stops follow' here cs = some p := by
  induction cs generalizing here with
  | nil => exact h
  | cons c rest ih =>
    rw [walkWith] at h ⊢
    by_cases hblank : c = [] ∨ c = [dot]
    · rw [if_pos hblank] at h ⊢
      exact ih h
    by_cases hup : c = [dot, dot]
    · rw [if_neg hblank, if_pos hup] at h ⊢
      exact ih h
    rw [if_neg hblank, if_neg hup] at h ⊢
    by_cases hplace : here ++ [c] = p
    · -- the file itself, whether it was there or not
      rw [hplace] at h ⊢
      rw [hnew]
      by_cases hrest : rest = []
      · exact if_pos hrest
      · exfalso
        cases hnode : t.node p with
        | none =>
          rw [hnode] at h
          have hlets : ¬Missing.ends.lets rest.length = true := fun hlets =>
            hrest (length_eq_zero_iff.mp (beq_iff_eq.mp hlets))
          exact nomatch (if_neg hlets).symm.trans h
        | some node =>
          rw [hnode] at h hfree
          cases node with
          | file old => exact nomatch (if_neg hrest).symm.trans h
          | dir => exact Bool.noConfusion hfree
          | link target => exact Bool.noConfusion hfree
    · rw [hold _ hplace]
      cases hnode : t.node (here ++ [c]) with
      | none =>
        rw [hnode] at h
        by_cases hlets : Missing.ends.lets rest.length = true
        · have hend := (if_pos hlets).symm.trans h
          rw [length_eq_zero_iff.mp (beq_iff_eq.mp hlets)] at hend
          exact absurd (Option.some.inj hend) hplace
        · exact nomatch (if_neg hlets).symm.trans h
      | some node =>
        rw [hnode] at h
        cases node with
        | dir => exact ih h
        | file old => exact h
        | link target => exact hfollow _ _ h

theorem Disk.walk_create {t' : Disk α} {content : List UInt8} (hnew : t'.node p = some (.file content))
    (hold : ∀ q, q ≠ p → t'.node q = t.node q) (hfree : (t.node p).all Node.isFile = true) {links : ℕ}
    {cs : List (List α)} (h : t.walk .ends links here cs = some p) : t'.walk .stops links here cs = some p := by
  induction links generalizing here cs with
  | zero => exact walkWith_create hnew hold hfree (fun _ _ hnone => by cases hnone) h
  | succ links ih => exact walkWith_create hnew hold hfree (fun _ _ => ih) h

/-- What was written is where the path leads afterwards. -/
theorem Disk.create_spec {t' : Disk α} {links : ℕ} {path : List α} {content : List UInt8}
    (h : t.create links path content = some (t', p)) :
    t'.resolve .stops links [] path = some p ∧ t'.node p = some (.file content) ∧ t.Grew t' := by
  unfold create at h
  cases hplace : t.resolve .ends links [] path with
  | none => rw [hplace] at h; exact nomatch h
  | some place =>
    rw [hplace] at h
    cases place with
    | nil => exact nomatch h
    | cons d q =>
      dsimp only at h
      split_ifs at h with hopen
      obtain ⟨rfl, rfl⟩ := Prod.mk.inj (Option.some.inj h)
      have hparts := dropLast_append_getLast (cons_ne_nil d q)
      have hfree : (t.node (d :: q)).all Node.isFile = true := by
        rw [← hparts]
        exact hopen.2.2
      have hold : ∀ r, r ≠ d :: q → (if r = (d :: q).dropLast ++ [(d :: q).getLast (cons_ne_nil d q)] then
          some (Node.file content) else t.node r) = t.node r := fun r hr => if_neg fun heq => hr (heq.trans hparts)
      refine ⟨walk_create (show _ = some (Node.file content) from if_pos hparts.symm) hold hfree hplace,
        if_pos hparts.symm, fun r => ?_⟩
      by_cases hr : r = d :: q
      · exact Or.inr (Or.inr ⟨hr ▸ hfree, content, if_pos (hr.trans hparts.symm)⟩)
      · exact Or.inl (hold r hr)

end PtaasBench.Lib.Files
