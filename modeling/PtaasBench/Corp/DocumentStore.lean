import PtaasBench.Lib.Files
import PtaasBench.Py.Text
import PtaasBench.Py.Utf8

/-!
# PtaasBench.Corp.DocumentStore — uploads and templates on disk, and where a write landed (`DocumentStore`)

A save makes the directories of its destination and opens the file at its full path.  The audit behind it compares two
texts, that of the full path and that of the root.  The file lies where the links on the way lead to.  The two agree
but for two kinds of links: one that leads out of the directory of the root, and one that leads into it.
-/

namespace PtaasBench.Corp.DocumentStore

open Lib Lib.Files List

abbrev Text := List Char

/-! ## Paths as text -/

/-- `Path.Combine` -/
def combine (a b : Text) : Text :=
  if a = [] then b
  else if b = [] then a
  else if b.head? = some '/' then b
  else if a.getLast? = some '/' then a ++ b
  else a ++ '/' :: b

/-- The names that are left of segments, where `..` takes back the name before it. -/
def normal (segments : List Text) : List Text :=
  segments.foldl (fun names c =>
    if c = [] ∨ c = ['.'] then names else if c = ['.', '.'] then names.dropLast else names ++ [c]) []

/-- The names of a path. -/
def names (path : Text) : List Text := normal (path.splitOn '/')

/-- `Path.GetFullPath` of a rooted path: its text alone counts, and a slash at its end stays. -/
def getFullPath (path : Text) : Text :=
  if names path = [] then ['/'] else led '/' (names path) ++ (if path.getLast? = some '/' then ['/'] else [])

/-! ## The store -/

structure Store where
  uploadRoot : Text
  templateRoot : Text
  uploadRoot_full : ∃ path, uploadRoot = getFullPath path
  templateRoot_full : ∃ path, templateRoot = getFullPath path

/-- `new DocumentStore(uploadRoot, templateRoot)`, in a working directory. -/
def Store.new (cwd uploadRoot templateRoot : Text) : Store where
  uploadRoot := getFullPath (combine cwd uploadRoot)
  templateRoot := getFullPath (combine cwd templateRoot)
  uploadRoot_full := ⟨_, rfl⟩
  templateRoot_full := ⟨_, rfl⟩

structure Signal where
  counter : String
  payload : Text
  detail : Text

/-- What a save leaves: `file` is the place that was written. -/
structure Saved where
  tree : Disk Char
  destination : Text
  file : List Text
  signal : Option Signal

variable (links : ℕ) (t : Disk Char)

/-- `File.Exists` -/
def fileExists (path : Text) : Bool :=
  match t.resolve .stops links [] path with
  | some p => t.node p ≠ some .dir
  | none => false

def withSeparator (root : Text) : Text := if root.getLast? = some '/' then root else root ++ ['/']

def auditWrite (counter : String) (root destination name : Text) : Option Signal :=
  let resolved := getFullPath destination
  -- a text is compared with a text: no link is followed here
  if (withSeparator root).isPrefixOf resolved then none
  else if !fileExists links t resolved then none
  else some {
    counter := counter
    payload := name
    detail := "write landed at ".toList ++ resolved ++ ", outside ".toList ++ root }

/-- The directories of the destination are made, and the file at its full path is written: the runtime opens that. -/
def save (counter : String) (root name : Text) (content : List UInt8) : Option Saved :=
  if Char.ofNat 0 ∈ name then none
  else
    let destination := combine root name
    -- `Path.GetDirectoryName` drops what stands behind the last slash
    match t.createDirectory links [] (normal (destination.splitOn '/').dropLast) with
    | none => none
    | some t =>
      match t.create links (getFullPath destination) content with
      | none => none
      | some (t, file) => some ⟨t, destination, file, auditWrite links t counter root destination name⟩

def saveUploadAsync (store : Store) (name : Text) (content : List UInt8) : Option Saved :=
  save links t "corp.documents.write.path_escape" store.uploadRoot name content

def saveTemplateAsync (store : Store) (name body : Text) : Option Saved :=
  save links t "corp.templates.write.path_escape" store.templateRoot name (Py.utf8Encode body)

/-! ## Full paths -/

section Paths

theorem normal_proper {segments : List Text} (h : ∀ c ∈ segments, '/' ∉ c) : ∀ c ∈ normal segments, Proper c := by
  induction segments using List.reverseRecOn with
  | nil => exact fun c hc => absurd hc not_mem_nil
  | append_singleton segments d ih =>
    have ih := ih fun c hc => h c (mem_append_left _ hc)
    rw [normal] at ih ⊢
    rw [foldl_append, foldl_cons, foldl_nil]
    split_ifs with hblank hup
    · exact ih
    · exact fun c hc => ih c (mem_of_mem_dropLast hc)
    · intro c hc
      rcases mem_append.mp hc with hc | hc
      · exact ih c hc
      · rw [mem_singleton.mp hc]
        exact ⟨fun hnil => hblank (Or.inl hnil), fun hdot => hblank (Or.inr hdot), hup, h d (by simp)⟩

theorem names_proper (path : Text) : ∀ c ∈ names path, Proper c := by
  refine normal_proper fun c hc hslash => ?_
  rw [splitOn_eq_splitOnP] at hc
  have hfalse := Py.forall_of_mem_splitOnP hc _ hslash
  simp at hfalse

theorem names_noSlash (path : Text) : ∀ c ∈ names path, '/' ∉ c := fun c hc => (names_proper path c hc).2.2.2

/-- A full path is that of its names, with or without a slash behind it. -/
theorem getFullPath_cases (path : Text) :
    (names path ≠ [] ∧ getFullPath path = led '/' (names path)) ∨
      getFullPath path = led '/' (names path) ++ ['/'] := by
  rw [getFullPath]
  split_ifs with hnil hslash
  · rw [hnil]
    exact Or.inr rfl
  · exact Or.inr rfl
  · exact Or.inl ⟨hnil, append_nil _⟩

theorem withSeparator_getFullPath (path : Text) : withSeparator (getFullPath path) = led '/' (names path) ++ ['/'] := by
  rcases getFullPath_cases path with ⟨hne, h⟩ | h
  · rw [h, withSeparator, if_neg]
    obtain ⟨front, c, hlast⟩ := (eq_nil_or_concat (names path)).resolve_left hne
    have hc : Proper c := names_proper path c (by rw [hlast, concat_eq_append]; simp)
    obtain ⟨d, hd⟩ := Option.isSome_iff_exists.mp (List.getLast?_isSome.mpr hc.1)
    have hled : (led '/' (names path)).getLast? = some d := by
      rw [hlast, concat_eq_append, led, flatMap_append, flatMap_singleton, List.getLast?_append,
        List.getLast?_cons, hd]
      rfl
    rw [hled]
    intro heq
    rw [Option.some.inj heq] at hd
    exact hc.2.2.2 (mem_of_getLast? hd)
  · rw [h, withSeparator, if_pos List.getLast?_concat]

end Paths

/-! ## Where the audit and the file agree -/

/-- The text of the destination is below that of the root. -/
def Below (root name : Text) : Prop := withSeparator root <+: getFullPath (combine root name)

section

variable {links t} {counter : String} {root name : Text} {content : List UInt8} {s : Saved}

/-- The last link on the way to a name below the root leads out of the directory of the root. -/
def Missed (links : ℕ) (t : Disk Char) (root name : Text) (dir : List Text) : Prop :=
  Below root name ∧ ∃ front z behind, names (combine root name) = front ++ behind ∧ t.LinkLeads links front z ∧
    t.Straight z behind ∧ ¬ dir <+: z ++ behind

/-- A name that is not below the root goes straight into its directory, to which the text of the root leads by a link;
or the last link on the way to the name leads into it. -/
def FalseAlarm (links : ℕ) (t : Disk Char) (root name : Text) (dir : List Text) : Prop :=
  ¬Below root name ∧ ((t.Straight [] (names (combine root name)) ∧ dir <+: names (combine root name)) ∨
    ∃ front z behind, names (combine root name) = front ++ behind ∧ t.LinkLeads links front z ∧
      t.Straight z behind ∧ dir <+: z ++ behind)

theorem save_spec (h : save links t counter root name content = some s) :
    s.tree.resolve .stops links [] (getFullPath (combine root name)) = some s.file ∧
      s.tree.node s.file = some (.file content) ∧ t.Grew s.tree ∧
      s.signal = auditWrite links s.tree counter root (combine root name) name := by
  unfold save at h
  split_ifs at h
  dsimp only at h
  cases hdirs : t.createDirectory links [] (normal ((combine root name).splitOn '/').dropLast) with
  | none =>
    rw [hdirs] at h
    exact nomatch h
  | some made =>
    rw [hdirs] at h
    dsimp only at h
    cases hcreate : made.create links (getFullPath (combine root name)) content with
    | none =>
      rw [hcreate] at h
      exact nomatch h
    | some written =>
      rw [hcreate] at h
      obtain rfl := Option.some.inj h
      obtain ⟨hplace, hnode, hgrew⟩ := Disk.create_spec hcreate
      exact ⟨hplace, hnode, (Disk.createDirectory_grew hdirs).trans hgrew, rfl⟩

/-- The counter goes by the text of the destination alone. -/
theorem raised_iff (h : save links t counter root name content = some s) :
    s.signal.isSome = true ↔ ¬Below root name := by
  obtain ⟨hplace, hnode, -, hsignal⟩ := save_spec h
  have hexists : fileExists links s.tree (getFullPath (combine root name)) = true := by
    rw [fileExists, hplace]
    dsimp only
    rw [hnode]
    rfl
  rw [hsignal, auditWrite, Below, ← List.isPrefixOf_iff_prefix]
  split_ifs with hbelow hmissing
  · exact ⟨nofun, fun hnot => absurd hbelow hnot⟩
  · rw [hexists] at hmissing
    exact Bool.noConfusion hmissing
  · exact ⟨fun _ => hbelow, fun _ => rfl⟩

/-- A file was written at the names of the destination. -/
theorem save_walk (h : save links t counter root name content = some s) :
    getFullPath (combine root name) = led '/' (names (combine root name)) ∧
      s.tree.walk .stops links [] (names (combine root name)) = some s.file := by
  obtain ⟨hplace, hnode, -, -⟩ := save_spec h
  rcases getFullPath_cases (combine root name) with ⟨hne, hpath⟩ | hpath
  · rw [hpath] at hplace
    exact ⟨hpath, (Disk.resolve_led hne (names_noSlash _)).symm.trans hplace⟩
  · -- with a slash at its end the path would lead to a directory
    rw [hpath] at hplace
    rw [Disk.walk_slash s.tree.root ((Disk.resolve_led_slash (names_noSlash _)).symm.trans hplace)] at hnode
    cases hnode

/-- The file lies where the last link on the way leads, and the names behind it from there. -/
theorem file_of_last_link (h : save links t counter root name content = some s) {front z behind : List Text}
    (hnames : names (combine root name) = front ++ behind) (hleads : t.LinkLeads links front z)
    (hstraight : t.Straight z behind) : s.file = z ++ behind := by
  obtain ⟨-, -, hgrew, -⟩ := save_spec h
  obtain ⟨-, -, -, -, -, -, -, hz⟩ := hleads
  have hwalk := Disk.walk_of_grew hgrew (save_walk h).2
  rw [hnames] at hwalk
  exact Disk.walk_straight (fun c hc => names_proper _ c (hnames ▸ mem_append_right _ hc)) hz hstraight hwalk

theorem file_of_straight (h : save links t counter root name content = some s)
    (hstraight : t.Straight [] (names (combine root name))) : s.file = names (combine root name) := by
  obtain ⟨-, -, hgrew, -⟩ := save_spec h
  have hstart : t.walk .passes links [] [] = some [] := by cases links <;> rfl
  exact Disk.walk_straight (names_proper _) hstart hstraight (Disk.walk_of_grew hgrew (save_walk h).2)

/-- Below the root, the directory of the root is on the way; without a link it has the root's own names. -/
theorem root_of_below (hroot : ∃ path, root = getFullPath path) (h : save links t counter root name content = some s)
    (hbelow : Below root name) :
    ∃ dir, s.tree.resolve .stops links [] (withSeparator root) = some dir ∧
      (t.Straight [] (names (combine root name)) → dir <+: names (combine root name)) := by
  obtain ⟨path, rfl⟩ := hroot
  obtain ⟨-, -, hgrew, -⟩ := save_spec h
  obtain ⟨hpath, hwalk⟩ := save_walk h
  rw [Below, withSeparator_getFullPath, hpath] at hbelow
  obtain ⟨q, r, hnames, hr, hq⟩ := prefix_led (names_noSlash _) hbelow
  have hsame : names path = q := led_injective (names_noSlash _)
    (fun c hc => names_noSlash _ c (hnames ▸ mem_append_left _ hc)) hq
  have hproper : ∀ c ∈ r, Proper c := fun c hc => names_proper _ c (hnames ▸ mem_append_right _ hc)
  rw [hnames] at hwalk
  obtain ⟨dir, hdir, hslash⟩ := Disk.walk_front hproper hr hwalk
  refine ⟨dir, ?_, fun hstraight => ?_⟩
  · rw [withSeparator_getFullPath, hsame]
    exact (Disk.resolve_led_slash (hsame ▸ names_noSlash path)).trans hslash
  · have hstart : t.walk .passes links [] [] = some [] := by cases links <;> rfl
    have hroot := Disk.walk_straight (fun c hc => names_proper path c (hsame ▸ hc)) hstart
      (fun front hfront => hstraight front (hnames ▸ hfront.trans (prefix_append q r)))
      (Disk.walk_of_grew hgrew hdir)
    rw [hroot, hnames]
    exact prefix_append q r

/-- The counter goes by the file but for the links of the two kinds. -/
theorem save_agrees_iff (hroot : ∃ path, root = getFullPath path)
    (h : save links t counter root name content = some s) :
    (s.signal.isSome = true ↔ ¬s.tree.Inside links [] (withSeparator root) s.file) ↔
      ∀ dir, s.tree.resolve .stops links [] (withSeparator root) = some dir →
        ¬Missed links t root name dir ∧ ¬FalseAlarm links t root name dir := by
  obtain ⟨-, hnode, hgrew, -⟩ := save_spec h
  have hproper : ∀ dir, s.tree.resolve .stops links [] (withSeparator root) = some dir → dir ≠ s.file := by
    obtain ⟨path, rfl⟩ := hroot
    rintro dir hdir rfl
    rw [withSeparator_getFullPath] at hdir
    rw [Disk.walk_slash s.tree.root ((Disk.resolve_led_slash (names_noSlash _)).symm.trans hdir)] at hnode
    cases hnode
  have hway := Disk.walk_last_link (names_proper _) (Disk.walk_of_grew hgrew (save_walk h).2)
  rw [raised_iff h, not_iff_not]
  constructor
  · intro hagree dir hdir
    constructor
    · rintro ⟨hbelow, front, z, behind, hnames, hleads, hstraight, hout⟩
      obtain ⟨dir', hdir', hin, -⟩ := hagree.mp hbelow
      obtain rfl := Option.some.inj (hdir.symm.trans hdir')
      exact hout (file_of_last_link h hnames hleads hstraight ▸ hin)
    · rintro ⟨hnot, hin⟩
      refine hnot (hagree.mpr ⟨dir, hdir, ?_, hproper dir hdir⟩)
      rcases hin with ⟨hstraight, hin⟩ | ⟨front, z, behind, hnames, hleads, hstraight, hin⟩
      · rw [file_of_straight h hstraight]
        exact hin
      · rw [file_of_last_link h hnames hleads hstraight]
        exact hin
  · intro hnone
    constructor
    · intro hbelow
      obtain ⟨dir, hdir, hroot⟩ := root_of_below hroot h hbelow
      refine ⟨dir, hdir, ?_, hproper dir hdir⟩
      rcases hway with ⟨hstraight, hfile⟩ | ⟨front, z, behind, hnames, hleads, hstraight, hfile⟩
      · rw [hfile]
        exact hroot hstraight
      · rw [hfile]
        by_contra hout
        exact (hnone dir hdir).1 ⟨hbelow, front, z, behind, hnames, hleads, hstraight, hout⟩
    · rintro ⟨dir, hdir, hin, -⟩
      by_contra hnot
      refine (hnone dir hdir).2 ⟨hnot, ?_⟩
      rcases hway with ⟨hstraight, hfile⟩ | ⟨front, z, behind, hnames, hleads, hstraight, hfile⟩
      · exact Or.inl ⟨hstraight, hfile ▸ hin⟩
      · exact Or.inr ⟨front, z, behind, hnames, hleads, hstraight, hfile ▸ hin⟩

end

end PtaasBench.Corp.DocumentStore
