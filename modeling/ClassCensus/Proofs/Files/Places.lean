import ClassCensus.Files.Tree
import ClassCensus.Proofs.Text.Order

/-!
# The places of a tree

The places of a tree are all that names lead to in it, in the order of the names.  What comes first
decides: a directory comes before what it holds, and what an entry holds comes before all entries
behind it.
-/

namespace ClassCensus.FileTree

variable {α : Type} {tree : FileTree α} {names : List String} {content : Option α}

/-! ## Proper trees -/

/-- What holds of all files, and of each directory if of all its entries, holds of all trees. -/
theorem entry_induction {motive : FileTree α → Prop} (file : ∀ content, motive (file content))
    (directory : ∀ entries, (∀ entry ∈ entries, motive entry.2) → motive (directory entries))
    (tree : FileTree α) : motive tree := by
  refine @FileTree.rec α motive (fun entries => ∀ entry ∈ entries, motive entry.2)
    (fun entry => motive entry.2) file directory ?_ ?_ (fun _ _ => id) tree
  · exact fun _ hentry => absurd hentry List.not_mem_nil
  · exact fun _ _ hfirst hothers => List.forall_mem_cons.mpr ⟨hfirst, hothers⟩

theorem entriesAreProper_iff {entries : List (String × FileTree α)} :
    EntriesAreProper entries ↔ ∀ entry ∈ entries, Path.IsName entry.1 ∧ entry.2.IsProper := by
  induction entries with
  | nil => simp [EntriesAreProper]
  | cons entry entries ih => rw [EntriesAreProper, ih, List.forall_mem_cons, and_assoc]

theorem lookup_eq_some_iff_mem {entries : List (String × FileTree α)}
    (hnames : (entries.map Prod.fst).Nodup) {name : String} {found : FileTree α} :
    entries.lookup name = some found ↔ (name, found) ∈ entries := by
  induction entries with
  | nil => simp
  | cons entry entries ih =>
      obtain ⟨first, there⟩ := entry
      obtain ⟨hfirst, hothers⟩ := List.nodup_cons.mp hnames
      rw [List.lookup_cons, List.mem_cons]
      by_cases hname : name = first
      · subst hname
        have habsent : (name, found) ∉ entries := fun hmem =>
          hfirst (List.mem_map.mpr ⟨_, hmem, rfl⟩)
        simp [habsent, eq_comm]
      · rw [beq_false_of_ne hname, ih hothers]
        simp [hname]

instance (name : String) : Decidable (Path.IsName name) :=
  inferInstanceAs (Decidable (_ ∧ _))

mutual

def decidableIsProper : (tree : FileTree α) → Decidable tree.IsProper
  | file _ => .isTrue trivial
  | directory entries =>
    letI := decidableEntriesAreProper entries
    inferInstanceAs (Decidable (_ ∧ _))

def decidableEntriesAreProper :
    (entries : List (String × FileTree α)) → Decidable (EntriesAreProper entries)
  | [] => .isTrue trivial
  | (_, tree) :: entries =>
    letI := decidableIsProper tree
    letI := decidableEntriesAreProper entries
    inferInstanceAs (Decidable (_ ∧ _ ∧ _))

end

instance (tree : FileTree α) : Decidable tree.IsProper := decidableIsProper tree

/-- What names lead to in a proper tree is proper, and each of the names is one. -/
theorem IsProper.under? (hproper : tree.IsProper) {found : FileTree α}
    (hfound : FileTree.under? names tree = some found) :
    found.IsProper ∧ ∀ name ∈ names, Path.IsName name := by
  induction names generalizing tree with
  | nil =>
      obtain rfl := Option.some.inj hfound
      exact ⟨hproper, by simp⟩
  | cons name names ih =>
      cases tree with
      | file content => cases hfound
      | directory entries =>
          obtain ⟨there, hlookup, hthere⟩ := Option.bind_eq_some_iff.mp hfound
          obtain ⟨hnames, hentries⟩ := hproper
          have hmem := (lookup_eq_some_iff_mem hnames).mp hlookup
          obtain ⟨hname, hentry⟩ := entriesAreProper_iff.mp hentries _ hmem
          obtain ⟨hproper, hothers⟩ := ih hentry hthere
          exact ⟨hproper, List.forall_mem_cons.mpr ⟨hname, hothers⟩⟩

/-! ## What the places are -/

/-- The content of a file; none for a directory. -/
def content? : FileTree α → Option α
  | file content => some content
  | directory _ => none

theorem placesByName_eq_map (entries : List (String × FileTree α)) :
    placesByName entries = entries.map fun entry => (entry.1, entry.2.places) := by
  induction entries with
  | nil => rfl
  | cons entry entries ih => rw [placesByName, ih, List.map_cons]

theorem places_directory (entries : List (String × FileTree α)) :
    (directory entries).places = ([], none) ::
      ((placesByName entries).mergeSort fun first second => decide (first.1 ≤ second.1)).flatMap
        fun row => row.2.map fun place => (row.1 :: place.1, place.2) :=
  rfl

theorem mem_places_directory {entries : List (String × FileTree α)} :
    (names, content) ∈ (directory entries).places ↔ (names = [] ∧ content = none) ∨
      ∃ entry ∈ entries, ∃ below, names = entry.1 :: below ∧ (below, content) ∈ entry.2.places := by
  rw [places_directory, List.mem_cons, Prod.mk.injEq]
  apply or_congr Iff.rfl
  simp only [List.mem_flatMap, List.mem_mergeSort, placesByName_eq_map, List.mem_map]
  constructor
  · rintro ⟨_, ⟨entry, hentry, rfl⟩, ⟨below, _⟩, hbelow, hplace⟩
    obtain ⟨rfl, rfl⟩ := Prod.mk.inj hplace
    exact ⟨entry, hentry, below, rfl, hbelow⟩
  · rintro ⟨entry, hentry, below, rfl, hbelow⟩
    exact ⟨_, ⟨entry, hentry, rfl⟩, _, hbelow, rfl⟩

/-- The places of a proper tree are what names lead to. -/
theorem mem_places_iff (hproper : tree.IsProper) :
    (names, content) ∈ tree.places ↔
      ∃ found, under? names tree = some found ∧ found.content? = content := by
  induction tree using entry_induction generalizing names with
  | file there =>
      cases names with
      | nil => simp [places, under?, content?, eq_comm]
      | cons name names => simp [places, under?]
  | directory entries ih =>
      obtain ⟨hnames, hentries⟩ := hproper
      rw [mem_places_directory]
      cases names with
      | nil => simp [under?, content?, eq_comm]
      | cons name below =>
          simp only [reduceCtorEq, false_and, false_or, List.cons.injEq, under?,
            Option.bind_eq_some_iff, lookup_eq_some_iff_mem hnames]
          constructor
          · rintro ⟨⟨_, there⟩, hentry, _, ⟨rfl, rfl⟩, hbelow⟩
            have hthere := (entriesAreProper_iff.mp hentries _ hentry).2
            obtain ⟨found, hfound, hcontent⟩ := (ih _ hentry hthere).mp hbelow
            exact ⟨found, ⟨there, hentry, hfound⟩, hcontent⟩
          · rintro ⟨found, ⟨there, hentry, hfound⟩, hcontent⟩
            have hthere := (entriesAreProper_iff.mp hentries _ hentry).2
            exact ⟨_, hentry, below, ⟨rfl, rfl⟩, (ih _ hentry hthere).mpr ⟨found, hfound, hcontent⟩⟩

theorem content?_eq_some_iff {there : α} : tree.content? = some there ↔ tree = file there := by
  cases tree <;> simp [content?]

/-! ## Their order -/

/-- The places of a proper tree are in the order of the names that lead to them. -/
theorem pairwise_places (hproper : tree.IsProper) :
    tree.places.Pairwise fun first second => first.1 < second.1 := by
  induction tree using entry_induction with
  | file there => exact List.pairwise_singleton _ _
  | directory entries ih =>
      obtain ⟨hnames, hentries⟩ := hproper
      have hkeys : ((placesByName entries).map Prod.fst).Nodup := by
        rwa [placesByName_eq_map, List.map_map]
      rw [places_directory, List.pairwise_cons, List.pairwise_flatMap]
      refine ⟨?_, ?_, (pairwise_mergeSort_lt hkeys).imp ?_⟩
      -- The directory comes before what it holds.
      · intro place hplace
        obtain ⟨row, -, hrow⟩ := List.mem_flatMap.mp hplace
        obtain ⟨below, -, rfl⟩ := List.mem_map.mp hrow
        exact List.nil_lt_cons _ _
      -- Under one name, what follows the name decides.
      · intro row hrow
        rw [List.mem_mergeSort, placesByName_eq_map] at hrow
        obtain ⟨entry, hentry, rfl⟩ := List.mem_map.mp hrow
        have hthere := (entriesAreProper_iff.mp hentries _ hentry).2
        exact List.pairwise_map.mpr ((ih _ hentry hthere).imp fun hless =>
          List.cons_lt_cons_iff.mpr (.inr ⟨rfl, hless⟩))
      -- Under two names, the names decide.
      · intro first second hless place hplace other hother
        obtain ⟨below, -, rfl⟩ := List.mem_map.mp hplace
        obtain ⟨beside, -, rfl⟩ := List.mem_map.mp hother
        exact List.cons_lt_cons_iff.mpr (.inl hless)

/-! ## Files -/

theorem mem_files_iff (hproper : tree.IsProper) {there : α} :
    (names, there) ∈ tree.files ↔ under? names tree = some (file there) := by
  have hplaces : (names, there) ∈ tree.files ↔ (names, some there) ∈ tree.places := by
    simp only [files, List.mem_filterMap, Prod.exists, Option.map_eq_some_iff, Prod.mk.injEq]
    constructor
    · rintro ⟨_, _, hplace, _, rfl, rfl, rfl⟩
      exact hplace
    · exact fun hplace => ⟨_, _, hplace, _, rfl, rfl, rfl⟩
  rw [hplaces, mem_places_iff hproper]
  simp [content?_eq_some_iff]

/-- The files of a proper tree are in the order of the names that lead to them. -/
theorem pairwise_files (hproper : tree.IsProper) :
    tree.files.Pairwise fun first second => first.1 < second.1 := by
  apply (pairwise_places hproper).filterMap
  rintro ⟨names, content⟩ ⟨others, beside⟩ hless file hfile other hother
  obtain ⟨_, -, rfl⟩ := Option.map_eq_some_iff.mp hfile
  obtain ⟨_, -, rfl⟩ := Option.map_eq_some_iff.mp hother
  exact hless

/-! ## Shapes -/

theorem shapes_eq_map (entries : List (String × FileTree α)) :
    shapes entries = entries.map fun entry => (entry.1, entry.2.shape) := by
  induction entries with
  | nil => rfl
  | cons entry entries ih => rw [shapes, ih, List.map_cons]

/-- A tree whose contents are forgotten has the same places. -/
theorem places_shape (tree : FileTree α) :
    tree.shape.places = tree.places.map fun place => (place.1, place.2.map fun _ => ()) := by
  induction tree using entry_induction with
  | file there => rfl
  | directory entries ih =>
      have hplaces : placesByName (shapes entries) = (placesByName entries).map fun row =>
          (row.1, row.2.map fun place => (place.1, place.2.map fun _ => ())) := by
        simp only [placesByName_eq_map, shapes_eq_map, List.map_map]
        exact List.map_congr_left fun entry hentry => congrArg _ (ih entry hentry)
      rw [shape, places_directory, places_directory, hplaces, List.map_cons, List.map_flatMap,
        ← List.map_mergeSort (r := fun first second => decide (first.1 ≤ second.1))
          fun _ _ _ _ => rfl, List.flatMap_map]
      simp only [List.map_map]
      rfl

end ClassCensus.FileTree
