import ClassCensus.Proofs.Collection.Archives
import ClassCensus.Proofs.Files.Paths
import ClassCensus.Proofs.Files.Reading

/-!
# Class files under directories

A directory stands for what the files under it stand for, file by file in the order of the names
that lead to them.  A directory that no path leads to or an archive that cannot be read keeps all
of it from being collected, and nothing else does.
-/

namespace ClassCensus.Collection

open FileTree ClassCensus.Path

/-! ## What files stand for -/

/-- That the last one of names is that of a class file. -/
def NamesClassFile (names : List String) : Prop := NamesHaveExtension names classExtension

/-- That the last one of names is that of an archive. -/
def NamesArchive (names : List String) : Prop :=
  ∃ extension ∈ archiveExtensions, NamesHaveExtension names extension

/-- The resources of a file that names lead to from the directory at a path. -/
inductive Yields (path : String) : List String × List UInt8 → List Resource → Prop
  | classFile {names : List String} {octets : List UInt8} : NamesClassFile names →
    Yields path (names, octets) [.new (descendant path names) (.file (descendant path names))]
  | archive {names : List String} {octets : List UInt8} {members : List (String × List UInt8)} :
    NamesArchive names → Holds octets members →
    Yields path (names, octets) (members.map (memberResource (descendant path names)))
  | other {names : List String} {octets : List UInt8} : ¬ NamesClassFile names →
    ¬ NamesArchive names → Yields path (names, octets) []

/-- That what names lead to from the directory at a path keeps resources from being collected. -/
inductive Blocks (path : String) (names : List String) : FileTree (List UInt8) → Prop
  | directory {entries : List (String × FileTree (List UInt8))} :
    fault? (descendant path names) ≠ none → Blocks path names (.directory entries)
  | unread {octets : List UInt8} : NamesArchive names → fault? (descendant path names) ≠ none →
    Blocks path names (.file octets)
  | damaged {octets : List UInt8} : NamesArchive names → IsDamaged octets →
    Blocks path names (.file octets)

theorem NamesClassFile.not_namesArchive {names : List String} (hclass : NamesClassFile names) :
    ¬ NamesArchive names := by
  rintro ⟨extension, hextension, hnamed⟩
  obtain rfl := hnamed.unique hclass
  exact absurd hextension (by decide)

theorem not_blocks_file {path : String} {names : List String} {octets : List UInt8}
    (hnone : ¬ NamesArchive names) : ¬ Blocks path names (.file octets) := by
  intro hblocks
  cases hblocks with
  | unread hnamed _ => exact hnone hnamed
  | damaged hnamed _ => exact hnone hnamed

/-! ## Place by place -/

theorem run_ofFile_of_error {reader : FileReader Id} {path : String} {fault : FileFault}
    (harchive : FileKind.ofPath path = .archive) (hread : reader path = .error fault) :
    (ofFile reader path).run = .error ⟨path, .unreadable⟩ := by
  rw [ofFile, harchive]
  refine (run_liftM_bind _ _).trans ?_
  rw [hread]
  rfl

theorem run_ofFile_of_ok {reader : FileReader Id} {path : String} {octets : List UInt8}
    (harchive : FileKind.ofPath path = .archive) (hread : reader path = .ok octets) :
    (ofFile reader path).run = (archiveResources path octets.toArray).mapError fun fault =>
      ⟨path, causeOf fault⟩ := by
  rw [ofFile, harchive]
  refine (run_liftM_bind _ _).trans ?_
  rw [hread]
  refine (pure_bind (m := Id) (Except.ok octets) _).trans ?_
  dsimp only
  cases archiveResources path octets.toArray <;> rfl

/-- The resources of a place under the directory at a path, which has some if it is a file. -/
def YieldsPlace (path : String) (place : List String × Option (List UInt8)) (row : List Resource) :
    Prop :=
  match place with
  | (names, some octets) => Yields path (names, octets) row
  | (_, none) => row = []

/-- What names lead to either is collected or keeps resources from being collected. -/
inductive ComesTo (path : String) (names : List String) (there : FileTree (List UInt8)) :
    Except CollectionFault (List Resource) → Prop
  | collected {row : List Resource} : ¬ Blocks path names there →
    YieldsPlace path (names, there.content?) row → ComesTo path names there (.ok row)
  | blocked {cause : CollectionCause} : Blocks path names there →
    ComesTo path names there (.error ⟨descendant path names, cause⟩)

/-- The resources of places are those of the files among them. -/
theorem exists_rows_of_places {path : String} {places : List (List String × Option (List UInt8))}
    {rows : List (List Resource)} (hrows : List.Forall₂ (YieldsPlace path) places rows) :
    ∃ fileRows, List.Forall₂ (Yields path)
      (places.filterMap fun (names, content) => content.map fun content => (names, content))
      fileRows ∧ fileRows.flatten = rows.flatten := by
  induction hrows with
  | nil => exact ⟨[], .nil, rfl⟩
  | @cons place row places rows hrow hrows ih =>
      obtain ⟨fileRows, hfileRows, hflatten⟩ := ih
      obtain ⟨names, _ | octets⟩ := place
      · obtain rfl : row = [] := hrow
        exact ⟨fileRows, hfileRows, hflatten⟩
      · refine ⟨row :: fileRows, .cons hrow hfileRows, ?_⟩
        rw [List.flatten_cons, List.flatten_cons, hflatten]

theorem run_ofPath {tree found : FileTree (List UInt8)} {path : String}
    (hfind : tree.find path = .ok found) :
    (ofPath access path).run.run tree = ((ofTree tree.reader path found.shape).run, tree) := by
  have hlook : tree.still.look path = .ok found.shape := congrArg (Except.map shape) hfind
  refine (agree_ofPath tree path).trans (congrArg (fun answer => (answer, tree)) ?_)
  refine (run_liftM_bind _ _).trans ?_
  rw [hlook]
  rfl

section Directory

variable {tree : FileTree (List UInt8)} {entries : List (String × FileTree (List UInt8))}
  {path : String} {names : List String}
  (hfind : tree.find path = .ok (.directory entries)) (hproper : (directory entries).IsProper)

include hfind hproper

theorem comesTo_file {octets : List UInt8}
    (hthere : under? names (directory entries) = some (.file octets)) :
    ComesTo path names (.file octets) (ofFile tree.reader (descendant path names)).run := by
  have hsome : names ≠ [] := by
    rintro rfl
    cases hthere
  have hnames := (hproper.under? hthere).2
  have hclass : FileKind.ofPath (descendant path names) = .classFile ↔ NamesClassFile names :=
    FileKind.ofPath_descendant_eq_classFile_iff hsome hnames
  have harchive : FileKind.ofPath (descendant path names) = .archive ↔ NamesArchive names :=
    FileKind.ofPath_descendant_eq_archive_iff hsome hnames
  cases hkind : FileKind.ofPath (descendant path names) with
  | classFile =>
      have hnamed := hclass.mp hkind
      have hrun : (ofFile tree.reader (descendant path names)).run =
          .ok [.new (descendant path names) (.file (descendant path names))] := by
        rw [ofFile, hkind]
        rfl
      rw [hrun]
      exact .collected (not_blocks_file hnamed.not_namesArchive) (Yields.classFile hnamed)
  | archive =>
      have hnamed := harchive.mp hkind
      cases hread : tree.reader (descendant path names) with
      | error fault =>
          rw [run_ofFile_of_error hkind hread]
          refine .blocked (.unread hnamed fun hfault => ?_)
          have hok := (read_descendant_eq_ok_iff hfind hproper hthere).mpr ⟨hfault, rfl⟩
          cases hok.symm.trans hread
      | ok found =>
          obtain ⟨hfault, rfl⟩ := (read_descendant_eq_ok_iff hfind hproper hthere).mp hread
          rw [run_ofFile_of_ok hkind hread]
          cases hresources : archiveResources (descendant path names) found.toArray with
          | error fault =>
              exact .blocked (.damaged hnamed (isDamaged_of_archiveResources hresources))
          | ok row =>
              obtain ⟨members, hholds, rfl⟩ := exists_holds_of_archiveResources hresources
              refine .collected (fun hblocks => ?_) (Yields.archive hnamed hholds)
              cases hblocks with
              | unread _ hlong => exact hlong hfault
              | damaged _ hdamaged => exact hdamaged.archiveResources_ne_ok _ _ hresources
  | other =>
      have hclassless : ¬ NamesClassFile names := fun hnamed =>
        absurd (hkind.symm.trans (hclass.mpr hnamed)) (by decide)
      have hnone : ¬ NamesArchive names := fun hnamed =>
        absurd (hkind.symm.trans (harchive.mpr hnamed)) (by decide)
      have hrun : (ofFile tree.reader (descendant path names)).run = .ok [] := by
        rw [ofFile, hkind]
        rfl
      rw [hrun]
      exact .collected (not_blocks_file hnone) (Yields.other hclassless hnone)

theorem comesTo_place {there : FileTree (List UInt8)}
    (hthere : under? names (directory entries) = some there) :
    ComesTo path names there
      (ofPlace tree.reader path (names, there.content?.map fun _ => ())).run := by
  cases there with
  | file octets => exact comesTo_file hfind hproper hthere
  | directory others =>
      simp only [content?, Option.map_none, ofPlace]
      split_ifs with hfault
      · exact .blocked (.directory (Option.isSome_iff_ne_none.mp hfault))
      · refine .collected (fun hblocks => ?_) rfl
        cases hblocks with
        | directory hlong => exact hfault (Option.isSome_iff_ne_none.mpr hlong)

/-! ## One place after the other -/

/-- A directory that is collected has nothing that would keep it from being, and the resources are
those of its files. -/
theorem exists_rows_of_ofTree {resources : List Resource}
    (hrun : (ofTree tree.reader path (directory entries).shape).run = .ok resources) :
    (∀ names there, under? names (directory entries) = some there → ¬ Blocks path names there) ∧
      ∃ rows, List.Forall₂ (Yields path) (directory entries).files rows ∧
        rows.flatten = resources := by
  obtain ⟨rows, hrows, hresources⟩ := run_bind_eq_ok_iff.mp hrun
  rw [run_mapM_eq_ok_iff, places_shape, List.forall₂_map_left_iff] at hrows
  constructor
  · intro names there hthere
    obtain ⟨row, -, hrow⟩ := exists_of_forall₂ hrows
      ((mem_places_iff hproper).mpr ⟨there, hthere, rfl⟩)
    have hcomes := comesTo_place hfind hproper hthere
    rw [hrow] at hcomes
    cases hcomes with
    | collected hfree hyields => exact hfree
  · have hplaces : List.Forall₂ (YieldsPlace path) (directory entries).places rows := by
      have hmem := (List.forall₂_and_left _ _).mpr ⟨fun place hplace => hplace, hrows⟩
      refine hmem.imp ?_
      rintro ⟨names, content⟩ row ⟨hplace, hrow⟩
      obtain ⟨there, hthere, rfl⟩ := (mem_places_iff hproper).mp hplace
      have hcomes := comesTo_place hfind hproper hthere
      rw [hrow] at hcomes
      cases hcomes with
      | collected hfree hyields => exact hyields
    obtain ⟨fileRows, hfileRows, hflatten⟩ := exists_rows_of_places hplaces
    exact ⟨fileRows, hfileRows, hflatten.trans (Except.ok.inj hresources)⟩

/-- Where a directory is not collected, the fault names what keeps it from being. -/
theorem exists_blocks_of_ofTree {fault : CollectionFault}
    (hrun : (ofTree tree.reader path (directory entries).shape).run = .error fault) :
    ∃ names there, under? names (directory entries) = some there ∧ Blocks path names there ∧
      fault.path = descendant path names := by
  rcases run_bind_eq_error_iff.mp hrun with hplaces | ⟨rows, -, hpure⟩
  · obtain ⟨_, hplace, hfault⟩ := exists_of_run_mapM_eq_error hplaces
    rw [places_shape] at hplace
    obtain ⟨⟨names, content⟩, hmem, rfl⟩ := List.mem_map.mp hplace
    obtain ⟨there, hthere, rfl⟩ := (mem_places_iff hproper).mp hmem
    have hcomes := comesTo_place hfind hproper hthere
    rw [hfault] at hcomes
    cases hcomes with
    | blocked hblocks => exact ⟨names, there, hthere, hblocks, rfl⟩
  · cases hpure

/-- A directory is collected unless something keeps it from being. -/
theorem exists_rows_of_ofPath
    (hfree : ∀ names there, under? names (directory entries) = some there →
      ¬ Blocks path names there) :
    ∃ rows, List.Forall₂ (Yields path) (directory entries).files rows ∧
      (ofPath access path).run.run tree = (.ok rows.flatten, tree) := by
  rw [run_ofPath hfind]
  cases hcollect : (ofTree tree.reader path (directory entries).shape).run with
  | error fault =>
      obtain ⟨names, there, hthere, hblocks, -⟩ := exists_blocks_of_ofTree hfind hproper hcollect
      exact absurd hblocks (hfree names there hthere)
  | ok resources =>
      obtain ⟨-, rows, hrows, rfl⟩ := exists_rows_of_ofTree hfind hproper hcollect
      exact ⟨rows, hrows, rfl⟩

end Directory

/-- Files under a directory are collected one after the other in the order of the octets of the
names that lead to them, each with just the resources that it stands for, unless a directory or an
archive under the directory cannot be read; then none is. -/
theorem ofPath_directory {tree : FileTree (List UInt8)} {path : String}
    {entries : List (String × FileTree (List UInt8))} (hproper : tree.IsProper)
    (hfind : tree.find path = .ok (.directory entries)) :
    (∀ names octets, (names, octets) ∈ (directory entries).files ↔
      under? names (directory entries) = some (.file octets)) ∧
    (∀ names octets, (names, octets) ∈ (directory entries).files →
      fault? (descendant path names) = none →
        tree.read (descendant path names) = .ok octets) ∧
    ((directory entries).files.Pairwise fun first second =>
      first.1.map (fun name => Utf8.encode name.toList) <
        second.1.map fun name => Utf8.encode name.toList) ∧
    ((∀ names there, under? names (directory entries) = some there → ¬ Blocks path names there) →
      ∃ rows, List.Forall₂ (Yields path) (directory entries).files rows ∧
        (ofPath access path).run.run tree = (.ok rows.flatten, tree)) ∧
    ((∃ names there, under? names (directory entries) = some there ∧ Blocks path names there) →
      ∃ names there cause, under? names (directory entries) = some there ∧
        Blocks path names there ∧
        (ofPath access path).run.run tree = (.error ⟨descendant path names, cause⟩, tree)) := by
  obtain ⟨place, -, hplace⟩ := find_eq_ok_iff.mp hfind
  have hdirectory := (hproper.under? hplace).1
  refine ⟨fun names octets => mem_files_iff hdirectory, ?_,
    (pairwise_files hdirectory).imp fun hless => Utf8.map_encode_lt hless,
    exists_rows_of_ofPath hfind hdirectory, ?_⟩
  · intro names octets hmem hfault
    have hthere := (mem_files_iff hdirectory).mp hmem
    exact (read_descendant_eq_ok_iff hfind hdirectory hthere).mpr ⟨hfault, rfl⟩
  · rintro ⟨names, there, hthere, hblocks⟩
    rw [run_ofPath hfind]
    cases hcollect : (ofTree tree.reader path (directory entries).shape).run with
    | error fault =>
        obtain ⟨others, other, hother, hblocks, hpath⟩ :=
          exists_blocks_of_ofTree hfind hdirectory hcollect
        exact ⟨others, other, fault.cause, hother, hblocks, by rw [← hpath]⟩
    | ok resources =>
        obtain ⟨hfree, -⟩ := exists_rows_of_ofTree hfind hdirectory hcollect
        exact absurd hblocks (hfree names there hthere)

/-- A directory with a directory, a class file, an archive and a text. -/
def soundEntries : List (String × FileTree (List UInt8)) :=
  [("a", .directory [("B.CLASS", .file [])]), ("a-b.class", .file []),
    ("lib.Jar", .file (oneFileArchive "A.class")), ("notes.txt", .file [])]

/-- A directory with a class file and a file that is no archive for all its name. -/
def brokenEntries : List (String × FileTree (List UInt8)) :=
  [("C.class", .file []), ("lib.jar", .file [0x50])]

def soundAndBroken : FileTree (List UInt8) :=
  .directory [("sound", .directory soundEntries), ("broken", .directory brokenEntries)]

theorem places_soundEntries : (directory soundEntries).places = [([], none), (["a"], none),
    (["a", "B.CLASS"], some []), (["a-b.class"], some []),
    (["lib.Jar"], some (oneFileArchive "A.class")), (["notes.txt"], some [])] := by
  rw [places_directory, List.mergeSort_of_pairwise (by decide +kernel)]
  simp only [soundEntries, placesByName, places, List.mergeSort_singleton]
  rfl

theorem places_brokenEntries : (directory brokenEntries).places =
    [([], none), (["C.class"], some []), (["lib.jar"], some [0x50])] := by
  rw [places_directory, List.mergeSort_of_pairwise (by decide +kernel)]
  rfl

/-- What keeps a directory from being collected can be found by computing. -/
theorem Blocks.fault_or_damaged {entries : List (String × FileTree (List UInt8))} {path : String}
    {names : List String} {there : FileTree (List UInt8)}
    (hproper : (FileTree.directory entries).IsProper)
    (hthere : under? names (FileTree.directory entries) = some there)
    (hblocks : Blocks path names there) :
    fault? (descendant path names) ≠ none ∨ ∃ octets, there.content? = some octets ∧
      FileKind.ofPath (descendant path names) = .archive ∧ IsDamaged octets := by
  cases hblocks with
  | directory hfault => exact .inl hfault
  | unread hnamed hfault => exact .inl hfault
  | damaged hnamed hdamaged =>
      have hsome : names ≠ [] := by
        rintro rfl
        cases hthere
      have hnames := (hproper.under? hthere).2
      exact .inr ⟨_, rfl, (FileKind.ofPath_descendant_eq_archive_iff hsome hnames).mpr hnamed,
        hdamaged⟩

theorem isProper_soundAndBroken : soundAndBroken.IsProper := by decide +kernel

/-- The class files of a directory are collected with those of the archives in it, and one file that
is no archive keeps a directory from being collected. -/
theorem ofPath_directory_soundAndBroken :
    (∃ rows, List.Forall₂ (Yields "sound") [(["a", "B.CLASS"], []), (["a-b.class"], []),
        (["lib.Jar"], oneFileArchive "A.class"), (["notes.txt"], [])] rows ∧
      (ofPath access "sound").run.run soundAndBroken = (.ok rows.flatten, soundAndBroken)) ∧
    ∃ cause, (ofPath access "broken").run.run soundAndBroken =
      (.error ⟨"broken/lib.jar", cause⟩, soundAndBroken) := by
  have hsound : soundAndBroken.find "sound" = .ok (.directory soundEntries) := by rfl
  have hbroken : soundAndBroken.find "broken" = .ok (.directory brokenEntries) := by rfl
  obtain ⟨-, -, -, hcollected, -⟩ := ofPath_directory isProper_soundAndBroken hsound
  obtain ⟨-, -, -, -, hblocked⟩ := ofPath_directory isProper_soundAndBroken hbroken
  have hsoundProper : (directory soundEntries).IsProper := by decide +kernel
  have hbrokenProper : (directory brokenEntries).IsProper := by decide +kernel
  constructor
  · have hfiles : (directory soundEntries).files = [(["a", "B.CLASS"], []), (["a-b.class"], []),
        (["lib.Jar"], oneFileArchive "A.class"), (["notes.txt"], [])] := by
      rw [files, places_soundEntries]
      rfl
    rw [← hfiles]
    apply hcollected
    intro names there hthere hblocks
    have hplace := (mem_places_iff hsoundProper).mpr ⟨there, hthere, rfl⟩
    have hfree : ∀ place ∈ (directory soundEntries).places,
        fault? (descendant "sound" place.1) = none ∧
          (FileKind.ofPath (descendant "sound" place.1) = .archive →
            place.2 = some (oneFileArchive "A.class")) := by
      rw [places_soundEntries]
      decide +kernel
    obtain ⟨hnone, harchive⟩ := hfree _ hplace
    rcases hblocks.fault_or_damaged hsoundProper hthere with
      hfault | ⟨octets, hcontent, hkind, hdamaged⟩
    · exact hfault hnone
    · obtain rfl := Option.some.inj (hcontent.symm.trans (harchive hkind))
      have hlisting : listing (oneFileArchive "A.class") = some [("A.class", some [])] := by
        decide +kernel
      obtain ⟨entry, hentries, -, hoctets⟩ := exists_entry hlisting
      exact not_isDamaged hentries (by simpa using ⟨_, hoctets⟩) hdamaged
  · have hnamed : NamesArchive ["lib.jar"] := ⟨"jar", by decide, [], "lib.jar", rfl,
      ['l', 'i', 'b'], ['j', 'a', 'r'], by decide, by decide +kernel, by decide, by decide +kernel⟩
    have hdamaged : IsDamaged [0x50] :=
      .entries (show Zip.entries #[0x50] = .error .malformed by rfl)
    obtain ⟨names, there, cause, hthere, hblocks, hrun⟩ :=
      hblocked ⟨["lib.jar"], .file [0x50], rfl, .damaged hnamed hdamaged⟩
    have hplace := (mem_places_iff hbrokenProper).mpr ⟨there, hthere, rfl⟩
    have hlibrary : ∀ place ∈ (directory brokenEntries).places,
        fault? (descendant "broken" place.1) = none ∧
          (FileKind.ofPath (descendant "broken" place.1) = .archive →
            descendant "broken" place.1 = "broken/lib.jar") := by
      rw [places_brokenEntries]
      decide +kernel
    obtain ⟨hnone, harchive⟩ := hlibrary _ hplace
    rcases hblocks.fault_or_damaged hbrokenProper hthere with hfault | ⟨-, -, hkind, -⟩
    · exact absurd hnone hfault
    · exact ⟨cause, harchive hkind ▸ hrun⟩

end ClassCensus.Collection
