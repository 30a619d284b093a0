import ClassCensus.Proofs.Collection.Directories

/-!
# Directories beside archives

The same files may lie under a directory or in an archive.  Under a directory the extension of a
name decides whether a file is a class file, in any case of its letters.  In an archive the last
letters of the name decide, just as they are, whether or not anything stands in front of them.  The
two agree but for names that depart from what both take for the name of a class file.
-/

namespace ClassCensus.Collection

open FileTree ClassCensus.Path

/-! ## Names -/

/-- The name in an archive of what names lead to. -/
def entryName (names : List String) : String := "/".intercalate names

/-- That the last one of names is nothing but the ending of class files, or has their extension in
other letters. -/
def Departs (names : List String) : Prop :=
  ∃ front name, names = front ++ [name] ∧
    (name = classEnding ∨ HasExtension name classExtension ∧ ¬ IsClassName name)

theorem isClassName_iff_suffix {name : String} :
    IsClassName name ↔ classEnding.toList <:+ name.toList := by
  rw [← isClassEntry_iff, isClassEntry, List.isSuffixOf_iff_suffix]

/-- What has no slash in it does not reach over a slash. -/
theorem suffix_append_slash_iff {front back ending : List Char} (hslash : '/' ∉ ending) :
    ending <:+ front ++ '/' :: back ↔ ending <:+ back := by
  constructor
  · intro hending
    rcases List.suffix_or_suffix_of_suffix hending (List.suffix_append front ('/' :: back)) with
      hshort | hlong
    · rcases List.suffix_cons_iff.mp hshort with rfl | hback
      · exact absurd List.mem_cons_self hslash
      · exact hback
    · exact absurd (hlong.mem List.mem_cons_self) hslash
  · exact fun hback => hback.trans ((List.suffix_cons _ _).trans (List.suffix_append _ _))

/-- Of the name of an entry, what follows the last slash decides. -/
theorem isClassName_entryName_append {front : List String} {name : String} :
    IsClassName (entryName (front ++ [name])) ↔ IsClassName name := by
  by_cases hfront : front = []
  · rw [hfront, List.nil_append, entryName, String.intercalate_singleton]
  · have hname : (entryName (front ++ [name])).toList =
        (entryName front).toList ++ '/' :: name.toList := by
      rw [entryName, String.intercalate_append_of_ne_nil hfront (List.cons_ne_nil _ _),
        String.intercalate_singleton, String.toList_append, String.toList_append, entryName]
      simp
    rw [isClassName_iff_suffix, hname, suffix_append_slash_iff (by decide +kernel),
      ← isClassName_iff_suffix]

theorem hasExtension_of_isClassName {name : String} (hclass : IsClassName name)
    (hname : name ≠ classEnding) : HasExtension name classExtension := by
  obtain ⟨stem, rfl⟩ := hclass
  refine ⟨stem.toList, classExtension.toList, ?_, ?_, by decide +kernel, by decide +kernel⟩
  · rw [ne_eq, String.toList_eq_nil_iff]
    rintro rfl
    exact hname String.empty_append
  · rw [String.toList_append]
    rfl

theorem not_hasExtension_classEnding : ¬ HasExtension classEnding classExtension := by
  rintro ⟨stem, suffix, hstem, hname, hdot, -⟩
  obtain ⟨c, others, rfl⟩ := List.exists_cons_of_ne_nil hstem
  have hbehind : classExtension.toList = others ++ '.' :: suffix := (List.cons.inj hname).2
  have hmem : '.' ∈ classExtension.toList := by simp [hbehind]
  exact absurd hmem (by decide +kernel)

theorem departs_append {front : List String} {name : String} : Departs (front ++ [name]) ↔
    name = classEnding ∨ HasExtension name classExtension ∧ ¬ IsClassName name := by
  constructor
  · rintro ⟨others, last, hlast, hdeparts⟩
    obtain rfl := (List.append_singleton_inj.mp hlast).2
    exact hdeparts
  · exact fun hdeparts => ⟨front, name, rfl, hdeparts⟩

/-- The extension of a name and its last letters say the same unless the name departs. -/
theorem namesClassFile_iff_isClassName {names : List String} (hsome : names ≠ []) :
    (NamesClassFile names ↔ IsClassName (entryName names)) ↔ ¬ Departs names := by
  obtain ⟨front, name, rfl⟩ : ∃ front name, names = front ++ [name] :=
    ⟨_, _, (List.dropLast_concat_getLast hsome).symm⟩
  rw [NamesClassFile, namesHaveExtension_append, isClassName_entryName_append, departs_append]
  constructor
  · rintro hsame (rfl | ⟨hextension, hother⟩)
    · exact not_hasExtension_classEnding (hsame.mpr ⟨"", String.empty_append.symm⟩)
    · exact hother (hsame.mp hextension)
  · intro hplain
    obtain ⟨hname, hletters⟩ := not_or.mp hplain
    constructor
    · exact fun hextension => by_contra fun hother => hletters ⟨hextension, hother⟩
    · exact fun hclass => hasExtension_of_isClassName hclass hname

/-! ## Resources -/

/-- The resource of a class file that names lead to from the directory at a path. -/
def fileResource (path : String) (names : List String) : Resource :=
  .new (descendant path names) (.file (descendant path names))

section Directory

variable {entries : List (String × FileTree (List UInt8))} {path : String} {names : List String}
  {octets : List UInt8} {rows : List (List Resource)}

theorem namesClassFile_of_mem_row {others : List String} {row : List Resource}
    (hyields : Yields path (others, octets) row) (hmem : fileResource path names ∈ row) :
    NamesClassFile others ∧ descendant path others = descendant path names := by
  cases hyields with
  | classFile hclass =>
      have hresource := List.mem_singleton.mp hmem
      exact ⟨hclass, (congrArg Resource.name hresource).symm⟩
  | archive hnamed hholds =>
      obtain ⟨member, -, hmember⟩ := List.mem_map.mp hmem
      cases congrArg Resource.source hmember
  | other hclass hnamed => cases hmem

/-- Just the files with the extension of class files are among the resources of a directory. -/
theorem fileResource_mem_iff (hproper : (directory entries).IsProper)
    (hrows : List.Forall₂ (Yields path) (directory entries).files rows)
    (hthere : under? names (directory entries) = some (.file octets)) :
    fileResource path names ∈ rows.flatten ↔ NamesClassFile names := by
  have hkind {others : List String} {content : List UInt8}
      (hother : under? others (directory entries) = some (.file content)) :
      FileKind.ofPath (descendant path others) = .classFile ↔ NamesClassFile others := by
    have hsome : others ≠ [] := by
      rintro rfl
      cases hother
    exact FileKind.ofPath_descendant_eq_classFile_iff hsome (hproper.under? hother).2
  constructor
  · intro hmem
    obtain ⟨row, hrow, hmem⟩ := List.mem_flatten.mp hmem
    obtain ⟨⟨others, content⟩, hfile, hyields⟩ := exists_of_forall₂ hrows.flip hrow
    obtain ⟨hclass, hpath⟩ := namesClassFile_of_mem_row hyields hmem
    have hother := (mem_files_iff hproper).mp hfile
    rw [← hkind hthere, ← hpath]
    exact (hkind hother).mpr hclass
  · intro hclass
    obtain ⟨row, hrow, hyields⟩ := exists_of_forall₂ hrows ((mem_files_iff hproper).mpr hthere)
    refine List.mem_flatten.mpr ⟨row, hrow, ?_⟩
    cases hyields with
    | classFile hclass => exact List.mem_singleton_self _
    | archive hnamed hholds => exact absurd hnamed hclass.not_namesArchive
    | other hother hnamed => exact absurd hclass hother

/-- Where no archives are under a directory, the resources are those of files. -/
theorem exists_of_mem_rows (hproper : (directory entries).IsProper)
    (hrows : List.Forall₂ (Yields path) (directory entries).files rows)
    (hplain : ∀ names octets, under? names (directory entries) = some (.file octets) →
      ¬ NamesArchive names) {resource : Resource} (hmem : resource ∈ rows.flatten) :
    ∃ names octets, under? names (directory entries) = some (.file octets) ∧
      fileResource path names = resource := by
  obtain ⟨row, hrow, hmem⟩ := List.mem_flatten.mp hmem
  obtain ⟨⟨names, octets⟩, hfile, hyields⟩ := exists_of_forall₂ hrows.flip hrow
  have hthere := (mem_files_iff hproper).mp hfile
  cases hyields with
  | classFile hclass => exact ⟨names, octets, hthere, (List.mem_singleton.mp hmem).symm⟩
  | archive hnamed hholds => exact absurd hnamed (hplain names octets hthere)
  | other hclass hnamed => cases hmem

end Directory

/-! ## The same files in an archive -/

/-- That an archive packs what lies under a directory: it has all files, and besides them entries
for directories at most. -/
structure Packs (archive : List UInt8) (found : FileTree (List UInt8)) : Prop where
  file (names : List String) (octets : List UInt8) : under? names found = some (.file octets) →
    HasFile archive (entryName names) octets
  entry (entries : List Zip.Entry) : Zip.entries archive.toArray = .ok entries →
    ∀ entry ∈ entries, (∃ stem, entry.name = stem ++ "/") ∨
      ∃ names octets, under? names found = some (.file octets) ∧ entry.name = entryName names

section Archive

variable {tree found : FileTree (List UInt8)} {path : String} {archive : List UInt8}
  {members : List (String × List UInt8)}

theorem not_isClassName_slash (stem : String) : ¬ IsClassName (stem ++ "/") := by
  have hname : (stem ++ "/").toList = stem.toList ++ '/' :: [] := String.toList_append
  rw [isClassName_iff_suffix, hname, suffix_append_slash_iff (by decide +kernel),
    List.suffix_nil]
  decide +kernel

/-- The members of an archive that packs a directory are files under the directory. -/
theorem Packs.exists_of_mem (hpacks : Packs archive found) (hholds : Holds archive members)
    {member : String × List UInt8} (hmember : member ∈ members) :
    ∃ names octets, under? names found = some (.file octets) ∧
      (entryName names, octets) = member := by
  obtain ⟨entries, hentries, hmembers⟩ := id hholds
  obtain ⟨hclass, hname⟩ := (hmembers.names _).mp (List.mem_map_of_mem hmember)
  obtain ⟨entry, hentry, hname⟩ := List.mem_map.mp hname
  rcases hpacks.entry entries hentries entry hentry with
    ⟨stem, hstem⟩ | ⟨names, octets, hthere, hsame⟩
  · rw [← hname, hstem] at hclass
    exact absurd hclass (not_isClassName_slash stem)
  · have hfirst : entryName names = member.1 := hsame.symm.trans hname
    have hfile := hpacks.file names octets hthere
    rw [hfirst] at hfile
    exact ⟨names, octets, hthere, Prod.ext hfirst (hholds.content_eq hmember hfile).symm⟩

/-- An archive that is not damaged is collected. -/
theorem exists_members_of_ofPath (hfind : tree.find path = .ok (.file archive))
    (hkind : FileKind.ofPath path = .archive) (hsound : ¬ IsDamaged archive) :
    ∃ members, Holds archive members ∧
      (ofPath access path).run.run tree = (.ok (members.map (memberResource path)), tree) := by
  have hread : tree.reader path = .ok archive := by
    change tree.read path = .ok archive
    rw [FileTree.read, hfind]
  cases hresources : archiveResources path archive.toArray with
  | error fault => exact absurd (isDamaged_of_archiveResources hresources) hsound
  | ok resources =>
      obtain ⟨members, hholds, rfl⟩ := exists_holds_of_archiveResources hresources
      have hfile : (ofFile tree.reader path).run = .ok (members.map (memberResource path)) := by
        rw [run_ofFile_of_ok hkind hread, hresources]
        rfl
      refine ⟨members, hholds, ?_⟩
      rw [run_ofPath hfind, Prod.mk.injEq, ofTree, run_bind_eq_ok_iff]
      refine ⟨⟨_, run_mapM_eq_ok_iff.mpr (.cons hfile .nil), ?_⟩, rfl⟩
      exact congrArg Except.ok List.flatten_singleton

end Archive

/-- That of two collections, of the directory at a path and of an archive, both or none have a
resource for the file that names lead to. -/
def Alike (path archivePath : String) (resources others : List Resource) (names : List String)
    (octets : List UInt8) : Prop :=
  fileResource path names ∈ resources ↔
    memberResource archivePath (entryName names, octets) ∈ others

/-- A directory and an archive both have a resource for a file or both have none, with the same
octets, just if its name does not depart.  So they have resources for the same files if the archive
packs the directory, just if no name of a file under the directory departs. -/
theorem alike_iff_not_departs {tree : FileTree (List UInt8)} {path archivePath : String}
    {entries : List (String × FileTree (List UInt8))} {archive : List UInt8}
    (hproper : tree.IsProper) (hfind : tree.find path = .ok (.directory entries))
    (hfree : ∀ names there, under? names (directory entries) = some there →
      ¬ Blocks path names there)
    (hpacked : tree.find archivePath = .ok (.file archive))
    (hkind : FileKind.ofPath archivePath = .archive) (hsound : ¬ IsDamaged archive) :
    ∃ resources others, (ofPath access path).run.run tree = (.ok resources, tree) ∧
      (ofPath access archivePath).run.run tree = (.ok others, tree) ∧
      (∀ names octets, under? names (directory entries) = some (.file octets) →
        (fileResource path names ∈ resources ↔ NamesClassFile names) ∧
        (fault? (descendant path names) = none →
          tree.read (descendant path names) = .ok octets) ∧
        (HasFile archive (entryName names) octets →
          (memberResource archivePath (entryName names, octets) ∈ others ↔
            IsClassName (entryName names)) ∧
          (Alike path archivePath resources others names octets ↔ ¬ Departs names))) ∧
      (Packs archive (directory entries) →
        (∀ names octets, under? names (directory entries) = some (.file octets) →
          ¬ NamesArchive names) →
        (∀ resource ∈ resources, ∃ names octets,
          under? names (directory entries) = some (.file octets) ∧
            fileResource path names = resource) ∧
        (∀ other ∈ others, ∃ names octets,
          under? names (directory entries) = some (.file octets) ∧
            memberResource archivePath (entryName names, octets) = other) ∧
        ((∀ names octets, under? names (directory entries) = some (.file octets) →
            Alike path archivePath resources others names octets) ↔
          ∀ names octets, under? names (directory entries) = some (.file octets) →
            ¬ Departs names)) := by
  obtain ⟨place, -, hplace⟩ := find_eq_ok_iff.mp hfind
  have hdirectory := (hproper.under? hplace).1
  obtain ⟨rows, hrows, hresources⟩ := exists_rows_of_ofPath hfind hdirectory hfree
  obtain ⟨members, hholds, hothers⟩ := exists_members_of_ofPath hpacked hkind hsound
  have hmember (member : String × List UInt8) :
      memberResource archivePath member ∈ members.map (memberResource archivePath) ↔
        member ∈ members := List.mem_map_of_injective (memberResource_injective archivePath)
  have halike {names : List String} {octets : List UInt8}
      (hthere : under? names (directory entries) = some (.file octets))
      (hfile : HasFile archive (entryName names) octets) :
      Alike path archivePath rows.flatten (members.map (memberResource archivePath)) names octets ↔
        ¬ Departs names := by
    have hsome : names ≠ [] := by
      rintro rfl
      cases hthere
    rw [Alike, fileResource_mem_iff hdirectory hrows hthere, hmember, hholds.mem_iff hfile,
      namesClassFile_iff_isClassName hsome]
  refine ⟨rows.flatten, members.map (memberResource archivePath), hresources, hothers, ?_, ?_⟩
  · intro names octets hthere
    refine ⟨fileResource_mem_iff hdirectory hrows hthere, ?_, ?_⟩
    · exact fun hfault =>
        (read_descendant_eq_ok_iff hfind hdirectory hthere).mpr ⟨hfault, rfl⟩
    · intro hfile
      refine ⟨?_, halike hthere hfile⟩
      rw [hmember, hholds.mem_iff hfile]
  · intro hpacks hplain
    refine ⟨fun resource hmem => exists_of_mem_rows hdirectory hrows hplain hmem, ?_, ?_⟩
    · intro other hmem
      obtain ⟨member, hheld, rfl⟩ := List.mem_map.mp hmem
      obtain ⟨names, octets, hthere, rfl⟩ := hpacks.exists_of_mem hholds hheld
      exact ⟨names, octets, hthere, rfl⟩
    · exact forall₂_congr fun names octets => forall_congr' fun hthere =>
        halike hthere (hpacks.file names octets hthere)

/-! ## A name in capital letters -/

/-- A directory with a class file whose extension is in capital letters. -/
def capitalEntries : List (String × FileTree (List UInt8)) := [("A.CLASS", .file [])]

/-- The directory beside an archive that packs it. -/
def capitals : FileTree (List UInt8) :=
  .directory [("d", .directory capitalEntries), ("d.jar", .file (oneFileArchive "A.CLASS"))]

theorem places_capitalEntries :
    (directory capitalEntries).places = [([], none), (["A.CLASS"], some [])] := by
  simp only [capitalEntries, places, placesByName, List.mergeSort_singleton]
  rfl

theorem exists_entry_capitals :
    ∃ entry, Zip.entries (oneFileArchive "A.CLASS").toArray = .ok [entry] ∧
      entry.name = "A.CLASS" ∧ Zip.content (oneFileArchive "A.CLASS").toArray entry = .ok [] :=
  exists_entry (by decide +kernel)

theorem not_isClassName_capitals : ¬ IsClassName "A.CLASS" := by
  rw [← isClassEntry_iff]
  decide +kernel

theorem not_isDamaged_capitals : ¬ IsDamaged (oneFileArchive "A.CLASS") := by
  obtain ⟨entry, hentries, -, hcontent⟩ := exists_entry_capitals
  exact not_isDamaged hentries (by simpa using ⟨_, hcontent⟩)

theorem hasFile_capitals : HasFile (oneFileArchive "A.CLASS") "A.CLASS" [] := by
  obtain ⟨entry, hentries, hname, hcontent⟩ := exists_entry_capitals
  exact ⟨_, entry, hentries, ⟨[], [], rfl, nofun⟩, hname, hcontent⟩

/-- A class file is collected from a directory, and is not from an archive where it has the same
name and the same content. -/
theorem capitals_not_alike : HasFile (oneFileArchive "A.CLASS") "A.CLASS" [] ∧
    capitals.read "d/A.CLASS" = .ok [] ∧ capitals.read "d.jar" = .ok (oneFileArchive "A.CLASS") ∧
    (ofPath access "d").run.run capitals =
      (.ok [.new "d/A.CLASS" (.file "d/A.CLASS")], capitals) ∧
    (ofPath access "d.jar").run.run capitals = (.ok [], capitals) := by
  refine ⟨hasFile_capitals, rfl, rfl, ?_, ?_⟩
  · have hfind : capitals.find "d" = .ok (.directory capitalEntries) := rfl
    rw [run_ofPath hfind, Prod.mk.injEq, ofTree, run_bind_eq_ok_iff]
    refine ⟨⟨[[], [.new "d/A.CLASS" (.file "d/A.CLASS")]], ?_, rfl⟩, rfl⟩
    rw [run_mapM_eq_ok_iff, places_shape, places_capitalEntries]
    exact .cons rfl (.cons rfl .nil)
  · obtain ⟨members, ⟨entries, hentries, hmembers⟩, hrun⟩ :=
      exists_members_of_ofPath (show capitals.find "d.jar" = .ok (.file _) from rfl)
        (by decide +kernel) not_isDamaged_capitals
    obtain ⟨entry, hentry, hname, -⟩ := exists_entry_capitals
    obtain rfl := Except.ok.inj (hentries.symm.trans hentry)
    have hnone : members = [] := by
      refine List.eq_nil_iff_forall_not_mem.mpr fun member hmember => ?_
      obtain ⟨hclass, hmem⟩ := (hmembers.names _).mp (List.mem_map_of_mem hmember)
      rw [List.mem_map] at hmem
      obtain ⟨_, hmem, hsame⟩ := hmem
      obtain rfl := List.mem_singleton.mp hmem
      rw [← hsame, hname] at hclass
      exact not_isClassName_capitals hclass
    rw [hrun, hnone]
    rfl

theorem isProper_capitalEntries : (directory capitalEntries).IsProper := by decide +kernel

theorem eq_of_mem_capitals {names : List String} {octets : List UInt8}
    (hthere : under? names (directory capitalEntries) = some (.file octets)) :
    names = ["A.CLASS"] ∧ octets = [] := by
  have hplace := (mem_places_iff isProper_capitalEntries).mpr ⟨_, hthere, rfl⟩
  rw [places_capitalEntries] at hplace
  simpa [content?] using hplace

theorem packs_capitals : Packs (oneFileArchive "A.CLASS") (directory capitalEntries) := by
  constructor
  case file =>
    intro names octets hthere
    obtain ⟨rfl, rfl⟩ := eq_of_mem_capitals hthere
    exact hasFile_capitals
  case entry =>
    intro entries hentries entry hentry
    obtain ⟨only, hother, hname, -⟩ := exists_entry_capitals
    obtain rfl := Except.ok.inj (hentries.symm.trans hother)
    obtain rfl := List.mem_singleton.mp hentry
    exact .inr ⟨["A.CLASS"], [], rfl, hname⟩

theorem not_blocks_capitals (names : List String) (there : FileTree (List UInt8))
    (hthere : under? names (directory capitalEntries) = some there) : ¬ Blocks "d" names there := by
  intro hblocks
  have hplace := (mem_places_iff isProper_capitalEntries).mpr ⟨there, hthere, rfl⟩
  have hplaces : ∀ place ∈ (directory capitalEntries).places,
      fault? (descendant "d" place.1) = none ∧
        FileKind.ofPath (descendant "d" place.1) ≠ .archive := by
    rw [places_capitalEntries]
    decide +kernel
  obtain ⟨hnone, hother⟩ := hplaces _ hplace
  rcases hblocks.fault_or_damaged isProper_capitalEntries hthere with hfault | ⟨-, -, hkind, -⟩
  · exact hfault hnone
  · exact hother hkind

/-- The directory and the archive that packs it do not have resources for the same files. -/
theorem alike_iff_not_departs_capitals :
    ∃ resources others, (ofPath access "d").run.run capitals = (.ok resources, capitals) ∧
      (ofPath access "d.jar").run.run capitals = (.ok others, capitals) ∧
      fileResource "d" ["A.CLASS"] ∈ resources ∧
      memberResource "d.jar" ("A.CLASS", []) ∉ others ∧
      ¬ ∀ names octets, under? names (directory capitalEntries) = some (.file octets) →
        Alike "d" "d.jar" resources others names octets := by
  have hproper : capitals.IsProper := by decide +kernel
  have hfind : capitals.find "d" = .ok (.directory capitalEntries) := rfl
  have hpacked : capitals.find "d.jar" = .ok (.file (oneFileArchive "A.CLASS")) := rfl
  have hkind : FileKind.ofPath "d.jar" = .archive := by decide +kernel
  have hthere : under? ["A.CLASS"] (directory capitalEntries) = some (.file []) := rfl
  have hextension : HasExtension "A.CLASS" classExtension :=
    ⟨['A'], ['C', 'L', 'A', 'S', 'S'], by decide, by decide +kernel, by decide, by decide +kernel⟩
  have hdeparts : Departs ["A.CLASS"] := ⟨[], _, rfl, .inr ⟨hextension, not_isClassName_capitals⟩⟩
  have hplain (names : List String) (octets : List UInt8)
      (hthere : under? names (directory capitalEntries) = some (.file octets)) :
      ¬ NamesArchive names := by
    obtain ⟨rfl, -⟩ := eq_of_mem_capitals hthere
    exact NamesClassFile.not_namesArchive ⟨[], _, rfl, hextension⟩
  obtain ⟨resources, others, hresources, hothers, hfiles, hpack⟩ :=
    alike_iff_not_departs hproper hfind not_blocks_capitals hpacked hkind not_isDamaged_capitals
  obtain ⟨hfile, -, hentry⟩ := hfiles _ _ hthere
  refine ⟨resources, others, hresources, hothers, hfile.mpr ⟨[], _, rfl, hextension⟩, ?_, ?_⟩
  · exact fun hmember => not_isClassName_capitals ((hentry hasFile_capitals).1.mp hmember)
  · intro halike
    exact (hpack packs_capitals hplain).2.2.mp halike _ _ hthere hdeparts

end ClassCensus.Collection
