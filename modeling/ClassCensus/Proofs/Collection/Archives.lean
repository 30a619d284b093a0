import ClassCensus.Collection
import ClassCensus.Proofs.Outcomes
import ClassCensus.Proofs.Text.Order

/-!
# Class files in archives

An archive stands for the class files among its entries.  Of the entries of one name the last one
counts, and the names are put in the order of their octets.  An archive is collected as a whole or
not at all.
-/

namespace ClassCensus.Collection

variable {entries : List Zip.Entry} {entry : Zip.Entry} {archive : List UInt8}

/-! ## What an archive holds -/

/-- That a name in an archive is that of a class file. -/
def IsClassName (name : String) : Prop := ∃ stem, name = stem ++ classEnding

/-- That no later entry has the name of an entry. -/
def IsLast (entries : List Zip.Entry) (entry : Zip.Entry) : Prop :=
  ∃ front back, entries = front ++ entry :: back ∧ ∀ later ∈ back, later.name ≠ entry.name

/-- That members, by their names and contents, are the class files among the entries of an archive:
in the order of the octets of their names, each with the content of the last entry of its name. -/
structure AreMembers (archive : List UInt8) (entries : List Zip.Entry)
    (members : List (String × List UInt8)) : Prop where
  names (name : String) :
    name ∈ members.map Prod.fst ↔ IsClassName name ∧ name ∈ entries.map Zip.Entry.name
  content : ∀ member ∈ members, ∃ entry, IsLast entries entry ∧ entry.name = member.1 ∧
    Zip.content archive.toArray entry = .ok member.2
  order : members.Pairwise fun first second =>
    Utf8.encode first.1.toList < Utf8.encode second.1.toList

/-- That the class files in an archive are the members, by their names and contents. -/
def Holds (archive : List UInt8) (members : List (String × List UInt8)) : Prop :=
  ∃ entries, Zip.entries archive.toArray = .ok entries ∧ AreMembers archive entries members

/-- That octets are no archive, or one of which a class file cannot be read. -/
inductive IsDamaged (archive : List UInt8) : Prop
  | entries {fault : Zip.ArchiveFault} :
    Zip.entries archive.toArray = .error fault → IsDamaged archive
  | content {entries : List Zip.Entry} {entry : Zip.Entry} {fault : Zip.ArchiveFault} :
    Zip.entries archive.toArray = .ok entries → IsLast entries entry → IsClassName entry.name →
    Zip.content archive.toArray entry = .error fault → IsDamaged archive

/-! ## The last entries -/

theorem isLast_nil : ¬ IsLast [] entry := by
  rintro ⟨front, back, hentries, -⟩
  cases front <;> cases hentries

/-- The first entry is the last one of its name if no other has the name. -/
theorem isLast_cons {first : Zip.Entry} : IsLast (first :: entries) entry ↔
    (entry = first ∧ ∀ later ∈ entries, later.name ≠ first.name) ∨ IsLast entries entry := by
  constructor
  · rintro ⟨front, back, hentries, hback⟩
    cases front with
    | nil =>
        obtain ⟨rfl, rfl⟩ := List.cons.inj hentries
        exact .inl ⟨rfl, hback⟩
    | cons head front =>
        obtain ⟨rfl, rfl⟩ := List.cons.inj hentries
        exact .inr ⟨front, back, rfl, hback⟩
  · rintro (⟨rfl, hother⟩ | ⟨front, back, rfl, hback⟩)
    · exact ⟨[], entries, rfl, hother⟩
    · exact ⟨first :: front, back, rfl, hback⟩

theorem IsLast.mem (hlast : IsLast entries entry) : entry ∈ entries := by
  obtain ⟨front, back, rfl, -⟩ := hlast
  exact List.mem_append_right _ List.mem_cons_self

/-- There is one last entry of a name at most. -/
theorem IsLast.unique {other : Zip.Entry} (hlast : IsLast entries entry)
    (hother : IsLast entries other) (hname : entry.name = other.name) : entry = other := by
  induction entries with
  | nil => exact absurd hlast isLast_nil
  | cons first entries ih =>
      rcases isLast_cons.mp hlast with ⟨rfl, hfirst⟩ | hbehind
      · rcases isLast_cons.mp hother with ⟨rfl, -⟩ | hbehind
        · rfl
        · exact absurd hname.symm (hfirst other hbehind.mem)
      · rcases isLast_cons.mp hother with ⟨rfl, hfirst⟩ | hotherBehind
        · exact absurd hname (hfirst entry hbehind.mem)
        · exact ih hbehind hotherBehind

/-- Each name that an entry has is that of a last one. -/
theorem exists_isLast (hentry : entry ∈ entries) :
    ∃ last, IsLast entries last ∧ last.name = entry.name := by
  induction entries generalizing entry with
  | nil => cases hentry
  | cons first entries ih =>
      by_cases hlater : ∃ later ∈ entries, later.name = entry.name
      · obtain ⟨later, hmem, hname⟩ := hlater
        obtain ⟨last, hlast, hsame⟩ := ih hmem
        exact ⟨last, isLast_cons.mpr (.inr hlast), hsame.trans hname⟩
      · rcases List.mem_cons.mp hentry with rfl | hmem
        · refine ⟨entry, isLast_cons.mpr (.inl ⟨rfl, ?_⟩), rfl⟩
          exact fun later hmem hname => hlater ⟨later, hmem, hname⟩
        · exact absurd ⟨entry, hmem, rfl⟩ hlater

theorem mem_latest : entry ∈ latest entries ↔ IsLast entries entry := by
  induction entries with
  | nil => exact iff_of_false List.not_mem_nil isLast_nil
  | cons first entries ih =>
      rw [latest, isLast_cons]
      simp only [List.any_eq_true, decide_eq_true_eq]
      split_ifs with hlater
      · obtain ⟨later, hmem, hname⟩ := hlater
        rw [ih, or_iff_right]
        exact fun hfirst => hfirst.2 later hmem hname
      · rw [List.mem_cons, ih, and_iff_left]
        exact fun later hmem hname => hlater ⟨later, hmem, hname⟩

theorem nodup_latest (entries : List Zip.Entry) : ((latest entries).map Zip.Entry.name).Nodup := by
  induction entries with
  | nil => exact List.nodup_nil
  | cons first entries ih =>
      rw [latest]
      simp only [List.any_eq_true, decide_eq_true_eq]
      split_ifs with hlater
      · exact ih
      · rw [List.map_cons, List.nodup_cons]
        refine ⟨fun hname => ?_, ih⟩
        obtain ⟨later, hmem, hname⟩ := List.mem_map.mp hname
        exact hlater ⟨later, (mem_latest.mp hmem).mem, hname⟩

/-- Of the entries whose names are chosen, those are the last ones that are so of all entries. -/
theorem isLast_filter {chosen : String → Bool} :
    IsLast (entries.filter fun entry => chosen entry.name) entry ↔
      chosen entry.name = true ∧ IsLast entries entry := by
  induction entries with
  | nil => simp [isLast_nil]
  | cons first entries ih =>
      by_cases hfirst : chosen first.name = true
      · rw [List.filter_cons, if_pos hfirst, isLast_cons, isLast_cons, ih]
        constructor
        · rintro (⟨rfl, hother⟩ | ⟨hchosen, hlast⟩)
          · refine ⟨hfirst, .inl ⟨rfl, fun later hmem hname => ?_⟩⟩
            exact hother later (List.mem_filter.mpr ⟨hmem, hname ▸ hfirst⟩) hname
          · exact ⟨hchosen, .inr hlast⟩
        · rintro ⟨hchosen, ⟨rfl, hother⟩ | hlast⟩
          · exact .inl ⟨rfl, fun later hmem => hother later (List.mem_filter.mp hmem).1⟩
          · exact .inr ⟨hchosen, hlast⟩
      · rw [List.filter_cons, if_neg hfirst, isLast_cons, ih]
        refine and_congr_right fun hchosen => (or_iff_right ?_).symm
        exact fun hsame => hfirst (hsame.1 ▸ hchosen)

/-! ## Class files -/

theorem isClassEntry_iff {name : String} : isClassEntry name = true ↔ IsClassName name := by
  rw [isClassEntry, List.isSuffixOf_iff_suffix]
  constructor
  · rintro ⟨stem, hname⟩
    refine ⟨String.ofList stem, String.toList_inj.mp ?_⟩
    rw [String.toList_append, String.toList_ofList, hname]
  · rintro ⟨stem, rfl⟩
    exact ⟨stem.toList, String.toList_append.symm⟩

theorem mem_classEntries :
    entry ∈ classEntries entries ↔ IsClassName entry.name ∧ IsLast entries entry := by
  rw [classEntries, List.mem_mergeSort, mem_latest, isLast_filter, isClassEntry_iff]

theorem pairwise_classEntries (entries : List Zip.Entry) :
    (classEntries entries).Pairwise fun first second => first.name < second.name :=
  pairwise_mergeSort_lt (nodup_latest _)

/-- Just the names of class files that entries have are names of the entries that count. -/
theorem name_mem_classEntries {name : String} : name ∈ (classEntries entries).map Zip.Entry.name ↔
    IsClassName name ∧ name ∈ entries.map Zip.Entry.name := by
  simp only [List.mem_map, mem_classEntries]
  constructor
  · rintro ⟨entry, ⟨hclass, hlast⟩, rfl⟩
    exact ⟨hclass, entry, hlast.mem, rfl⟩
  · rintro ⟨hclass, entry, hmem, rfl⟩
    obtain ⟨last, hlast, hname⟩ := exists_isLast hmem
    exact ⟨last, ⟨hname ▸ hclass, hlast⟩, hname⟩

/-! ## Their resources -/

/-- The resource of a class file in the archive at a path. -/
def memberResource (path : String) (member : String × List UInt8) : Resource :=
  .new (path ++ entrySeparator ++ member.1) (.memory member.2)

/-- That a member has the name and the content of an entry. -/
def IsMember (archive : List UInt8) (entry : Zip.Entry) (member : String × List UInt8) : Prop :=
  entry.name = member.1 ∧ Zip.content archive.toArray entry = .ok member.2

theorem entryResource_eq_ok_iff {path : String} {resource : Resource} :
    entryResource path archive.toArray entry = .ok resource ↔
      ∃ member, IsMember archive entry member ∧ memberResource path member = resource := by
  rw [entryResource, bind_eq_ok_iff]
  constructor
  · rintro ⟨octets, hoctets, hresource⟩
    exact ⟨(entry.name, octets), ⟨rfl, hoctets⟩, Except.ok.inj hresource⟩
  · rintro ⟨⟨_, octets⟩, ⟨rfl, hoctets⟩, rfl⟩
    exact ⟨octets, hoctets, rfl⟩

theorem exists_members {path : String} {resources : List Resource}
    (hresources : List.Forall₂ (fun entry resource =>
      entryResource path archive.toArray entry = .ok resource) entries resources) :
    ∃ members, List.Forall₂ (IsMember archive) entries members ∧
      members.map (memberResource path) = resources := by
  induction hresources with
  | nil => exact ⟨[], .nil, rfl⟩
  | cons hresource hresources ih =>
      obtain ⟨member, hmember, rfl⟩ := entryResource_eq_ok_iff.mp hresource
      obtain ⟨members, hmembers, rfl⟩ := ih
      exact ⟨member :: members, .cons hmember hmembers, rfl⟩

theorem areMembers_of_forall₂ {members : List (String × List UInt8)}
    (hmembers : List.Forall₂ (IsMember archive) (classEntries entries) members) :
    AreMembers archive entries members := by
  have hnames : (classEntries entries).map Zip.Entry.name = members.map Prod.fst := by
    rw [← List.forall₂_eq_eq_eq, List.forall₂_map_left_iff, List.forall₂_map_right_iff]
    exact hmembers.imp fun _ _ hmember => hmember.1
  constructor
  case names =>
    intro name
    rw [← hnames, name_mem_classEntries]
  case content =>
    intro member hmem
    obtain ⟨entry, hentry, hname, hcontent⟩ := exists_of_forall₂ hmembers.flip hmem
    exact ⟨entry, (mem_classEntries.mp hentry).2, hname, hcontent⟩
  case order =>
    have hordered := List.pairwise_map.mpr (pairwise_classEntries entries)
    rw [hnames, List.pairwise_map] at hordered
    exact hordered.imp fun hless => Utf8.encode_lt_encode hless

/-- An archive that is collected holds members, which its resources are of. -/
theorem exists_holds_of_archiveResources {path : String} {resources : List Resource}
    (hresources : archiveResources path archive.toArray = .ok resources) :
    ∃ members, Holds archive members ∧ members.map (memberResource path) = resources := by
  obtain ⟨entries, hentries, hresources⟩ := bind_eq_ok_iff.mp hresources
  obtain ⟨members, hmembers, hmap⟩ := exists_members (mapM_eq_ok_iff.mp hresources)
  exact ⟨members, ⟨entries, hentries, areMembers_of_forall₂ hmembers⟩, hmap⟩

/-- An archive that cannot be collected is damaged. -/
theorem isDamaged_of_archiveResources {path : String} {fault : Zip.ArchiveFault}
    (hfault : archiveResources path archive.toArray = .error fault) : IsDamaged archive := by
  rcases bind_eq_error_iff.mp hfault with hentries | ⟨entries, hentries, hcontents⟩
  · exact .entries hentries
  · obtain ⟨entry, hentry, hcontent⟩ := exists_of_mapM_eq_error hcontents
    obtain ⟨hclass, hlast⟩ := mem_classEntries.mp hentry
    rcases bind_eq_error_iff.mp hcontent with hcontent | ⟨octets, -, hpure⟩
    · exact .content hentries hlast hclass hcontent
    · cases hpure

/-- A damaged archive cannot be collected. -/
theorem IsDamaged.archiveResources_ne_ok (hdamaged : IsDamaged archive) (path : String)
    (resources : List Resource) : archiveResources path archive.toArray ≠ .ok resources := by
  intro hresources
  obtain ⟨entries, hentries, hresources⟩ := bind_eq_ok_iff.mp hresources
  cases hdamaged with
  | entries hfault => cases hentries.symm.trans hfault
  | content hothers hlast hclass hfault =>
      obtain rfl := Except.ok.inj (hentries.symm.trans hothers)
      obtain ⟨resource, -, hresource⟩ := exists_of_forall₂ (mapM_eq_ok_iff.mp hresources)
        (mem_classEntries.mpr ⟨hclass, hlast⟩)
      obtain ⟨member, ⟨-, hcontent⟩, -⟩ := entryResource_eq_ok_iff.mp hresource
      cases hcontent.symm.trans hfault

/-- An archive is sound if the contents of all its entries can be read. -/
theorem not_isDamaged (hentries : Zip.entries archive.toArray = .ok entries)
    (hcontents : ∀ entry ∈ entries, ∃ octets, Zip.content archive.toArray entry = .ok octets) :
    ¬ IsDamaged archive := by
  intro hdamaged
  cases hdamaged with
  | entries hfault => cases hentries.symm.trans hfault
  | content hothers hlast hclass hfault =>
      obtain rfl := Except.ok.inj (hentries.symm.trans hothers)
      obtain ⟨octets, hoctets⟩ := hcontents _ hlast.mem
      cases hoctets.symm.trans hfault

theorem memberResource_injective (path : String) : Function.Injective (memberResource path) := by
  rintro ⟨first, octets⟩ ⟨second, content⟩ hsame
  have hname : path ++ entrySeparator ++ first = path ++ entrySeparator ++ second :=
    congrArg Resource.name hsame
  obtain rfl := String.append_right_inj _ |>.mp hname
  obtain rfl := OctetSource.memory.inj (congrArg Resource.source hsame)
  rfl

/-! ## Files in archives -/

/-- That the last one of the entries of a name in an archive has the content. -/
def HasFile (archive : List UInt8) (name : String) (octets : List UInt8) : Prop :=
  ∃ entries entry, Zip.entries archive.toArray = .ok entries ∧ IsLast entries entry ∧
    entry.name = name ∧ Zip.content archive.toArray entry = .ok octets

theorem Holds.content_eq {members : List (String × List UInt8)} {member : String × List UInt8}
    {octets : List UInt8} (hholds : Holds archive members) (hmember : member ∈ members)
    (hfile : HasFile archive member.1 octets) : member.2 = octets := by
  obtain ⟨entries, hentries, hmembers⟩ := hholds
  obtain ⟨others, entry, hothers, hlast, hname, hcontent⟩ := hfile
  obtain rfl := Except.ok.inj (hentries.symm.trans hothers)
  obtain ⟨other, hother, hsame, hfound⟩ := hmembers.content _ hmember
  obtain rfl := hother.unique hlast (hsame.trans hname.symm)
  exact Except.ok.inj (hfound.symm.trans hcontent)

/-- Just the files with the names of class files are members of an archive. -/
theorem Holds.mem_iff {members : List (String × List UInt8)} {name : String} {octets : List UInt8}
    (hholds : Holds archive members) (hfile : HasFile archive name octets) :
    (name, octets) ∈ members ↔ IsClassName name := by
  obtain ⟨entries, hentries, hmembers⟩ := id hholds
  constructor
  · exact fun hmem => ((hmembers.names _).mp (List.mem_map_of_mem hmem)).1
  · intro hclass
    obtain ⟨others, entry, hothers, hlast, hname, -⟩ := id hfile
    obtain rfl := Except.ok.inj (hentries.symm.trans hothers)
    have hmem := (hmembers.names name).mpr ⟨hclass, List.mem_map.mpr ⟨entry, hlast.mem, hname⟩⟩
    obtain ⟨⟨_, found⟩, hmember, rfl⟩ := List.mem_map.mp hmem
    obtain rfl := hholds.content_eq hmember hfile
    exact hmember

/-! ## An archive of one file -/

/-- An archive with one file, which is empty and has a short name. -/
def oneFileArchive (name : String) : List UInt8 :=
  let spelling := name.toUTF8.toList
  let length := UInt8.ofNat spelling.length
  [0x50, 0x4B, 3, 4] ++ List.replicate 22 0 ++ [length, 0, 0, 0] ++ spelling ++
    [0x50, 0x4B, 1, 2] ++ List.replicate 24 0 ++ [length, 0] ++ List.replicate 16 0 ++ spelling ++
    [0x50, 0x4B, 5, 6, 0, 0, 0, 0, 1, 0, 1, 0, 46 + length, 0, 0, 0, 30 + length, 0, 0, 0, 0, 0]

/-- The names of the entries of an archive with their contents, as far as these can be read. -/
def listing (archive : List UInt8) : Option (List (String × Option (List UInt8))) :=
  (Zip.entries archive.toArray).toOption.map fun entries => entries.map fun entry =>
    (entry.name, (Zip.content archive.toArray entry).toOption)

theorem exists_entry {name : String} {octets : List UInt8}
    (hlisting : listing archive = some [(name, some octets)]) :
    ∃ entry, Zip.entries archive.toArray = .ok [entry] ∧ entry.name = name ∧
      Zip.content archive.toArray entry = .ok octets := by
  rw [listing] at hlisting
  cases hentries : Zip.entries archive.toArray with
  | error fault => rw [hentries] at hlisting; cases hlisting
  | ok entries =>
      rw [hentries] at hlisting
      obtain ⟨entry, rfl, hentry⟩ := List.map_eq_singleton_iff.mp (Option.some.inj hlisting)
      obtain ⟨hname, hcontent⟩ := Prod.mk.inj hentry
      refine ⟨entry, rfl, hname, ?_⟩
      cases hoctets : Zip.content archive.toArray entry with
      | error fault => rw [hoctets] at hcontent; cases hcontent
      | ok content =>
          rw [hoctets] at hcontent
          exact congrArg Except.ok (Option.some.inj hcontent)

end ClassCensus.Collection
