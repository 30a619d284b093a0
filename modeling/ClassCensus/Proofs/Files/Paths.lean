import ClassCensus.Proofs.Files.Places
import ClassCensus.Proofs.Files.Writing

/-!
# Paths of places

The path of a place under a directory is the path of the directory with names behind it.  It leads
to the place unless it is too long, and its last name tells the kind of the file there.
-/

namespace ClassCensus.Path

variable {path name : String} {names : List String}

/-! ## Components -/

theorem parts_ne_nil (text : List Char) : parts text ≠ [] := by
  cases text with
  | nil => exact List.cons_ne_nil _ _
  | cons c rest =>
      rw [parts]
      split_ifs
      · exact List.cons_ne_nil _ _
      · split <;> exact List.cons_ne_nil _ _

theorem parts_of_not_mem {part : List Char} (hpart : '/' ∉ part) : parts part = [part] := by
  induction part with
  | nil => rfl
  | cons c part ih =>
      rw [List.mem_cons, not_or] at hpart
      rw [parts, if_neg (Ne.symm hpart.1), ih hpart.2]

/-- A slash parts what is in front of it from what is behind. -/
theorem parts_append (front back : List Char) :
    parts (front ++ '/' :: back) = parts front ++ parts back := by
  induction front with
  | nil => rfl
  | cons c front ih =>
      rw [List.cons_append, parts, ih, parts]
      split_ifs with hslash
      · rfl
      · obtain ⟨part, others, hparts⟩ := List.exists_cons_of_ne_nil (parts_ne_nil front)
        rw [hparts]
        rfl

theorem components_of_toList {front back : List Char} (hpath : path.toList = front ++ '/' :: back)
    (hback : '/' ∉ back) :
    components path = (parts front).map String.ofList ++ [String.ofList back] := by
  rw [components, hpath, parts_append, parts_of_not_mem hback, List.map_append, List.map_singleton]

/-- The components of the path of an entry are those of the directory, less an empty last one, and
the name. -/
theorem exists_components_child (path : String) (hname : '/' ∉ name.toList) :
    ∃ front, (components path = front ∨ components path = front ++ [""]) ∧
      components (child path name) = front ++ [name] := by
  by_cases hslash : path.toList.getLast? = some '/'
  · obtain ⟨stem, hstem⟩ := List.getLast?_eq_some_iff.mp hslash
    have hchild : (path ++ name).toList = stem ++ '/' :: name.toList := by simp [hstem]
    refine ⟨(parts stem).map String.ofList, .inr ?_, ?_⟩
    · exact components_of_toList hstem List.not_mem_nil
    · rw [child, if_pos hslash, components_of_toList hchild hname, String.ofList_toList]
  · have hchild : (path ++ "/" ++ name).toList = path.toList ++ '/' :: name.toList := by simp
    refine ⟨components path, .inl rfl, ?_⟩
    rw [child, if_neg hslash, components_of_toList hchild hname, String.ofList_toList, components]

/-- The path of an entry ends in its name. -/
theorem fileName?_child (hname : IsName name) : fileName? (child path name) = some name := by
  obtain ⟨hempty, hdot, hup, hslash, -, -⟩ := hname
  obtain ⟨front, -, hchild⟩ := exists_components_child path hslash
  have hhere : isHere name = false := by simp [isHere, hempty, hdot]
  have hlast : (front ++ [name]).filter (fun component => !isHere component) =
      front.filter (fun component => !isHere component) ++ [name] := by
    rw [List.filter_append, List.filter_cons_of_pos (by rw [hhere]; rfl), List.filter_nil]
  rw [fileName?, hchild, hlast, List.getLast?_concat]
  exact if_neg hup

theorem descendant_append (front : List String) :
    descendant path (front ++ names) = descendant (descendant path front) names :=
  List.foldl_append

/-! ## Length -/

theorem fault?_eq_none_iff : fault? path = none ↔
    nul ∉ path.toList ∧ path ≠ "" ∧ path.utf8ByteSize ≤ mostOctets := by
  rw [fault?]
  split_ifs with hnul hempty hlong
  · simp_all
  · simp_all
  · simp_all
  · simp_all

theorem exists_child_eq (path name : String) :
    ∃ more, child path name = path ++ more := by
  rw [child]
  split_ifs
  · exact ⟨name, rfl⟩
  · exact ⟨"/" ++ name, String.append_assoc⟩

theorem child_ne_empty (hpath : path ≠ "") (name : String) : child path name ≠ "" := by
  obtain ⟨more, hmore⟩ := exists_child_eq path name
  rw [hmore, ne_eq, String.append_eq_empty_iff]
  exact fun hboth => hpath hboth.1

theorem exists_descendant_eq (path : String) (names : List String) :
    ∃ more, descendant path names = path ++ more := by
  induction names generalizing path with
  | nil => exact ⟨"", String.append_empty.symm⟩
  | cons name names ih =>
      obtain ⟨more, hmore⟩ := exists_child_eq path name
      obtain ⟨others, hothers⟩ := ih (child path name)
      exact ⟨more ++ others, by rw [descendant, List.foldl_cons, ← descendant, hothers, hmore,
        String.append_assoc]⟩

/-- Where the path of what lies under a directory leads somewhere, that of the directory does. -/
theorem fault?_eq_none_of_descendant (hpath : path ≠ "")
    (hfault : fault? (descendant path names) = none) : fault? path = none := by
  obtain ⟨more, hmore⟩ := exists_descendant_eq path names
  rw [hmore, fault?_eq_none_iff] at hfault
  obtain ⟨hnul, -, hlength⟩ := hfault
  rw [String.toList_append, List.mem_append, not_or] at hnul
  rw [String.utf8ByteSize_append] at hlength
  exact fault?_eq_none_iff.mpr ⟨hnul.1, hpath, by omega⟩

end ClassCensus.Path

namespace ClassCensus.FileTree

variable {α : Type} {tree found : FileTree α} {path name : String} {place names : List String}

/-! ## Where they lead -/

theorem locateFrom_of_append_empty {components : List String}
    (hlocate : locateFrom tree place (components ++ [""]) = .ok names) :
    locateFrom tree place components = .ok names := by
  rw [locateFrom_append] at hlocate
  cases hbefore : locateFrom tree place components with
  | error fault => rw [hbefore] at hlocate; cases hlocate
  | ok before =>
      rw [hbefore, Except.bind, locateFrom.eq_def] at hlocate
      simp only [List.reverse_reverse] at hlocate
      split at hlocate
      · cases hlocate
      · cases hlocate
      · rw [if_pos (by decide), locateFrom, List.reverse_reverse] at hlocate
        exact hlocate

theorem locate_eq_ok_iff : tree.locate path = .ok place ↔
    Path.fault? path = none ∧ path.toList.head? ≠ some '/' ∧
      locateFrom tree [] (Path.components path) = .ok place := by
  rw [locate]
  split
  · rename_i fault hfault
    simp [hfault]
  · rename_i hfault
    split_ifs with hhead
    · simp [hhead]
    · simp [hfault, hhead]

/-- The path of an entry leads one name further. -/
theorem locate_child {entries : List (String × FileTree α)}
    (hlocate : tree.locate path = .ok place) (hplace : under? place tree = some (directory entries))
    (hname : Path.IsName name) (hentry : (entries.lookup name).isSome = true)
    (hfault : Path.fault? (Path.child path name) = none) :
    tree.locate (Path.child path name) = .ok (place ++ [name]) := by
  obtain ⟨hpath, hhead, hlocate⟩ := locate_eq_ok_iff.mp hlocate
  obtain ⟨-, hempty, -⟩ := Path.fault?_eq_none_iff.mp hpath
  obtain ⟨hnone, hdot, hup, hslash, -, hlength⟩ := hname
  obtain ⟨front, hfront, hchild⟩ := Path.exists_components_child path hslash
  have hfrom : locateFrom tree [] front = .ok place := by
    rcases hfront with hfront | hfront
    · rwa [hfront] at hlocate
    · rw [hfront] at hlocate
      exact locateFrom_of_append_empty hlocate
  refine locate_eq_ok_iff.mpr ⟨hfault, ?_, ?_⟩
  · obtain ⟨more, hmore⟩ := Path.exists_child_eq path name
    obtain ⟨c, rest, hpath⟩ := List.exists_cons_of_ne_nil (mt String.toList_eq_nil_iff.mp hempty)
    rw [hmore, String.toList_append]
    rw [hpath] at hhead ⊢
    exact hhead
  · have hhere : ¬ Path.isHere name = true := by simp [Path.isHere, hnone, hdot]
    rw [hchild, locateFrom_append, hfrom, Except.bind,
      locateFrom_name (by rwa [List.reverse_reverse]) hhere hup (by omega) hentry,
      List.reverse_cons, List.reverse_reverse]

/-- The path of a place under a directory leads to the place unless it is too long. -/
theorem locate_descendant {there : FileTree α} (hlocate : tree.locate path = .ok place)
    (hplace : under? place tree = some found) (hproper : found.IsProper)
    (hthere : under? names found = some there)
    (hfault : Path.fault? (Path.descendant path names) = none) :
    tree.locate (Path.descendant path names) = .ok (place ++ names) := by
  -- Each name moves the directory one step down, and its path with it.
  induction names generalizing path place found with
  | nil => rwa [List.append_nil]
  | cons name names ih =>
      cases found with
      | file content => cases hthere
      | directory entries =>
          obtain ⟨entry, hlookup, hbelow⟩ := Option.bind_eq_some_iff.mp hthere
          have hmem := (lookup_eq_some_iff_mem hproper.1).mp hlookup
          obtain ⟨hname, hentry⟩ := entriesAreProper_iff.mp hproper.2 _ hmem
          have hchild : Path.fault? (Path.child path name) = none := by
            have hempty := (Path.fault?_eq_none_iff.mp (locate_eq_ok_iff.mp hlocate).1).2.1
            exact Path.fault?_eq_none_of_descendant (Path.child_ne_empty hempty name) hfault
          have hlocated := locate_child hlocate hplace hname (by rw [hlookup]; rfl) hchild
          have hunder : under? (place ++ [name]) tree = some entry := by
            rw [under?_append, hplace, Option.bind_some, under?, hlookup, Option.bind_some, under?]
          rw [List.append_cons place name names]
          exact ih hlocated hunder hentry hbelow hfault

theorem find_eq_ok_iff : tree.find path = .ok found ↔
    ∃ place, tree.locate path = .ok place ∧ under? place tree = some found := by
  rw [find]
  cases tree.locate path with
  | error fault => simp
  | ok place =>
      simp only [Except.ok.injEq, exists_eq_left']
      cases under? place tree <;> simp

theorem find_descendant {there : FileTree α} (hfind : tree.find path = .ok found)
    (hproper : found.IsProper) (hthere : under? names found = some there)
    (hfault : Path.fault? (Path.descendant path names) = none) :
    tree.find (Path.descendant path names) = .ok there := by
  obtain ⟨place, hlocate, hplace⟩ := find_eq_ok_iff.mp hfind
  refine find_eq_ok_iff.mpr ⟨_, locate_descendant hlocate hplace hproper hthere hfault, ?_⟩
  rw [under?_append, hplace, Option.bind_some, hthere]

/-- A file under a directory is read at its path unless the path is too long. -/
theorem read_descendant_eq_ok_iff {content : α} (hfind : tree.find path = .ok found)
    (hproper : found.IsProper) (hthere : under? names found = some (file content)) {octets : α} :
    tree.read (Path.descendant path names) = .ok octets ↔
      Path.fault? (Path.descendant path names) = none ∧ octets = content := by
  cases hfault : Path.fault? (Path.descendant path names) with
  | none =>
      rw [read, find_descendant hfind hproper hthere hfault]
      simp [eq_comm]
  | some fault =>
      rw [read, find, locate, hfault]
      simp

end ClassCensus.FileTree

/-! ## Extensions -/

namespace ClassCensus

/-- That a name has an extension, in any case of its letters: something, a dot and the extension. -/
def Path.HasExtension (name extension : String) : Prop :=
  ∃ stem suffix, stem ≠ [] ∧ name.toList = stem ++ '.' :: suffix ∧ '.' ∉ suffix ∧
    suffix.map Char.toLower = extension.toList

/-- That the last one of names has an extension. -/
def Path.NamesHaveExtension (names : List String) (extension : String) : Prop :=
  ∃ front name, names = front ++ [name] ∧ HasExtension name extension

namespace Path

variable {path name : String} {names : List String}

theorem suffix?_append {stem suffix : List Char} (hstem : stem ≠ []) (hsuffix : '.' ∉ suffix) :
    suffix? (stem ++ '.' :: suffix) = some suffix := by
  have hnodot : ∀ c ∈ suffix.reverse, (c != '.') = true := fun c hc =>
    bne_iff_ne.mpr fun hdot => hsuffix (hdot ▸ List.mem_reverse.mp hc)
  have hreverse : (stem ++ '.' :: suffix).reverse = suffix.reverse ++ '.' :: stem.reverse := by
    simp
  obtain ⟨c, others, hothers⟩ := List.exists_cons_of_ne_nil (mt List.reverse_eq_nil_iff.mp hstem)
  rw [suffix?, hreverse, hothers, List.dropWhile_append_of_pos hnodot,
    List.takeWhile_append_of_pos hnodot]
  simp

theorem suffix?_eq_some_iff {text suffix : List Char} : suffix? text = some suffix ↔
    ∃ stem, stem ≠ [] ∧ text = stem ++ '.' :: suffix ∧ '.' ∉ suffix := by
  constructor
  · intro hsuffix
    rw [suffix?] at hsuffix
    split at hsuffix
    · cases hsuffix
    · cases hsuffix
    · rename_i dot last others hdrop
      -- From the end of the name, what stops the search for a dot is a dot.
      obtain rfl := Option.some.inj hsuffix
      have hdot : dot = '.' := by
        have hhead := List.head?_dropWhile_not (fun c => c != '.') text.reverse
        rw [hdrop] at hhead
        simpa using hhead
      subst hdot
      refine ⟨(last :: others).reverse, by simp, ?_, ?_⟩
      · rw [← List.reverse_inj, List.reverse_append, List.reverse_cons, List.reverse_reverse,
          List.reverse_reverse, List.append_assoc, List.singleton_append, ← hdrop,
          List.takeWhile_append_dropWhile]
      · intro hmem
        simpa using List.all_eq_true.mp List.all_takeWhile _ (List.mem_reverse.mp hmem)
  · rintro ⟨stem, hstem, rfl, hdot⟩
    exact suffix?_append hstem hdot

theorem extension?_eq_some_iff {extension : String} (hname : fileName? path = some name) :
    extension? path = some extension ↔ HasExtension name extension := by
  simp only [extension?, hname, Option.bind_eq_bind, Option.bind_some, Option.bind_eq_some_iff,
    suffix?_eq_some_iff, HasExtension]
  constructor
  · rintro ⟨suffix, ⟨stem, hstem, htext, hdot⟩, hextension⟩
    obtain rfl := Option.some.inj hextension
    exact ⟨stem, suffix, hstem, htext, hdot, String.toList_ofList.symm⟩
  · rintro ⟨stem, suffix, hstem, htext, hdot, hextension⟩
    exact ⟨suffix, ⟨stem, hstem, htext, hdot⟩, by rw [hextension, String.ofList_toList]; rfl⟩

theorem namesHaveExtension_append {front : List String} {extension : String} :
    NamesHaveExtension (front ++ [name]) extension ↔ HasExtension name extension := by
  constructor
  · rintro ⟨others, last, hlast, hextension⟩
    obtain rfl := (List.append_singleton_inj.mp hlast).2
    exact hextension
  · exact fun hextension => ⟨front, name, rfl, hextension⟩

/-- Names have one extension at most. -/
theorem NamesHaveExtension.unique {first second : String} (hfirst : NamesHaveExtension names first)
    (hsecond : NamesHaveExtension names second) : first = second := by
  obtain ⟨front, name, rfl, stem, suffix, hstem, hname, hdot, hsuffix⟩ := hfirst
  obtain ⟨other, more, hother, hmore, hdots, hsame⟩ := namesHaveExtension_append.mp hsecond
  have hsuffixes := suffix?_eq_some_iff.mpr ⟨stem, hstem, hname, hdot⟩
  rw [suffix?_eq_some_iff.mpr ⟨other, hother, hmore, hdots⟩] at hsuffixes
  obtain rfl := Option.some.inj hsuffixes
  exact String.toList_inj.mp (hsuffix.symm.trans hsame)

theorem extension?_descendant_eq_some_iff {extension : String} (hsome : names ≠ [])
    (hnames : ∀ name ∈ names, IsName name) :
    extension? (descendant path names) = some extension ↔ NamesHaveExtension names extension := by
  obtain ⟨front, name, rfl⟩ : ∃ front name, names = front ++ [name] :=
    ⟨_, _, (List.dropLast_concat_getLast hsome).symm⟩
  have hname : fileName? (descendant path (front ++ [name])) = some name := by
    rw [descendant_append]
    exact fileName?_child (hnames name (by simp))
  rw [extension?_eq_some_iff hname, namesHaveExtension_append]

end Path

namespace FileKind

open ClassCensus.Path

variable {path : String} {names : List String}

theorem ofPath_eq_classFile_iff :
    ofPath path = classFile ↔ extension? path = some classExtension := by
  rw [ofPath]
  cases extension? path with
  | none => simp
  | some extension =>
      simp only [Option.some.injEq]
      split_ifs <;> simp_all

theorem ofPath_eq_archive_iff :
    ofPath path = archive ↔ ∃ extension ∈ archiveExtensions, extension? path = some extension := by
  rw [ofPath]
  cases extension? path with
  | none => simp
  | some extension =>
      simp only [Option.some.injEq, exists_eq_right']
      by_cases hclass : extension = classExtension
      · rw [if_pos hclass, hclass]
        exact iff_of_false nofun (by decide)
      · rw [if_neg hclass]
        split_ifs with harchive <;> simp [harchive]

/-- Files are class files by the extension of their last names. -/
theorem ofPath_descendant_eq_classFile_iff (hsome : names ≠ [])
    (hnames : ∀ name ∈ names, IsName name) :
    ofPath (descendant path names) = classFile ↔ NamesHaveExtension names classExtension := by
  rw [ofPath_eq_classFile_iff, extension?_descendant_eq_some_iff hsome hnames]

/-- Files are archives by the extensions of their last names. -/
theorem ofPath_descendant_eq_archive_iff (hsome : names ≠ [])
    (hnames : ∀ name ∈ names, IsName name) :
    ofPath (descendant path names) = archive ↔
      ∃ extension ∈ archiveExtensions, NamesHaveExtension names extension := by
  simp only [ofPath_eq_archive_iff, extension?_descendant_eq_some_iff hsome hnames]

end FileKind

end ClassCensus
