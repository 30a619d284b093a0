import ClassCensus.Proofs.CommandLine.Reports
import ClassCensus.Proofs.Files.Writing

/-!
# Runs of the command line

A run writes nothing before it has its report, so when something stands in the way of the report the
files are left as they are; and when nothing does, the report is all that is written.  What class
files hold has no say in it.
-/

namespace ClassCensus.CommandLine

open FileTree

variable {tree : FileTree (List UInt8)}

/-! ## Runs -/

/-- How a run ends that has a text to write: what it leaves behind, and the tree it leaves. -/
inductive Settings.Ends (settings : Settings) (tree : FileTree (List UInt8)) (text : String) :
    Exit × FileTree (List UInt8) → Prop
  | printed : settings.outputFile? = none → Ends settings tree text (⟨0, text, ""⟩, tree)
  | written {path : String} {names : List String} {left : FileTree (List UInt8)} :
    settings.outputFile? = some path → tree.destination path = .ok names →
    left.read path = .ok text.toUTF8.toList →
    (∀ others content, others ≠ names →
      (under? others left = some (.file content) ↔ under? others tree = some (.file content))) →
    Ends settings tree text (⟨0, "", ""⟩, left)
  | refused {path : String} {cause : FileFault} : settings.outputFile? = some path →
    tree.destination path = .error cause →
    Ends settings tree text
      (⟨1, "", "Error: " ++ (RunFault.notOpened path).message ++ "\n"⟩, tree)

section Runs

variable {settings : Settings} {arguments : List String}

end Runs

/-! ## Contents that do not matter -/

/-- That trees have the same places, with the same content in all documents and archives. -/
structure SameButClasses (settings : Settings) (tree other : FileTree (List UInt8)) : Prop where
  shape : other.shape = tree.shape
  specification : ∀ path, settings.specification = some path → other.read path = tree.read path
  versions : ∀ path, settings.versions = some path → other.read path = tree.read path
  archives : ∀ path, FileKind.ofPath path = .archive → other.read path = tree.read path

section SameButClasses

variable {settings : Settings} {other : FileTree (List UInt8)}

theorem SameButClasses.symm (hsame : SameButClasses settings tree other) :
    SameButClasses settings other tree where
  shape := hsame.shape.symm
  specification path hpath := (hsame.specification path hpath).symm
  versions path hpath := (hsame.versions path hpath).symm
  archives path hpath := (hsame.archives path hpath).symm

theorem FailsNamed.congr {α : Type} {load : List UInt8 → Except DocumentFault α}
    {refusal : String → RunFault} {named : Option String} {fault : RunFault}
    (hsame : ∀ path, named = some path → other.read path = tree.read path)
    (hfails : FailsNamed tree load refusal named fault) :
    FailsNamed other load refusal named fault := by
  cases hfails with
  | unread hread hcause => exact .unread ((hsame _ rfl).trans hread) hcause
  | directory hread => exact .directory ((hsame _ rfl).trans hread)
  | malformed hread hload => exact .malformed ((hsame _ rfl).trans hread) hload

theorem SameButClasses.map_find (hsame : SameButClasses settings tree other) (path : String) :
    (other.find path).map FileTree.shape = (tree.find path).map FileTree.shape := by
  rw [← find_shape, ← find_shape, hsame.shape]

theorem Settings.IsBlockedBy.congr {fault : RunFault} (hsame : SameButClasses settings tree other)
    (hblocked : settings.IsBlockedBy tree fault) : settings.IsBlockedBy other fault := by
  cases hblocked with
  | specification hfails => exact .specification (hfails.congr hsame.specification)
  | versions hfails => exact .versions (hfails.congr hsame.versions)
  | @missing path cause hinput hfind =>
      have hshape := hsame.map_find path
      rw [hfind] at hshape
      cases hother : other.find path with
      | error otherCause => exact .missing hinput hother
      | ok found => simp [hother, Except.map] at hshape
  | @uncollected path found cause hinput hfind hcollect =>
      have hshape := hsame.map_find path
      rw [hfind] at hshape
      cases hother : other.find path with
      | error otherCause => simp [hother, Except.map] at hshape
      | ok otherFound =>
          rw [hother] at hshape
          have hfound : otherFound.shape = found.shape := Except.ok.inj hshape
          apply IsBlockedBy.uncollected hinput hother
          rw [hfound, Collection.ofTree_congr path hsame.archives]
          exact hcollect

end SameButClasses

/-! ## Failing as a whole -/

end ClassCensus.CommandLine
