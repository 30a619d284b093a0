import ClassCensus.Collection

/-!
# Actions that only read

With the files of a tree at hand, an action that does nothing but look at places and read files
leaves the tree as it is, and answers as it would if nobody could write to the tree at all.
-/

namespace ClassCensus

namespace FileTree

/-- Access to the files of a tree that nobody can write to. -/
def still (tree : FileTree (List UInt8)) : FileAccess Id where
  look path := (tree.find path).map shape
  read := tree.reader
  write _ _ := .error .notPermitted

/-- That an action leaves a tree as it is, and answers as another does that has no tree to leave. -/
def Agree {ε α : Type} (tree : FileTree (List UInt8))
    (action : ExceptT ε (StateM (FileTree (List UInt8))) α) (quiet : ExceptT ε Id α) : Prop :=
  action.run.run tree = (quiet.run, tree)

section Agree

variable {ε α β : Type} {tree left : FileTree (List UInt8)}
  {action : ExceptT ε (StateM (FileTree (List UInt8))) α} {quiet : ExceptT ε Id α}
  {asked : StateM (FileTree (List UInt8)) α}

theorem run_bind_of_ok {next : α → ExceptT ε (StateM (FileTree (List UInt8))) β} {answer : α}
    (haction : action.run.run tree = (.ok answer, left)) :
    (action >>= next).run.run tree = (next answer).run.run left := by
  rw [ExceptT.run_bind, StateT.run_bind, haction]
  rfl

theorem run_bind_of_error {next : α → ExceptT ε (StateM (FileTree (List UInt8))) β} {fault : ε}
    (haction : action.run.run tree = (.error fault, left)) :
    (action >>= next).run.run tree = (.error fault, left) := by
  rw [ExceptT.run_bind, StateT.run_bind, haction]
  rfl

theorem run_lift_of_run {answer : α} (hasked : asked.run tree = (answer, left)) :
    (ExceptT.lift asked : ExceptT ε _ α).run.run tree = (.ok answer, left) := by
  rw [ExceptT.run_lift, StateT.run_map, hasked]
  rfl

theorem agree_pure (answer : α) : Agree (ε := ε) tree (pure answer) (pure answer) := rfl

theorem agree_throw (fault : ε) :
    Agree tree (throw fault : ExceptT ε (StateM (FileTree (List UInt8))) α)
      (throw fault : ExceptT ε Id α) :=
  rfl

theorem Agree.bind {next : α → ExceptT ε (StateM (FileTree (List UInt8))) β}
    {quietNext : α → ExceptT ε Id β} (hagree : Agree tree action quiet)
    (hnext : ∀ answer, Agree tree (next answer) (quietNext answer)) :
    Agree tree (action >>= next) (quiet >>= quietNext) := by
  unfold Agree at hagree ⊢
  rw [ExceptT.run_bind quiet]
  cases hanswer : quiet.run with
  | error fault =>
      rw [hanswer] at hagree
      exact run_bind_of_error hagree
  | ok answer =>
      rw [hanswer] at hagree
      exact (run_bind_of_ok hagree).trans (hnext answer)

theorem agree_lift {answer : Id α} (hasked : asked.run tree = (answer, tree)) :
    Agree (ε := ε) tree (ExceptT.lift asked) (ExceptT.lift answer) :=
  run_lift_of_run hasked

theorem agree_mapM {γ : Type} {actionOf : γ → ExceptT ε (StateM (FileTree (List UInt8))) α}
    {quietOf : γ → ExceptT ε Id α} (items : List γ)
    (hagree : ∀ item, Agree tree (actionOf item) (quietOf item)) :
    Agree tree (items.mapM actionOf) (items.mapM quietOf) := by
  induction items with
  | nil => exact agree_pure []
  | cons item items ih =>
      rw [List.mapM_cons, List.mapM_cons]
      exact (hagree item).bind fun first => ih.bind fun others => agree_pure (first :: others)

end Agree

end FileTree

/-! ## Collecting -/

namespace Collection

open FileTree

variable (tree : FileTree (List UInt8)) (path : String)

theorem agree_ofFile : Agree tree (ofFile access.read path) (ofFile tree.reader path) := by
  unfold ofFile
  split
  · exact agree_pure _
  · apply (agree_lift rfl).bind
    intro content
    split
    · exact agree_throw _
    · split
      · exact agree_throw _
      · exact agree_pure _
  · exact agree_pure []

theorem agree_ofPlace (place : List String × Option Unit) :
    Agree tree (ofPlace access.read path place) (ofPlace tree.reader path place) := by
  obtain ⟨names, _ | content⟩ := place
  · simp only [ofPlace]
    split
    · exact agree_throw _
    · exact agree_pure []
  · exact agree_ofFile tree (Path.descendant path names)

/-- Collecting only reads. -/
theorem agree_ofTree (found : FileTree Unit) :
    Agree tree (ofTree access.read path found) (ofTree tree.reader path found) :=
  (agree_mapM found.places (agree_ofPlace tree path)).bind fun rows => agree_pure rows.flatten

theorem agree_ofPath : Agree tree (ofPath access path) (ofPath tree.still path) := by
  apply (agree_lift rfl).bind
  intro found
  split
  · exact agree_ofTree tree path _
  · exact agree_ofFile tree path

/-! ## Readers that agree on archives -/

variable {m : Type → Type} [Monad m] {reader other : FileReader m}

theorem ofFile_congr
    (hsame : FileKind.ofPath path = .archive → reader path = other path) :
    ofFile reader path = ofFile other path := by
  unfold ofFile
  split
  · rfl
  · rename_i harchive
    rw [hsame harchive]
  · rfl

/-- Of all files that are there, collecting reads archives only. -/
theorem ofTree_congr (hsame : ∀ path, FileKind.ofPath path = .archive → reader path = other path)
    (found : FileTree Unit) : ofTree reader path found = ofTree other path found := by
  have hplace : ofPlace reader path = ofPlace other path := by
    funext place
    obtain ⟨names, _ | content⟩ := place
    · rfl
    · exact ofFile_congr _ (hsame _)
  rw [ofTree, ofTree, hplace]

end Collection

end ClassCensus
