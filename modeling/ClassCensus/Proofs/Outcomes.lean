import Mathlib.Data.List.Forall2

/-!
# Outcomes of steps

Steps that are taken one after the other succeed if all of them do, and otherwise fail as the first
one does that fails.  The same holds where the steps are programs that ask nobody.
-/

namespace ClassCensus

variable {ε α β : Type}

theorem exists_of_forall₂ {relation : α → β → Prop} {items : List α} {values : List β}
    (hvalues : List.Forall₂ relation items values) {item : α} (hitem : item ∈ items) :
    ∃ value ∈ values, relation item value := by
  induction hvalues with
  | nil => cases hitem
  | cons hvalue hvalues ih =>
      rcases List.mem_cons.mp hitem with rfl | hbehind
      · exact ⟨_, List.mem_cons_self, hvalue⟩
      · obtain ⟨value, hmem, hrelated⟩ := ih hbehind
        exact ⟨value, List.mem_cons_of_mem _ hmem, hrelated⟩

section Except

variable {answer : Except ε α} {next : α → Except ε β} {step : α → Except ε β} {items : List α}
  {value : β} {values : List β} {fault : ε}

theorem bind_eq_ok_iff : answer >>= next = .ok value ↔
    ∃ found, answer = .ok found ∧ next found = .ok value := by
  cases answer with
  | error fault => exact iff_of_false nofun nofun
  | ok found => simp [bind, Except.bind]

theorem bind_eq_error_iff : answer >>= next = .error fault ↔
    answer = .error fault ∨ ∃ found, answer = .ok found ∧ next found = .error fault := by
  cases answer with
  | error cause => simp [bind, Except.bind]
  | ok found => simp [bind, Except.bind]

theorem mapM_eq_ok_iff : items.mapM step = .ok values ↔
    List.Forall₂ (fun item value => step item = .ok value) items values := by
  induction items generalizing values with
  | nil =>
      rw [List.mapM_nil, List.forall₂_nil_left_iff]
      exact ⟨fun hnil => (Except.ok.inj hnil).symm, fun hnil => congrArg Except.ok hnil.symm⟩
  | cons item items ih =>
      simp only [List.mapM_cons, bind_eq_ok_iff, ih, List.forall₂_cons_left_iff]
      constructor
      · rintro ⟨first, hfirst, others, hothers, hvalues⟩
        exact ⟨first, others, hfirst, hothers, (Except.ok.inj hvalues).symm⟩
      · rintro ⟨first, others, hfirst, hothers, rfl⟩
        exact ⟨first, hfirst, others, hothers, rfl⟩

theorem exists_of_mapM_eq_error (hfault : items.mapM step = .error fault) :
    ∃ item ∈ items, step item = .error fault := by
  induction items with
  | nil => cases hfault
  | cons item items ih =>
      rw [List.mapM_cons, bind_eq_error_iff] at hfault
      rcases hfault with hitem | ⟨first, -, hfault⟩
      · exact ⟨item, List.mem_cons_self, hitem⟩
      rcases bind_eq_error_iff.mp hfault with hitems | ⟨others, -, hpure⟩
      · obtain ⟨found, hfound, hcause⟩ := ih hitems
        exact ⟨found, List.mem_cons_of_mem item hfound, hcause⟩
      · cases hpure

end Except

section ExceptT

variable {action : ExceptT ε Id α} {next : α → ExceptT ε Id β} {step : α → ExceptT ε Id β}
  {items : List α} {value : β} {values : List β} {fault : ε}

theorem run_liftM_bind {m : Type → Type} [Monad m] [LawfulMonad m] (asked : m α)
    (next : α → ExceptT ε m β) :
    ((liftM asked : ExceptT ε m α) >>= next).run = asked >>= fun answer => (next answer).run :=
  ExceptT.run_bind_lift asked next

theorem run_bind (action : ExceptT ε Id α) (next : α → ExceptT ε Id β) :
    (action >>= next).run = (action.run.run >>= fun found => (next found).run.run :
      Except ε β) := by
  rw [ExceptT.run_bind]
  cases action.run <;> rfl

theorem run_mapM (step : α → ExceptT ε Id β) (items : List α) :
    (items.mapM step).run = (items.mapM fun item => (step item).run.run : Except ε (List β)) := by
  induction items with
  | nil => rfl
  | cons item items ih =>
      simp only [List.mapM_cons, run_bind, ih]
      rfl

theorem run_bind_eq_ok_iff : (action >>= next).run = .ok value ↔
    ∃ found, action.run = .ok found ∧ (next found).run = .ok value := by
  rw [run_bind]
  exact bind_eq_ok_iff

theorem run_bind_eq_error_iff : (action >>= next).run = .error fault ↔
    action.run = .error fault ∨
      ∃ found, action.run = .ok found ∧ (next found).run = .error fault := by
  rw [run_bind]
  exact bind_eq_error_iff

theorem run_mapM_eq_ok_iff : (items.mapM step).run = .ok values ↔
    List.Forall₂ (fun item value => (step item).run = .ok value) items values := by
  rw [run_mapM]
  exact mapM_eq_ok_iff

theorem exists_of_run_mapM_eq_error (hfault : (items.mapM step).run = .error fault) :
    ∃ item ∈ items, (step item).run = .error fault := by
  rw [run_mapM] at hfault
  exact exists_of_mapM_eq_error hfault

end ExceptT

end ClassCensus
