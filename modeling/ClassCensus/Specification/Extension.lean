import ClassCensus.Specification.Basic

/-!
# Extensions of tables

A specification extends another if it explains all that the other explains in the same way.
-/

namespace ClassCensus.Specification

/-- Whether every tag and opcode that is explained is explained in the same way by `newer`. -/
def ExtendedBy (older newer : Specification) : Prop :=
  (∀ tag layout, older.layout? tag = some layout → newer.layout? tag = some layout) ∧
    ∀ opcode mnemonic, older.mnemonic? opcode = some mnemonic →
      newer.mnemonic? opcode = some mnemonic

theorem ExtendedBy.refl (specification : Specification) :
    specification.ExtendedBy specification :=
  ⟨fun _ _ hfound => hfound, fun _ _ hfound => hfound⟩

end ClassCensus.Specification
