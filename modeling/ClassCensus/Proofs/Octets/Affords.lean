import ClassCensus.Proofs.Octets.Ensures
import Mathlib.Algebra.Ring.Nat

/-!
# What octets pay for

An answer is given a cost, and every octet that a decoder takes pays for one unit of it.  A row of
decoders is judged by what is left of the payments: the cost of what one of them has answered is the
credit of those that follow, on top of the octets these take themselves.  So a table costs no more
than its entries, however many its count announces.
-/

namespace ClassCensus.Decoder

variable {α β : Type} {credit : Nat} {cost : α → Nat} {decoder : Decoder α}

/-- That the cost of every answer is paid for by a credit and by the octets that are taken. -/
def Affords (credit : Nat) (cost : α → Nat) (decoder : Decoder α) : Prop :=
  Ensures (fun _ => True) decoder fun taken _ value => cost value ≤ credit + taken.length

theorem affords_pure {value : α} (hcost : cost value ≤ credit) :
    Affords credit cost (pure value) :=
  ensures_pure hcost

theorem affords_throw (fault : Fault) : Affords credit cost (throw fault) :=
  ensures_throw fault

/-- What is paid for an answer is credit for what follows. -/
theorem Affords.bind {next : α → Decoder β} {total : β → Nat} (haffords : Affords 0 cost decoder)
    (hnext : ∀ value, Affords (credit + cost value) total (next value)) :
    Affords credit total (decoder >>= next) := by
  refine Ensures.bind haffords fun taken _ value hcost => (hnext value).mono ?_
  intro others _ answer htotal
  rw [List.length_append]
  omega

theorem Affords.map {total : β → Nat} (haffords : Affords 0 cost decoder) (make : α → β)
    (htotal : ∀ value, total (make value) ≤ credit + cost value) :
    Affords credit total (do return make (← decoder)) :=
  haffords.bind fun value => affords_pure (htotal value)

theorem Affords.make {total : β → Nat} (haffords : Affords 0 cost decoder) (make : α → β)
    (htotal : ∀ value, total (make value) ≤ cost value) :
    Affords 0 total (do return make (← decoder)) :=
  haffords.map make fun value => Nat.le_add_left_of_le (htotal value)

theorem Affords.lower {less : α → Nat} (haffords : Affords credit cost decoder)
    (hless : ∀ value, less value ≤ cost value) : Affords credit less decoder :=
  Ensures.mono haffords fun _ _ value hcost => Nat.le_trans (hless value) hcost

/-- What is credited beyond the octets may be spent on top of them. -/
theorem Affords.add (haffords : Affords 0 cost decoder) (credit : Nat) :
    Affords (0 + credit) (fun value => credit + cost value) decoder := by
  refine Ensures.mono haffords fun taken _ value hcost => ?_
  rw [Nat.zero_add] at hcost ⊢
  exact Nat.add_le_add_left hcost credit

theorem Affords.ite {condition : Prop} [Decidable condition] {first second : Decoder α}
    (hfirst : Affords credit cost first) (hsecond : Affords credit cost second) :
    Affords credit cost (if condition then first else second) :=
  Ensures.ite (fun _ => hfirst) (fun _ => hsecond)

/-! ## Octets and numbers -/

theorem affords_run (fault : Fault) (length : Nat) : Affords 0 List.length (run fault length) := by
  refine (ensures_run fault length).mono ?_
  rintro _ _ value ⟨rfl, -, -⟩
  omega

theorem affords_word {width : Nat} {toNat : α → Nat}
    (hword : Ensures (fun _ => True) decoder fun taken met value =>
      taken = bigEndian width (toNat value) ∧ met = []) :
    Affords 0 (fun _ => width) decoder := by
  refine Ensures.mono hword ?_
  rintro _ _ value ⟨rfl, -⟩
  rw [length_bigEndian]
  exact Nat.le_add_left _ _

theorem affords_u1 : Affords 0 (fun _ => 1) u1 := affords_word ensures_u1

theorem affords_u2 : Affords 0 (fun _ => 2) u2 := affords_word ensures_u2

theorem affords_u4 : Affords 0 (fun _ => 4) u4 := affords_word ensures_u4

theorem affords_meet (text : String) : Affords 0 (fun _ => 0) (meet text) :=
  (ensures_meet trivial).mono fun _ _ _ _ => Nat.zero_le _

/-! ## Tables -/

theorem InOrder.sum_le {taken : List UInt8} {met : List String} {values : List α}
    (horder : InOrder (fun taken _ value => cost value ≤ 0 + taken.length) taken met values) :
    (values.map cost).sum ≤ taken.length := by
  induction horder with
  | nil => simp
  | cons hcost _ ih =>
      rw [List.map_cons, List.sum_cons, List.length_append]
      omega

section

variable {entry : Decoder α} (haffords : Affords 0 cost entry)

include haffords

theorem affords_times (count : Nat) :
    Affords 0 (fun values => (values.map cost).sum) (times count entry) := by
  refine (ensures_times haffords count).mono ?_
  rintro taken _ values ⟨-, horder⟩
  exact Nat.le_trans horder.sum_le (Nat.le_add_left _ _)

theorem affords_table : Affords 0 (fun values => 2 + (values.map cost).sum) (table entry) :=
  affords_u2.bind fun count => (affords_times haffords count.toNat).add 2

theorem affords_entries : Affords 0 (fun values => (values.map cost).sum) (table entry) :=
  (affords_table haffords).lower fun _ => Nat.le_add_left _ _

theorem affords_shortTable :
    Affords 0 (fun values => 1 + (values.map cost).sum) (shortTable entry) :=
  affords_u1.bind fun count => (affords_times haffords count.toNat).add 1

end

theorem sum_map_one (values : List α) : (values.map fun _ => 1).sum = values.length := by
  rw [List.map_const', List.sum_replicate_nat, Nat.mul_one]

section

variable {entry : Decoder α} (haffords : Affords 0 (fun _ => 1) entry)

include haffords

/-- Where every entry takes an octet, there are no more entries than octets. -/
theorem affords_length (count : Nat) : Affords 0 List.length (times count entry) :=
  (affords_times haffords count).lower fun values => Nat.le_of_eq (sum_map_one values).symm

theorem affords_rows : Affords 0 List.length (table entry) :=
  (affords_entries haffords).lower fun values => Nat.le_of_eq (sum_map_one values).symm

theorem affords_shortRows : Affords 0 List.length (shortTable entry) := by
  refine (affords_shortTable haffords).lower fun values => ?_
  rw [sum_map_one]
  exact Nat.le_add_left _ _

end

theorem affords_deep {decoder : Nat → Decoder α}
    (haffords : ∀ depth, Affords credit cost (decoder depth)) :
    Affords credit cost (deep decoder) :=
  ensures_deep haffords

end ClassCensus.Decoder
