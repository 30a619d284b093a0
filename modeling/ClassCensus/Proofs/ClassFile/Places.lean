import ClassCensus.ClassFile.Places

/-!
# Laws of places

Another attribute at a place is found there.  It is also found inside of the attributes around that
place, which stay what they are otherwise, and nowhere else.
-/

namespace ClassCensus

/-! ## Changes at an index -/

section

variable {α β : Type} {put : α → α} {change : β → β}

theorem exists_append_of_getElem? {values : List α} {index : Nat} {value : α}
    (hvalue : values[index]? = some value) :
    ∃ front back, values = front ++ value :: back ∧ front.length = index := by
  obtain ⟨hindex, rfl⟩ := List.getElem?_eq_some_iff.mp hvalue
  have htake : (values.take index).length = index := List.length_take_of_le (Nat.le_of_lt hindex)
  refine ⟨values.take index, values.drop (index + 1), ?_, htake⟩
  rw [← List.drop_eq_getElem_cons hindex, List.take_append_drop]

theorem modify_append_cons (front back : List α) (value : α) (change : α → α) :
    (front ++ value :: back).modify front.length change = front ++ change value :: back := by
  induction front with
  | nil => rfl
  | cons first front ih => exact congrArg (List.cons first) ih

theorem modify_congr {values : List α} {index : Nat} {value : α} {first second : α → α}
    (hvalue : values[index]? = some value) (hsame : first value = second value) :
    values.modify index first = values.modify index second := by
  obtain ⟨front, back, rfl, rfl⟩ := exists_append_of_getElem? hvalue
  rw [modify_append_cons, modify_append_cons, hsame]

theorem map_getElem?_modify (get : α → β) (hput : ∀ value, get (put value) = change (get value))
    (values : List α) (index : Nat) :
    ((values.modify index put)[index]?).map get = (values[index]?.map get).map change := by
  rw [List.getElem?_modify_eq]
  cases values[index]? with
  | none => rfl
  | some value => exact congrArg some (hput value)

theorem map_getElem?_modify_of_ne (get : α → β) {index other : Nat} (hother : other ≠ index)
    (values : List α) :
    ((values.modify index put)[other]?).map get = values[other]?.map get := by
  rw [List.getElem?_modify_ne _ _ (Ne.symm hother)]

theorem bind_getElem?_modify (lists : Option (List α)) (index : Nat) :
    ((lists.map fun values => values.modify index put).bind fun values => values[index]?) =
      (lists.bind fun values => values[index]?).map put := by
  cases lists with
  | none => rfl
  | some values => exact List.getElem?_modify_eq put index values

theorem bind_getElem?_modify_of_ne {index other : Nat} (hother : other ≠ index)
    (lists : Option (List α)) :
    ((lists.map fun values => values.modify index put).bind fun values => values[other]?) =
      lists.bind fun values => values[other]? := by
  cases lists with
  | none => rfl
  | some values => exact List.getElem?_modify_ne put values (Ne.symm hother)

end

/-! ## Attributes in attributes -/

namespace Attribute

section

variable {change : List Attribute → List Attribute} {slot other : AttributeSlot}

theorem attributesIn?_modifyIn (found : Attribute) :
    (found.modifyIn change slot).attributesIn? slot = (found.attributesIn? slot).map change := by
  fun_cases modifyIn change slot found with
  | case1 body => rfl
  | case2 index components =>
      exact map_getElem?_modify RecordComponent.attributes (fun _ => rfl) components index
  | case3 slot found hcode hrecord =>
      have hnone : found.attributesIn? slot = none := by
        fun_cases attributesIn? slot found with
        | case1 body => exact absurd rfl (hcode body rfl)
        | case2 index components => exact absurd rfl (hrecord index components rfl)
        | case3 => rfl
      rw [hnone]
      rfl

theorem attributesIn?_modifyIn_of_ne (hother : other ≠ slot) (found : Attribute) :
    (found.modifyIn change slot).attributesIn? other = found.attributesIn? other := by
  fun_cases modifyIn change slot found with
  | case1 body =>
      cases other with
      | code => exact absurd rfl hother
      | component index => rfl
  | case2 index components =>
      cases other with
      | code => rfl
      | component otherIndex =>
          have hindex : otherIndex ≠ index := fun heq => hother (heq ▸ rfl)
          exact map_getElem?_modify_of_ne RecordComponent.attributes hindex components
  | case3 => rfl

/-- What an attribute becomes depends on what becomes of the attributes that are in it. -/
theorem modifyIn_congr {others : List Attribute → List Attribute} {attributes : List Attribute}
    {found : Attribute} (hattributes : found.attributesIn? slot = some attributes)
    (hsame : change attributes = others attributes) :
    found.modifyIn change slot = found.modifyIn others slot := by
  revert hattributes
  fun_cases attributesIn? slot found with
  | case1 body =>
      intro hattributes
      cases hattributes
      simp only [modifyIn, hsame]
  | case2 index components =>
      intro hattributes
      obtain ⟨component, hcomponent, rfl⟩ := Option.map_eq_some_iff.mp hattributes
      exact congrArg record (modify_congr hcomponent (by simp only [hsame]))
  | case3 => simp

/-- Code stays code, and a record stays a record. -/
theorem kind?_modifyIn (found : Attribute) : (found.modifyIn change slot).kind? = found.kind? := by
  fun_cases modifyIn change slot found <;> rfl

end

section

variable {change : Attribute → Attribute} {step other : AttributeStep}

theorem nested?_modifyNested (found : Attribute) :
    (found.modifyNested change step).nested? step = (found.nested? step).map change := by
  rw [modifyNested, nested?, attributesIn?_modifyIn]
  exact bind_getElem?_modify _ _

theorem nested?_modifyNested_of_ne (hother : other ≠ step) (found : Attribute) :
    (found.modifyNested change step).nested? other = found.nested? other := by
  rw [modifyNested, nested?]
  by_cases hslot : other.slot = step.slot
  · have hindex : other.index ≠ step.index := by
      intro hindex
      apply hother
      cases other
      cases step
      congr
    rw [hslot, attributesIn?_modifyIn, bind_getElem?_modify_of_ne hindex, nested?, hslot]
  · rw [attributesIn?_modifyIn_of_ne hslot, nested?]

end

section

variable {replacement : Attribute} {steps others : List AttributeStep}

/-- Around the steps, the replacement is found where the steps go on. -/
theorem at?_replaceAt_around (hstart : others <+: steps) (found : Attribute) :
    (found.replaceAt steps replacement).at? others =
      (found.at? others).map fun outer =>
        outer.replaceAt (steps.drop others.length) replacement := by
  induction others generalizing steps found with
  | nil => rfl
  | cons step others ih =>
      obtain ⟨inside, rfl⟩ := hstart
      rw [List.cons_append, replaceAt, at?, at?, nested?_modifyNested]
      cases found.nested? step with
      | none => rfl
      | some nested => exact ih (List.prefix_append others inside) nested

/-- Beside the steps, everything is as before. -/
theorem at?_replaceAt_beside (hsteps : ¬ steps <+: others) (hothers : ¬ others <+: steps)
    (found : Attribute) : (found.replaceAt steps replacement).at? others = found.at? others := by
  induction steps generalizing others found with
  | nil => exact absurd List.nil_prefix hsteps
  | cons step steps ih =>
      cases others with
      | nil => exact absurd List.nil_prefix hothers
      | cons other others =>
          rw [replaceAt, at?, at?]
          by_cases hother : other = step
          · -- Both lead into the same nested attribute, and part further inside.
            subst hother
            rw [List.cons_prefix_cons, not_and] at hsteps hothers
            rw [nested?_modifyNested]
            cases found.nested? other with
            | none => rfl
            | some nested => exact ih (hsteps rfl) (hothers rfl) nested
          · rw [nested?_modifyNested_of_ne hother]

theorem at?_append (found : Attribute) :
    found.at? (steps ++ others) = (found.at? steps).bind (at? others) := by
  induction steps generalizing found with
  | nil => rfl
  | cons step steps ih =>
      rw [List.cons_append, at?, at?, Option.bind_assoc]
      exact congrArg _ (funext ih)

/-- An attribute around others keeps its kind. -/
theorem kind?_replaceAt (hsteps : steps ≠ []) (found : Attribute) :
    (found.replaceAt steps replacement).kind? = found.kind? := by
  cases steps with
  | nil => exact absurd rfl hsteps
  | cons step steps => exact kind?_modifyIn found

/-- Only code and records have attributes nested in them. -/
theorem exists_kind?_of_at? (hsteps : steps ≠ []) {found inner : Attribute}
    (hinner : found.at? steps = some inner) : ∃ kind, found.kind? = some kind := by
  cases steps with
  | nil => exact absurd rfl hsteps
  | cons step steps =>
      obtain ⟨nested, hnested, -⟩ := Option.bind_eq_some_iff.mp hinner
      obtain ⟨attributes, hattributes, -⟩ := Option.bind_eq_some_iff.mp hnested
      revert hattributes
      fun_cases attributesIn? step.slot found with
      | case1 body => exact fun _ => ⟨.code, rfl⟩
      | case2 index components => exact fun _ => ⟨.record, rfl⟩
      | case3 => simp

end

end Attribute

/-! ## Attributes of class files -/

namespace ClassFile

section

variable {change : List Attribute → List Attribute} {holder other : AttributeHolder}

theorem attributesIn?_modifyIn (classFile : ClassFile) :
    (classFile.modifyIn change holder).attributesIn? holder =
      (classFile.attributesIn? holder).map change := by
  cases holder with
  | classFile => rfl
  | field index => exact map_getElem?_modify Field.attributes (fun _ => rfl) _ index
  | method index => exact map_getElem?_modify Method.attributes (fun _ => rfl) _ index

theorem modifyIn_congr {others : List Attribute → List Attribute} {attributes : List Attribute}
    {classFile : ClassFile} (hattributes : classFile.attributesIn? holder = some attributes)
    (hsame : change attributes = others attributes) :
    classFile.modifyIn change holder = classFile.modifyIn others holder := by
  cases holder with
  | classFile =>
      cases hattributes
      simp only [modifyIn, hsame]
  | field index =>
      obtain ⟨field, hfield, rfl⟩ := Option.map_eq_some_iff.mp hattributes
      have hfields : classFile.fields.modify index (fun field =>
          { field with attributes := change field.attributes }) =
          classFile.fields.modify index (fun field =>
            { field with attributes := others field.attributes }) :=
        modify_congr hfield (by simp only [hsame])
      simp only [modifyIn, hfields]
  | method index =>
      obtain ⟨method, hmethod, rfl⟩ := Option.map_eq_some_iff.mp hattributes
      have hmethods : classFile.methods.modify index (fun method =>
          { method with attributes := change method.attributes }) =
          classFile.methods.modify index (fun method =>
            { method with attributes := others method.attributes }) :=
        modify_congr hmethod (by simp only [hsame])
      simp only [modifyIn, hmethods]

theorem attributesIn?_modifyIn_of_ne (hother : other ≠ holder) (classFile : ClassFile) :
    (classFile.modifyIn change holder).attributesIn? other = classFile.attributesIn? other := by
  cases holder with
  | classFile =>
      cases other with
      | classFile => exact absurd rfl hother
      | field otherIndex | method otherIndex => rfl
  | field index =>
      cases other with
      | classFile | method otherIndex => rfl
      | field otherIndex =>
          have hindex : otherIndex ≠ index := fun heq => hother (heq ▸ rfl)
          exact map_getElem?_modify_of_ne Field.attributes hindex classFile.fields
  | method index =>
      cases other with
      | classFile | field otherIndex => rfl
      | method otherIndex =>
          have hindex : otherIndex ≠ index := fun heq => hother (heq ▸ rfl)
          exact map_getElem?_modify_of_ne Method.attributes hindex classFile.methods

end

section

variable {replacement : Attribute} {place other : AttributePlace}

theorem outermost?_replaceAt (hholder : other.holder = place.holder)
    (hindex : other.index = place.index) (classFile : ClassFile) :
    (classFile.replaceAt place replacement).outermost? other =
      (classFile.outermost? other).map fun found => found.replaceAt place.steps replacement := by
  rw [outermost?, replaceAt, hholder, hindex, attributesIn?_modifyIn, bind_getElem?_modify,
    outermost?, hholder, hindex]

theorem outermost?_replaceAt_of_not (hother : ¬ (other.holder = place.holder ∧
    other.index = place.index)) (classFile : ClassFile) :
    (classFile.replaceAt place replacement).outermost? other = classFile.outermost? other := by
  rw [outermost?, replaceAt]
  by_cases hholder : other.holder = place.holder
  · have hindex : other.index ≠ place.index := fun hindex => hother ⟨hholder, hindex⟩
    rw [hholder, attributesIn?_modifyIn, bind_getElem?_modify_of_ne hindex, outermost?, hholder]
  · rw [attributesIn?_modifyIn_of_ne hholder, outermost?]

/-- At places around it, the replacement is found where the steps go on. -/
theorem attributeAt?_replaceAt_of_encloses (hencloses : other.Encloses place)
    (classFile : ClassFile) :
    (classFile.replaceAt place replacement).attributeAt? other =
      (classFile.attributeAt? other).map fun outer =>
        outer.replaceAt (place.steps.drop other.steps.length) replacement := by
  obtain ⟨hholder, hindex, hsteps⟩ := hencloses
  rw [attributeAt?, attributeAt?, outermost?_replaceAt hholder hindex]
  cases classFile.outermost? other with
  | none => rfl
  | some outermost => exact Attribute.at?_replaceAt_around hsteps outermost

theorem attributeAt?_replaceAt_self {found : Attribute} {classFile : ClassFile}
    (hfound : classFile.attributeAt? place = some found) :
    (classFile.replaceAt place replacement).attributeAt? place = some replacement := by
  have hself : place.Encloses place := ⟨rfl, rfl, List.prefix_rfl⟩
  rw [attributeAt?_replaceAt_of_encloses hself, hfound, List.drop_length]
  rfl

/-- At places that are neither around nor inside of it, everything is as before. -/
theorem attributeAt?_replaceAt_of_not_encloses (hother : ¬ other.Encloses place)
    (hplace : ¬ place.Encloses other) (classFile : ClassFile) :
    (classFile.replaceAt place replacement).attributeAt? other = classFile.attributeAt? other := by
  rw [attributeAt?, attributeAt?]
  by_cases hsame : other.holder = place.holder ∧ other.index = place.index
  · obtain ⟨hholder, hindex⟩ := hsame
    have hsteps : ¬ place.steps <+: other.steps := fun hstart =>
      hplace ⟨hholder.symm, hindex.symm, hstart⟩
    have hothers : ¬ other.steps <+: place.steps := fun hstart =>
      hother ⟨hholder, hindex, hstart⟩
    rw [outermost?_replaceAt hholder hindex]
    cases classFile.outermost? other with
    | none => rfl
    | some outermost => exact Attribute.at?_replaceAt_beside hsteps hothers outermost
  · rw [outermost?_replaceAt_of_not hsame]

/-- An attribute around another one is code or a record, and stays what it is. -/
theorem exists_kind?_of_encloses {found : Attribute} {classFile : ClassFile}
    (hfound : classFile.attributeAt? place = some found) (hencloses : other.Encloses place)
    (hother : other ≠ place) :
    ∃ kind, (classFile.attributeAt? other).bind Attribute.kind? = some kind ∧
      ((classFile.replaceAt place replacement).attributeAt? other).bind Attribute.kind? =
        some kind := by
  obtain ⟨hholder, hindex, others, hsteps⟩ := hencloses
  have hothers : others ≠ [] := by
    rintro rfl
    apply hother
    rw [List.append_nil] at hsteps
    cases other
    cases place
    congr
  have hsplit : classFile.attributeAt? place =
      (classFile.attributeAt? other).bind (Attribute.at? others) := by
    rw [attributeAt?, attributeAt?, outermost?, outermost?, hholder, hindex, ← hsteps,
      Option.bind_assoc _ (Attribute.at? other.steps)]
    exact congrArg _ (funext Attribute.at?_append)
  obtain ⟨outer, houter, hinner⟩ := Option.bind_eq_some_iff.mp (hsplit.symm.trans hfound)
  obtain ⟨kind, hkind⟩ := Attribute.exists_kind?_of_at? hothers hinner
  refine ⟨kind, by rw [houter]; exact hkind, ?_⟩
  rw [attributeAt?_replaceAt_of_encloses ⟨hholder, hindex, others, hsteps⟩, houter, ← hsteps,
    List.drop_left]
  exact (Attribute.kind?_replaceAt hothers outer).trans hkind

end

end ClassFile

end ClassCensus
