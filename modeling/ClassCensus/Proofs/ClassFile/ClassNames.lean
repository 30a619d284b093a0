import ClassCensus.Proofs.ClassFile.Layout
import ClassCensus.Proofs.Constant.Indices

/-!
# Names of classes

There are two ways to the name of a class in a constant pool: the entries are listed, or an index is
followed.  In a pool that was decoded both find the same names, because every entry stands at an
index of its own.  A class file takes its names of classes from indices, in attributes at any depth;
so each of them is a name that the pool lists, or the empty one that replaces a name that is not
found.
-/

namespace ClassCensus

/-! ## Two ways to the names of a pool -/

namespace ConstantPool

variable {pool : ConstantPool} {name : String}

/-- Following an index finds the name that the entry there gives. -/
theorem className_eq_ok_iff {index : UInt16} : pool.className index = .ok name ↔
    ∃ constant, pool.entry index = .ok constant ∧ pool.namedClass? constant = some name := by
  rw [className]
  cases hentry : pool.entry index with
  | error missing => simp [Bind.bind, Except.bind]
  | ok constant =>
      simp only [Bind.bind, Except.bind, Except.ok.injEq, exists_eq_left', namedClass?]
      split
      next nameIndex _ _ => cases pool.text nameIndex <;> simp [Except.toOption]
      next => simp [throw, throwThe, MonadExceptOf.throw]

/-- The names that are listed are those that an index leads to. -/
theorem mem_namedClasses_iff {count : UInt16} (hindexed : pool.Indexed count) :
    name ∈ pool.namedClasses ↔ ∃ index, pool.className index = .ok name := by
  simp only [namedClasses, ClassNames.mem_ofList, List.mem_filterMap, hindexed.mem_entries_iff,
    className_eq_ok_iff]
  constructor
  · rintro ⟨constant, ⟨index, hentry⟩, hname⟩
    exact ⟨index, constant, hentry, hname⟩
  · rintro ⟨index, constant, hentry, hname⟩
    exact ⟨constant, ⟨index, hentry⟩, hname⟩

/-- That a name may be resolved from an index of a class: an index leads to it, or it is the empty
name that replaces one that is not found. -/
def KnowsClass (pool : ConstantPool) (name : String) : Prop :=
  name = "" ∨ ∃ index, pool.className index = .ok name

theorem knowsClass_classNameOrEmpty (pool : ConstantPool) (index : UInt16) :
    pool.KnowsClass (pool.classNameOrEmpty index) := by
  rw [classNameOrEmpty]
  split
  next name hname => exact .inr ⟨index, hname⟩
  next => exact .inl rfl

theorem knowsClass_optionalClassName {index : UInt16}
    (hname : name ∈ (pool.optionalClassName index).toList) : pool.KnowsClass name := by
  rw [optionalClassName] at hname
  split at hname
  · cases hname
  · rw [Option.toList_some, List.mem_singleton] at hname
    exact hname ▸ pool.knowsClass_classNameOrEmpty index

end ConstantPool

/-! ## Names in attributes -/

namespace Attribute

theorem classNamesIn_eq (attributes : List Attribute) :
    classNamesIn attributes = attributes.flatMap classNames := by
  induction attributes with
  | nil => rfl
  | cons found attributes ih => rw [classNamesIn, ih, List.flatMap_cons]

theorem componentClassNames_eq (components : List (RecordComponent Attribute)) :
    componentClassNames components =
      components.flatMap fun component => component.attributes.flatMap classNames := by
  induction components with
  | nil => rfl
  | cons component components ih =>
      rw [componentClassNames, ih, classNamesIn_eq, List.flatMap_cons]

end Attribute

/-- Whether attributes of a kind take names from indices of classes, or hold attributes that may. -/
def AttributeKind.holdsClassNames : AttributeKind → Bool
  | code | exceptions | innerClasses | enclosingMethod | nestHost | nestMembers
  | permittedSubclasses | record => true
  | _ => false

theorem Attribute.classNames_eq_nil {found : Attribute} {kind : AttributeKind}
    (hkind : found.kind? = some kind) (hnone : kind.holdsClassNames = false) :
    found.classNames = [] := by
  cases found <;> cases hkind <;> first | rfl | cases hnone

namespace Decoder

variable {α β : Type} {tables : Tables}

/-- That all names described by an answer may be resolved from indices of classes. -/
def Names (tables : Tables) (decoder : Decoder α) (describe : α → List String) : Prop :=
  Ensures tables.pool.Knows decoder fun _ _ value =>
    ∀ name ∈ describe value, tables.pool.KnowsClass name

theorem Names.map {decoder : Decoder α} {describe : α → List String}
    (hnames : Names tables decoder describe) (make : α → β) {describeMade : β → List String}
    (hdescribe : ∀ value, describeMade (make value) = describe value) :
    Names tables (do return make (← decoder)) describeMade := by
  refine Ensures.bind hnames fun _ _ value hvalue => ensures_pure ?_
  rw [hdescribe]
  exact hvalue

theorem InOrder.forall_mem {post : α → Prop} {taken : List UInt8} {met : List String}
    {values : List α} (horder : InOrder (fun _ _ value => post value) taken met values) :
    ∀ value ∈ values, post value := by
  induction horder with
  | nil => simp
  | cons hfirst _ ih => exact List.forall_mem_cons.mpr ⟨hfirst, ih⟩

theorem names_table {entry : Decoder α} {describe : α → List String}
    (hnames : Names tables entry describe) :
    Names tables (table entry) (fun values => values.flatMap describe) := by
  refine (ensures_table hnames).mono ?_
  rintro _ _ values ⟨_, _, _, horder⟩ name hname
  obtain ⟨value, hvalue, hname⟩ := List.mem_flatMap.mp hname
  exact horder.forall_mem value hvalue name hname

theorem names_classNameAt : Names tables (classNameAt tables) fun name => [name] := by
  refine (ensures_resolved tables.pool.classNameOrEmpty).mono ?_
  rintro _ _ _ ⟨index, -, rfl, -⟩ name hname
  rw [List.mem_singleton.mp hname]
  exact tables.pool.knowsClass_classNameOrEmpty index

theorem names_optionalClassNameAt :
    Names tables (optionalClassNameAt tables) Option.toList := by
  refine (ensures_resolved tables.pool.optionalClassName).mono ?_
  rintro _ _ _ ⟨index, -, rfl, -⟩ name hname
  exact ConstantPool.knowsClass_optionalClassName hname

theorem names_classNames : Names tables (classNames tables) id := by
  refine (names_table names_classNameAt).mono fun _ _ names hnames name hname => ?_
  exact hnames name (by simpa using hname)

theorem names_innerClass :
    Names tables (innerClass tables) fun found => found.innerClass :: found.outerClass.toList := by
  refine Ensures.bind names_classNameAt fun _ _ inner hinner => ?_
  refine Ensures.bind names_optionalClassNameAt fun _ _ outer houter => ?_
  refine silent_optionalTextAt.then_ensures fun innerName => Silent.u2.then_ensures fun flags => ?_
  exact ensures_pure (List.forall_mem_cons.mpr ⟨hinner inner (by simp), houter⟩)

theorem names_enclosingMethod : Names tables (enclosingMethod tables) Attribute.classNames := by
  refine Ensures.bind names_classNameAt fun _ _ className hclass => ?_
  exact Silent.u2.then_ensures fun methodIndex => ensures_pure hclass

section

variable {entry : Decoder Attribute} (hentry : Names tables entry Attribute.classNames)

include hentry

theorem names_code :
    Names tables (code tables entry) fun found =>
      found.attributes.flatMap Attribute.classNames := by
  refine Silent.u2.then_ensures fun maxStack => Silent.u2.then_ensures fun maxLocals => ?_
  refine Silent.u4.then_ensures fun length => ?_
  refine (Silent.run .runCutShort length.toNat).then_ensures fun octets => ?_
  refine silent_exceptionHandler.table.then_ensures fun handlers => ?_
  exact (names_table hentry).map _ fun _ => rfl

theorem names_recordComponent :
    Names tables (recordComponent tables entry) fun found =>
      found.attributes.flatMap Attribute.classNames := by
  refine silent_textAt.then_ensures fun name => ?_
  refine Ensures.bind meets_descriptorAt fun _ _ descriptor _ => ?_
  exact (names_table hentry).map _ fun _ => rfl

end

/-- Whether a body fits or not, an attribute holds no other names than its body. -/
theorem names_attributeOf {body : AttributeKind → Decoder Attribute}
    (hbody : ∀ kind, Names tables (body kind) Attribute.classNames) (raw : RawAttribute) :
    ∀ name ∈ (attributeOf tables body raw).1.classNames, tables.pool.KnowsClass name := by
  rcases attributeOf_cases body raw with ⟨-, hraw⟩ | ⟨kind, found, after, -, hfound, hraw⟩ |
    ⟨kind, reason, after, -, -, hraw⟩
  · rw [hraw]
    simp [Attribute.classNames]
  · obtain ⟨_, _, _, _, hnames⟩ := Ensures.ok (hbody kind) hfound
    rw [hraw]
    exact hnames
  · rw [hraw]
    simp [Attribute.classNames]

theorem names_attributeBody_of_not_holds {depth : Nat} {kind : AttributeKind}
    (hnone : kind.holdsClassNames = false) :
    Names tables (attributeBody tables depth kind) Attribute.classNames := by
  refine (meets_attributeBody depth kind).of_ok fun _ found _ hok => ?_
  rw [Attribute.classNames_eq_nil (kind?_of_attributeBody hok) hnone]
  simp

/-- Bodies hold no names of classes but those that indices of classes lead to, at any depth. -/
theorem names_attributeBody (depth : Nat) (kind : AttributeKind) :
    Names tables (attributeBody tables depth kind) Attribute.classNames := by
  induction depth generalizing kind with
  | zero => exact ensures_throw _
  | succ depth ih =>
      -- Code and records hold attributes, which are one step less deep.
      have hnested : Names tables (attributeWith (attributeOf tables (attributeBody tables depth)))
          Attribute.classNames := by
        refine (ensures_attributeWith fun raw =>
          (agrees_attributeOf (meets_attributeBody depth) raw).1).mono ?_
        rintro _ _ found ⟨raw, -, -, hraw⟩
        have hnames := names_attributeOf ih raw
        rwa [← hraw] at hnames
      cases kind with
      | code =>
          refine (names_code hnested).map _ fun found => ?_
          exact Attribute.classNamesIn_eq found.attributes
      | exceptions => exact names_classNames.map _ fun _ => rfl
      | innerClasses => exact (names_table names_innerClass).map _ fun _ => rfl
      | enclosingMethod => exact names_enclosingMethod
      | nestHost => exact names_classNameAt.map _ fun _ => rfl
      | nestMembers => exact names_classNames.map _ fun _ => rfl
      | permittedSubclasses => exact names_classNames.map _ fun _ => rfl
      | record =>
          refine (names_table (names_recordComponent hnested)).map _ fun components => ?_
          exact Attribute.componentClassNames_eq components
      | _ => exact names_attributeBody_of_not_holds rfl

end Decoder

/-! ## Names in class files -/

theorem RawAttribute.knowsClass_decoded (tables : Tables) (raw : RawAttribute) :
    ∀ name ∈ (raw.decoded tables).classNames, tables.pool.KnowsClass name :=
  Decoder.names_attributeOf (Decoder.names_attributeBody _) raw

theorem RawClassFile.exists_decoded {version : ClassVersion} {tables : Tables}
    {raw : RawClassFile} {found : Attribute}
    (hfound : found ∈ (raw.classFile version tables).allAttributes) :
    ∃ nested : RawAttribute, nested.decoded tables = found := by
  simp only [ClassFile.allAttributes, classFile, List.mem_append, List.mem_flatMap, List.mem_map]
    at hfound
  rcases hfound with (⟨_, ⟨member, -, rfl⟩, hfound⟩ | ⟨_, ⟨member, -, rfl⟩, hfound⟩) |
    ⟨nested, -, rfl⟩
  · obtain ⟨nested, -, rfl⟩ := List.mem_map.mp hfound
    exact ⟨nested, rfl⟩
  · obtain ⟨nested, -, rfl⟩ := List.mem_map.mp hfound
    exact ⟨nested, rfl⟩
  · exact ⟨nested, rfl⟩

/-- The names of classes in a class file that was decoded may be resolved from its pool. -/
theorem Decoder.knowsClass_classBody {version : ClassVersion} {tables : Tables}
    {before after : Cursor} {classFile : ClassFile}
    (hbody : Decoder.classBody version tables before = .ok classFile after) :
    ∀ name ∈ classFile.classNames, tables.pool.KnowsClass name := by
  obtain ⟨_, _, _, _, raw, -, -, rfl⟩ := (Decoder.takes_classBody version).ok hbody
  intro name hname
  simp only [ClassFile.classNames, List.mem_cons, List.mem_append, Attribute.classNamesIn_eq,
    List.mem_flatMap] at hname
  rcases hname with rfl | (hsuper | hinterface) | ⟨found, hfound, hname⟩
  · exact tables.pool.knowsClass_classNameOrEmpty raw.thisIndex
  · exact ConstantPool.knowsClass_optionalClassName hsuper
  · obtain ⟨index, -, rfl⟩ := List.mem_map.mp hinterface
    exact tables.pool.knowsClass_classNameOrEmpty index
  · obtain ⟨nested, rfl⟩ := RawClassFile.exists_decoded hfound
    exact nested.knowsClass_decoded tables name hname

end ClassCensus
