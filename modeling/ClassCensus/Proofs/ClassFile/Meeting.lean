import ClassCensus.ClassFile.Tables
import ClassCensus.Proofs.Octets.Ensures

/-!
# What is met while decoding

The descriptors met on the way agree with those of the answer: each one in the answer was met, and
nothing else was met unless something in the answer is malformed.  Whatever is met is resolved from
the constant pool.
-/

namespace ClassCensus

/-! ## Known texts -/

namespace ConstantPool

/-- The texts of the `Utf8` entries. -/
def texts (pool : ConstantPool) : List String :=
  pool.entries.filterMap fun constant => if constant.kind = .utf8 then constant.text? else none

/-- That a text may be resolved from an index: it stands in the pool, or is the empty text that
replaces one that is not found. -/
def Knows (pool : ConstantPool) (text : String) : Prop := text = "" ∨ text ∈ pool.texts

theorem mem_entries_of_entry {pool : ConstantPool} {index : UInt16} {constant : Constant}
    (hentry : pool.entry index = .ok constant) : constant ∈ pool.entries := by
  simp only [entry] at hentry
  split at hentry
  next found hslot =>
    cases hentry
    have hmem := List.mem_of_getElem? (Array.getElem?_toList.trans hslot)
    exact List.mem_filterMap.mpr ⟨some constant, hmem, rfl⟩
  next => cases hentry

theorem mem_texts_of_text {pool : ConstantPool} {index : UInt16} {found : String}
    (htext : pool.text index = .ok found) : found ∈ pool.texts := by
  simp only [text] at htext
  cases hentry : pool.entry index with
  | error missing => simp [hentry, Bind.bind, Except.bind] at htext
  | ok constant =>
      simp only [hentry, Bind.bind, Except.bind] at htext
      split at htext
      next text hkind hfound =>
        cases htext
        exact List.mem_filterMap.mpr
          ⟨constant, mem_entries_of_entry hentry, by rw [if_pos hkind, hfound]⟩
      next => cases htext

theorem knows_textOrEmpty (pool : ConstantPool) (index : UInt16) :
    pool.Knows (pool.textOrEmpty index) := by
  rw [textOrEmpty]
  split
  next text htext => exact .inr (mem_texts_of_text htext)
  next => exact .inl rfl

end ConstantPool

/-! ## Agreement -/

/-- That the texts met are those of an answer: all of its texts were met, and if it is sound
nothing else was. -/
structure Agrees (texts : List String) (sound : Prop) (met : List String) : Prop where
  complete : ∀ text ∈ texts, text ∈ met
  exact : sound → ∀ text ∈ met, text ∈ texts

namespace Agrees

variable {texts others met more : List String} {sound alsoSound : Prop}

theorem nil : Agrees [] sound [] :=
  ⟨by simp, by simp⟩

theorem single (text : String) : Agrees [text] sound [text] :=
  ⟨fun _ htext => htext, fun _ _ htext => htext⟩

theorem append (hfirst : Agrees texts sound met) (hsecond : Agrees others alsoSound more) :
    Agrees (texts ++ others) (sound ∧ alsoSound) (more ++ met) := by
  constructor
  · intro text htext
    rcases List.mem_append.mp htext with htext | htext
    · exact List.mem_append_right more (hfirst.complete text htext)
    · exact List.mem_append_left met (hsecond.complete text htext)
  · rintro ⟨hsound, halsoSound⟩ text htext
    rcases List.mem_append.mp htext with htext | htext
    · exact List.mem_append_right texts (hsecond.exact halsoSound text htext)
    · exact List.mem_append_left others (hfirst.exact hsound text htext)

theorem of_imp (hagrees : Agrees texts sound met) (himplies : alsoSound → sound) :
    Agrees texts alsoSound met :=
  ⟨hagrees.complete, fun hsound => hagrees.exact (himplies hsound)⟩

/-- The entries of a row agree together if each agrees. -/
theorem of_inOrder {α : Type} {describe : α → List String} {isSound : α → Prop}
    {taken : List UInt8} {values : List α}
    (horder : Decoder.InOrder (fun _ met value => Agrees (describe value) (isSound value) met)
      taken met values) :
    Agrees (values.flatMap describe) (∀ value ∈ values, isSound value) met := by
  induction horder with
  | nil => exact nil
  | cons hfirst _ ih =>
      refine (hfirst.append ih).of_imp fun hsound => ?_
      exact ⟨hsound _ (by simp), fun value hvalue => hsound value (by simp [hvalue])⟩

end Agrees

namespace Decoder

/-- That all descriptors a decoder meets are known and agree with its answer. -/
def Meets (tables : Tables) (decoder : Decoder α) (describe : α → List String)
    (isSound : α → Prop) : Prop :=
  Ensures tables.pool.Knows decoder fun _ met value => Agrees (describe value) (isSound value) met

section

variable {α : Type} {known : String → Prop} {tables : Tables}

theorem silent_textAt : Silent (textAt tables) :=
  Silent.u2.bind fun _ => .pure _

theorem silent_classNameAt : Silent (classNameAt tables) :=
  Silent.u2.bind fun _ => .pure _

theorem silent_optionalTextAt : Silent (optionalTextAt tables) :=
  Silent.u2.bind fun _ => .pure _

theorem silent_optionalClassNameAt : Silent (optionalClassNameAt tables) :=
  Silent.u2.bind fun _ => .pure _

theorem silent_classNames : Silent (classNames tables) :=
  silent_classNameAt.table

theorem ensures_resolved (resolve : UInt16 → α) :
    Ensures known (do return resolve (← u2)) fun taken met value =>
      ∃ index : UInt16, taken = bigEndian 2 index.toNat ∧ value = resolve index ∧ met = [] := by
  refine ensures_u2.bind ?_
  rintro _ _ index ⟨rfl, rfl⟩
  exact ensures_pure ⟨index, by simp, rfl, rfl⟩

theorem Silent.meets {decoder : Decoder α} (hsilent : Silent decoder) :
    Meets tables decoder (fun _ => []) (fun _ => True) := by
  refine (hsilent tables.pool.Knows).mono ?_
  rintro _ _ _ rfl
  exact .nil

/-- What an answer is made into holds the descriptors of the answer. -/
theorem Meets.map {β : Type} {decoder : Decoder α} {describe : α → List String}
    {isSound : α → Prop} (hmeets : Meets tables decoder describe isSound) (make : α → β)
    {describeMade : β → List String} {isSoundMade : β → Prop}
    (hdescribe : ∀ value, describeMade (make value) = describe value)
    (hsound : ∀ value, isSoundMade (make value) → isSound value) :
    Meets tables (do return make (← decoder)) describeMade isSoundMade := by
  refine Ensures.bind hmeets fun _ met value hagrees => ensures_pure ?_
  rw [hdescribe]
  exact hagrees.of_imp (hsound value)

theorem meets_table {entry : Decoder α} {describe : α → List String} {isSound : α → Prop}
    (hmeets : Meets tables entry describe isSound) :
    Meets tables (table entry) (fun values => values.flatMap describe)
      (fun values => ∀ value ∈ values, isSound value) := by
  refine (ensures_table hmeets).mono ?_
  rintro _ _ values ⟨_, _, _, horder⟩
  exact .of_inOrder horder

theorem meets_shortTable {entry : Decoder α} {describe : α → List String} {isSound : α → Prop}
    (hmeets : Meets tables entry describe isSound) :
    Meets tables (shortTable entry) (fun values => values.flatMap describe)
      (fun values => ∀ value ∈ values, isSound value) := by
  refine (ensures_shortTable hmeets).mono ?_
  rintro _ _ values ⟨_, _, _, horder⟩
  exact .of_inOrder horder

end

end Decoder

end ClassCensus
