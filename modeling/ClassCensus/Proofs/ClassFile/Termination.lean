import ClassCensus.Proofs.ClassFile.PrefixFree
import Mathlib.Logic.Function.Iterate

/-!
# Decoding ends

Element values nest in element values, and attributes in attributes.  Decoders of one level leave
what nests in it to other decoders, so decoders of several levels are those of one level applied as
often.  Whatever they leave the innermost level to, it is never asked: a nested value lies behind a
tag and a nested attribute behind its name and length, so there are fewer levels than octets.
-/

namespace ClassCensus

namespace Decoder

variable {α : Type} {tables : Tables} {bound : Nat}

/-! ## Decoders that are handed their depth -/

/-- A decoder that is handed its depth agrees with what it agrees with at the depth it is handed. -/
theorem AgreeWithin.deep {decoder : Nat → Decoder α} {other : Decoder α}
    (hagree : ∀ less ≤ bound, AgreeWithin less (decoder (less + 1)) other) :
    AgreeWithin bound (deep decoder) other :=
  fun before hbefore => hagree before.rest.length hbefore before (Nat.le_refl _)

theorem agreeWithin_elementValue {depth : Nat} (hdepth : bound < depth) :
    AgreeWithin bound (elementValue tables) (elementValueIn tables depth) :=
  .deep fun _ hless => agreeWithin_elementValueIn (Nat.lt_succ_self _)
    (Nat.lt_of_le_of_lt hless hdepth)

end Decoder

/-! ## Levels -/

/-- Decoders of element values and of attributes. -/
structure LevelDecoders where
  value : Decoder ElementValue
  meaning : RawAttribute → Attribute × List String

namespace LevelDecoders

open Decoder

/-- Takes the body of an attribute and leaves to `inner` what nests in it. -/
def bodyAround (tables : Tables) (inner : LevelDecoders) : AttributeKind → Decoder Attribute
  | .annotationDefault => return .annotationDefault (← inner.value)
  | .runtimeVisibleAnnotations =>
    return .runtimeVisibleAnnotations (← table (annotationUseOf tables inner.value))
  | .runtimeInvisibleAnnotations =>
    return .runtimeInvisibleAnnotations (← table (annotationUseOf tables inner.value))
  | .runtimeVisibleParameterAnnotations =>
    return .runtimeVisibleParameterAnnotations
      (← shortTable (table (annotationUseOf tables inner.value)))
  | .runtimeInvisibleParameterAnnotations =>
    return .runtimeInvisibleParameterAnnotations
      (← shortTable (table (annotationUseOf tables inner.value)))
  | .runtimeVisibleTypeAnnotations =>
    return .runtimeVisibleTypeAnnotations
      (← table (typeAnnotationUseOf (annotationUseOf tables inner.value)))
  | .runtimeInvisibleTypeAnnotations =>
    return .runtimeInvisibleTypeAnnotations
      (← table (typeAnnotationUseOf (annotationUseOf tables inner.value)))
  | kind => attributeBodyOf tables (attributeWith inner.meaning) kind

/-- The decoders of one level, which leave to `inner` what nests in it. -/
def around (tables : Tables) (inner : LevelDecoders) : LevelDecoders where
  value := elementValueOf tables inner.value
  meaning := attributeOf tables (inner.bodyAround tables)

variable {tables : Tables} {bound : Nat}

/-- As many levels as there are octets are enough for an element value. -/
theorem agreeWithin_value (last : LevelDecoders) {depth : Nat} (hdepth : bound < depth) :
    AgreeWithin bound (elementValue tables) ((around tables)^[depth] last).value := by
  induction depth generalizing bound with
  | zero => omega
  | succ depth ih =>
      rw [Function.iterate_succ_apply']
      refine (agreeWithin_elementValue hdepth).trans
        (.elementValueOf (fun less hless => ?_) (takes_elementValueIn depth))
      -- What nests in a value lies behind its tag, so the levels inside are enough for it.
      have hinner : less < depth := by omega
      exact (agreeWithin_elementValue hinner).symm.trans (ih hinner)

section Bodies

variable {inner : LevelDecoders}
variable (hvalue : AgreeWithin bound (elementValue tables) inner.value)

include hvalue

theorem agreeWithin_annotationUse {less : Nat} (hless : less ≤ bound) :
    AgreeWithin less (annotationUseOf tables (elementValueIn tables (less + 1)))
      (annotationUseOf tables inner.value) := by
  have hdepth : AgreeWithin less (elementValueIn tables (less + 1)) (elementValue tables) :=
    (agreeWithin_elementValue (Nat.lt_succ_self less)).symm
  exact (hdepth.trans (hvalue.mono hless)).annotationUseOf (takes_elementValueIn _)

theorem agreeWithin_annotations :
    AgreeWithin bound (annotations tables) (table (annotationUseOf tables inner.value)) :=
  .deep fun _ hless => (agreeWithin_annotationUse hvalue hless).table (takes_annotationUseIn _)

theorem agreeWithin_parameterAnnotations :
    AgreeWithin bound (parameterAnnotations tables)
      (shortTable (table (annotationUseOf tables inner.value))) :=
  .deep fun _ hless =>
    ((agreeWithin_annotationUse hvalue hless).table (takes_annotationUseIn _)).shortTable
      (takes_annotationUseIn _).table

theorem agreeWithin_typeAnnotations :
    AgreeWithin bound (typeAnnotations tables)
      (table (typeAnnotationUseOf (annotationUseOf tables inner.value))) :=
  .deep fun _ hless => (agreeWithin_annotationUse hvalue hless).typeAnnotationUseOf.table
    (takes_typeAnnotationUseIn _)

/-- A body is the same if its level is decoded around what decodes what nests in it. -/
theorem agreeWithin_bodyAround
    (hnested : AgreeWithin bound (attributeEntry tables) (attributeWith inner.meaning))
    (kind : AttributeKind) :
    AgreeWithin bound (attributeBodyOf tables (attributeEntry tables) kind)
      (inner.bodyAround tables kind) := by
  have hentry := ensures_nested fun raw : RawAttribute => raw.meaning tables
  cases kind with
  | code => exact (hnested.code hentry).map _
  | record => exact (hnested.recordComponents hentry).map _
  | annotationDefault => exact hvalue.map _
  | runtimeVisibleAnnotations => exact (agreeWithin_annotations hvalue).map _
  | runtimeInvisibleAnnotations => exact (agreeWithin_annotations hvalue).map _
  | runtimeVisibleParameterAnnotations => exact (agreeWithin_parameterAnnotations hvalue).map _
  | runtimeInvisibleParameterAnnotations => exact (agreeWithin_parameterAnnotations hvalue).map _
  | runtimeVisibleTypeAnnotations => exact (agreeWithin_typeAnnotations hvalue).map _
  | runtimeInvisibleTypeAnnotations => exact (agreeWithin_typeAnnotations hvalue).map _
  | _ => exact .refl _

end Bodies

/-- With more levels than its body has octets, an attribute is decoded to its end. -/
theorem meaning_iterate (last : LevelDecoders) {depth : Nat} {raw : RawAttribute}
    (hdepth : raw.octets.length + 1 < depth) :
    ((around tables)^[depth] last).meaning raw = raw.meaning tables := by
  induction depth generalizing raw with
  | zero => omega
  | succ depth ih =>
      rw [Function.iterate_succ_apply']
      -- The levels inside are enough for the values in the body and for every shorter attribute.
      have hvalue : AgreeWithin raw.octets.length (elementValue tables)
          ((around tables)^[depth] last).value := agreeWithin_value last (by omega)
      have hnested : AgreeWithin raw.octets.length (attributeEntry tables)
          (attributeWith ((around tables)^[depth] last).meaning) :=
        .attributeWith fun nested hless => (ih (by omega)).symm
      refine attributeOf_congr fun kind => ?_
      rw [attributeBody_eq]
      exact (agreeWithin_bodyAround hvalue hnested kind (.start raw.octets) (Nat.le_refl _)).symm

end LevelDecoders

end ClassCensus
