import ClassCensus.Json.Printer
import ClassCensus.Json.Texts
import ClassCensus.Proofs.Json.Quoted
import ClassCensus.Proofs.Json.Reading

/-!
# Reading values that were written

Whatever spacing a value is written with, its text spells the value with its texts quoted, and the
quoting is undone text by text.  So a written value is read back if its numbers are spelled as
numbers.
-/

namespace ClassCensus.Json

variable {spacing : Spacing} {depth : Nat}

/-! ## Octets of written parts -/

theorem encode_append (first second : List Char) :
    Utf8.encode (first ++ second) = Utf8.encode first ++ Utf8.encode second :=
  List.flatMap_append

theorem encode_ascii_cons {c : Char} (hascii : c.toNat < 0x80) (text : List Char) :
    Utf8.encode (c :: text) = UInt8.ofNat c.toNat :: Utf8.encode text := by
  rw [Utf8.encode, List.flatMap_cons, utf8EncodeChar_of_lt hascii]
  rfl

theorem areBlanks_encode {text : List Char} (hblank : ∀ c ∈ text, c ∈ blankCharacters) :
    AreBlanks (Utf8.encode text) := by
  intro octet hoctet
  obtain ⟨c, hc, hencoded⟩ := List.mem_flatMap.mp hoctet
  have hcharacter := hblank c hc
  simp only [blankCharacters, List.mem_cons, List.not_mem_nil, or_false] at hcharacter
  rcases hcharacter with rfl | rfl | rfl | rfl <;>
  · obtain rfl := List.mem_singleton.mp hencoded
    rfl

theorem areBlanks_line (spacing : Spacing) (depth : Nat) :
    AreBlanks (Utf8.encode (spacing.line depth)) :=
  areBlanks_encode (spacing.line_blank depth)

theorem areBlanks_gap (spacing : Spacing) : AreBlanks (Utf8.encode spacing.gap) :=
  areBlanks_encode spacing.gap_blank

theorem areBlanks_nil : AreBlanks [] := by
  intro octet hoctet
  cases hoctet

theorem encode_quoted (text : String) :
    Utf8.encode (quoted text) = 0x22 :: (quoteText text ++ [0x22]) := by
  rw [quoted, encode_ascii_cons (by decide), encode_append]
  rfl

/-! ## Numbers -/

theorem isDigit_lt {octet : UInt8} (hdigit : isDigit octet = true) : octet.toNat < 0x80 := by
  simp only [isDigit, Bool.and_eq_true, decide_eq_true_eq, UInt8.le_iff_toNat_le] at hdigit
  exact Nat.lt_of_le_of_lt hdigit.2 (by decide)

theorem AreDigits.lt {octets : List UInt8} (hdigits : AreDigits octets) :
    ∀ octet ∈ octets, octet.toNat < 0x80 :=
  fun octet hoctet => isDigit_lt (hdigits.2 octet hoctet)

theorem IsWhole.lt {octets : List UInt8} (hwhole : IsWhole octets) :
    ∀ octet ∈ octets, octet.toNat < 0x80 := by
  cases hwhole with
  | zero => exact List.forall_mem_singleton.mpr (by decide)
  | digits hfirst hdigits => exact hdigits.lt

theorem IsFraction.lt {octets : List UInt8} (hfraction : IsFraction octets) :
    ∀ octet ∈ octets, octet.toNat < 0x80 := by
  cases hfraction with
  | none => simp
  | digits hdigits => exact List.forall_mem_cons.mpr ⟨by decide, hdigits.lt⟩

theorem IsExponent.lt {octets : List UInt8} (hexponent : IsExponent octets) :
    ∀ octet ∈ octets, octet.toNat < 0x80 := by
  cases hexponent with
  | none => simp
  | digits hletter hdigits =>
      refine List.forall_mem_cons.mpr ⟨?_, hdigits.lt⟩
      rcases hletter with rfl | rfl <;> decide
  | signed hletter hsign hdigits =>
      refine List.forall_mem_cons.mpr ⟨?_, List.forall_mem_cons.mpr ⟨?_, hdigits.lt⟩⟩
      · rcases hletter with rfl | rfl <;> decide
      · rcases hsign with rfl | rfl <;> decide

theorem IsNumber.lt {octets : List UInt8} (hnumber : IsNumber octets) :
    ∀ octet ∈ octets, octet.toNat < 0x80 := by
  have hparts {whole fraction exponent : List UInt8} (hwhole : IsWhole whole)
      (hfraction : IsFraction fraction) (hexponent : IsExponent exponent) :
      ∀ octet ∈ whole ++ (fraction ++ exponent), octet.toNat < 0x80 :=
    List.forall_mem_append.mpr
      ⟨hwhole.lt, List.forall_mem_append.mpr ⟨hfraction.lt, hexponent.lt⟩⟩
  cases hnumber with
  | plain hwhole hfraction hexponent => exact hparts hwhole hfraction hexponent
  | negative hwhole hfraction hexponent =>
      exact List.forall_mem_cons.mpr ⟨by decide, hparts hwhole hfraction hexponent⟩

theorem encode_numberText {octets : List UInt8} (hascii : ∀ octet ∈ octets, octet.toNat < 0x80) :
    Utf8.encode (numberText octets).toList = octets := by
  rw [numberText, String.toList_ofList]
  induction octets with
  | nil => rfl
  | cons octet others ih =>
      obtain ⟨hoctet, hothers⟩ := List.forall_mem_cons.mp hascii
      have hcode : (Char.ofNat octet.toNat).toNat = octet.toNat := by
        rw [Char.ofNat, dif_pos (Or.inl (by omega))]
        rfl
      rw [List.map_cons, encode_ascii_cons (by omega), ih hothers, hcode, UInt8.ofNat_toNat]

/-! ## Natural numbers -/

theorem numberText_ascii {text : String} (hascii : ∀ c ∈ text.toList, c.toNat < 0x80) :
    numberText (ascii text) = text := by
  have hback : (ascii text).map (fun octet => Char.ofNat octet.toNat) = text.toList := by
    rw [ascii, List.map_map]
    refine (List.map_congr_left fun c hc => ?_).trans (List.map_id _)
    have hsmall := hascii c hc
    rw [Function.comp_apply, Utf8.toNat_octet _ (by omega), Char.ofNat_toNat, id]
  rw [numberText, hback, String.ofList_toList]

/-- The digits of a number that is not zero do not start with zero. -/
theorem exists_head_toDigits {number : Nat} (hpositive : 0 < number) :
    ∃ first others, Nat.toDigits 10 number = first :: others ∧ first ≠ '0' := by
  have hdigit : ∀ digit < 10, 0 < digit → digit.digitChar ≠ '0' := by decide
  induction number using Nat.strongRecOn with
  | ind number ih =>
      by_cases hsmall : number < 10
      · exact ⟨number.digitChar, [], Nat.toDigits_of_lt_base hsmall,
          hdigit number hsmall hpositive⟩
      · obtain ⟨first, others, hdigits, hfirst⟩ := ih (number / 10) (by omega) (by omega)
        refine ⟨first, others ++ [(number % 10).digitChar], ?_, hfirst⟩
        rw [Nat.toDigits_of_base_le (by decide) (by omega), hdigits, List.cons_append]

theorem lt_of_isDigit {c : Char} (hdigit : c.isDigit = true) : c.toNat < 0x80 := by
  simp only [Char.isDigit, Bool.and_eq_true, decide_eq_true_eq] at hdigit
  exact Nat.lt_of_le_of_lt (UInt32.le_iff_toNat_le.mp hdigit.2) (by decide)

theorem isDigit_octet {c : Char} (hdigit : c.isDigit = true) :
    isDigit (UInt8.ofNat c.toNat) = true := by
  have hsmall := lt_of_isDigit hdigit
  simp only [Char.isDigit, Bool.and_eq_true, decide_eq_true_eq] at hdigit
  simp only [isDigit, Bool.and_eq_true, decide_eq_true_eq, UInt8.le_iff_toNat_le]
  rw [Utf8.toNat_octet _ (by omega)]
  exact ⟨UInt32.le_iff_toNat_le.mp hdigit.1, UInt32.le_iff_toNat_le.mp hdigit.2⟩

theorem isDigit_of_mem_toString (number : Nat) {c : Char} (hc : c ∈ (toString number).toList) :
    c.isDigit = true := by
  rw [Nat.toString_eq_ofList_toDigits, String.toList_ofList] at hc
  exact Nat.isDigit_of_mem_toDigits (by decide) (by decide) hc

/-- What is written for a natural number is the whole part of a number. -/
theorem isWhole_toString (number : Nat) : IsWhole (ascii (toString number)) := by
  rcases Nat.eq_zero_or_pos number with rfl | hpositive
  · exact .zero
  obtain ⟨first, others, hdigits, hfirst⟩ := exists_head_toDigits hpositive
  have htext : (toString number).toList = first :: others := by
    rw [Nat.toString_eq_ofList_toDigits, String.toList_ofList, hdigits]
  have hall : ∀ c ∈ first :: others, c.isDigit = true := by
    intro c hc
    exact isDigit_of_mem_toString number (by rw [htext]; exact hc)
  have hsmall := lt_of_isDigit (hall first List.mem_cons_self)
  rw [ascii, htext, List.map_cons]
  apply IsWhole.digits
  · intro hzero
    apply hfirst
    rw [← Char.ofNat_toNat first, ← Utf8.toNat_octet first.toNat (by omega), hzero]
    rfl
  · refine ⟨List.cons_ne_nil _ _, ?_⟩
    intro octet hoctet
    rw [← List.map_cons (f := fun c : Char => UInt8.ofNat c.toNat)] at hoctet
    obtain ⟨c, hc, rfl⟩ := List.mem_map.mp hoctet
    exact isDigit_octet (hall c hc)

/-- What is written for a natural number is spelled as a number. -/
theorem isSpelled_toString {σ : Type} (number : Nat) :
    IsSpelled (σ := σ) (.number (toString number)) := by
  have hnumber : IsNumber (ascii (toString number)) := by
    simpa using IsNumber.plain (isWhole_toString number) .none .none
  have htext : numberText (ascii (toString number)) = toString number :=
    numberText_ascii fun c hc => lt_of_isDigit (isDigit_of_mem_toString number hc)
  rw [← htext]
  exact .number hnumber

/-! ## Values -/

theorem isSpelled_array_map {α σ : Type} {write : α → Json σ}
    (hwrite : ∀ row, IsSpelled (write row)) (rows : List α) :
    IsSpelled (.array (rows.map write)) := by
  apply IsSpelled.array
  intro item hitem
  obtain ⟨row, -, rfl⟩ := List.mem_map.mp hitem
  exact hwrite row

theorem spellsMember_written (name : String) {value : Json String}
    (hvalue : Spells (Utf8.encode (render spacing depth value)) value.quote) :
    SpellsMember (Utf8.encode (quoted name ++ (':' :: (spacing.gap ++ render spacing depth value))))
      (quoteText name, value.quote) := by
  have hname : IsQuoted (quoteText name) := isQuoted_escape name.toList
  have hmember := SpellsMember.mk hname areBlanks_nil (areBlanks_gap spacing) hvalue
  rw [encode_append, encode_quoted, encode_ascii_cons (by decide), encode_append]
  simpa using hmember

theorem spellsItems_written {first : Json String} {others : List (Json String)}
    (hfirst : Spells (Utf8.encode (render spacing depth first)) first.quote)
    (hothers : ∀ item ∈ others, Spells (Utf8.encode (render spacing depth item)) item.quote)
    {line : List Char} (hline : AreBlanks (Utf8.encode line)) :
    SpellsItems (Utf8.encode (render spacing depth first ++
      (renderItems spacing depth others ++ (line ++ [']'])))) (quoteItems (first :: others)) := by
  induction others generalizing first with
  | nil =>
      rw [encode_append, renderItems, List.nil_append, encode_append]
      exact .last hfirst hline
  | cons second others ih =>
      obtain ⟨hsecond, hothers⟩ := List.forall_mem_cons.mp hothers
      have hmore := SpellsItems.more hfirst areBlanks_nil (areBlanks_line spacing depth)
        (ih hsecond hothers)
      rw [renderItems, encode_append, List.cons_append, encode_ascii_cons (by decide),
        List.append_assoc, encode_append, List.append_assoc]
      exact hmore

theorem encode_member_append (name : String) (value : Json String) (rest : List Char) :
    Utf8.encode (quoted name ++ (':' :: (spacing.gap ++ (render spacing depth value ++ rest)))) =
      Utf8.encode (quoted name ++ (':' :: (spacing.gap ++ render spacing depth value))) ++
        Utf8.encode rest := by
  rw [← encode_append, List.append_assoc, List.cons_append, List.append_assoc]

theorem spellsMembers_written (name : String) {first : Json String}
    {others : List (String × Json String)}
    (hfirst : Spells (Utf8.encode (render spacing depth first)) first.quote)
    (hothers : ∀ member ∈ others,
      Spells (Utf8.encode (render spacing depth member.2)) member.2.quote)
    {line : List Char} (hline : AreBlanks (Utf8.encode line)) :
    SpellsMembers (Utf8.encode (quoted name ++ (':' :: (spacing.gap ++
      (render spacing depth first ++ (renderMembers spacing depth others ++ (line ++ ['\x7d'])))))))
      (quoteMembers ((name, first) :: others)) := by
  induction others generalizing name first with
  | nil =>
      rw [encode_member_append, renderMembers, List.nil_append, encode_append line]
      exact .last (spellsMember_written name hfirst) hline
  | cons second others ih =>
      obtain ⟨hsecond, hothers⟩ := List.forall_mem_cons.mp hothers
      have hmore := SpellsMembers.more (spellsMember_written name hfirst) areBlanks_nil
        (areBlanks_line spacing depth) (ih second.1 hsecond hothers)
      rw [encode_member_append, renderMembers, List.cons_append, encode_ascii_cons (by decide),
        List.append_assoc, encode_append (spacing.line depth)]
      simp only [List.append_assoc, List.cons_append]
      exact hmore

/-- What is written for a value spells it. -/
theorem spells_render {value : Json String} (hspelled : IsSpelled value) :
    Spells (Utf8.encode (render spacing depth value)) value.quote := by
  induction hspelled generalizing depth with
  | null => exact .null
  | bool value => cases value with
    | false => exact .no
    | true => exact .yes
  | number hnumber =>
      rw [render, encode_numberText hnumber.lt]
      exact .number hnumber
  | string text =>
      rw [render, encode_quoted]
      exact .string (isQuoted_escape text.toList)
  | @array items hitems ih =>
      cases items with
      | nil => exact .emptyArray areBlanks_nil
      | cons first others =>
          have hdeeper : ∀ item ∈ first :: others,
              Spells (Utf8.encode (render spacing (depth + 1) item)) item.quote :=
            fun item hitem => ih item hitem
          obtain ⟨hfirst, hothers⟩ := List.forall_mem_cons.mp hdeeper
          rw [render, encode_ascii_cons (by decide), encode_append]
          exact .array (areBlanks_line spacing _)
            (spellsItems_written hfirst hothers (areBlanks_line spacing depth))
  | @object members hmembers ih =>
      cases members with
      | nil => exact .emptyObject areBlanks_nil
      | cons first others =>
          have hdeeper : ∀ member ∈ first :: others,
              Spells (Utf8.encode (render spacing (depth + 1) member.2)) member.2.quote :=
            fun member hmember => ih member hmember
          obtain ⟨hfirst, hothers⟩ := List.forall_mem_cons.mp hdeeper
          rw [render, encode_ascii_cons (by decide), encode_append]
          exact .object (areBlanks_line spacing _)
            (spellsMembers_written _ hfirst hothers (areBlanks_line spacing depth))

theorem spellsDocument_render {value : Json String} (hspelled : IsSpelled value) :
    SpellsDocument (Utf8.encode (render spacing depth value)) value.quote := by
  have hvalue : Spells (Utf8.encode (render spacing depth value)) value.quote :=
    spells_render hspelled
  simpa using SpellsDocument.mk areBlanks_nil hvalue areBlanks_nil

/-- A written value is read back with its texts quoted. -/
theorem parse?_render {value : Json String} (hspelled : IsSpelled value) :
    parse? (Utf8.encode (render spacing depth value)) = some value.quote :=
  parse?_eq_some (spellsDocument_render hspelled)

/-! ## Texts -/

theorem unescape?_quoteText (text : String) : unescape? (quoteText text) = some text :=
  unescape?_escape text

mutual

theorem unquote?_quote (value : Json String) : value.quote.unquote? = some value := by
  cases value with
  | null => rfl
  | bool value => rfl
  | number text => rfl
  | string text => simp [quote, unquote?, unescape?_quoteText]
  | array items => simp [quote, unquote?, unquoteItems?_quoteItems items]
  | object members => simp [quote, unquote?, unquoteMembers?_quoteMembers members]

theorem unquoteItems?_quoteItems (items : List (Json String)) :
    unquoteItems? (quoteItems items) = some items := by
  cases items with
  | nil => rfl
  | cons item items =>
      simp [quoteItems, unquoteItems?, unquote?_quote item, unquoteItems?_quoteItems items]

theorem unquoteMembers?_quoteMembers (members : List (String × Json String)) :
    unquoteMembers? (quoteMembers members) = some members := by
  cases members with
  | nil => rfl
  | cons member members =>
      obtain ⟨name, value⟩ := member
      simp [quoteMembers, unquoteMembers?, unescape?_quoteText, unquote?_quote value,
        unquoteMembers?_quoteMembers members]

end

/-- A written value is read back. -/
theorem read?_render {value : Json String} (hspelled : IsSpelled value) :
    read? (Utf8.encode (render spacing depth value)) = some value := by
  rw [read?, parse?_render hspelled]
  exact unquote?_quote value

end ClassCensus.Json
