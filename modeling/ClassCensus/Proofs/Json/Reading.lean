import ClassCensus.Json.Grammar

/-!
# Reading texts of JSON values

The reader reads every text of a value, wherever blanks stand in it, as that value.  A number has no
end mark, so what follows it must not go on with it; everything else ends by itself.
-/

namespace ClassCensus.Json

section Lists

variable {octets rest : List UInt8}

/-! ## Blanks and numbers -/

/-- That octets do not start with one of a kind. -/
def StopsAt (kind : UInt8 → Bool) (octets : List UInt8) : Prop :=
  ∀ first, octets.head? = some first → kind first = false

theorem takeWhile_append_of_stopsAt {kind : UInt8 → Bool}
    (hall : ∀ octet ∈ octets, kind octet = true) (hstops : StopsAt kind rest) :
    (octets ++ rest).takeWhile kind = octets := by
  rw [List.takeWhile_append_of_pos hall]
  cases rest with
  | nil => simp
  | cons first others =>
      rw [List.takeWhile_cons_of_neg (by simp [hstops first rfl]), List.append_nil]

theorem dropWhile_append_of_stopsAt {kind : UInt8 → Bool}
    (hall : ∀ octet ∈ octets, kind octet = true) (hstops : StopsAt kind rest) :
    (octets ++ rest).dropWhile kind = rest := by
  rw [List.dropWhile_append_of_pos hall]
  cases rest with
  | nil => rfl
  | cons first others => rw [List.dropWhile_cons_of_neg (by simp [hstops first rfl])]

theorem stopsAt_cons {kind : UInt8 → Bool} {first : UInt8} {others : List UInt8}
    (hfirst : kind first = false) : StopsAt kind (first :: others) := by
  intro found hfound
  obtain rfl := Option.some.inj hfound
  exact hfirst

theorem skipBlanks_append (hblanks : AreBlanks octets) (hstops : StopsAt isBlank rest) :
    skipBlanks (octets ++ rest) = rest :=
  dropWhile_append_of_stopsAt hblanks hstops

theorem skipBlanks_mark (hblanks : AreBlanks octets) (mark : UInt8) (hmark : isBlank mark = false) :
    skipBlanks (octets ++ mark :: rest) = mark :: rest :=
  skipBlanks_append hblanks (stopsAt_cons hmark)

/-- An octet that goes on with a whole part. -/
def continuesWhole (octet : UInt8) : Bool := isDigit octet || octet == 0x2E

/-- An octet that goes on with a number. -/
def continuesNumber (octet : UInt8) : Bool :=
  continuesWhole octet || octet == 0x65 || octet == 0x45

theorem StopsAt.imp {kind other : UInt8 → Bool} (hstops : StopsAt kind octets)
    (himp : ∀ octet, other octet = true → kind octet = true) : StopsAt other octets := by
  intro first hfirst
  cases hother : other first with
  | false => rfl
  | true => exact (himp first hother).symm.trans (hstops first hfirst)

theorem someDigits?_append (hdigits : AreDigits octets) (hstops : StopsAt isDigit rest) :
    someDigits? (octets ++ rest) = some (octets, rest) := by
  have hsome : octets.isEmpty = false := by simp [hdigits.1]
  simp only [someDigits?, digits, takeWhile_append_of_stopsAt hdigits.2 hstops,
    dropWhile_append_of_stopsAt hdigits.2 hstops, hsome]
  rfl

theorem wholePart?_append (hwhole : IsWhole octets) (hstops : StopsAt isDigit rest) :
    wholePart? (octets ++ rest) = some (octets, rest) := by
  cases hwhole with
  | zero => rfl
  | @digits first others hfirst hdigits =>
      rw [← someDigits?_append hdigits hstops, List.cons_append, wholePart?]
      intro others hzero
      exact hfirst (List.cons.inj hzero).1

theorem StopsAt.whole (hstops : StopsAt continuesNumber octets) : StopsAt continuesWhole octets :=
  hstops.imp fun octet hkind => by simp [continuesNumber, hkind]

theorem StopsAt.digits (hstops : StopsAt continuesWhole octets) : StopsAt isDigit octets :=
  hstops.imp fun octet hkind => by simp [continuesWhole, hkind]

theorem fraction?_append (hfraction : IsFraction octets) (hstops : StopsAt continuesWhole rest) :
    fraction? (octets ++ rest) = some (octets, rest) := by
  cases hfraction with
  | none =>
      rw [List.nil_append, fraction?]
      rintro others rfl
      cases hstops 0x2E rfl
  | digits hdigits =>
      rw [List.cons_append, fraction?, someDigits?_append hdigits hstops.digits]
      rfl

theorem exponent?_append (hexponent : IsExponent octets) (hstops : StopsAt continuesNumber rest) :
    exponent? (octets ++ rest) = some (octets, rest) := by
  cases hexponent with
  | none =>
      cases rest with
      | nil => rfl
      | cons first others =>
          have hfirst : ¬ (first = 0x65 ∨ first = 0x45) := by
            rintro (rfl | rfl)
            · cases hstops 0x65 rfl
            · cases hstops 0x45 rfl
          simp only [List.nil_append, exponent?, if_neg hfirst]
  | @digits letter digits hletter hdigits =>
      obtain ⟨hsome, hall⟩ := hdigits
      cases digits with
      | nil => exact absurd rfl hsome
      | cons first others =>
          have hsign : ¬ (first = 0x2B ∨ first = 0x2D) := by
            rintro (rfl | rfl)
            · cases hall 0x2B List.mem_cons_self
            · cases hall 0x2D List.mem_cons_self
          have hread := someDigits?_append ⟨hsome, hall⟩ hstops.whole.digits
          simp only [List.cons_append] at hread ⊢
          simp only [exponent?, if_pos hletter, if_neg hsign, hread]
          rfl
  | signed hletter hsign hdigits =>
      simp only [List.cons_append, exponent?, if_pos hletter, if_pos hsign,
        someDigits?_append hdigits hstops.whole.digits]
      rfl

theorem IsExponent.stopsAt (hexponent : IsExponent octets) (hstops : StopsAt continuesNumber rest) :
    StopsAt continuesWhole (octets ++ rest) := by
  cases hexponent with
  | none => exact hstops.whole
  | digits hletter hdigits => exact stopsAt_cons (by rcases hletter with rfl | rfl <;> rfl)
  | signed hletter hsign hdigits => exact stopsAt_cons (by rcases hletter with rfl | rfl <;> rfl)

theorem IsFraction.stopsAt (hfraction : IsFraction octets) (hstops : StopsAt continuesWhole rest) :
    StopsAt isDigit (octets ++ rest) := by
  cases hfraction with
  | none => exact hstops.digits
  | digits hdigits => exact stopsAt_cons rfl

theorem IsWhole.exists_digit (hwhole : IsWhole octets) :
    ∃ first others, octets = first :: others ∧ isDigit first = true := by
  cases hwhole with
  | zero => exact ⟨0x30, [], rfl, rfl⟩
  | digits hfirst hdigits => exact ⟨_, _, rfl, hdigits.2 _ List.mem_cons_self⟩

/-- A number is read up to where nothing goes on with it. -/
theorem number?_append (hnumber : IsNumber octets) (hstops : StopsAt continuesNumber rest) :
    number? (octets ++ rest) = some (numberText octets, rest) := by
  cases hnumber with
  | @plain whole fraction exponent hwhole hfraction hexponent =>
      have hbehind := hexponent.stopsAt hstops
      have hread := wholePart?_append hwhole (hfraction.stopsAt hbehind)
      obtain ⟨first, others, rfl, hdigit⟩ := hwhole.exists_digit
      have hminus : first ≠ 0x2D := by
        rintro rfl
        cases hdigit
      simp only [List.append_assoc, List.cons_append] at hread ⊢
      rw [number?]
      · simp only [hread, fraction?_append hfraction hbehind, exponent?_append hexponent hstops,
          Option.bind_eq_bind, Option.bind_some, List.nil_append, List.cons_append,
          List.append_assoc]
        rfl
      · rintro behind hsplit
        exact hminus (List.cons.inj hsplit).1
  | @negative whole fraction exponent hwhole hfraction hexponent =>
      have hbehind := hexponent.stopsAt hstops
      simp only [List.cons_append, List.append_assoc, number?,
        wholePart?_append hwhole (hfraction.stopsAt hbehind), fraction?_append hfraction hbehind,
        exponent?_append hexponent hstops, Option.bind_eq_bind, Option.bind_some,
        List.nil_append]
      rfl

theorem IsNumber.exists_head (hnumber : IsNumber octets) :
    ∃ first others, octets = first :: others ∧ (first = 0x2D ∨ isDigit first = true) := by
  cases hnumber with
  | plain hwhole hfraction hexponent =>
      obtain ⟨first, others, rfl, hdigit⟩ := hwhole.exists_digit
      exact ⟨first, _, rfl, .inr hdigit⟩
  | negative hwhole hfraction hexponent => exact ⟨0x2D, _, rfl, .inl rfl⟩

/-! ## Strings -/

theorem quotedOnto_append {text : Quoted} (hquoted : IsQuoted text) (before : List UInt8) :
    quotedOnto before (text ++ 0x22 :: rest) = some (before.reverse ++ text, rest) := by
  induction hquoted generalizing before with
  | nil => rw [List.nil_append, quotedOnto.eq_def, List.append_nil]; rfl
  | @plain octet others hquote hescape hcontrol hothers ih =>
      rw [List.cons_append, quotedOnto.eq_def]
      simp only [if_neg hquote, if_neg hcontrol, ne_eq, hescape, not_false_eq_true, if_true, ih,
        List.reverse_cons, List.append_assoc, List.singleton_append]
  | @letter letter others hletter hothers ih =>
      have hunit : letter ≠ 0x75 := by
        rintro rfl
        cases hletter
      rw [List.cons_append, List.cons_append, quotedOnto.eq_def]
      simp [hletter, hunit, ih]
  | @unit a b c d others hdigits hothers ih =>
      simp only [List.cons_append]
      rw [quotedOnto.eq_def]
      simp [hdigits, ih]

theorem string?_append {text : Quoted} (hquoted : IsQuoted text) :
    string? (0x22 :: (text ++ 0x22 :: rest)) = some (text, rest) :=
  quotedOnto_append hquoted []

/-! ## Values -/

theorem behind?_ascii (word : String) (rest : List UInt8) :
    behind? word (ascii word ++ rest) = some rest := by
  have hfront : (ascii word).isPrefixOf (ascii word ++ rest) = true :=
    List.isPrefixOf_iff_prefix.mpr (List.prefix_append _ _)
  exact (if_pos hfront).trans (congrArg some List.drop_left)

theorem AreBlanks.stopsAt_continuesNumber {blanks : List UInt8} (hblanks : AreBlanks blanks)
    {mark : UInt8} (hmark : continuesNumber mark = false) (rest : List UInt8) :
    StopsAt continuesNumber (blanks ++ mark :: rest) := by
  cases blanks with
  | nil => exact stopsAt_cons hmark
  | cons first others =>
      apply stopsAt_cons
      have hfirst := hblanks first List.mem_cons_self
      simp only [isBlank, Bool.or_eq_true, beq_iff_eq] at hfirst
      rcases hfirst with ((rfl | rfl) | rfl) | rfl <;> rfl

/-- An octet that a value may start with. -/
def startsValue (octet : UInt8) : Bool := !isBlank octet && octet != 0x5D

theorem startsValue_of_isDigit {octet : UInt8} (hdigit : isDigit octet = true) :
    startsValue octet = true := by
  have hne (mark : UInt8) (hmark : isDigit mark = false) : octet ≠ mark := by
    rintro rfl
    cases hdigit.symm.trans hmark
  simp [startsValue, isBlank, hne 0x20 rfl, hne 0x09 rfl, hne 0x0A rfl, hne 0x0D rfl, hne 0x5D rfl]

/-- A value starts with an octet that is neither a blank nor the end of an array. -/
theorem Spells.exists_head {value : Json Quoted} (hspells : Spells octets value) :
    ∃ first others, octets = first :: others ∧ startsValue first = true := by
  cases hspells with
  | number hnumber =>
      obtain ⟨first, others, rfl, rfl | hdigit⟩ := hnumber.exists_head
      · exact ⟨_, others, rfl, rfl⟩
      · exact ⟨first, others, rfl, startsValue_of_isDigit hdigit⟩
  | _ => exact ⟨_, _, rfl, rfl⟩

theorem SpellsItems.exists_head {items : List (Json Quoted)} (hspells : SpellsItems octets items) :
    ∃ first others, octets = first :: others ∧ startsValue first = true := by
  cases hspells with
  | last hitem hblanks =>
      obtain ⟨first, others, rfl, hfirst⟩ := hitem.exists_head
      exact ⟨first, _, rfl, hfirst⟩
  | more hitem hbefore hbehind hothers =>
      obtain ⟨first, others, rfl, hfirst⟩ := hitem.exists_head
      exact ⟨first, _, rfl, hfirst⟩

theorem SpellsMember.exists_head {member : Quoted × Json Quoted}
    (hspells : SpellsMember octets member) : ∃ others, octets = 0x22 :: others := by
  cases hspells with
  | mk hname hbefore hbehind hvalue => exact ⟨_, rfl⟩

theorem SpellsMembers.exists_head {members : List (Quoted × Json Quoted)}
    (hspells : SpellsMembers octets members) : ∃ others, octets = 0x22 :: others := by
  cases hspells with
  | last hmember hblanks =>
      obtain ⟨others, rfl⟩ := hmember.exists_head
      exact ⟨_, rfl⟩
  | more hmember hbefore hbehind hothers =>
      obtain ⟨others, rfl⟩ := hmember.exists_head
      exact ⟨_, rfl⟩

theorem isBlank_of_startsValue {octet : UInt8} (hstarts : startsValue octet = true) :
    isBlank octet = false := by
  simp only [startsValue, Bool.and_eq_true, Bool.not_eq_true'] at hstarts
  exact hstarts.1

theorem Spells.stopsAt {value : Json Quoted} (hspells : Spells octets value) :
    StopsAt isBlank (octets ++ rest) := by
  obtain ⟨first, others, rfl, hfirst⟩ := hspells.exists_head
  exact stopsAt_cons (isBlank_of_startsValue hfirst)

theorem SpellsItems.stopsAt {items : List (Json Quoted)} (hspells : SpellsItems octets items) :
    StopsAt isBlank (octets ++ rest) := by
  obtain ⟨first, others, rfl, hfirst⟩ := hspells.exists_head
  exact stopsAt_cons (isBlank_of_startsValue hfirst)

theorem SpellsMembers.stopsAt {members : List (Quoted × Json Quoted)}
    (hspells : SpellsMembers octets members) : StopsAt isBlank (octets ++ rest) := by
  obtain ⟨others, rfl⟩ := hspells.exists_head
  exact stopsAt_cons rfl

theorem Spells.ne_nil {value : Json Quoted} (hspells : Spells octets value) : octets ≠ [] := by
  obtain ⟨first, others, rfl, -⟩ := hspells.exists_head
  exact List.cons_ne_nil first others

theorem SpellsMember.ne_nil {member : Quoted × Json Quoted}
    (hspells : SpellsMember octets member) : octets ≠ [] := by
  obtain ⟨others, rfl⟩ := hspells.exists_head
  exact List.cons_ne_nil 0x22 others

/-- A part and the mark behind it are two octets at least. -/
theorem two_le_length_of_mark (hsome : octets ≠ []) (blanks : List UInt8) (mark : UInt8) :
    2 ≤ (octets ++ (blanks ++ mark :: rest)).length := by
  have hpositive := List.length_pos_iff.mpr hsome
  simp only [List.length_append, List.length_cons]
  omega

theorem SpellsItems.two_le_length {items : List (Json Quoted)}
    (hspells : SpellsItems octets items) : 2 ≤ octets.length := by
  cases hspells with
  | last hitem hblanks => exact two_le_length_of_mark hitem.ne_nil _ _
  | more hitem hbefore hbehind hothers => exact two_le_length_of_mark hitem.ne_nil _ _

theorem SpellsMembers.two_le_length {members : List (Quoted × Json Quoted)}
    (hspells : SpellsMembers octets members) : 2 ≤ octets.length := by
  cases hspells with
  | last hmember hblanks => exact two_le_length_of_mark hmember.ne_nil _ _
  | more hmember hbefore hbehind hothers => exact two_le_length_of_mark hmember.ne_nil _ _

theorem value?_number {budget : Nat} (hnumber : IsNumber octets)
    (hstops : StopsAt continuesNumber rest) :
    value? (budget + 1) (octets ++ rest) = some (.number (numberText octets), rest) := by
  have hread := number?_append hnumber hstops
  obtain ⟨first, others, rfl, hfirst⟩ := hnumber.exists_head
  have hne (mark : UInt8) (hminus : mark ≠ 0x2D) (hdigit : isDigit mark = false) :
      ∀ behind, first :: others ++ rest = mark :: behind → False := by
    intro behind hsplit
    obtain rfl : first = mark := (List.cons.inj hsplit).1
    exact hfirst.elim hminus fun hsome => by cases hsome.symm.trans hdigit
  rw [value?, hread]
  · rfl
  all_goals exact hne _ (by decide) rfl

theorem value?_array {budget : Nat} {blanks : List UInt8} {items : List (Json Quoted)}
    (hblanks : AreBlanks blanks) (hspells : SpellsItems octets items)
    (hread : items? budget [] (octets ++ rest) = some (items, rest)) :
    value? (budget + 1) (0x5B :: (blanks ++ octets) ++ rest) = some (.array items, rest) := by
  obtain ⟨first, others, rfl, hfirst⟩ := hspells.exists_head
  simp only [startsValue, Bool.and_eq_true, bne_iff_ne, Bool.not_eq_true'] at hfirst
  simp only [List.cons_append, List.append_assoc] at hread ⊢
  rw [value?, skipBlanks_append hblanks (stopsAt_cons hfirst.1)]
  simp [hfirst.2, hread]

theorem value?_object {budget : Nat} {blanks : List UInt8} {members : List (Quoted × Json Quoted)}
    (hblanks : AreBlanks blanks) (hspells : SpellsMembers octets members)
    (hread : members? budget [] (octets ++ rest) = some (members, rest)) :
    value? (budget + 1) (0x7B :: (blanks ++ octets) ++ rest) = some (.object members, rest) := by
  obtain ⟨others, rfl⟩ := hspells.exists_head
  simp only [List.cons_append, List.append_assoc] at hread ⊢
  rw [value?, skipBlanks_append hblanks (stopsAt_cons rfl)]
  simp [hread]

theorem value?_word {budget : Nat} {value : Json Quoted} {word : String}
    (hword : word = "null" ∧ value = .null ∨ word = "true" ∧ value = .bool true ∨
      word = "false" ∧ value = .bool false) :
    value? (budget + 1) (ascii word ++ rest) = some (value, rest) := by
  have hbehind := behind?_ascii word rest
  rcases hword with ⟨rfl, rfl⟩ | ⟨rfl, rfl⟩ | ⟨rfl, rfl⟩ <;>
  · rw [ascii] at hbehind ⊢
    simp [value?] at hbehind ⊢
    simp [hbehind]

end Lists

mutual

theorem value?_append {octets rest : List UInt8} {budget : Nat} {value : Json Quoted}
    (hspells : Spells octets value) (hstops : StopsAt continuesNumber rest)
    (hbudget : 2 * octets.length ≤ budget + 1) :
    value? budget (octets ++ rest) = some (value, rest) := by
  have hlength := List.length_pos_iff.mpr hspells.ne_nil
  obtain ⟨budget, rfl⟩ : ∃ smaller, budget = smaller + 1 := ⟨budget - 1, by omega⟩
  cases hspells with
  | null => exact value?_word (.inl ⟨rfl, rfl⟩)
  | yes => exact value?_word (.inr (.inl ⟨rfl, rfl⟩))
  | no => exact value?_word (.inr (.inr ⟨rfl, rfl⟩))
  | number hnumber => exact value?_number hnumber hstops
  | string htext =>
      simp only [List.cons_append, List.append_assoc, List.nil_append]
      rw [value?, string?_append htext]
      rfl
  | emptyArray hblanks =>
      simp only [List.cons_append, List.append_assoc, List.nil_append]
      rw [value?, skipBlanks_append hblanks (stopsAt_cons rfl)]
      rfl
  | array hblanks hitems =>
      apply value?_array hblanks hitems
      simp only [List.length_cons, List.length_append] at hbudget
      exact items?_append hitems [] (by omega)
  | emptyObject hblanks =>
      simp only [List.cons_append, List.append_assoc, List.nil_append]
      rw [value?, skipBlanks_append hblanks (stopsAt_cons rfl)]
      rfl
  | object hblanks hmembers =>
      apply value?_object hblanks hmembers
      simp only [List.length_cons, List.length_append] at hbudget
      exact members?_append hmembers [] (by omega)

theorem items?_append {octets rest : List UInt8} {budget : Nat} {items : List (Json Quoted)}
    (hspells : SpellsItems octets items) (before : List (Json Quoted))
    (hbudget : 2 * octets.length ≤ budget + 2) :
    items? budget before (octets ++ rest) = some (before.reverse ++ items, rest) := by
  have hlength := hspells.two_le_length
  obtain ⟨budget, rfl⟩ : ∃ smaller, budget = smaller + 1 := ⟨budget - 1, by omega⟩
  cases hspells with
  | @last octets blanks item hitem hblanks =>
      simp only [List.length_cons, List.length_append] at hbudget
      simp only [List.append_assoc, List.cons_append, List.nil_append]
      rw [items?, value?_append hitem (hblanks.stopsAt_continuesNumber rfl _) (by omega)]
      simp only [Option.bind_eq_bind, Option.bind_some,
        skipBlanks_mark hblanks 0x5D rfl, List.reverse_cons]
  | @more octets blanks behind others item items hitem hblanks hbehind hothers =>
      simp only [List.length_cons, List.length_append] at hbudget
      have hnext : items? budget (item :: before) (others ++ rest) =
          some ((item :: before).reverse ++ items, rest) :=
        items?_append hothers (item :: before) (by omega)
      simp only [List.append_assoc, List.cons_append]
      rw [items?, value?_append hitem (hblanks.stopsAt_continuesNumber rfl _) (by omega)]
      simp only [Option.bind_eq_bind, Option.bind_some,
        skipBlanks_mark hblanks 0x2C rfl,
        skipBlanks_append hbehind hothers.stopsAt, hnext, List.reverse_cons, List.append_assoc,
        List.singleton_append]

theorem members?_append {octets rest : List UInt8} {budget : Nat}
    {members : List (Quoted × Json Quoted)} (hspells : SpellsMembers octets members)
    (before : List (Quoted × Json Quoted)) (hbudget : 2 * octets.length ≤ budget + 2) :
    members? budget before (octets ++ rest) = some (before.reverse ++ members, rest) := by
  have hlength := hspells.two_le_length
  obtain ⟨budget, rfl⟩ : ∃ smaller, budget = smaller + 1 := ⟨budget - 1, by omega⟩
  cases hspells with
  | @last octets blanks member hmember hblanks =>
      obtain @⟨name, between, behind, octets, value, hname, hbetween, hbehind, hvalue⟩ := hmember
      simp only [List.length_cons, List.length_append] at hbudget
      have hread : value? budget (octets ++ (blanks ++ 0x7D :: rest)) =
          some (value, blanks ++ 0x7D :: rest) :=
        value?_append hvalue (hblanks.stopsAt_continuesNumber rfl rest) (by omega)
      simp only [List.append_assoc, List.cons_append, List.nil_append]
      rw [members?, string?_append hname]
      simp only [Option.bind_eq_bind, Option.bind_some,
        skipBlanks_mark hbetween 0x3A rfl,
        skipBlanks_append hbehind hvalue.stopsAt, hread,
        skipBlanks_mark hblanks 0x7D rfl, List.reverse_cons]
  | @more octets blanks beyond others member members hmember hblanks hbeyond hothers =>
      obtain @⟨name, between, behind, octets, value, hname, hbetween, hbehind, hvalue⟩ := hmember
      simp only [List.length_cons, List.length_append] at hbudget
      have hread : value? budget (octets ++ (blanks ++ 0x2C :: (beyond ++ (others ++ rest)))) =
          some (value, blanks ++ 0x2C :: (beyond ++ (others ++ rest))) :=
        value?_append hvalue (hblanks.stopsAt_continuesNumber rfl _) (by omega)
      have hnext : members? budget ((name, value) :: before) (others ++ rest) =
          some (((name, value) :: before).reverse ++ members, rest) :=
        members?_append hothers ((name, value) :: before) (by omega)
      simp only [List.append_assoc, List.cons_append]
      rw [members?, string?_append hname]
      simp only [Option.bind_eq_bind, Option.bind_some,
        skipBlanks_mark hbetween 0x3A rfl,
        skipBlanks_append hbehind hvalue.stopsAt, hread,
        skipBlanks_mark hblanks 0x2C rfl,
        skipBlanks_append hbeyond hothers.stopsAt, hnext, List.reverse_cons, List.append_assoc,
        List.singleton_append]

end

/-- A text of a value is read as that value. -/
theorem parse?_eq_some {document : List UInt8} {value : Json Quoted}
    (hspells : SpellsDocument document value) : parse? document = some value := by
  obtain @⟨before, octets, behind, value, hbefore, hvalue, hbehind⟩ := hspells
  have hstops : StopsAt continuesNumber behind := by
    have hmark : StopsAt continuesNumber (behind ++ [0x20]) :=
      hbehind.stopsAt_continuesNumber rfl []
    intro first hfirst
    apply hmark
    rw [List.head?_append, hfirst]
    rfl
  have hskip : skipBlanks behind = [] := by
    rw [← List.append_nil behind]
    exact skipBlanks_append hbehind (by intro first hfirst; cases hfirst)
  rw [parse?, skipBlanks_append hbefore hvalue.stopsAt, value?_append hvalue hstops]
  · simp [hskip]
  · simp only [List.length_append]
    omega

end ClassCensus.Json
