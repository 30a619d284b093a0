import ClassCensus.Analysis.Decoding
import ClassCensus.Proofs.ClassFile.PrefixFree

/-!
# How decoding in stages ends

Decoding stops in one of four ways: everything is found, the magic number is a wrong one, a constant
has a tag without layout, or the octets end.  The octets of a complete decoding settle what every
stage finds, so nothing behind them is looked at, and wherever they are cut off, decoding ends at
the cut.  A fault in the body of an attribute is none of these: it stays in the attribute.
-/

namespace ClassCensus

namespace Decoder

variable {tables : Tables} {specification : Specification}

/-! ## The header -/

/-- That a magic number, which is all that was taken, is a wrong one. -/
def WrongMagic (taken : List UInt8) (fault : Fault) : Prop :=
  ∃ magic : UInt32, fault = .notAClassFile magic ∧ magic ≠ classFileMagic ∧
    taken = bigEndian 4 magic.toNat

theorem forward_magicAndVersion : Forward WrongMagic magicAndVersion := by
  refine plain_u4.forward.bind fun taken met magic hsettles => ?_
  have htaken : taken = bigEndian 4 magic.toNat := (hsettles.ensured ensures_u4).1
  have hversion : Plain (do
      let minor ← u2
      let major ← u2
      return (⟨major, minor⟩ : ClassVersion)) :=
    plain_u2.bind fun minor => plain_u2.map _
  split
  next hmagic =>
    have hrefused : WrongMagic (taken ++ []) (.notAClassFile magic) :=
      ⟨magic, rfl, hmagic, by rw [List.append_nil, htaken]⟩
    exact (forward_throw hrefused).bind fun _ _ _ _ => hversion.forward
  next => exact hversion.forward

theorem ensures_magicAndVersion {known : String → Prop} :
    Ensures known magicAndVersion fun taken _ _ => taken.length = 8 := by
  refine ensures_u4.bind ?_
  rintro _ _ magic ⟨rfl, rfl⟩
  have hversion : Ensures known (do
      let minor ← u2
      let major ← u2
      return (⟨major, minor⟩ : ClassVersion)) fun taken _ _ => taken.length = 4 := by
    refine ensures_u2.bind ?_
    rintro _ _ minor ⟨rfl, rfl⟩
    refine ensures_u2.bind ?_
    rintro _ _ major ⟨rfl, rfl⟩
    exact ensures_pure (by simp)
  have hlength : ∀ {others : List UInt8}, others.length = 4 →
      (bigEndian 4 magic.toNat ++ others).length = 8 := by
    intro others hothers
    rw [List.length_append, length_bigEndian, hothers]
  split
  · refine Ensures.bind (ensures_throw _ : Ensures known _ fun _ _ _ => False) ?_
    exact fun _ _ _ hnone => hnone.elim
  · exact hversion.mono fun _ _ _ => hlength

/-! ## The constant pool -/

/-- That the last octet taken is a tag without layout. -/
def UnknownTag (specification : Specification) (taken : List UInt8) (fault : Fault) : Prop :=
  ∃ tag index front, fault = .unknownConstantTag tag index ∧ specification.layout? tag = none ∧
    taken = front ++ [tag]

theorem UnknownTag.append {taken : List UInt8} {fault : Fault}
    (hunknown : UnknownTag specification taken fault) (before : List UInt8) :
    UnknownTag specification (before ++ taken) fault := by
  obtain ⟨tag, index, front, hfault, hlayout, rfl⟩ := hunknown
  exact ⟨tag, index, before ++ front, hfault, hlayout, (List.append_assoc _ _ _).symm⟩

theorem plain_fieldValue (width : FieldWidth) : Plain (fieldValue width) := by
  cases width with
  | byte => exact plain_u1.map _
  | short => exact plain_u2.map _
  | int => exact plain_u4.map _
  | float => exact plain_u4.map _
  | long => exact plain_u8.map _
  | double => exact plain_u8.map _
  | utf8 => exact (plain_u2.bind fun length => (plain_chunk length.toNat).map _).map _

theorem plain_constantFields (fields : List LayoutField) : Plain (constantFields fields) := by
  induction fields with
  | nil => exact forward_pure _
  | cons field fields ih => exact (plain_fieldValue field.width).bind fun _ => ih.map _

theorem forward_constant (index : UInt16) :
    Forward (UnknownTag specification) (constant specification index) := by
  refine plain_u1.forward.bind fun taken met tag hsettles => ?_
  have htaken : taken = bigEndian 1 tag.toNat := (hsettles.ensured ensures_u1).1
  split
  next hlayout =>
    have htag : taken ++ [] = [] ++ [tag] := by rw [List.append_nil, htaken, bigEndian_one]; rfl
    exact forward_throw ⟨tag, index, [], rfl, hlayout, htag⟩
  next layout hlayout =>
    exact ((plain_constantFields layout.fields).map _).forward

theorem forward_constantsOnto (count : UInt16) (rounds : Nat) (index : UInt16)
    (pool : ConstantPool) :
    Forward (UnknownTag specification) (constantsOnto specification count rounds index pool) := by
  induction rounds generalizing index pool with
  | zero => exact forward_pure _
  | succ rounds ih =>
      unfold constantsOnto
      split
      · refine (forward_constant index).bind fun taken met found _ => ?_
        exact (ih _ _).mono fun others fault hunknown => hunknown.append taken
      · exact forward_pure _

theorem forward_countedConstants :
    Forward (UnknownTag specification) (countedConstants specification) := by
  refine plain_u2.forward.bind fun taken met count _ => ?_
  exact (forward_constantsOnto count count.toNat 1 .empty).mono fun others fault hunknown =>
    hunknown.append taken

/-! ## The body -/

theorem plain_member (make : UInt16 → String → String → List Attribute → α) :
    Plain (member tables make) :=
  plain_u2.bind fun _ => (plain_u2.map _).bind fun _ => plain_descriptorAt.bind fun _ =>
    (plain_table (plain_attributeWith _)).map _

theorem plain_classParts (version : ClassVersion) : Plain (classParts version tables) := by
  refine plain_u2.bind fun flags => (plain_u2.map _).bind fun thisClass => ?_
  refine (plain_u2.map _).bind fun superClass => ?_
  refine (plain_table (plain_u2.map _)).bind fun interfaces => ?_
  refine (plain_table (plain_member _)).bind fun fields => ?_
  refine (plain_table (plain_member _)).bind fun methods => ?_
  exact (plain_table (plain_attributeWith _)).map _

end Decoder

/-! ## One stage after the other -/

namespace Analyzer

variable {analyzer : Analyzer} {octets : List UInt8}

/-- The specification that an analyzer has for class files of a version. -/
def specificationOf (analyzer : Analyzer) (version : ClassVersion) : Specification :=
  analyzer.specificationFor (headerOf analyzer.versions version)

/-- How decoding ends, by what its stages do: each one starts where the one before it ended. -/
inductive Decodes (analyzer : Analyzer) (octets : List UInt8) : Decoding → Prop where
  | noHeader {fault : Fault} {after : Cursor} :
    Decoder.header (.start octets) = .error fault after →
    Decodes analyzer octets (.noHeader fault after.position)
  | noPool {version : ClassVersion} {fault : Fault} {behindHeader after : Cursor} :
    Decoder.header (.start octets) = .ok version behindHeader →
    Decoder.constantPool (analyzer.specificationOf version) behindHeader = .error fault after →
    Decodes analyzer octets
      (.noPool ⟨headerOf analyzer.versions version, behindHeader.position⟩ fault after.position)
  | noBody {version : ClassVersion} {pool : ConstantPool} {fault : Fault}
      {behindHeader behindPool after : Cursor} :
    Decoder.header (.start octets) = .ok version behindHeader →
    Decoder.constantPool (analyzer.specificationOf version) behindHeader = .ok pool behindPool →
    Decoder.classBody version ⟨pool, analyzer.specificationOf version⟩ behindPool =
      .error fault after →
    Decodes analyzer octets
      (.noBody ⟨headerOf analyzer.versions version, behindHeader.position⟩
        ⟨pool, behindPool.position⟩ fault after.position)
  | complete {version : ClassVersion} {pool : ConstantPool} {classFile : ClassFile}
      {behindHeader behindPool after : Cursor} :
    Decoder.header (.start octets) = .ok version behindHeader →
    Decoder.constantPool (analyzer.specificationOf version) behindHeader = .ok pool behindPool →
    Decoder.classBody version ⟨pool, analyzer.specificationOf version⟩ behindPool =
      .ok classFile after →
    Decodes analyzer octets
      (.complete ⟨headerOf analyzer.versions version, behindHeader.position⟩
        ⟨pool, behindPool.position⟩ ⟨classFile, after.position⟩ after.mentioned)

theorem Decodes.decode_eq {decoding : Decoding} (hdecodes : analyzer.Decodes octets decoding) :
    analyzer.decode octets = decoding := by
  cases hdecodes with
  | noHeader hheader => rw [decode, hheader]
  | noPool hheader hpool =>
      rw [specificationOf] at hpool
      simp only [decode, hheader, hpool]
  | noBody hheader hpool hbody | complete hheader hpool hbody =>
      rw [specificationOf] at hpool hbody
      simp only [decode, hheader, hpool, hbody]

/-- Decoding always ends in one of the four ways. -/
theorem decodes_decode (analyzer : Analyzer) (octets : List UInt8) :
    analyzer.Decodes octets (analyzer.decode octets) := by
  cases hheader : Decoder.header (.start octets) with
  | error fault after =>
      have hends : analyzer.Decodes octets _ := .noHeader hheader
      rwa [hends.decode_eq]
  | ok version behindHeader =>
      cases hpool : Decoder.constantPool (analyzer.specificationOf version) behindHeader with
      | error fault after =>
          have hends : analyzer.Decodes octets _ := .noPool hheader hpool
          rwa [hends.decode_eq]
      | ok pool behindPool =>
          cases hbody : Decoder.classBody version ⟨pool, analyzer.specificationOf version⟩
              behindPool with
          | error fault after =>
              have hends : analyzer.Decodes octets _ := .noBody hheader hpool hbody
              rwa [hends.decode_eq]
          | ok classFile after =>
              have hends : analyzer.Decodes octets _ := .complete hheader hpool hbody
              rwa [hends.decode_eq]

/-! ## Octets that are cut off or added -/

section

variable {version : ClassVersion} {pool : ConstantPool} {classFile : ClassFile}
variable {first second third front others : List UInt8} {metFirst metSecond metThird : List String}

variable (hheader : Decoder.Settles Decoder.magicAndVersion first metFirst version)

include hheader

theorem length_of_settles : first.length = 8 :=
  hheader.ensured Decoder.ensures_magicAndVersion

theorem decode_cut_header (hcut : first = front ++ others) (hothers : others ≠ []) :
    analyzer.decode front = .noHeader (.truncated front.length) front.length := by
  obtain ⟨more, hstop⟩ := hheader.located_part hcut hothers 0 []
  rw [Nat.zero_add] at hstop
  exact (Decodes.noHeader hstop).decode_eq

variable (hpool : Decoder.Settles (Decoder.countedConstants (analyzer.specificationOf version))
  second metSecond pool)

include hpool

theorem decode_cut_pool (hcut : second = front ++ others) (hothers : others ≠ []) :
    analyzer.decode (first ++ front) =
      .noPool ⟨headerOf analyzer.versions version, first.length⟩
        (.truncated (first.length + front.length)) (first.length + front.length) := by
  have hfirst := hheader.located_whole front 0 []
  obtain ⟨more, hstop⟩ := hpool.located_part hcut hothers (0 + first.length) (metFirst ++ [])
  have hends := (Decodes.noPool hfirst hstop).decode_eq
  rwa [Nat.zero_add] at hends

variable (hbody : Decoder.Settles
  (Decoder.classParts version ⟨pool, analyzer.specificationOf version⟩) third metThird classFile)

include hbody

theorem decode_cut_body (hcut : third = front ++ others) (hothers : others ≠ []) :
    analyzer.decode (first ++ (second ++ front)) =
      .noBody ⟨headerOf analyzer.versions version, first.length⟩
        ⟨pool, first.length + second.length⟩
        (.truncated (first.length + second.length + front.length))
        (first.length + second.length + front.length) := by
  have hfirst := hheader.located_whole (second ++ front) 0 []
  have hsecond := hpool.located_whole front (0 + first.length) (metFirst ++ [])
  obtain ⟨more, hstop⟩ := hbody.located_part hcut hothers (0 + first.length + second.length)
    (metSecond ++ (metFirst ++ []))
  have hends := (Decodes.noBody hfirst hsecond hstop).decode_eq
  rwa [Nat.zero_add] at hends

theorem decode_whole (rest : List UInt8) :
    analyzer.decode (first ++ (second ++ (third ++ rest))) =
      .complete ⟨headerOf analyzer.versions version, first.length⟩
        ⟨pool, first.length + second.length⟩
        ⟨classFile, first.length + second.length + third.length⟩
        (.ofList ((metThird ++ (metSecond ++ metFirst)).flatMap mentionedClasses)) := by
  have hfirst := hheader.located_whole (second ++ (third ++ rest)) 0 []
  have hsecond := hpool.located_whole (third ++ rest) (0 + first.length) (metFirst ++ [])
  have hthird := hbody.located_whole rest (0 + first.length + second.length)
    (metSecond ++ (metFirst ++ []))
  have hends := (Decodes.complete hfirst hsecond hthird).decode_eq
  rwa [Nat.zero_add, List.append_nil] at hends

end

/-- The octets of a complete decoding fall into three runs, which settle its stages. -/
theorem exists_settles_of_decode {header : Answer Header} {pool : Answer ConstantPool}
    {classFile : Answer ClassFile} {references : ClassNames}
    (hcomplete : analyzer.decode octets = .complete header pool classFile references) :
    ∃ version constants parts first metFirst second metSecond third metThird rest,
      octets = first ++ (second ++ (third ++ rest)) ∧
      Decoder.Settles Decoder.magicAndVersion first metFirst version ∧
      Decoder.Settles (Decoder.countedConstants (analyzer.specificationOf version))
        second metSecond constants ∧
      Decoder.Settles (Decoder.classParts version ⟨constants, analyzer.specificationOf version⟩)
        third metThird parts := by
  have hdecodes := analyzer.decodes_decode octets
  rw [hcomplete] at hdecodes
  cases hdecodes with
  | @complete version constants parts _ _ after hheader hpool hbody =>
      obtain ⟨first, metFirst, hfirst, hheader⟩ :=
        Decoder.forward_magicAndVersion.located_ok hheader
      obtain ⟨second, metSecond, hsecond, hpool⟩ :=
        Decoder.forward_countedConstants.located_ok hpool
      obtain ⟨third, metThird, hthird, hbody⟩ :=
        (Decoder.plain_classParts version).located_ok hbody
      refine ⟨version, constants, parts, first, metFirst, second, metSecond, third, metThird,
        after.rest, ?_, hheader, hpool, hbody⟩
      rw [← hthird.rest, ← hsecond.rest, ← hfirst.rest]
      rfl

theorem exists_ne_nil_of_lt {run : List UInt8} {length : Nat} (hless : length < run.length) :
    ∃ others, run = run.take length ++ others ∧ others ≠ [] := by
  refine ⟨run.drop length, (List.take_append_drop length run).symm, fun hnone => ?_⟩
  have hlength := List.drop_eq_nil_iff.mp hnone
  omega

/-- Decoding that is complete is settled by the octets taken: its stages end one behind the other,
the same is found whatever follows, and if the octets are cut off anywhere, decoding fails for want
of octets at the cut, in the stage that was cut off, while the stages before it find the same. -/
theorem decode_settled {header : Answer Header} {pool : Answer ConstantPool}
    {classFile : Answer ClassFile} {references : ClassNames}
    (hcomplete : analyzer.decode octets = .complete header pool classFile references) :
    (header.stop = 8 ∧ 8 ≤ pool.stop ∧ pool.stop ≤ classFile.stop ∧
      classFile.stop ≤ octets.length) ∧
    (∀ suffix, analyzer.decode (octets.take classFile.stop ++ suffix) =
      .complete header pool classFile references) ∧
    ∀ length < classFile.stop, analyzer.decode (octets.take length) =
      if length < 8 then .noHeader (.truncated length) length
      else if length < pool.stop then .noPool header (.truncated length) length
      else .noBody header pool (.truncated length) length := by
  obtain ⟨version, constants, parts, first, metFirst, second, metSecond, third, metThird, rest,
    rfl, hheader, hpool, hbody⟩ := exists_settles_of_decode hcomplete
  have hwhole := decode_whole hheader hpool hbody
  have height := length_of_settles hheader
  rw [hwhole] at hcomplete
  cases hcomplete
  refine ⟨?_, ?_, ?_⟩
  · simp only [List.length_append]
    omega
  · intro suffix
    have htaken : (first ++ (second ++ (third ++ rest))).take
        (first.length + second.length + third.length) = first ++ (second ++ third) := by
      rw [← List.append_assoc second, ← List.append_assoc first]
      exact List.take_left' (by simp [Nat.add_assoc])
    rw [htaken, List.append_assoc, List.append_assoc, hwhole]
  · intro length hlength
    -- The cut lies in one of the three runs, which is the one that fails.
    dsimp only at hlength ⊢
    by_cases hfirst : length < 8
    · obtain ⟨others, hcut, hothers⟩ := exists_ne_nil_of_lt (height ▸ hfirst)
      have hfront : (first.take length).length = length := List.length_take_of_le (by omega)
      have hends : analyzer.decode (first.take length) = _ := decode_cut_header hheader hcut hothers
      rw [if_pos hfirst, List.take_append_of_le_length (by omega), hends, hfront]
    rw [if_neg hfirst]
    obtain ⟨inSecond, rfl⟩ := Nat.exists_eq_add_of_le (show first.length ≤ length by omega)
    rw [List.take_length_add_append]
    by_cases hsecond : inSecond < second.length
    · obtain ⟨others, hcut, hothers⟩ := exists_ne_nil_of_lt hsecond
      have hfront : (second.take inSecond).length = inSecond := List.length_take_of_le (by omega)
      have hends := decode_cut_pool hheader hpool hcut hothers
      rw [if_pos (by omega), List.take_append_of_le_length (by omega), hends, hfront]
    rw [if_neg (by omega)]
    obtain ⟨inThird, rfl⟩ := Nat.exists_eq_add_of_le (Nat.le_of_not_lt hsecond)
    obtain ⟨others, hcut, hothers⟩ := exists_ne_nil_of_lt (show inThird < third.length by omega)
    have hfront : (third.take inThird).length = inThird := List.length_take_of_le (by omega)
    have hends := decode_cut_body hheader hpool hbody hcut hothers
    rw [List.take_length_add_append, List.take_append_of_le_length (by omega), hends, hfront,
      Nat.add_assoc]

/-- An analyzer that knows no constants. -/
def withoutConstants : Analyzer := ⟨⟨[.new [] [] []], List.cons_ne_nil _ _⟩, .ofRows []⟩

/-- A class body with one attribute. -/
def oneAttributeBody : RawClassFile := ⟨33, 0, 0, [], [], [], [⟨0, [7, 8, 9]⟩]⟩

/-- A class file with an empty constant pool and that body. -/
def oneAttributeOctets : List UInt8 :=
  [0xCA, 0xFE, 0xBA, 0xBE, 0, 0, 0, 61, 0, 1] ++ oneAttributeBody.written

/-- A class file that is cut off in its last attribute. -/
theorem decode_settled_attribute :
    ∃ header pool classFile references,
      withoutConstants.decode (oneAttributeOctets ++ [1]) =
        .complete header pool classFile references ∧ classFile.stop = 33 ∧
      withoutConstants.decode ((oneAttributeOctets ++ [1]).take 31) =
        .noBody header pool (.truncated 31) 31 := by
  have hfits : oneAttributeBody.Fits := by
    simp [oneAttributeBody, RawClassFile.Fits, RawAttribute.Fits]
  have hreads : Decoder.Reads (Decoder.classBody ⟨61, 0⟩
      ⟨.empty, withoutConstants.specificationOf ⟨61, 0⟩⟩) _ _ :=
    Decoder.reads_classBody ⟨61, 0⟩ hfits
  obtain ⟨more, hbody⟩ := hreads [1] 10 []
  have hheader : Decoder.header (.start (oneAttributeOctets ++ [1])) =
      .ok ⟨61, 0⟩ ⟨[0, 1] ++ (oneAttributeBody.written ++ [1]), 8, []⟩ := rfl
  have hpool : Decoder.constantPool (withoutConstants.specificationOf ⟨61, 0⟩)
      ⟨[0, 1] ++ (oneAttributeBody.written ++ [1]), 8, []⟩ =
        .ok .empty ⟨oneAttributeBody.written ++ [1], 10, []⟩ := rfl
  have hcomplete := (Decodes.complete hheader hpool hbody).decode_eq
  have hcut : 31 < 10 + oneAttributeBody.written.length := by decide
  exact ⟨_, _, _, _, hcomplete, rfl, (decode_settled hcomplete).2.2 31 hcut⟩

/-! ## The failures that are possible -/

/-- The octets that are left behind a stage end where the input ends. -/
theorem stop_of_rest_nil {before after : Cursor} {taken : List UInt8} {met : List String}
    (hpasses : before.Passes after taken met) (hrest : after.rest = [])
    (hreach : before.position + before.rest.length = octets.length) :
    after.position = octets.length := by
  rw [← hreach, ← hpasses.stop_eq, hrest, List.length_nil, Nat.add_zero]

theorem header_error_cases {fault : Fault} {after : Cursor}
    (hheader : Decoder.header (.start octets) = .error fault after) :
    (fault = .truncated octets.length ∧ after.position = octets.length) ∨
      ∃ magic rest, octets = bigEndian 4 magic.toNat ++ rest ∧ magic ≠ classFileMagic ∧
        fault = .notAClassFile magic ∧ after.position = 4 := by
  obtain ⟨taken, met, hpasses, ⟨hfault, hrest⟩ | ⟨cause, hrefused, hfault⟩⟩ :=
    Decoder.forward_magicAndVersion.located_error hheader
  · have hstop := stop_of_rest_nil hpasses hrest (Nat.zero_add octets.length)
    exact .inl ⟨hstop ▸ hfault, hstop⟩
  · obtain ⟨magic, rfl, hmagic, rfl⟩ := hrefused
    refine .inr ⟨magic, after.rest, hpasses.rest, hmagic, hfault, ?_⟩
    simpa [Cursor.start] using hpasses.position

theorem length_behind_header {version : ClassVersion} {behindHeader : Cursor}
    (hheader : Decoder.header (.start octets) = .ok version behindHeader) :
    behindHeader.position + behindHeader.rest.length = octets.length := by
  obtain ⟨first, _, hfirst, _⟩ := Decoder.forward_magicAndVersion.located_ok hheader
  exact hfirst.stop_eq.trans (Nat.zero_add octets.length)

theorem pool_error_cases {version : ClassVersion} {fault : Fault} {behindHeader after : Cursor}
    (hheader : Decoder.header (.start octets) = .ok version behindHeader)
    (hpool : Decoder.constantPool (analyzer.specificationOf version) behindHeader =
      .error fault after) :
    (fault = .truncated octets.length ∧ after.position = octets.length) ∨
      ∃ tag index front rest, octets = front ++ tag :: rest ∧
        (analyzer.specificationOf version).layout? tag = none ∧
        fault = .unknownConstantTag tag index ∧ after.position = front.length + 1 := by
  obtain ⟨first, _, hfirst, _⟩ := Decoder.forward_magicAndVersion.located_ok hheader
  have hreach := length_behind_header hheader
  obtain ⟨taken, met, hpasses, ⟨hfault, hrest⟩ | ⟨cause, hrefused, hfault⟩⟩ :=
    Decoder.forward_countedConstants.located_error hpool
  · have hstop := stop_of_rest_nil hpasses hrest hreach
    exact .inl ⟨hstop ▸ hfault, hstop⟩
  · obtain ⟨tag, index, front, rfl, hlayout, rfl⟩ := hrefused
    refine .inr ⟨tag, index, first ++ front, after.rest, ?_, hlayout, hfault, ?_⟩
    · have hoctets : octets = first ++ behindHeader.rest := hfirst.rest
      rw [hoctets, hpasses.rest]
      simp
    · have hposition : behindHeader.position = first.length :=
        hfirst.position.trans (Nat.zero_add first.length)
      rw [hpasses.position, hposition]
      simp [Nat.add_assoc]

/-- A body only fails where the octets end. -/
theorem body_error_cases {version : ClassVersion} {tables : Tables} {fault : Fault}
    {before after : Cursor}
    (hbody : Decoder.classBody version tables before = .error fault after) :
    fault = .truncated (before.position + before.rest.length) ∧ after.rest = [] ∧
      after.position = before.position + before.rest.length := by
  obtain ⟨taken, met, hpasses, ⟨hfault, hrest⟩ | ⟨_, hrefused, -⟩⟩ :=
    (Decoder.plain_classParts version).located_error hbody
  · have hstop := hpasses.stop_eq
    rw [hrest, List.length_nil, Nat.add_zero] at hstop
    exact ⟨hstop ▸ hfault, hrest, hstop⟩
  · exact hrefused.elim

/-- Of octets that start with a wrong magic number, nothing else is taken. -/
theorem header_of_wrong_magic {magic : UInt32} (hmagic : magic ≠ classFileMagic)
    (rest : List UInt8) :
    ∃ met, Decoder.header (.start (bigEndian 4 magic.toNat ++ rest)) =
      .error (.notAClassFile magic) ⟨rest, 4, met⟩ := by
  obtain ⟨more, hread⟩ := Decoder.reads_u4 magic rest 0 []
  rw [length_bigEndian, Nat.zero_add] at hread
  have hfails : Decoder.magicAndVersion (.start (bigEndian 4 magic.toNat ++ rest)) =
      .error (.notAClassFile magic) ⟨rest, 4, more ++ []⟩ := by
    simp only [Decoder.magicAndVersion, Bind.bind, EStateM.bind, Cursor.start, hread, if_pos hmagic]
    rfl
  exact ⟨more ++ [], Decoder.located_of_error hfails⟩

/-- The ways in which decoding may end, and where it stops: everything is found, a magic number or a
tag that is not known is the last that is taken, or the octets end in one of the stages. -/
inductive Ends (analyzer : Analyzer) (octets : List UInt8) : Decoding → Prop where
  | complete (header : Answer Header) (pool : Answer ConstantPool) (classFile : Answer ClassFile)
    (references : ClassNames) : Ends analyzer octets (.complete header pool classFile references)
  | wrongMagic {magic : UInt32} {rest : List UInt8} :
    octets = bigEndian 4 magic.toNat ++ rest → magic ≠ classFileMagic →
    Ends analyzer octets (.noHeader (.notAClassFile magic) 4)
  | unknownTag {tag : UInt8} {index : UInt16} {header : Answer Header}
    {front rest : List UInt8} :
    octets = front ++ tag :: rest → (analyzer.specificationFor header.value).layout? tag = none →
    Ends analyzer octets (.noPool header (.unknownConstantTag tag index) (front.length + 1))
  | shortHeader : Ends analyzer octets (.noHeader (.truncated octets.length) octets.length)
  | shortPool (header : Answer Header) :
    Ends analyzer octets (.noPool header (.truncated octets.length) octets.length)
  | shortBody (header : Answer Header) (pool : Answer ConstantPool) :
    Ends analyzer octets (.noBody header pool (.truncated octets.length) octets.length)

theorem Decodes.ends {decoding : Decoding} (hdecodes : analyzer.Decodes octets decoding) :
    analyzer.Ends octets decoding := by
  cases hdecodes with
  | noHeader hheader =>
      rcases header_error_cases hheader with
        ⟨rfl, hstop⟩ | ⟨magic, rest, hoctets, hmagic, rfl, hstop⟩
      · rw [hstop]
        exact .shortHeader
      · rw [hstop]
        exact .wrongMagic hoctets hmagic
  | noPool hheader hpool =>
      rcases pool_error_cases hheader hpool with
        ⟨rfl, hstop⟩ | ⟨tag, index, front, rest, hoctets, hlayout, rfl, hstop⟩
      · rw [hstop]
        exact .shortPool _
      · rw [hstop]
        exact .unknownTag hoctets hlayout
  | noBody hheader hpool hbody =>
      have hfirst := length_behind_header hheader
      obtain ⟨second, _, hsecond, _⟩ := Decoder.forward_countedConstants.located_ok hpool
      obtain ⟨rfl, -, hstop⟩ := body_error_cases hbody
      rw [hstop, hsecond.stop_eq, hfirst]
      exact .shortBody _ _
  | complete hheader hpool hbody => exact .complete _ _ _ _

/-- The magic number is found to be wrong exactly if it is there and another one. -/
theorem wrong_magic_iff (magic : UInt32) :
    (∃ stop, analyzer.decode octets = .noHeader (.notAClassFile magic) stop) ↔
      4 ≤ octets.length ∧ ofBigEndian (octets.take 4) = magic.toNat ∧ magic ≠ classFileMagic := by
  constructor
  · rintro ⟨stop, hdecode⟩
    have hends := (analyzer.decodes_decode octets).ends
    rw [hdecode] at hends
    cases hends with
    | wrongMagic hoctets hmagic =>
      have htake : octets.take 4 = bigEndian 4 magic.toNat := by
        rw [hoctets, List.take_left' (length_bigEndian 4 _)]
      refine ⟨by simp [hoctets, length_bigEndian], ?_, hmagic⟩
      rw [htake, ofBigEndian_bigEndian]
      exact Nat.mod_eq_of_lt (by simpa [capacity] using magic.toNat_lt)
  · rintro ⟨hlength, hnumber, hmagic⟩
    have hoctets : octets = bigEndian 4 magic.toNat ++ octets.drop 4 := by
      have htake : (octets.take 4).length = 4 := List.length_take_of_le hlength
      have hwritten := bigEndian_ofBigEndian (octets.take 4)
      rw [htake, hnumber] at hwritten
      rw [hwritten, List.take_append_drop]
    obtain ⟨met, hheader⟩ := header_of_wrong_magic hmagic (octets.drop 4)
    rw [← hoctets] at hheader
    exact ⟨4, (Decodes.noHeader hheader).decode_eq⟩

/-! ## Faults in attributes -/

/-- However the body of an attribute is decoded, taking the attribute fails only where the octets
end, and a fault in the body makes the attribute malformed. -/
theorem attributeWith_contains_fault (tables : Tables) (body : AttributeKind → Decoder Attribute) :
    (∀ before fault after,
      Decoder.attributeWith (Decoder.attributeOf tables body) before = .error fault after →
        fault.IsShort ∧ after.rest = []) ∧
    ∀ (raw : RawAttribute) kind reason stopped, raw.Fits →
      AttributeKind.ofName? (tables.pool.textOrEmpty raw.nameIndex) = some kind →
      body kind (.start raw.octets) = .error reason stopped →
        Decoder.Reads (Decoder.attributeWith (Decoder.attributeOf tables body)) raw.written
          (.malformed (tables.pool.textOrEmpty raw.nameIndex) reason raw.octets) := by
  constructor
  · intro before fault after herror
    obtain ⟨taken, met, -, hshort | hrefused⟩ := (Decoder.plain_attributeWith _).error herror
    · exact hshort
    · exact hrefused.elim
  · intro raw kind reason stopped hfits hkind hfault
    have hmalformed : (Decoder.attributeOf tables body raw).1 =
        .malformed (tables.pool.textOrEmpty raw.nameIndex) reason raw.octets := by
      simp only [Decoder.attributeOf, hkind, hfault]
    rw [← hmalformed]
    exact Decoder.reads_attributeWith _ hfits

/-- Decoding ends in one of the ways of `Ends`, with a wrong magic number exactly if there is one.
A body fails only where the octets end, whatever stands in its attributes: each of them, at any
depth, is taken to its end, and a fault in its body is kept in place of what it would be. -/
theorem decode_ends (analyzer : Analyzer) (octets : List UInt8) :
    analyzer.Ends octets (analyzer.decode octets) ∧
    (∀ magic : UInt32,
      (∃ stop, analyzer.decode octets = .noHeader (.notAClassFile magic) stop) ↔
        4 ≤ octets.length ∧ ofBigEndian (octets.take 4) = magic.toNat ∧
          magic ≠ classFileMagic) ∧
    (∀ version tables before fault after,
      Decoder.classBody version tables before = .error fault after →
        fault = .truncated (before.position + before.rest.length) ∧ after.rest = []) ∧
    (∀ tables body before fault after,
      Decoder.attributeWith (Decoder.attributeOf tables body) before = .error fault after →
        fault.IsShort ∧ after.rest = []) ∧
    (∀ tables body (raw : RawAttribute) kind reason stopped, raw.Fits →
      AttributeKind.ofName? (tables.pool.textOrEmpty raw.nameIndex) = some kind →
      body kind (.start raw.octets) = .error reason stopped →
        Decoder.Reads (Decoder.attributeWith (Decoder.attributeOf tables body)) raw.written
          (.malformed (tables.pool.textOrEmpty raw.nameIndex) reason raw.octets)) := by
  refine ⟨(analyzer.decodes_decode octets).ends, wrong_magic_iff, ?_, ?_, ?_⟩
  · intro version tables before fault after herror
    obtain ⟨hfault, hrest, -⟩ := body_error_cases herror
    exact ⟨hfault, hrest⟩
  · intro tables body
    exact (attributeWith_contains_fault tables body).1
  · intro tables body
    exact (attributeWith_contains_fault tables body).2

/-- A wrong magic number, a body and an attribute that are cut off, and a signature without its
index. -/
theorem decode_ends_short :
    (∃ stop, builtin.decode [0xCA, 0xFE, 0xBA, 0xBF, 0] =
      .noHeader (.notAClassFile 0xCAFEBABF) stop) ∧
    (∃ fault after,
      Decoder.classBody ⟨61, 0⟩ signatureTables ⟨[0], 10, []⟩ = .error fault after ∧
        fault = .truncated 11 ∧ after.rest = []) ∧
    (∃ fault after,
      Decoder.attributeWith
          (Decoder.attributeOf signatureTables (Decoder.attributeBody signatureTables 1))
          (.start [0, 2, 0]) = .error fault after ∧ fault.IsShort ∧ after.rest = []) ∧
    Decoder.Reads
      (Decoder.attributeWith
        (Decoder.attributeOf signatureTables (Decoder.attributeBody signatureTables 1)))
      (⟨2, [0]⟩ : RawAttribute).written (.malformed "Signature" .numberCutShort [0]) := by
  obtain ⟨-, hmagic, hbody, hattribute, hfault⟩ :=
    decode_ends builtin [0xCA, 0xFE, 0xBA, 0xBF, 0]
  have hshort : Decoder.classBody ⟨61, 0⟩ signatureTables ⟨[0], 10, []⟩ =
      .error (.truncated 11) ⟨[], 11, []⟩ := rfl
  have hcut : Decoder.attributeWith
      (Decoder.attributeOf signatureTables (Decoder.attributeBody signatureTables 1))
      (.start [0, 2, 0]) = .error .numberCutShort ⟨[], 3, []⟩ := rfl
  refine ⟨(hmagic 0xCAFEBABF).mpr ⟨by decide, rfl, by decide⟩,
    ⟨_, _, hshort, hbody _ _ _ _ _ hshort⟩, ⟨_, _, hcut, hattribute _ _ _ _ _ hcut⟩, ?_⟩
  exact hfault signatureTables (Decoder.attributeBody signatureTables 1) ⟨2, [0]⟩ .signature _ _
    (show 1 < 4294967296 by decide) rfl rfl

end Analyzer

end ClassCensus
