import ClassCensus.ClassFile.StackMap.Written
import ClassCensus.Proofs.ClassFile.Nesting

/-!
# The format of stack maps

A stack map decodes exactly where its octets are a way to write the frames that it holds.  A frame
may be written in more than one way, so the format is a relation; a frame together with a way to
write it is what the decoder takes.

Where a frame or a verification type is to follow, a tag that has no meaning there makes the whole
attribute malformed, whatever stands behind it.
-/

namespace ClassCensus

namespace Decoder

variable {α : Type} {type tag : UInt8} {delta : UInt16}

/-! ## Verification types -/

theorem reads_verificationType (type : VerificationType) :
    Reads verificationType type.written type := by
  cases type with
  | object index => exact (reads_u1 7).bind _ ((reads_u2 index).map _)
  | uninitialized offset => exact (reads_u1 8).bind _ ((reads_u2 offset).map _)
  | top => exact (reads_u1 0).bind _ (reads_pure _)
  | integer => exact (reads_u1 1).bind _ (reads_pure _)
  | float => exact (reads_u1 2).bind _ (reads_pure _)
  | double => exact (reads_u1 3).bind _ (reads_pure _)
  | long => exact (reads_u1 4).bind _ (reads_pure _)
  | null => exact (reads_u1 5).bind _ (reads_pure _)
  | uninitializedThis => exact (reads_u1 6).bind _ (reads_pure _)

theorem takes_verificationType :
    Takes verificationType (fun _ => True) VerificationType.written id := by
  refine ensures_u1.bind ?_
  rintro _ _ tag ⟨rfl, rfl⟩
  rw [bigEndian_one]
  have hbare : ∀ type : VerificationType, type.written = [tag] →
      Ensures (fun _ => True) (pure type) fun taken _ value =>
        ∃ raw : VerificationType, True ∧ [tag] ++ taken = raw.written ∧ value = id raw :=
    fun type htype => ensures_pure ⟨type, trivial, htype.symm, rfl⟩
  have hnumber : ∀ make : UInt16 → VerificationType,
      (∀ number, (make number).written = tag :: bigEndian 2 number.toNat) →
      Ensures (fun _ => True) (do return make (← u2)) fun taken _ value =>
        ∃ raw : VerificationType, True ∧ [tag] ++ taken = raw.written ∧ value = id raw := by
    intro make hmake
    apply ensures_u2.map make
    rintro _ _ number ⟨rfl, rfl⟩
    exact ⟨make number, trivial, (hmake number).symm, rfl⟩
  refine .ite (fun htag => hbare .top (htag ▸ rfl)) fun _ => ?_
  refine .ite (fun htag => hbare .integer (htag ▸ rfl)) fun _ => ?_
  refine .ite (fun htag => hbare .float (htag ▸ rfl)) fun _ => ?_
  refine .ite (fun htag => hbare .double (htag ▸ rfl)) fun _ => ?_
  refine .ite (fun htag => hbare .long (htag ▸ rfl)) fun _ => ?_
  refine .ite (fun htag => hbare .null (htag ▸ rfl)) fun _ => ?_
  refine .ite (fun htag => hbare .uninitializedThis (htag ▸ rfl)) fun _ => ?_
  refine .ite (fun htag => hnumber .object fun _ => htag ▸ rfl) fun _ => ?_
  exact .ite (fun htag => hnumber .uninitialized fun _ => htag ▸ rfl) fun _ => ensures_throw _

/-- A tag above those of verification types is refused. -/
theorem leads_verificationType_throw (htag : 8 < tag) :
    Leads verificationType [tag] (throw (.unknownVerificationTag tag)) := by
  have hleads : Leads verificationType (bigEndian 1 tag.toNat) _ := (reads_u1 tag).leads _
  have hnone : ∀ other : UInt8, other ≤ 8 → tag ≠ other := by
    rintro other hother rfl
    exact absurd htag (UInt8.not_lt.mpr hother)
  rw [bigEndian_one] at hleads
  simpa only [hnone 0 (by decide), hnone 1 (by decide), hnone 2 (by decide), hnone 3 (by decide),
    hnone 4 (by decide), hnone 5 (by decide), hnone 6 (by decide), hnone 7 (by decide),
    hnone 8 (by decide), if_false] using hleads

/-! ## Frames -/

theorem leads_stackMapFrame_shortSameLocals (hdelta : delta < 64) :
    Leads stackMapFrame [UInt8.ofNat (delta.toNat + 64)]
      (do return .sameLocals delta (← verificationType)) := by
  have hless : delta.toNat < 64 := UInt16.lt_iff_toNat_lt.mp hdelta
  have htag : (UInt8.ofNat (delta.toNat + 64)).toNat = delta.toNat + 64 := by
    rw [UInt8.toNat_ofNat', Nat.mod_eq_of_lt (by omega)]
  have habove : ¬ UInt8.ofNat (delta.toNat + 64) < 64 := by
    rw [UInt8.lt_iff_toNat_lt, htag]
    exact Nat.not_lt.mpr (Nat.le_add_left 64 delta.toNat)
  have hbelow : UInt8.ofNat (delta.toNat + 64) < 128 := by
    rw [UInt8.lt_iff_toNat_lt, htag]
    exact Nat.add_lt_add_right hless 64
  have hleads : Leads stackMapFrame _ _ := (reads_u1 (UInt8.ofNat (delta.toNat + 64))).leads _
  rw [bigEndian_one, if_neg habove, if_pos hbelow, htag, Nat.add_sub_cancel,
    UInt16.ofNat_toNat] at hleads
  exact hleads

theorem leads_stackMapFrame_longSameLocals (delta : UInt16) :
    Leads stackMapFrame (247 :: bigEndian 2 delta.toNat)
      (do return .sameLocals delta (← verificationType)) := by
  have hleads : Leads stackMapFrame _ _ := (reads_u1 247).leads _
  exact hleads.trans ((reads_u2 delta).leads _)

theorem leads_stackMapFrame_append {count : Nat} (hcount : 1 ≤ count) (hmost : count ≤ 3)
    (delta : UInt16) :
    Leads stackMapFrame (UInt8.ofNat (251 + count) :: bigEndian 2 delta.toNat)
      (do return .append delta (← times count verificationType)) := by
  obtain rfl | rfl | rfl : count = 1 ∨ count = 2 ∨ count = 3 := by omega
  · have hleads : Leads stackMapFrame _ _ := (reads_u1 252).leads _
    exact hleads.trans ((reads_u2 delta).leads _)
  · have hleads : Leads stackMapFrame _ _ := (reads_u1 253).leads _
    exact hleads.trans ((reads_u2 delta).leads _)
  · have hleads : Leads stackMapFrame _ _ := (reads_u1 254).leads _
    exact hleads.trans ((reads_u2 delta).leads _)

theorem leads_stackMapFrame_full (delta : UInt16) :
    Leads stackMapFrame (255 :: bigEndian 2 delta.toNat)
      (do return .full delta (← table verificationType) (← table verificationType)) := by
  have hleads : Leads stackMapFrame _ _ := (reads_u1 255).leads _
  exact hleads.trans ((reads_u2 delta).leads _)

theorem reads_verificationTypes {types : List VerificationType} (hlength : types.length < 65536) :
    Reads (table verificationType) (writtenTable VerificationType.written types) types := by
  have hreads := reads_table hlength fun type _ => reads_verificationType type
  rwa [List.map_id'] at hreads

theorem eq_of_le_three {count : UInt8} (hcount : 1 ≤ count) (hmost : count ≤ 3) :
    count = 1 ∨ count = 2 ∨ count = 3 := by
  grind

/-- A frame is read from any way to write it. -/
theorem reads_stackMapFrame {frame : StackMapFrame} {octets : List UInt8}
    (hwritten : frame.Written octets) : Reads stackMapFrame octets frame := by
  cases hwritten with
  | shortSame delta hdelta =>
      have hless : delta.toNat < 64 := UInt16.lt_iff_toNat_lt.mp hdelta
      have htag : (UInt8.ofNat delta.toNat).toNat = delta.toNat := by
        rw [UInt8.toNat_ofNat', Nat.mod_eq_of_lt (by omega)]
      have hbelow : UInt8.ofNat delta.toNat < 64 := by
        rw [UInt8.lt_iff_toNat_lt, htag]
        exact hless
      have hleads : Leads stackMapFrame _ _ := (reads_u1 (UInt8.ofNat delta.toNat)).leads _
      rw [bigEndian_one, if_pos hbelow, htag, UInt16.ofNat_toNat] at hleads
      exact hleads.reads (reads_pure _)
  | longSame delta => exact (reads_u1 251).bind _ ((reads_u2 delta).map _)
  | shortSameLocals delta stack hdelta =>
      exact (leads_stackMapFrame_shortSameLocals hdelta).reads
        ((reads_verificationType stack).map _)
  | longSameLocals delta stack =>
      exact (leads_stackMapFrame_longSameLocals delta).reads ((reads_verificationType stack).map _)
  | chop delta count hcount hmost =>
      obtain rfl | rfl | rfl := eq_of_le_three hcount hmost
      · exact (reads_u1 250).bind _ ((reads_u2 delta).map _)
      · exact (reads_u1 249).bind _ ((reads_u2 delta).map _)
      · exact (reads_u1 248).bind _ ((reads_u2 delta).map _)
  | append delta locals hlength hmost =>
      have hlocals := reads_times fun type (_ : type ∈ locals) => reads_verificationType type
      rw [List.map_id'] at hlocals
      exact (leads_stackMapFrame_append hlength hmost delta).reads (hlocals.map _)
  | full delta locals stack hlocals hstack =>
      refine (leads_stackMapFrame_full delta).reads ?_
      exact (reads_verificationTypes hlocals).bind _ ((reads_verificationTypes hstack).map _)

theorem ensures_verificationTypes :
    Ensures (fun _ => True) (table verificationType) fun taken _ types =>
      types.length < 65536 ∧ taken = writtenTable VerificationType.written types := by
  refine takes_verificationType.table.mono ?_
  rintro _ _ _ ⟨types, ⟨hlength, -⟩, rfl, rfl⟩
  rw [List.map_id]
  exact ⟨hlength, rfl⟩

theorem toNat_ofNat_toNat_sub (type : UInt8) (less : Nat) :
    (UInt16.ofNat (type.toNat - less)).toNat = type.toNat - less := by
  have hless := type.toNat_lt
  rw [UInt16.toNat_ofNat', Nat.mod_eq_of_lt (by omega)]

/-- What is taken as a frame is a way to write it. -/
theorem ensures_stackMapFrame :
    Ensures (fun _ => True) stackMapFrame fun taken _ frame => frame.Written taken := by
  refine ensures_u1.bind ?_
  rintro _ _ type ⟨rfl, rfl⟩
  rw [bigEndian_one]
  refine .ite (fun hsame => ?shortSame) fun hsame =>
    .ite (fun hlocals => ?shortSameLocals) fun hlocals =>
    .ite (fun _ => ensures_throw _) fun hreserved =>
    .ite (fun hlong => ?longSameLocals) fun hlong =>
    .ite (fun hchop => ?chop) fun hchop =>
    .ite (fun hlongSame => ?longSame) fun hlongSame =>
    .ite (fun happend => ?append) fun happend => ?full
  case shortSame =>
    have hnumber : (UInt16.ofNat type.toNat).toNat = type.toNat := toNat_ofNat_toNat_sub type 0
    have hdelta : UInt16.ofNat type.toNat < 64 := by
      rw [UInt16.lt_iff_toNat_lt, hnumber]
      exact UInt8.lt_iff_toNat_lt.mp hsame
    have hwritten := StackMapFrame.Written.shortSame _ hdelta
    rw [hnumber, UInt8.ofNat_toNat] at hwritten
    exact ensures_pure hwritten
  case shortSameLocals =>
    have hnumber := toNat_ofNat_toNat_sub type 64
    have hleast : 64 ≤ type.toNat := UInt8.le_iff_toNat_le.mp (UInt8.not_lt.mp hsame)
    have hmost : type.toNat < 128 := UInt8.lt_iff_toNat_lt.mp hlocals
    have hdelta : UInt16.ofNat (type.toNat - 64) < 64 := by
      rw [UInt16.lt_iff_toNat_lt, hnumber]
      exact Nat.sub_lt_right_of_lt_add hleast hmost
    apply Ensures.map takes_verificationType
    rintro _ _ stack ⟨_, -, rfl, rfl⟩
    have hwritten := StackMapFrame.Written.shortSameLocals _ stack hdelta
    rwa [hnumber, Nat.sub_add_cancel hleast, UInt8.ofNat_toNat] at hwritten
  case longSameLocals =>
    subst hlong
    refine ensures_u2.bind ?_
    rintro _ _ delta ⟨rfl, rfl⟩
    apply Ensures.map takes_verificationType
    rintro _ _ stack ⟨_, -, rfl, rfl⟩
    exact .longSameLocals delta stack
  case chop =>
    apply ensures_u2.map fun delta => StackMapFrame.chop delta (251 - type)
    rintro _ _ delta ⟨rfl, rfl⟩
    have hwritten := StackMapFrame.Written.chop delta (251 - type) (by grind) (by grind)
    have htype : 251 - (251 - type) = type := by grind
    rwa [htype] at hwritten
  case longSame =>
    subst hlongSame
    apply ensures_u2.map StackMapFrame.same
    rintro _ _ delta ⟨rfl, rfl⟩
    exact .longSame delta
  case append =>
    have habove : 251 < type := by grind
    have hleast : 251 < type.toNat := UInt8.lt_iff_toNat_lt.mp habove
    have hmost : type.toNat < 255 := UInt8.lt_iff_toNat_lt.mp happend
    have htype : UInt8.ofNat (251 + (type.toNat - 251)) = type := by
      rw [Nat.add_sub_cancel' (Nat.le_of_lt hleast), UInt8.ofNat_toNat]
    refine ensures_u2.bind ?_
    rintro _ _ delta ⟨rfl, rfl⟩
    apply (ensures_times takes_verificationType (type.toNat - 251)).map (StackMapFrame.append delta)
    rintro _ _ _ ⟨hlength, horder⟩
    obtain ⟨locals, -, rfl, rfl⟩ := horder.exists_raw
    rw [List.map_id] at hlength ⊢
    have hwritten := StackMapFrame.Written.append delta locals (by omega) (by omega)
    rwa [hlength, htype] at hwritten
  case full =>
    obtain rfl : type = 255 := by grind
    refine ensures_u2.bind ?_
    rintro _ _ delta ⟨rfl, rfl⟩
    refine ensures_verificationTypes.bind ?_
    rintro _ _ locals ⟨hlocals, rfl⟩
    apply ensures_verificationTypes.map (StackMapFrame.full delta locals)
    rintro _ _ stack ⟨hstack, rfl⟩
    exact .full delta locals stack hlocals hstack

/-! ## Tags without meaning -/

theorem leads_stackMapFrame_throw (hleast : 128 ≤ tag) (hmost : tag ≤ 246) :
    Leads stackMapFrame [tag] (throw (.unknownFrameType tag)) := by
  have hsame : ¬ tag < 64 := by grind
  have hlocals : ¬ tag < 128 := UInt8.not_lt.mpr hleast
  have hreserved : tag < 247 := by grind
  have hleads : Leads stackMapFrame _ _ := (reads_u1 tag).leads _
  rwa [bigEndian_one, if_neg hsame, if_neg hlocals, if_pos hreserved] at hleads

/-- Where a frame is to go on with a verification type, a tag above those of types is refused. -/
theorem leads_stackMapFrame_of_awaitsType {start : List UInt8}
    (hawaits : StackMapFrame.AwaitsType start) (htag : 8 < tag) :
    Leads stackMapFrame (start ++ [tag]) (throw (.unknownVerificationTag tag)) := by
  have hthrow : Leads verificationType [tag] _ := leads_verificationType_throw htag
  have htypes (types : List VerificationType) :
      ∀ found ∈ types, Reads verificationType found.written found :=
    fun found _ => reads_verificationType found
  cases hawaits with
  | shortSameLocals delta hdelta =>
      exact (leads_stackMapFrame_shortSameLocals hdelta).trans (hthrow.bind_throw _)
  | longSameLocals delta =>
      exact (leads_stackMapFrame_longSameLocals delta).trans (hthrow.bind_throw _)
  | append delta count locals hmost hless =>
      have hlocals := leads_times_throw (htypes locals) hless hthrow
      have hleads := (leads_stackMapFrame_append (Nat.zero_lt_of_lt hless) hmost delta).trans
        (hlocals.bind_throw _)
      simpa using hleads
  | fullLocals delta count locals hless =>
      have hlocals := leads_table_throw (htypes locals) hless hthrow
      simpa using (leads_stackMapFrame_full delta).trans (hlocals.bind_throw _)
  | fullStack delta count locals stack hlength hless =>
      have hstack := leads_table_throw (htypes stack) hless hthrow
      have hleads := (leads_stackMapFrame_full delta).trans
        (((reads_verificationTypes hlength).leads _).trans (hstack.bind_throw _))
      simpa using hleads

/-! ## Stack maps -/

/-- Frames in a row are written as pairs of a frame and a way to write it. -/
theorem writtenList_iff {frames : List StackMapFrame} {body : List UInt8} :
    StackMapFrame.WrittenList frames body ↔
      ∃ pairs : List (StackMapFrame × List UInt8), (∀ pair ∈ pairs, pair.1.Written pair.2) ∧
        frames = pairs.map Prod.fst ∧ body = pairs.flatMap Prod.snd := by
  constructor
  · intro hwritten
    induction hwritten with
    | nil => exact ⟨[], by simp, rfl, rfl⟩
    | cons hframe _ ih =>
        obtain ⟨pairs, hpairs, rfl, rfl⟩ := ih
        exact ⟨(_, _) :: pairs, List.forall_mem_cons.mpr ⟨hframe, hpairs⟩, rfl, rfl⟩
  · rintro ⟨pairs, hpairs, rfl, rfl⟩
    induction pairs with
    | nil => exact .nil
    | cons pair pairs ih =>
        obtain ⟨hpair, hothers⟩ := List.forall_mem_cons.mp hpairs
        exact .cons hpair (ih hothers)

theorem writtenTable_iff {frames : List StackMapFrame} {octets : List UInt8} :
    StackMapFrame.WrittenTable frames octets ↔
      ∃ pairs : List (StackMapFrame × List UInt8),
        (pairs.length < 65536 ∧ ∀ pair ∈ pairs, pair.1.Written pair.2) ∧
        octets = writtenTable Prod.snd pairs ∧ frames = pairs.map Prod.fst := by
  constructor
  · rintro ⟨hlength, body, hbody, rfl⟩
    obtain ⟨pairs, hpairs, rfl, rfl⟩ := writtenList_iff.mp hbody
    rw [List.length_map] at hlength
    exact ⟨pairs, ⟨hlength, hpairs⟩, by rw [writtenTable, List.length_map], rfl⟩
  · rintro ⟨pairs, ⟨hlength, hpairs⟩, rfl, rfl⟩
    have hbody := writtenList_iff.mpr ⟨pairs, hpairs, rfl, rfl⟩
    exact ⟨by rwa [List.length_map], _, hbody, by rw [writtenTable, List.length_map]⟩

theorem takes_stackMapFrames :
    Takes stackMapFrames
      (fun pairs : List (StackMapFrame × List UInt8) =>
        pairs.length < 65536 ∧ ∀ pair ∈ pairs, pair.1.Written pair.2)
      (writtenTable Prod.snd) (List.map Prod.fst) := by
  apply Takes.table
  refine ensures_stackMapFrame.mono ?_
  intro taken _ frame hwritten
  exact ⟨(frame, taken), hwritten, rfl, rfl⟩

theorem reads_stackMapFrames {pairs : List (StackMapFrame × List UInt8)}
    (hlength : pairs.length < 65536) (hpairs : ∀ pair ∈ pairs, pair.1.Written pair.2) :
    Reads stackMapFrames (writtenTable Prod.snd pairs) (pairs.map Prod.fst) :=
  reads_table hlength fun pair hpair => reads_stackMapFrame (hpairs pair hpair)

theorem stackMapFrames_ok_iff {octets rest : List UInt8} {position stop : Nat} {met : List String}
    {frames : List StackMapFrame} :
    (∃ metAfter, stackMapFrames ⟨octets, position, met⟩ = .ok frames ⟨rest, stop, metAfter⟩) ↔
      ∃ taken, StackMapFrame.WrittenTable frames taken ∧ octets = taken ++ rest ∧
        stop = position + taken.length := by
  have hinverts := takes_stackMapFrames.inverts fun pairs hpairs =>
    reads_stackMapFrames hpairs.1 hpairs.2
  rw [hinverts octets position met frames rest stop]
  constructor
  · rintro ⟨pairs, hpairs, rfl, rfl, rfl⟩
    exact ⟨_, writtenTable_iff.mpr ⟨pairs, hpairs, rfl, rfl⟩, rfl, rfl⟩
  · rintro ⟨taken, htaken, rfl, rfl⟩
    obtain ⟨pairs, hpairs, rfl, rfl⟩ := writtenTable_iff.mp htaken
    exact ⟨pairs, hpairs, rfl, rfl, rfl⟩

/-- Behind fewer frames than are counted, what no frame starts with is refused. -/
theorem leads_stackMapFrames_throw {count : UInt16} {frames : List StackMapFrame}
    {body start : List UInt8} {fault : Fault} (hbody : StackMapFrame.WrittenList frames body)
    (hless : frames.length < count.toNat) (hthrow : Leads stackMapFrame start (throw fault)) :
    Leads stackMapFrames (bigEndian 2 count.toNat ++ (body ++ start)) (throw fault) := by
  obtain ⟨pairs, hpairs, rfl, rfl⟩ := writtenList_iff.mp hbody
  rw [List.length_map] at hless
  exact leads_table_throw (fun pair hpair => reads_stackMapFrame (hpairs pair hpair)) hless hthrow

end Decoder

/-- Stack maps decode exactly where they are written in the format, and nothing behind them is
taken.  An attribute of that name is a stack map exactly if its body starts with a way to write it.
It is malformed if a reserved tag stands where a frame is to start, or a tag above those of
verification types where one of these is to start. -/
theorem stackMapFrames_inverts_format (tables : Tables) :
    (∀ octets position met frames rest stop,
      (∃ metAfter, Decoder.stackMapFrames ⟨octets, position, met⟩ =
          .ok frames ⟨rest, stop, metAfter⟩) ↔
        ∃ taken, StackMapFrame.WrittenTable frames taken ∧ octets = taken ++ rest ∧
          stop = position + taken.length) ∧
    ∀ raw : RawAttribute,
      AttributeKind.ofName? (tables.pool.textOrEmpty raw.nameIndex) = some .stackMapTable →
      (∀ frames, raw.decoded tables = .stackMapTable frames ↔
        ∃ taken rest, StackMapFrame.WrittenTable frames taken ∧ raw.octets = taken ++ rest) ∧
      ∀ (count : UInt16) frames body, StackMapFrame.WrittenList frames body →
        frames.length < count.toNat →
        (∀ tag others, 128 ≤ tag → tag ≤ 246 →
          raw.octets = bigEndian 2 count.toNat ++ body ++ tag :: others →
          raw.decoded tables = .malformed (tables.pool.textOrEmpty raw.nameIndex)
            (.unknownFrameType tag) raw.octets) ∧
        ∀ start tag others, StackMapFrame.AwaitsType start → 8 < tag →
          raw.octets = bigEndian 2 count.toNat ++ body ++ start ++ tag :: others →
          raw.decoded tables = .malformed (tables.pool.textOrEmpty raw.nameIndex)
            (.unknownVerificationTag tag) raw.octets := by
  refine ⟨fun _ _ _ _ _ _ => Decoder.stackMapFrames_ok_iff, ?_⟩
  intro raw hkind
  refine ⟨fun frames => ?_, ?_⟩
  · rw [RawAttribute.decoded_eq_iff rfl, and_iff_right hkind]
    refine (Decoder.exists_map_ok_iff (fun _ _ => Attribute.stackMapTable.inj) _ frames).trans ?_
    constructor
    · rintro ⟨⟨rest, stop, metAfter⟩, hok⟩
      obtain ⟨taken, htaken, hoctets, -⟩ := Decoder.stackMapFrames_ok_iff.mp ⟨metAfter, hok⟩
      exact ⟨taken, rest, htaken, hoctets⟩
    · rintro ⟨taken, rest, htaken, hoctets⟩
      obtain ⟨metAfter, hok⟩ := Decoder.stackMapFrames_ok_iff.mpr ⟨taken, htaken, hoctets, rfl⟩
      exact ⟨_, hok⟩
  · intro count frames body hbody hless
    constructor
    · intro tag others hleast hmost hoctets
      have hthrow := Decoder.leads_stackMapFrame_throw hleast hmost
      have hleads := Decoder.leads_stackMapFrames_throw hbody hless hthrow
      have hsplit : raw.octets = bigEndian 2 count.toNat ++ (body ++ [tag]) ++ others := by
        simpa using hoctets
      exact RawAttribute.decoded_eq_malformed hkind (hleads.bind_throw _) hsplit
    · intro start tag others hawaits htag hoctets
      have hthrow := Decoder.leads_stackMapFrame_of_awaitsType hawaits htag
      have hleads := Decoder.leads_stackMapFrames_throw hbody hless hthrow
      have hsplit : raw.octets =
          bigEndian 2 count.toNat ++ (body ++ (start ++ [tag])) ++ others := by
        simpa using hoctets
      exact RawAttribute.decoded_eq_malformed hkind (hleads.bind_throw _) hsplit

/-- Tables whose pool holds the name of stack maps at index 1. -/
def stackMapTables : Tables :=
  ⟨⟨#[none, some ⟨1, 1, .utf8, [⟨"bytes", .text "StackMapTable"⟩]⟩]⟩, .new [] [] []⟩

/-- One frame in both ways to write it. -/
theorem writtenList_twice : StackMapFrame.WrittenList [.same 5, .same 5] [5, 251, 0, 5] :=
  .cons (.shortSame 5 (by decide)) (.cons (.longSame 5) .nil)

/-- An octet behind the frames is ignored, tags without meaning are not. -/
theorem stackMapFrames_inverts_format_twice :
    (⟨1, [0, 2, 5, 251, 0, 5, 9]⟩ : RawAttribute).decoded stackMapTables =
      .stackMapTable [.same 5, .same 5] ∧
    (⟨1, [0, 3, 5, 251, 0, 5, 246]⟩ : RawAttribute).decoded stackMapTables =
      .malformed "StackMapTable" (.unknownFrameType 246) [0, 3, 5, 251, 0, 5, 246] ∧
    (⟨1, [0, 3, 5, 251, 0, 5, 64, 9]⟩ : RawAttribute).decoded stackMapTables =
      .malformed "StackMapTable" (.unknownVerificationTag 9) [0, 3, 5, 251, 0, 5, 64, 9] := by
  have hformat := (stackMapFrames_inverts_format stackMapTables).2
  refine ⟨?_, ?_, ?_⟩
  · exact ((hformat ⟨1, _⟩ rfl).1 [.same 5, .same 5]).mpr
      ⟨[0, 2, 5, 251, 0, 5], [9], ⟨by decide, _, writtenList_twice, rfl⟩, rfl⟩
  · exact ((hformat ⟨1, _⟩ rfl).2 3 _ _ writtenList_twice (by decide)).1 246 []
      (by decide) (by decide) rfl
  · exact ((hformat ⟨1, _⟩ rfl).2 3 _ _ writtenList_twice (by decide)).2 [64] 9 []
      (.shortSameLocals 0 (by decide)) (by decide) rfl

end ClassCensus
