import ClassCensus.Octets.Decoder

/-!
# What decoders ensure

Every decoder takes a front part of the octets and meets descriptors on the way, whether it answers
or fails.  `Ensures` says so, asks that all that is met is known beforehand, and relates the octets
taken and the descriptors met to the answer.  Decoders are judged by one rule for each way in which
they are put together; the octets of a row of decoders are those of its parts in order.

Most decoders meet nothing.  `Silent` says that of them, and lets them stand in front of others
without a trace.
-/

namespace ClassCensus

/-! ## Numbers and their octets -/

theorem ofBigEndian_lt (run : List UInt8) : ofBigEndian run < capacity run.length := by
  induction run with
  | nil => simp [ofBigEndian, capacity]
  | cons octet run ih =>
      have hoctet : octet.toNat < 256 := octet.toNat_lt
      have hless : octet.toNat * capacity run.length ≤ 255 * capacity run.length :=
        Nat.mul_le_mul_right _ (by omega)
      rw [ofBigEndian_cons, List.length_cons, capacity]
      omega

/-- Only the remainder of a number is written. -/
theorem bigEndian_mul_add (width factor number : Nat) :
    bigEndian width (factor * capacity width + number) = bigEndian width number := by
  induction width generalizing factor with
  | zero => rfl
  | succ width ih =>
      have hfactor : factor * capacity (width + 1) = factor * 256 * capacity width := by
        rw [capacity, Nat.mul_comm (capacity width), Nat.mul_assoc]
      have hquotient : (factor * 256 * capacity width + number) / capacity width =
          factor * 256 + number / capacity width := by
        rw [Nat.add_comm, Nat.add_mul_div_right _ _ (capacity_pos _), Nat.add_comm]
      have hoctet : UInt8.ofNat (factor * 256 + number / capacity width) =
          UInt8.ofNat (number / capacity width) := by
        apply UInt8.toNat_inj.mp
        rw [UInt8.toNat_ofNat', UInt8.toNat_ofNat']
        omega
      rw [bigEndian, bigEndian, hfactor, hquotient, hoctet, ih]

theorem bigEndian_ofBigEndian (run : List UInt8) :
    bigEndian run.length (ofBigEndian run) = run := by
  induction run with
  | nil => rfl
  | cons octet run ih =>
      have hquotient : (octet.toNat * capacity run.length + ofBigEndian run) / capacity run.length =
          octet.toNat := by
        rw [Nat.add_comm, Nat.add_mul_div_right _ _ (capacity_pos _),
          Nat.div_eq_of_lt (ofBigEndian_lt run), Nat.zero_add]
      rw [List.length_cons, bigEndian, ofBigEndian_cons, bigEndian_mul_add, ih, hquotient,
        UInt8.ofNat_toNat]

/-! ## Passing from one cursor to another -/

/-- That octets are taken and descriptors are met between two cursors. -/
structure Cursor.Passes (before after : Cursor) (taken : List UInt8) (met : List String) :
    Prop where
  rest : before.rest = taken ++ after.rest
  position : after.position = before.position + taken.length
  met : after.met = met ++ before.met

namespace Cursor.Passes

theorem refl (cursor : Cursor) : cursor.Passes cursor [] [] :=
  ⟨rfl, rfl, rfl⟩

theorem trans {first second third : Cursor} {taken others : List UInt8} {met more : List String}
    (hfirst : first.Passes second taken met) (hsecond : second.Passes third others more) :
    first.Passes third (taken ++ others) (more ++ met) where
  rest := by rw [hfirst.rest, hsecond.rest, List.append_assoc]
  position := by rw [hsecond.position, hfirst.position, List.length_append, Nat.add_assoc]
  met := by rw [hsecond.met, hfirst.met, List.append_assoc]

end Cursor.Passes

namespace Decoder

/-- That a decoder takes octets from the front and meets known descriptors only, and that `post`
holds of the octets, the descriptors and the answer if there is one. -/
def Ensures (known : String → Prop) (decoder : Decoder α)
    (post : List UInt8 → List String → α → Prop) : Prop :=
  ∀ before, ∃ taken met, (∀ text ∈ met, known text) ∧
    match decoder before with
    | .ok value after => before.Passes after taken met ∧ post taken met value
    | .error _ after => before.Passes after taken met

section

variable {known : String → Prop} {α β : Type}
variable {post : List UInt8 → List String → α → Prop}

theorem Ensures.ok {decoder : Decoder α} (hensures : Ensures known decoder post)
    {before after : Cursor} {value : α} (hok : decoder before = .ok value after) :
    ∃ taken met, (∀ text ∈ met, known text) ∧ before.Passes after taken met ∧
      post taken met value := by
  obtain ⟨taken, met, hmet, hresult⟩ := hensures before
  rw [hok] at hresult
  exact ⟨taken, met, hmet, hresult⟩

theorem Ensures.mono {decoder : Decoder α} {goal : List UInt8 → List String → α → Prop}
    (hensures : Ensures known decoder post)
    (himplies : ∀ taken met value, post taken met value → goal taken met value) :
    Ensures known decoder goal := by
  intro before
  obtain ⟨taken, met, hmet, hresult⟩ := hensures before
  refine ⟨taken, met, hmet, ?_⟩
  split at hresult
  · exact ⟨hresult.1, himplies _ _ _ hresult.2⟩
  · exact hresult

/-- What holds of every answer is ensured. -/
theorem Ensures.of_ok {decoder : Decoder α} {goal : α → Prop}
    (hensures : Ensures known decoder post)
    (hgoal : ∀ before value after, decoder before = .ok value after → goal value) :
    Ensures known decoder fun _ _ value => goal value := by
  intro before
  obtain ⟨taken, met, hmet, hresult⟩ := hensures before
  refine ⟨taken, met, hmet, ?_⟩
  split at hresult
  next hdecoder => exact ⟨hresult.1, hgoal _ _ _ hdecoder⟩
  next => exact hresult

theorem ensures_pure {value : α} (hpost : post [] [] value) :
    Ensures known (pure value) post := by
  intro before
  exact ⟨[], [], by simp, .refl before, hpost⟩

theorem ensures_throw (fault : Fault) : Ensures known (throw fault) post := by
  intro before
  exact ⟨[], [], by simp, .refl before⟩

/-- What follows a decoder is judged by what the decoder may have taken, met and answered. -/
theorem Ensures.bind {decoder : Decoder α} {next : α → Decoder β}
    {goal : List UInt8 → List String → β → Prop} (hensures : Ensures known decoder post)
    (hnext : ∀ taken met value, post taken met value →
      Ensures known (next value) fun others more answer =>
        goal (taken ++ others) (more ++ met) answer) :
    Ensures known (decoder >>= next) goal := by
  intro before
  obtain ⟨taken, met, hmet, hresult⟩ := hensures before
  simp only [Bind.bind, EStateM.bind]
  split at hresult
  next value middle hdecoder =>
    obtain ⟨hpasses, hpost⟩ := hresult
    obtain ⟨others, more, hmore, hlast⟩ := hnext taken met value hpost middle
    refine ⟨taken ++ others, more ++ met, ?_, ?_⟩
    · intro text htext
      exact (List.mem_append.mp htext).elim (hmore text) (hmet text)
    · rw [hdecoder]
      split at hlast
      next answer after hanswer =>
        simp only [hanswer]
        exact ⟨hpasses.trans hlast.1, hlast.2⟩
      next fault after hfault =>
        simp only [hfault]
        exact hpasses.trans hlast
  next fault after hdecoder =>
    rw [hdecoder]
    exact ⟨taken, met, hmet, hresult⟩

/-- What an answer is made into takes no more octets. -/
theorem Ensures.map {decoder : Decoder α} {goal : List UInt8 → List String → β → Prop}
    (hensures : Ensures known decoder post) (make : α → β)
    (himplies : ∀ taken met value, post taken met value → goal taken met (make value)) :
    Ensures known (do return make (← decoder)) goal := by
  refine hensures.bind fun taken met value hpost => ensures_pure ?_
  rw [List.append_nil]
  exact himplies taken met value hpost

theorem Ensures.ite {condition : Prop} [Decidable condition] {first second : Decoder α}
    (hfirst : condition → Ensures known first post)
    (hsecond : ¬ condition → Ensures known second post) :
    Ensures known (if condition then first else second) post := by
  by_cases hcondition : condition
  · rw [if_pos hcondition]
    exact hfirst hcondition
  · rw [if_neg hcondition]
    exact hsecond hcondition

theorem ensures_run (fault : Fault) (length : Nat) :
    Ensures known (run fault length) fun taken met value =>
      taken = value ∧ value.length = length ∧ met = [] := by
  intro before
  refine ⟨before.rest.take length, [], by simp, ?_⟩
  have hpasses : before.Passes ⟨before.rest.drop length,
      before.position + (before.rest.take length).length, before.met⟩
      (before.rest.take length) [] :=
    ⟨(List.take_append_drop length before.rest).symm, rfl, rfl⟩
  by_cases hlength : (before.rest.take length).length = length
  · simp only [run, hlength, if_true]
    rw [hlength] at hpasses
    exact ⟨hpasses, trivial, trivial, trivial⟩
  · simp only [run, hlength, if_false]
    exact hpasses

/-! ## Numbers -/

theorem ensures_number (width : Nat) :
    Ensures known (number width) fun taken met value =>
      taken = bigEndian width value ∧ value < capacity width ∧ met = [] := by
  refine (ensures_run .numberCutShort width).bind ?_
  rintro _ _ octets ⟨rfl, rfl, rfl⟩
  apply ensures_pure
  rw [List.append_nil]
  exact ⟨(bigEndian_ofBigEndian _).symm, ofBigEndian_lt _, rfl⟩

/-- A word made from a number spells the octets of the number, if it has room for them. -/
theorem ensures_word {width : Nat} {make : Nat → α} {toNat : α → Nat}
    (hmake : ∀ value < capacity width, toNat (make value) = value) :
    Ensures known (do return make (← number width)) fun taken met word =>
      taken = bigEndian width (toNat word) ∧ met = [] := by
  refine (ensures_number width).bind ?_
  rintro _ _ value ⟨rfl, hless, rfl⟩
  apply ensures_pure
  rw [List.append_nil, hmake value hless]
  exact ⟨rfl, rfl⟩

theorem ensures_u1 : Ensures known u1 fun taken met value =>
    taken = bigEndian 1 value.toNat ∧ met = [] :=
  ensures_word fun value hless => by
    rw [UInt8.toNat_ofNat', Nat.mod_eq_of_lt (by simpa [capacity] using hless)]

theorem ensures_u2 : Ensures known u2 fun taken met value =>
    taken = bigEndian 2 value.toNat ∧ met = [] :=
  ensures_word fun value hless => by
    rw [UInt16.toNat_ofNat', Nat.mod_eq_of_lt (by simpa [capacity] using hless)]

theorem ensures_u4 : Ensures known u4 fun taken met value =>
    taken = bigEndian 4 value.toNat ∧ met = [] :=
  ensures_word fun value hless => by
    rw [UInt32.toNat_ofNat', Nat.mod_eq_of_lt (by simpa [capacity] using hless)]

theorem ensures_meet {text : String} (hknown : known text) :
    Ensures known (meet text) fun taken met _ => taken = [] ∧ met = [text] := by
  intro before
  exact ⟨[], [text], by simpa using hknown, ⟨rfl, rfl, rfl⟩, rfl, rfl⟩

/-! ## Decoders that repeat, nest or are located -/

/-- That octets and descriptors are those of entries in order, of each of which `post` holds. -/
inductive InOrder (post : List UInt8 → List String → α → Prop) :
    List UInt8 → List String → List α → Prop where
  | nil : InOrder post [] [] []
  | cons {taken others : List UInt8} {met more : List String} {value : α} {values : List α} :
    post taken met value → InOrder post others more values →
    InOrder post (taken ++ others) (more ++ met) (value :: values)

theorem ensures_timesOnto {decoder : Decoder α} (hensures : Ensures known decoder post)
    (count : Nat) (before : List α) :
    Ensures known (timesOnto decoder count before) fun taken met values =>
      ∃ found, values = before.reverse ++ found ∧ found.length = count ∧
        InOrder post taken met found := by
  induction count generalizing before with
  | zero => exact ensures_pure ⟨[], by simp, rfl, .nil⟩
  | succ count ih =>
      refine hensures.bind fun taken met value hpost => ?_
      refine (ih (value :: before)).mono ?_
      rintro others more values ⟨found, rfl, rfl, horder⟩
      exact ⟨value :: found, by simp, rfl, .cons hpost horder⟩

theorem ensures_times {decoder : Decoder α} (hensures : Ensures known decoder post)
    (count : Nat) :
    Ensures known (times count decoder) fun taken met values =>
      values.length = count ∧ InOrder post taken met values := by
  refine (ensures_timesOnto hensures count []).mono ?_
  rintro taken met values ⟨found, rfl, hlength, horder⟩
  exact ⟨hlength, horder⟩

/-- A count is followed by as many entries. -/
theorem ensures_counted {width bound : Nat} {counter : Decoder β} {toNat : β → Nat}
    {entry : Decoder α}
    (hcounter : Ensures known counter fun taken met count =>
      taken = bigEndian width (toNat count) ∧ met = [])
    (hbound : ∀ count, toNat count < bound) (hensures : Ensures known entry post) :
    Ensures known (counter >>= fun count => times (toNat count) entry) fun taken met values =>
      values.length < bound ∧ ∃ others, taken = bigEndian width values.length ++ others ∧
        InOrder post others met values := by
  refine hcounter.bind ?_
  rintro _ _ count ⟨rfl, rfl⟩
  refine (ensures_times hensures (toNat count)).mono ?_
  rintro others met values ⟨hlength, horder⟩
  rw [List.append_nil]
  exact ⟨hlength ▸ hbound count, others, by rw [hlength], horder⟩

theorem ensures_table {entry : Decoder α} (hensures : Ensures known entry post) :
    Ensures known (table entry) fun taken met values =>
      values.length < 65536 ∧ ∃ others, taken = bigEndian 2 values.length ++ others ∧
        InOrder post others met values :=
  ensures_counted ensures_u2 UInt16.toNat_lt hensures

theorem ensures_shortTable {entry : Decoder α} (hensures : Ensures known entry post) :
    Ensures known (shortTable entry) fun taken met values =>
      values.length < 256 ∧ ∃ others, taken = bigEndian 1 values.length ++ others ∧
        InOrder post others met values :=
  ensures_counted ensures_u1 UInt8.toNat_lt hensures

theorem ensures_deep {decoder : Nat → Decoder α}
    (hensures : ∀ depth, Ensures known (decoder depth) post) :
    Ensures known (deep decoder) post :=
  fun before => hensures (before.rest.length + 1) before

theorem ensures_located {decoder : Decoder α} (hensures : Ensures known decoder post) :
    Ensures known (located decoder) post := by
  intro before
  obtain ⟨taken, met, hmet, hresult⟩ := hensures before
  refine ⟨taken, met, hmet, ?_⟩
  simp only [located]
  split at hresult
  next hdecoder => simpa only [hdecoder] using hresult
  next hdecoder => simpa only [hdecoder] using hresult

end

/-! ## Decoders that meet nothing -/

/-- That nothing is met. -/
def Silent (decoder : Decoder α) : Prop :=
  ∀ known, Ensures known decoder fun _ met _ => met = []

namespace Silent

variable {α β : Type}

theorem pure (value : α) : Silent (Pure.pure value) :=
  fun _ => ensures_pure rfl

theorem throw (fault : Fault) : Silent (throw fault : Decoder α) :=
  fun _ => ensures_throw fault

theorem bind {decoder : Decoder α} {next : α → Decoder β} (hsilent : Silent decoder)
    (hnext : ∀ value, Silent (next value)) : Silent (decoder >>= next) := by
  intro _
  refine (hsilent _).bind ?_
  rintro taken _ value rfl
  refine (hnext value _).mono ?_
  rintro others _ answer rfl
  rfl

theorem ite {condition : Prop} [Decidable condition] {first second : Decoder α}
    (hfirst : Silent first) (hsecond : Silent second) :
    Silent (if condition then first else second) := by
  split
  · exact hfirst
  · exact hsecond

theorem run (fault : Fault) (length : Nat) : Silent (Decoder.run fault length) :=
  fun _ => (ensures_run fault length).mono fun _ _ _ hpost => hpost.2.2

theorem u1 : Silent Decoder.u1 :=
  fun _ => ensures_u1.mono fun _ _ _ hpost => hpost.2

theorem u2 : Silent Decoder.u2 :=
  fun _ => ensures_u2.mono fun _ _ _ hpost => hpost.2

theorem u4 : Silent Decoder.u4 :=
  fun _ => ensures_u4.mono fun _ _ _ hpost => hpost.2

theorem met_eq_nil {taken : List UInt8} {met : List String} {values : List α}
    (horder : InOrder (fun _ met _ => met = []) taken met values) : met = [] := by
  induction horder with
  | nil => rfl
  | cons hmet _ ih => rw [hmet, ih]; rfl

theorem times {entry : Decoder α} (hsilent : Silent entry) (count : Nat) :
    Silent (Decoder.times count entry) :=
  fun known => (ensures_times (hsilent known) count).mono fun _ _ _ hpost => met_eq_nil hpost.2

theorem table {entry : Decoder α} (hsilent : Silent entry) : Silent (Decoder.table entry) :=
  u2.bind fun count => hsilent.times count.toNat

theorem shortTable {entry : Decoder α} (hsilent : Silent entry) :
    Silent (Decoder.shortTable entry) :=
  u1.bind fun count => hsilent.times count.toNat

/-- Behind a silent decoder, what is met is what the next one meets. -/
theorem then_ensures {known : String → Prop} {decoder : Decoder α} {next : α → Decoder β}
    {post : List String → β → Prop} (hsilent : Silent decoder)
    (hnext : ∀ value, Ensures known (next value) fun _ met answer => post met answer) :
    Ensures known (decoder >>= next) fun _ met answer => post met answer := by
  refine (hsilent known).bind ?_
  rintro taken _ value rfl
  simpa using hnext value

end Silent

end Decoder

end ClassCensus
