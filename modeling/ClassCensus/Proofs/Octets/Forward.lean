import ClassCensus.Proofs.Octets.Ensures

/-!
# Decoders that never look ahead

The octets that a decoder takes settle its answer: it gives the same answer whatever follows them,
and on any part of them it runs short of octets.  A decoder that fails either runs short, having
taken all octets, or refuses what it has taken so far.  `Forward` says all of this, and names what
may be refused.  Like `Ensures` it comes with one rule for each way to put decoders together.
-/

namespace ClassCensus

/-- Whether a fault says that octets are missing. -/
def Fault.IsShort : Fault → Prop
  | numberCutShort | runCutShort => True
  | _ => False

theorem Fault.IsShort.atOffset {fault : Fault} (hshort : fault.IsShort) (offset : Nat) :
    fault.atOffset offset = .truncated offset := by
  cases fault with
  | numberCutShort | runCutShort => rfl
  | _ => exact hshort.elim

namespace Decoder

variable {α β : Type}

/-! ## Octets that settle an answer -/

/-- That a decoder takes all of the octets, wherever they start, and asks for more. -/
def RunsShort (decoder : Decoder α) (octets : List UInt8) : Prop :=
  ∀ position met, ∃ fault more, fault.IsShort ∧
    decoder ⟨octets, position, met⟩ =
      .error fault ⟨[], position + octets.length, more ++ met⟩

/-- That octets settle what a decoder answers and meets, and that no part of them does. -/
structure Settles (decoder : Decoder α) (octets : List UInt8) (met : List String) (value : α) :
    Prop where
  whole : ∀ rest position before, decoder ⟨octets ++ rest, position, before⟩ =
    .ok value ⟨rest, position + octets.length, met ++ before⟩
  part : ∀ front others, octets = front ++ others → others ≠ [] → decoder.RunsShort front

section

variable {decoder : Decoder α} {octets : List UInt8} {met : List String} {value : α}

theorem RunsShort.bind (hshort : decoder.RunsShort octets) (next : α → Decoder β) :
    (decoder >>= next).RunsShort octets := by
  intro position before
  obtain ⟨fault, more, hfault, hstop⟩ := hshort position before
  exact ⟨fault, more, hfault, by simp only [Bind.bind, EStateM.bind, hstop]⟩

theorem Settles.bind_runsShort (hsettles : Settles decoder octets met value)
    {next : α → Decoder β} {others : List UInt8} (hshort : (next value).RunsShort others) :
    (decoder >>= next).RunsShort (octets ++ others) := by
  intro position before
  obtain ⟨fault, more, hfault, hstop⟩ := hshort (position + octets.length) (met ++ before)
  refine ⟨fault, more ++ met, hfault, ?_⟩
  simp only [Bind.bind, EStateM.bind, hsettles.whole, hstop]
  rw [List.length_append, Nat.add_assoc, List.append_assoc]

theorem settles_pure (value : α) : Settles (pure value) [] [] value where
  whole := by
    intro rest position before
    rfl
  part := by
    intro front others hsplit hothers
    exact absurd (List.append_eq_nil_iff.mp hsplit.symm).2 hothers

theorem Settles.bind (hsettles : Settles decoder octets met value) {next : α → Decoder β}
    {others : List UInt8} {more : List String} {answer : β}
    (hnext : Settles (next value) others more answer) :
    Settles (decoder >>= next) (octets ++ others) (more ++ met) answer where
  whole := by
    intro rest position before
    simp only [Bind.bind, EStateM.bind, List.append_assoc, hsettles.whole, hnext.whole]
    rw [List.length_append, Nat.add_assoc]
  part := by
    intro front cut hsplit hcut
    -- The cut lies behind what the first decoder takes, or in it.
    rcases List.append_eq_append_iff.mp hsplit with ⟨start, rfl, hothers⟩ | ⟨stop, rfl, rfl⟩
    · exact hsettles.bind_runsShort (hnext.part start cut hothers hcut)
    · by_cases hstop : stop = []
      · subst hstop
        rw [List.append_nil] at hsettles
        rw [← List.append_nil front]
        exact hsettles.bind_runsShort (hnext.part [] others rfl hcut)
      · exact (hsettles.part front stop rfl hstop).bind next

/-- What a decoder ensures holds of the octets that settle its answer. -/
theorem Settles.ensured (hsettles : Settles decoder octets met value)
    {post : List UInt8 → List String → α → Prop}
    (hensures : Ensures (fun _ => True) decoder post) : post octets met value := by
  obtain ⟨taken, found, -, hpasses, hpost⟩ := hensures.ok (hsettles.whole [] 0 [])
  have htaken : taken = octets := by simpa using hpasses.rest.symm
  have hmet : found = met := by simpa using hpasses.met.symm
  rwa [htaken, hmet] at hpost

end

/-! ## Forward decoders -/

/-- That what a decoder takes settles its answer, and that it fails only where the octets end or
with a fault that is refused behind what it has taken. -/
def Forward (refused : List UInt8 → Fault → Prop) (decoder : Decoder α) : Prop :=
  ∀ before, ∃ taken met,
    match decoder before with
    | .ok value after => before.Passes after taken met ∧ Settles decoder taken met value
    | .error fault after => before.Passes after taken met ∧
      ((fault.IsShort ∧ after.rest = []) ∨ refused taken fault)

/-- That a decoder is forward and fails only where the octets end. -/
abbrev Plain (decoder : Decoder α) : Prop := Forward (fun _ _ => False) decoder

/-- That what a decoder takes settles its answer, whatever it refuses. -/
abbrev Settling (decoder : Decoder α) : Prop := Forward (fun _ _ => True) decoder

section

variable {refused : List UInt8 → Fault → Prop}

theorem Forward.ok {decoder : Decoder α} (hforward : Forward refused decoder)
    {before after : Cursor} {value : α} (hok : decoder before = .ok value after) :
    ∃ taken met, before.Passes after taken met ∧ Settles decoder taken met value := by
  obtain ⟨taken, met, hresult⟩ := hforward before
  rw [hok] at hresult
  exact ⟨taken, met, hresult⟩

theorem Forward.error {decoder : Decoder α} (hforward : Forward refused decoder)
    {before after : Cursor} {fault : Fault} (herror : decoder before = .error fault after) :
    ∃ taken met, before.Passes after taken met ∧
      ((fault.IsShort ∧ after.rest = []) ∨ refused taken fault) := by
  obtain ⟨taken, met, hresult⟩ := hforward before
  rw [herror] at hresult
  exact ⟨taken, met, hresult⟩

theorem Forward.mono {decoder : Decoder α} {allowed : List UInt8 → Fault → Prop}
    (hforward : Forward refused decoder)
    (hallowed : ∀ taken fault, refused taken fault → allowed taken fault) :
    Forward allowed decoder := by
  intro before
  obtain ⟨taken, met, hresult⟩ := hforward before
  refine ⟨taken, met, ?_⟩
  split at hresult
  · exact hresult
  · exact ⟨hresult.1, hresult.2.imp id (hallowed _ _)⟩

theorem Plain.forward {decoder : Decoder α} (hplain : Plain decoder) : Forward refused decoder :=
  hplain.mono fun _ _ => False.elim

theorem forward_pure (value : α) : Forward refused (pure value) :=
  fun before => ⟨[], [], .refl before, settles_pure value⟩

theorem forward_throw {fault : Fault} (hrefused : refused [] fault) :
    Forward refused (throw fault : Decoder α) :=
  fun before => ⟨[], [], .refl before, .inr hrefused⟩

/-- What follows a decoder is judged by the octets that settle its answer. -/
theorem Forward.bind {decoder : Decoder α} {next : α → Decoder β}
    (hforward : Forward refused decoder)
    (hnext : ∀ taken met value, Settles decoder taken met value →
      Forward (fun others fault => refused (taken ++ others) fault) (next value)) :
    Forward refused (decoder >>= next) := by
  intro before
  obtain ⟨taken, met, hresult⟩ := hforward before
  cases hdecoder : decoder before with
  | error fault after =>
      rw [hdecoder] at hresult
      exact ⟨taken, met, by simpa only [Bind.bind, EStateM.bind, hdecoder] using hresult⟩
  | ok value middle =>
      rw [hdecoder] at hresult
      obtain ⟨hpasses, hsettles⟩ := hresult
      obtain ⟨others, more, hlast⟩ := hnext taken met value hsettles middle
      refine ⟨taken ++ others, more ++ met, ?_⟩
      have hboth : (decoder >>= next) before = next value middle := by
        simp only [Bind.bind, EStateM.bind, hdecoder]
      rw [hboth]
      split at hlast
      · exact ⟨hpasses.trans hlast.1, hsettles.bind hlast.2⟩
      · exact ⟨hpasses.trans hlast.1, hlast.2⟩

theorem Plain.bind {decoder : Decoder α} {next : α → Decoder β} (hplain : Plain decoder)
    (hnext : ∀ value, Plain (next value)) : Plain (decoder >>= next) :=
  Forward.bind hplain fun _ _ value _ => hnext value

theorem Plain.map {decoder : Decoder α} (hplain : Plain decoder) (f : α → β) :
    Plain (do return f (← decoder)) :=
  hplain.bind fun value => forward_pure (f value)

theorem Settling.bind {decoder : Decoder α} {next : α → Decoder β} (hsettling : Settling decoder)
    (hnext : ∀ value, Settling (next value)) : Settling (decoder >>= next) :=
  Forward.bind hsettling fun _ _ value _ => hnext value

theorem Settling.map {decoder : Decoder α} (hsettling : Settling decoder) (f : α → β) :
    Settling (do return f (← decoder)) :=
  hsettling.bind fun value => forward_pure (f value)

theorem Forward.ite {condition : Prop} [Decidable condition] {first second : Decoder α}
    (hfirst : Forward refused first) (hsecond : Forward refused second) :
    Forward refused (if condition then first else second) := by
  by_cases hcondition : condition
  · rwa [if_pos hcondition]
  · rwa [if_neg hcondition]

theorem run_of_length_le {fault : Fault} {length : Nat} {before : Cursor}
    (hlength : length ≤ before.rest.length) :
    run fault length before =
      .ok (before.rest.take length)
        ⟨before.rest.drop length, before.position + length, before.met⟩ := by
  have htaken : (before.rest.take length).length = length := List.length_take_of_le hlength
  simp only [run, htaken, if_true]

theorem run_of_length_lt {fault : Fault} {length : Nat} {before : Cursor}
    (hlength : before.rest.length < length) :
    run fault length before =
      .error fault ⟨[], before.position + before.rest.length, before.met⟩ := by
  have hless : before.rest.length ≤ length := Nat.le_of_lt hlength
  simp only [run, List.take_of_length_le hless, List.drop_of_length_le hless,
    Nat.ne_of_lt hlength, if_false]

theorem settles_run {fault : Fault} (hshort : fault.IsShort) (octets : List UInt8) :
    Settles (run fault octets.length) octets [] octets where
  whole := by
    intro rest position before
    simp [run]
  part := by
    intro front others hsplit hothers position before
    have hless : front.length < octets.length := by
      have hpos := List.length_pos_iff.mpr hothers
      rw [hsplit, List.length_append]
      omega
    exact ⟨fault, [], hshort, run_of_length_lt hless⟩

theorem plain_run (fault : Fault) (hshort : fault.IsShort) (length : Nat) :
    Plain (run fault length) := by
  intro before
  by_cases hlength : length ≤ before.rest.length
  · have htaken : (before.rest.take length).length = length := List.length_take_of_le hlength
    have hsettles := settles_run hshort (before.rest.take length)
    rw [htaken] at hsettles
    refine ⟨before.rest.take length, [], ?_⟩
    rw [run_of_length_le hlength]
    exact ⟨⟨(List.take_append_drop length before.rest).symm, by rw [htaken], rfl⟩, hsettles⟩
  · refine ⟨before.rest, [], ?_⟩
    rw [run_of_length_lt (Nat.lt_of_not_le hlength)]
    exact ⟨⟨by simp, rfl, rfl⟩, .inl ⟨hshort, rfl⟩⟩

theorem plain_number (width : Nat) : Plain (number width) :=
  (plain_run .numberCutShort trivial width).map _

theorem plain_u1 : Plain u1 :=
  (plain_number 1).map _

theorem plain_u2 : Plain u2 :=
  (plain_number 2).map _

theorem plain_u4 : Plain u4 :=
  (plain_number 4).map _

theorem plain_u8 : Plain u8 :=
  (plain_number 8).map _

theorem plain_chunk (length : Nat) : Plain (chunk length) :=
  plain_run .runCutShort trivial length

section

variable {entry : Decoder α} (hforward : Forward refused entry)
variable (hrefused : ∀ front taken fault, refused taken fault → refused (front ++ taken) fault)

include hforward hrefused

/-- What an entry refuses is refused behind other entries. -/
theorem forward_timesOnto (count : Nat) (before : List α) :
    Forward refused (timesOnto entry count before) := by
  induction count generalizing before with
  | zero => exact forward_pure _
  | succ count ih =>
      refine hforward.bind fun taken met value _ => ?_
      exact (ih (value :: before)).mono fun others fault => hrefused taken others fault

theorem forward_table : Forward refused (table entry) := by
  refine plain_u2.forward.bind fun taken met count _ => ?_
  exact (forward_timesOnto hforward hrefused count.toNat []).mono (hrefused taken)

theorem forward_shortTable : Forward refused (shortTable entry) := by
  refine plain_u1.forward.bind fun taken met count _ => ?_
  exact (forward_timesOnto hforward hrefused count.toNat []).mono (hrefused taken)

end

theorem plain_table {entry : Decoder α} (hplain : Plain entry) : Plain (table entry) :=
  forward_table hplain fun _ _ _ => id

theorem plain_shortTable {entry : Decoder α} (hplain : Plain entry) : Plain (shortTable entry) :=
  forward_shortTable hplain fun _ _ _ => id

theorem Settling.table {entry : Decoder α} (hsettling : Settling entry) :
    Settling (Decoder.table entry) :=
  forward_table hsettling fun _ _ _ => id

theorem Settling.shortTable {entry : Decoder α} (hsettling : Settling entry) :
    Settling (Decoder.shortTable entry) :=
  forward_shortTable hsettling fun _ _ _ => id

/-- Descriptors may be met at any place. -/
theorem plain_meetAll (met : List String) :
    Plain (modify fun cursor => { cursor with met := met ++ cursor.met } : Decoder Unit) := by
  intro before
  refine ⟨[], met, ⟨rfl, rfl, rfl⟩, ?_, ?_⟩
  · intro rest position before
    rfl
  · intro front others hsplit hothers
    exact absurd (List.append_eq_nil_iff.mp hsplit.symm).2 hothers

end

/-! ## Decoders of the whole input -/

section

variable {decoder : Decoder α} {octets : List UInt8} {met : List String} {value : α}
variable {refused : List UInt8 → Fault → Prop}

theorem located_eq_ok_iff {before after : Cursor} :
    located decoder before = .ok value after ↔ decoder before = .ok value after := by
  rw [located]
  cases decoder before <;> simp

theorem located_of_error {before after : Cursor} {fault : Fault}
    (herror : decoder before = .error fault after) :
    located decoder before = .error (fault.atOffset after.position) after := by
  rw [located, herror]

theorem Settles.located_whole (hsettles : Settles decoder octets met value) (rest : List UInt8)
    (position : Nat) (before : List String) :
    located decoder ⟨octets ++ rest, position, before⟩ =
      .ok value ⟨rest, position + octets.length, met ++ before⟩ :=
  located_eq_ok_iff.mpr (hsettles.whole rest position before)

theorem Settles.located_part (hsettles : Settles decoder octets met value)
    {front others : List UInt8} (hsplit : octets = front ++ others) (hothers : others ≠ [])
    (position : Nat) (before : List String) :
    ∃ more, located decoder ⟨front, position, before⟩ =
      .error (.truncated (position + front.length))
        ⟨[], position + front.length, more ++ before⟩ := by
  obtain ⟨fault, more, hshort, hstop⟩ := hsettles.part front others hsplit hothers position before
  exact ⟨more, by rw [located_of_error hstop, hshort.atOffset]⟩

theorem Forward.located_ok (hforward : Forward refused decoder) {before after : Cursor}
    (hok : located decoder before = .ok value after) :
    ∃ taken met, before.Passes after taken met ∧ Settles decoder taken met value :=
  hforward.ok (located_eq_ok_iff.mp hok)

/-- A decoder of the whole input fails at its end, or with a fault that is refused. -/
theorem Forward.located_error (hforward : Forward refused decoder) {before after : Cursor}
    {fault : Fault} (herror : located decoder before = .error fault after) :
    ∃ taken met, before.Passes after taken met ∧
      ((fault = .truncated after.position ∧ after.rest = []) ∨
        ∃ cause, refused taken cause ∧ fault = cause.atOffset after.position) := by
  rw [located] at herror
  split at herror
  next => cases herror
  next cause stop hcause =>
    cases herror
    obtain ⟨taken, met, hpasses, ⟨hshort, hrest⟩ | hrefused⟩ := hforward.error hcause
    · exact ⟨taken, met, hpasses, .inl ⟨hshort.atOffset after.position, hrest⟩⟩
    · exact ⟨taken, met, hpasses, .inr ⟨cause, hrefused, rfl⟩⟩

end

end Decoder

/-- What is behind a position lies as far from the start as before. -/
theorem Cursor.Passes.stop_eq {before after : Cursor} {taken : List UInt8} {met : List String}
    (hpasses : before.Passes after taken met) :
    after.position + after.rest.length = before.position + before.rest.length := by
  rw [hpasses.position, hpasses.rest, List.length_append, Nat.add_assoc]

end ClassCensus
