import ClassCensus.Octets.Decoder

/-!
# What decoders read

A decoder reads octets as a value if, wherever these octets come next, it takes them and no more
and answers the value.  Numbers read what `bigEndian` writes, tables read what `writtenTable`
writes, and steps in a row read what their parts read in a row.

Octets that are only the first ones a decoder takes lead it to another decoder (`Leads`), which
takes what follows; so a row of steps can be followed up to where it ends or fails.
-/

namespace ClassCensus.Decoder

/-- Whether a decoder takes `octets`, whatever follows them, and answers `value`. -/
def Reads (decoder : Decoder α) (octets : List UInt8) (value : α) : Prop :=
  ∀ rest position met, ∃ more,
    decoder ⟨octets ++ rest, position, met⟩ =
      .ok value ⟨rest, position + octets.length, more ++ met⟩

theorem reads_pure (value : α) : Reads (pure value) [] value := fun rest position met =>
  ⟨[], by simp [pure, EStateM.pure]⟩

theorem Reads.bind {decoder : Decoder α} {first second : List UInt8} {value : α} {answer : β}
    (hreads : Reads decoder first value) (next : α → Decoder β)
    (hnext : Reads (next value) second answer) :
    Reads (decoder >>= next) (first ++ second) answer := by
  intro rest position met
  obtain ⟨more, hfound⟩ := hreads (second ++ rest) position met
  obtain ⟨others, hfoundNext⟩ := hnext rest (position + first.length) (more ++ met)
  refine ⟨others ++ more, ?_⟩
  simp [Bind.bind, EStateM.bind, hfound, hfoundNext, Nat.add_assoc]

theorem Reads.map {decoder : Decoder α} {octets : List UInt8} {value : α} (f : α → β)
    (hreads : Reads decoder octets value) :
    Reads (do return f (← decoder)) octets (f value) := by
  have hfound := hreads.bind (fun value => pure (f value)) (reads_pure (f value))
  rwa [List.append_nil] at hfound

theorem reads_run (fault : Fault) (octets : List UInt8) :
    Reads (run fault octets.length) octets octets := fun rest position met =>
  ⟨[], by simp [run]⟩

theorem reads_chunk (octets : List UInt8) : Reads (chunk octets.length) octets octets :=
  reads_run _ octets

theorem reads_number (width : Nat) {number : Nat} (hfits : number < capacity width) :
    Reads (Decoder.number width) (bigEndian width number) number := by
  have hreads := (reads_run .numberCutShort (bigEndian width number)).map ofBigEndian
  rwa [length_bigEndian, ofBigEndian_bigEndian, Nat.mod_eq_of_lt hfits] at hreads

theorem reads_u1 (value : UInt8) : Reads u1 (bigEndian 1 value.toNat) value := by
  have hreads := (reads_number 1 (by simpa [capacity] using value.toNat_lt)).map UInt8.ofNat
  rwa [UInt8.ofNat_toNat] at hreads

theorem reads_u2 (value : UInt16) : Reads u2 (bigEndian 2 value.toNat) value := by
  have hreads := (reads_number 2 (by simpa [capacity] using value.toNat_lt)).map UInt16.ofNat
  rwa [UInt16.ofNat_toNat] at hreads

theorem reads_u4 (value : UInt32) : Reads u4 (bigEndian 4 value.toNat) value := by
  have hreads := (reads_number 4 (by simpa [capacity] using value.toNat_lt)).map UInt32.ofNat
  rwa [UInt32.ofNat_toNat] at hreads

theorem reads_u8 (value : UInt64) : Reads u8 (bigEndian 8 value.toNat) value := by
  have hreads := (reads_number 8 (by simpa [capacity] using value.toNat_lt)).map UInt64.ofNat
  rwa [UInt64.ofNat_toNat] at hreads

theorem reads_meet (descriptor : String) : Reads (meet descriptor) [] () :=
  fun _ _ _ => ⟨[descriptor], rfl⟩

theorem Reads.located {decoder : Decoder α} {octets : List UInt8} {value : α}
    (hreads : Reads decoder octets value) : Reads (located decoder) octets value := by
  intro rest position met
  obtain ⟨more, hfound⟩ := hreads rest position met
  exact ⟨more, by simp only [Decoder.located, hfound]⟩

/-- Whether a decoder takes `octets`, whatever follows them, and goes on as `next`. -/
def Leads (decoder : Decoder α) (octets : List UInt8) (next : Decoder α) : Prop :=
  ∀ rest position met, ∃ more,
    decoder ⟨octets ++ rest, position, met⟩ =
      next ⟨rest, position + octets.length, more ++ met⟩

theorem Leads.refl (decoder : Decoder α) : Leads decoder [] decoder :=
  fun _ _ _ => ⟨[], rfl⟩

theorem Leads.trans {decoder next last : Decoder α} {first second : List UInt8}
    (hleads : Leads decoder first next) (hleadsOn : Leads next second last) :
    Leads decoder (first ++ second) last := by
  intro rest position met
  obtain ⟨more, hfound⟩ := hleads (second ++ rest) position met
  obtain ⟨others, hfoundNext⟩ := hleadsOn rest (position + first.length) (more ++ met)
  refine ⟨others ++ more, ?_⟩
  rw [List.append_assoc, hfound, hfoundNext, List.length_append, Nat.add_assoc, List.append_assoc]

theorem Reads.leads {decoder : Decoder α} {octets : List UInt8} {value : α}
    (hreads : Reads decoder octets value) (next : α → Decoder β) :
    Leads (decoder >>= next) octets (next value) := by
  intro rest position met
  obtain ⟨more, hfound⟩ := hreads rest position met
  exact ⟨more, by simp only [Bind.bind, EStateM.bind, hfound]⟩

theorem Leads.bind {decoder next : Decoder α} {octets : List UInt8}
    (hleads : Leads decoder octets next) (last : α → Decoder β) :
    Leads (decoder >>= last) octets (next >>= last) := by
  intro rest position met
  obtain ⟨more, hfound⟩ := hleads rest position met
  exact ⟨more, by simp only [Bind.bind, EStateM.bind, hfound]⟩

/-- Nothing comes behind a fault. -/
theorem Leads.bind_throw {decoder : Decoder α} {octets : List UInt8} {fault : Fault}
    (hleads : Leads decoder octets (throw fault)) (last : α → Decoder β) :
    Leads (decoder >>= last) octets (throw fault) :=
  hleads.bind last

theorem Leads.reads {decoder next : Decoder α} {first second : List UInt8} {value : α}
    (hleads : Leads decoder first next) (hreads : Reads next second value) :
    Reads decoder (first ++ second) value := by
  intro rest position met
  obtain ⟨more, hfound⟩ := hleads (second ++ rest) position met
  obtain ⟨others, hfoundNext⟩ := hreads rest (position + first.length) (more ++ met)
  refine ⟨others ++ more, ?_⟩
  rw [List.append_assoc, hfound, hfoundNext, List.length_append, Nat.add_assoc, List.append_assoc]

/-- Entries lead a decoder that is run more often to the runs that are left. -/
theorem leads_timesOnto {decoder : Decoder α} {write : β → List UInt8} {mean : β → α}
    {entries : List β} (hreads : ∀ entry ∈ entries, Reads decoder (write entry) (mean entry))
    (more : Nat) (before : List α) :
    Leads (timesOnto decoder (entries.length + more) before) (entries.flatMap write)
      (timesOnto decoder more ((entries.map mean).reverse ++ before)) := by
  induction entries generalizing before with
  | nil =>
    rw [List.length_nil, Nat.zero_add]
    exact .refl _
  | cons entry entries ih =>
    have hfirst := hreads entry (by simp)
    have hleadsOn :=
      ih (fun other hmember => hreads other (by simp [hmember])) (mean entry :: before)
    have hfront : (List.map mean (entry :: entries)).reverse ++ before =
        (entries.map mean).reverse ++ mean entry :: before := by simp
    rw [hfront, List.length_cons, Nat.add_right_comm]
    exact (hfirst.leads fun value =>
      timesOnto decoder (entries.length + more) (value :: before)).trans hleadsOn

theorem reads_times {decoder : Decoder α} {write : β → List UInt8} {mean : β → α}
    {entries : List β} (hreads : ∀ entry ∈ entries, Reads decoder (write entry) (mean entry)) :
    Reads (times entries.length decoder) (entries.flatMap write) (entries.map mean) := by
  have hfound := (leads_timesOnto hreads 0 []).reads (reads_pure _)
  simpa [times] using hfound

/-- A count is read with as many entries. -/
theorem reads_counted {counter : Decoder γ} {toNat : γ → Nat} {octets : List UInt8} {count : γ}
    {entry : Decoder α} {write : β → List UInt8} {mean : β → α} {entries : List β}
    (hreadsCount : Reads counter octets count) (hcounts : toNat count = entries.length)
    (hreads : ∀ found ∈ entries, Reads entry (write found) (mean found)) :
    Reads (counter >>= fun count => times (toNat count) entry) (octets ++ entries.flatMap write)
      (entries.map mean) := by
  refine hreadsCount.bind _ ?_
  rw [hcounts]
  exact reads_times hreads

theorem reads_table {decoder : Decoder α} {write : β → List UInt8} {mean : β → α}
    {entries : List β} (hfits : entries.length < 65536)
    (hreads : ∀ entry ∈ entries, Reads decoder (write entry) (mean entry)) :
    Reads (table decoder) (writtenTable write entries) (entries.map mean) := by
  have hcount : (UInt16.ofNat entries.length).toNat = entries.length := by
    simpa using Nat.mod_eq_of_lt hfits
  have hreadsCount := reads_u2 (UInt16.ofNat entries.length)
  rw [hcount] at hreadsCount
  exact reads_counted hreadsCount hcount hreads

theorem reads_shortTable {decoder : Decoder α} {write : β → List UInt8} {mean : β → α}
    {entries : List β} (hfits : entries.length < 256)
    (hreads : ∀ entry ∈ entries, Reads decoder (write entry) (mean entry)) :
    Reads (shortTable decoder) (bigEndian 1 entries.length ++ entries.flatMap write)
      (entries.map mean) := by
  have hcount : (UInt8.ofNat entries.length).toNat = entries.length := by
    simpa using Nat.mod_eq_of_lt hfits
  have hreadsCount := reads_u1 (UInt8.ofNat entries.length)
  rw [hcount] at hreadsCount
  exact reads_counted hreadsCount hcount hreads

/-- Behind fewer entries than are counted, what no entry starts with is refused. -/
theorem leads_times_throw {entry : Decoder α} {write : β → List UInt8} {mean : β → α}
    {entries : List β} {count : Nat} {octets : List UInt8} {fault : Fault}
    (hreads : ∀ found ∈ entries, Reads entry (write found) (mean found))
    (hless : entries.length < count) (hleads : Leads entry octets (throw fault)) :
    Leads (times count entry) (entries.flatMap write ++ octets) (throw fault) := by
  obtain ⟨more, rfl⟩ : ∃ more, count = entries.length + (more + 1) :=
    ⟨count - entries.length - 1, by omega⟩
  exact (leads_timesOnto hreads (more + 1) []).trans (hleads.bind_throw _)

theorem leads_table_throw {entry : Decoder α} {write : β → List UInt8} {mean : β → α}
    {entries : List β} {count : UInt16} {octets : List UInt8} {fault : Fault}
    (hreads : ∀ found ∈ entries, Reads entry (write found) (mean found))
    (hless : entries.length < count.toNat) (hleads : Leads entry octets (throw fault)) :
    Leads (table entry) (bigEndian 2 count.toNat ++ (entries.flatMap write ++ octets))
      (throw fault) :=
  ((reads_u2 count).leads _).trans (leads_times_throw hreads hless hleads)

theorem leads_shortTable_throw {entry : Decoder α} {write : β → List UInt8} {mean : β → α}
    {entries : List β} {count : UInt8} {octets : List UInt8} {fault : Fault}
    (hreads : ∀ found ∈ entries, Reads entry (write found) (mean found))
    (hless : entries.length < count.toNat) (hleads : Leads entry octets (throw fault)) :
    Leads (shortTable entry) (bigEndian 1 count.toNat ++ (entries.flatMap write ++ octets))
      (throw fault) :=
  ((reads_u1 count).leads _).trans (leads_times_throw hreads hless hleads)

/-- The depth that is handed to a decoder exceeds the number of octets that it takes. -/
theorem leads_deep {decoder : Nat → Decoder α} {octets : List UInt8} {next : Decoder α}
    (hleads : ∀ depth, octets.length < depth → Leads (decoder depth) octets next) :
    Leads (deep decoder) octets next := by
  intro rest position met
  have henough : octets.length < (octets ++ rest).length + 1 := by
    rw [List.length_append]
    omega
  exact hleads _ henough rest position met

theorem reads_deep {decoder : Nat → Decoder α} {octets : List UInt8} {value : α}
    (hreads : ∀ depth, octets.length < depth → Reads (decoder depth) octets value) :
    Reads (deep decoder) octets value := by
  intro rest position met
  have henough : octets.length < (octets ++ rest).length + 1 := by
    rw [List.length_append]
    omega
  exact hreads _ henough rest position met

end ClassCensus.Decoder
