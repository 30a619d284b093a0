import ClassCensus.Proofs.Text.Hex
import ClassCensus.Specification.Versions

/-!
# Looking up compiler versions

The code of a header spells each of its three numbers in a width of its own, so no two headers have
the same code, and a row answers for one header at most.  Putting a row into a table changes what is
under its code only; so of the rows for a header the last one counts, and all others make no
difference.
-/

namespace ClassCensus

variable {magic otherMagic : UInt32} {minor major otherMinor otherMajor : UInt16}

/-! ## Codes of headers -/

theorem toList_headerCode (magic : UInt32) (minor major : UInt16) :
    (headerCode magic minor major).toList =
      Hex.paddedDigits 8 magic.toNat ++ Hex.paddedDigits 4 minor.toNat ++
        Hex.paddedDigits 4 major.toNat := by
  simp [headerCode, Hex.padded]

/-- Each number is written in the shortest way, with zeros in front up to its width. -/
theorem toList_headerCode_eq_leftpad (magic : UInt32) (minor major : UInt16) :
    (headerCode magic minor major).toList =
      (Nat.toDigits 16 magic.toNat).leftpad 8 '0' ++ (Nat.toDigits 16 minor.toNat).leftpad 4 '0' ++
        (Nat.toDigits 16 major.toNat).leftpad 4 '0' := by
  rw [toList_headerCode, Hex.paddedDigits_eq_leftpad magic.toNat_lt,
    Hex.paddedDigits_eq_leftpad minor.toNat_lt, Hex.paddedDigits_eq_leftpad major.toNat_lt]

/-- No two headers have the same code. -/
theorem eq_of_headerCode_eq
    (hcode : headerCode magic minor major = headerCode otherMagic otherMinor otherMajor) :
    magic = otherMagic ∧ minor = otherMinor ∧ major = otherMajor := by
  have hdigits := congrArg String.toList hcode
  rw [toList_headerCode, toList_headerCode] at hdigits
  obtain ⟨hfront, hmajor⟩ := List.append_inj hdigits (by simp)
  obtain ⟨hmagic, hminor⟩ := List.append_inj hfront (by simp)
  exact ⟨UInt32.toNat_inj.mp (Hex.eq_of_paddedDigits_eq magic.toNat_lt otherMagic.toNat_lt hmagic),
    UInt16.toNat_inj.mp (Hex.eq_of_paddedDigits_eq minor.toNat_lt otherMinor.toNat_lt hminor),
    UInt16.toNat_inj.mp (Hex.eq_of_paddedDigits_eq major.toNat_lt otherMajor.toNat_lt hmajor)⟩

/-- The code of a header is in lower case. -/
theorem lowerAscii_headerCode (magic : UInt32) (minor major : UInt16) :
    lowerAscii (headerCode magic minor major) = headerCode magic minor major := by
  apply String.toList_inj.mp
  rw [lowerAscii, String.toList_map, toList_headerCode, List.map_append, List.map_append,
    Hex.map_toLower_paddedDigits, Hex.map_toLower_paddedDigits, Hex.map_toLower_paddedDigits]

/-! ## Rows -/

/-- Whether a row is for a header: it has the code of the header, in letters of either case. -/
def VersionRow.IsFor (row : VersionRow) (magic : UInt32) (minor major : UInt16) : Prop :=
  lowerAscii row.code = headerCode magic minor major

namespace VersionTable

variable {front back rows : List VersionRow} {row : VersionRow} {code : String}

theorem getElem?_putRows_of_forall_ne {versions : Std.TreeMap String String}
    (hrows : ∀ row ∈ rows, lowerAscii row.code ≠ code) :
    (putRows versions rows)[code]? = versions[code]? := by
  induction rows generalizing versions with
  | nil => rfl
  | cons row rows ih =>
      obtain ⟨hrow, hrows⟩ := List.forall_mem_cons.mp hrows
      rw [putRows, List.foldl_cons, ← putRows, ih hrows, Std.TreeMap.getElem?_insert, if_neg]
      rwa [Std.LawfulEqOrd.compare_eq_iff_eq]

theorem putRows_append_cons (versions : Std.TreeMap String String) :
    putRows versions (front ++ row :: back) =
      putRows ((putRows versions front).insert (lowerAscii row.code) row.version) back := by
  simp only [putRows, List.foldl_append, List.foldl_cons]

/-- What is found under a code depends on what is under it before rows are put there. -/
theorem getElem?_putRows_congr {first second : Std.TreeMap String String}
    (hsame : first[code]? = second[code]?) :
    (putRows first rows)[code]? = (putRows second rows)[code]? := by
  induction rows generalizing first second with
  | nil => exact hsame
  | cons row rows ih =>
      apply ih
      rw [Std.TreeMap.getElem?_insert, Std.TreeMap.getElem?_insert, hsame]

/-- The last row with a code is what is found under it. -/
theorem getElem?_putRows_of_last {versions : Std.TreeMap String String}
    (hrow : lowerAscii row.code = code) (hback : ∀ later ∈ back, lowerAscii later.code ≠ code) :
    (putRows versions (front ++ row :: back))[code]? = some row.version := by
  rw [putRows_append_cons, getElem?_putRows_of_forall_ne hback, hrow,
    Std.TreeMap.getElem?_insert_self]

/-- A row with another code can be left out. -/
theorem getElem?_putRows_of_ne {versions : Std.TreeMap String String}
    (hrow : lowerAscii row.code ≠ code) :
    (putRows versions (front ++ row :: back))[code]? =
      (putRows versions (front ++ back))[code]? := by
  have happend : putRows versions (front ++ back) = putRows (putRows versions front) back :=
    List.foldl_append
  rw [putRows_append_cons, happend]
  apply getElem?_putRows_congr
  rw [Std.TreeMap.getElem?_insert, if_neg]
  rwa [Std.LawfulEqOrd.compare_eq_iff_eq]

/-- A header has the version of the last row for it, and the unknown version if there is no row for
it.  The code that makes a row one for a header is that of no other header, so a row with the code
of another header, in letters of either case, can be left out. -/
theorem lookup_ofRows_exact (rows : List VersionRow) (magic : UInt32) (minor major : UInt16) :
    (headerCode magic minor major).toList =
      (Nat.toDigits 16 magic.toNat).leftpad 8 '0' ++ (Nat.toDigits 16 minor.toNat).leftpad 4 '0' ++
        (Nat.toDigits 16 major.toNat).leftpad 4 '0' ∧
    (∀ front row back, rows = front ++ row :: back → row.IsFor magic minor major →
      (∀ later ∈ back, ¬ later.IsFor magic minor major) →
        (ofRows rows).lookup magic minor major = row.version) ∧
    ((∀ row ∈ rows, ¬ row.IsFor magic minor major) →
      (ofRows rows).lookup magic minor major = "unknown") ∧
    ∀ otherMagic otherMinor otherMajor,
      (otherMagic, otherMinor, otherMajor) ≠ (magic, minor, major) →
      headerCode otherMagic otherMinor otherMajor ≠ headerCode magic minor major ∧
      ∀ front row back, rows = front ++ row :: back →
        lowerAscii row.code = lowerAscii (headerCode otherMagic otherMinor otherMajor) →
          (ofRows rows).lookup magic minor major =
            (ofRows (front ++ back)).lookup magic minor major := by
  refine ⟨toList_headerCode_eq_leftpad magic minor major, ?_, ?_, ?_⟩
  · rintro front row back rfl hrow hback
    rw [lookup, ofRows, getElem?_putRows_of_last hrow hback, Option.getD_some]
  · intro hrows
    rw [lookup, ofRows, getElem?_putRows_of_forall_ne hrows, Std.TreeMap.getElem?_emptyc]
    rfl
  · intro otherMagic otherMinor otherMajor hother
    have hcode : headerCode otherMagic otherMinor otherMajor ≠ headerCode magic minor major := by
      intro hsame
      obtain ⟨rfl, rfl, rfl⟩ := eq_of_headerCode_eq hsame
      exact hother rfl
    refine ⟨hcode, ?_⟩
    rintro front row back rfl hrow
    rw [lowerAscii_headerCode] at hrow
    rw [lookup, lookup, ofRows, ofRows, getElem?_putRows_of_ne (hrow ▸ hcode)]

/-- Two rows for one header in different letters, and one for the header with the last two numbers
exchanged. -/
def mixedRows : List VersionRow :=
  [⟨"CAFEBABE00000034", "1.8"⟩, ⟨"cafebabe00000034", "Java 8"⟩, ⟨"CafeBabe00340000", "other"⟩]

/-- The second row counts, and the third does not. -/
theorem lookup_ofRows_exact_mixedRows :
    (ofRows mixedRows).lookup 0xCAFEBABE 0 52 = "Java 8" ∧
    (ofRows mixedRows).lookup 0xCAFEBABE 0 53 = "unknown" ∧
    (ofRows mixedRows).lookup 0xCAFEBABE 0 52 =
      (ofRows (mixedRows.take 2)).lookup 0xCAFEBABE 0 52 := by
  have hfirst : lowerAscii "CAFEBABE00000034" = "cafebabe00000034" := by decide +kernel
  have hsecond : lowerAscii "cafebabe00000034" = "cafebabe00000034" := by decide +kernel
  have hthird : lowerAscii "CafeBabe00340000" = "cafebabe00340000" := by decide +kernel
  have hcode : headerCode 0xCAFEBABE 0 52 = "cafebabe00000034" := by decide +kernel
  have hswapped : headerCode 0xCAFEBABE 52 0 = "cafebabe00340000" := by decide +kernel
  have hbehind : headerCode 0xCAFEBABE 0 53 = "cafebabe00000035" := by decide +kernel
  obtain ⟨-, hlast, -, hothers⟩ := lookup_ofRows_exact mixedRows 0xCAFEBABE 0 52
  obtain ⟨-, -, hnone, -⟩ := lookup_ofRows_exact mixedRows 0xCAFEBABE 0 53
  refine ⟨hlast [⟨"CAFEBABE00000034", "1.8"⟩] _ _ rfl ?_ ?_, hnone ?_, ?_⟩
  · exact hsecond.trans hcode.symm
  · simp [VersionRow.IsFor, hthird, hcode]
  · simp [mixedRows, VersionRow.IsFor, hfirst, hsecond, hthird, hbehind]
  · obtain ⟨-, hout⟩ := hothers 0xCAFEBABE 52 0 (by decide)
    exact hout (mixedRows.take 2) _ [] rfl (by rw [lowerAscii_headerCode, hthird, hswapped])

end VersionTable

end ClassCensus
