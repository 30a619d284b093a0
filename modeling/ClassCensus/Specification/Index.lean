/-!
# Indices of tables

The rows of a table stand under octets.  An index keeps the position of the last row under each
octet, so that a row is looked up in one step however long the table is.
-/

namespace ClassCensus

/-- The last member of a list with a property. -/
def lastWith? (property : α → Bool) (rows : List α) : Option α :=
  rows.foldl (fun last row => if property row then some row else last) none

theorem lastWith?_foldl (property : α → Bool) (rows : List α) (last : Option α) :
    rows.foldl (fun last row => if property row then some row else last) last =
      (rows.reverse.find? property).or last := by
  induction rows generalizing last with
  | nil => simp
  | cons row rows ih =>
    rw [List.foldl_cons, ih, List.reverse_cons, List.find?_append]
    cases rows.reverse.find? property <;> by_cases hholds : property row <;> simp [hholds]

theorem lastWith?_eq_find?_reverse (property : α → Bool) (rows : List α) :
    lastWith? property rows = rows.reverse.find? property := by
  rw [lastWith?, lastWith?_foldl, Option.or_none]

/-- The positions of the rows of a table, one for each octet under which there is a row. -/
abbrev RowIndex := Vector (Option Nat) 256

namespace RowIndex

def empty : RowIndex := Vector.replicate 256 none

def put (index : RowIndex) (octet : UInt8) (position : Nat) : RowIndex :=
  index.set octet.toNat (some position) octet.toNat_lt

def position? (index : RowIndex) (octet : UInt8) : Option Nat := index[octet.toFin]

/-- The index of rows, each of which stands under the octet that `key` says. -/
def ofRows (key : α → UInt8) (rows : List α) : RowIndex :=
  rows.zipIdx.foldl (fun index (row, position) => index.put (key row) position) empty

/-- The row that an index finds under an octet. -/
def row? (index : RowIndex) (rows : List α) (octet : UInt8) : Option α :=
  (index.position? octet).bind fun position => rows[position]?

@[simp]
theorem position?_empty (octet : UInt8) : empty.position? octet = none := by
  simp [position?, empty]

theorem position?_put (index : RowIndex) (octet : UInt8) (position : Nat) (other : UInt8) :
    (index.put octet position).position? other =
      if octet = other then some position else index.position? other := by
  simp [position?, put, Vector.getElem_set, UInt8.toNat_inj]

theorem position?_foldl_put (key : α → UInt8) (rows : List (α × Nat)) (index : RowIndex)
    (octet : UInt8) :
    (rows.foldl (fun index (row, position) => index.put (key row) position) index).position?
        octet =
      ((rows.reverse.find? fun row => key row.1 == octet).map Prod.snd).or
        (index.position? octet) := by
  induction rows generalizing index with
  | nil => simp
  | cons row rows ih =>
    rw [List.foldl_cons, ih, position?_put, List.reverse_cons, List.find?_append]
    cases rows.reverse.find? fun row => key row.1 == octet with
    | some found => simp
    | none => by_cases hsame : key row.1 = octet <;> simp [hsame]

/-- What an index finds under an octet is the last row that stands there. -/
theorem row?_ofRows (key : α → UInt8) (rows : List α) (octet : UInt8) :
    (ofRows key rows).row? rows octet = lastWith? (fun row => key row == octet) rows := by
  have hforgotten : rows.reverse = rows.zipIdx.reverse.map Prod.fst := by
    rw [List.map_reverse, List.zipIdx_map_fst]
  rw [lastWith?_eq_find?_reverse, hforgotten, List.find?_map, row?, ofRows, position?_foldl_put,
    position?_empty, Option.or_none, Function.comp_def]
  cases hfound : rows.zipIdx.reverse.find? fun row => key row.1 == octet with
  | none => rfl
  | some row =>
    have hlisted := List.mem_reverse.1 (List.mem_of_find?_eq_some hfound)
    exact List.mem_zipIdx_iff_getElem?.1 hlisted

end RowIndex

end ClassCensus
