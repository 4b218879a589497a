import ExactCover.Key

/-!
# The candidate table

A search for exact covers works on two tables that describe the same relation from both sides:

* the **options** give, for each row, the columns that the row covers, in the order in which it
  declares them; a search only reads them;
* the **candidate table** gives, for each column that is still to be covered, the rows that can
  still cover it; a search edits it.

To *select* a row is to cover all of its columns.  A covered column leaves the table, and every row
that was a candidate for it is struck from the other columns that it covers, for it now conflicts
with the selection.  What a selection took out is kept as an `Undo` record — each covered column
with the candidates it had at that moment — and *retracting* the selection replays the record
backwards.

The record does not say which candidates were struck from the columns that stay.  It need not: a row
is listed either under all of its columns or under none, so each row that comes back with a covered
column goes back under every column it covers that is in the table by then.

Both tables are extensional: two of them are equal as soon as they hold the same entries.
-/

set_option autoImplicit false

namespace ExactCover

/-- The columns still to be covered, each with the rows that can still cover it. -/
abbrev Table (C R : Type) [Key C] [Key R] : Type := Std.ExtTreeMap C (Std.ExtTreeSet R)

/-- The rows, each with the columns it covers in the order declared. -/
abbrev Options (C R : Type) [Key R] : Type := Std.ExtTreeMap R (List C)

/-- What one selection took out of a table: the covered columns and the candidates that each had
when it was covered, the latest first. -/
abbrev Undo (C R : Type) [Key R] : Type := List (C × Std.ExtTreeSet R)

variable {C R : Type} [Key C] [Key R]

/-- The columns that `r` covers, none if `r` is not a row at all. -/
def Options.columns (o : Options C R) (r : R) : List C := o.getD r []

namespace Table

/-- `r` is a candidate for the column `c`, which is still to be covered. -/
def Lists (t : Table C R) (c : C) (r : R) : Prop := ∃ rs, t[c]? = some rs ∧ r ∈ rs

/-! ## Covering a column -/

/-- Removes `r` from the candidates of every column it covers. -/
def strike (o : Options C R) (t : Table C R) (r : R) : Table C R :=
  (o.columns r).foldl (fun t c ↦ t.modify c (·.erase r)) t

/-- Adds `r` to the candidates of every column it covers that is in the table. -/
def unstrike (o : Options C R) (t : Table C R) (r : R) : Table C R :=
  (o.columns r).foldl (fun t c ↦ t.modify c (·.insert r)) t

/-- Takes out the column `c`, whose candidates are `rs`, and strikes these from all columns that
stay. -/
def cover (o : Options C R) (t : Table C R) (c : C) (rs : Std.ExtTreeSet R) : Table C R :=
  rs.toList.foldl (strike o) (t.erase c)

/-- Puts the column `c` back with the candidates `rs`, and these back under their other columns. -/
def uncover (o : Options C R) (t : Table C R) (c : C) (rs : Std.ExtTreeSet R) : Table C R :=
  (rs.toList.foldl (unstrike o) t).insert c rs

/-! ## Selecting a row -/

/-- Covers `c` if it is still in the table, and puts it on the record. -/
def selectColumn (o : Options C R) (s : Table C R × Undo C R) (c : C) : Table C R × Undo C R :=
  match s.1[c]? with
  | none => s
  | some rs => (s.1.cover o c rs, (c, rs) :: s.2)

/-- **Selects a row**: covers its columns one after another, and says what was taken out. -/
def select (o : Options C R) (t : Table C R) (r : R) : Table C R × Undo C R :=
  (o.columns r).foldl (selectColumn o) (t, [])

/-- **Retracts a selection**: uncovers the columns on its record, the latest first. -/
def retract (o : Options C R) (t : Table C R) (u : Undo C R) : Table C R :=
  u.foldl (fun t (c, rs) ↦ t.uncover o c rs) t

/-! ## The column to branch on -/

/-- Goes through columns with their candidates and keeps the best so far.  A column takes its place
only if it has fewer candidates, and one that has none ends the scan. -/
def scan (best : Option (C × Std.ExtTreeSet R)) :
    List (C × Std.ExtTreeSet R) → Option (C × Std.ExtTreeSet R)
  | [] => best
  | e :: es =>
    if best.all fun b ↦ e.2.size < b.2.size then
      if e.2.isEmpty then some e else scan (some e) es
    else scan best es

/-- The candidates of the column that has fewest, the lowest such column if there are several; none
if every column is covered. -/
def tightest? (t : Table C R) : Option (C × Std.ExtTreeSet R) := scan none t.toList

theorem minOn?_cons_cons {α : Type} (f : α → Nat) (a b : α) (l : List α) :
    (a :: b :: l).minOn? f = (minOn f a b :: l).minOn? f := by
  rw [List.minOn?_eq_some_minOn (List.cons_ne_nil _ _),
    List.minOn?_eq_some_minOn (List.cons_ne_nil _ _), List.minOn_cons_cons]

omit [Key C] in
/-- No column has fewer candidates than one that has none. -/
theorem minOn?_cons_of_isEmpty {e : C × Std.ExtTreeSet R} (he : e.2.isEmpty = true)
    (es : List (C × Std.ExtTreeSet R)) : (e :: es).minOn? (·.2.size) = some e := by
  have hsize : e.2.size = 0 := by simpa [Std.ExtTreeSet.isEmpty_eq_size_beq_zero] using he
  rw [List.minOn?_cons]
  cases es.minOn? (·.2.size) with
  | none => rfl
  | some e' => rw [Option.elim_some, minOn_eq_if, hsize, if_pos (Nat.zero_le _)]

omit [Key C] in
/-- Ending the scan early makes no difference. -/
theorem scan_some (b : C × Std.ExtTreeSet R) (es : List (C × Std.ExtTreeSet R)) :
    scan (some b) es = (b :: es).minOn? (·.2.size) := by
  induction es generalizing b with
  | nil => rfl
  | cons e es ih =>
    rw [minOn?_cons_cons, scan, Option.all_some]
    by_cases hlt : e.2.size < b.2.size
    · rw [if_pos (decide_eq_true hlt), minOn_eq_if, if_neg (Nat.not_le_of_lt hlt)]
      split
      case isTrue he => exact (minOn?_cons_of_isEmpty he es).symm
      case isFalse => exact ih e
    · rw [if_neg (by simpa using hlt), minOn_eq_if, if_pos (Nat.le_of_not_lt hlt)]
      exact ih b

/-- **What is found is the first of the columns that have fewest candidates.** -/
theorem tightest?_eq_minOn? (t : Table C R) : t.tightest? = t.toList.minOn? (·.2.size) := by
  rw [tightest?]
  cases t.toList with
  | nil => rfl
  | cons e es =>
    rw [scan, Option.all_none, if_pos rfl]
    split
    case isTrue he => exact (minOn?_cons_of_isEmpty he es).symm
    case isFalse => exact scan_some e es

theorem tightest?_eq_none_iff {t : Table C R} : t.tightest? = none ↔ t = ∅ := by
  rw [← Option.not_isSome_iff_eq_none, tightest?_eq_minOn?, List.isSome_minOn?_iff,
    Classical.not_not, Std.ExtTreeMap.toList_eq_nil_iff]

end Table

end ExactCover
