import ExactCover.Problem.Error
import ExactCover.Table.Basic

/-!
# Exact cover problems

A problem has *columns*, the requirements, and *rows*, the options; each row covers some of the
columns.  An exact cover is a set of rows such that every column is covered by exactly one of them
(`Problem.IsExactCover`).

There are two ways to state a problem.  It can be built from the empty one, column by column and
row by row, with `addColumn` and `addRow`; or `ofTables` takes the two tables as they are, after
checking that they describe the same relation (`Consistent`).  Both refuse bad input by naming its
first fault, and a refusal changes nothing.

The two tables of a problem are plain data.  That they agree is not part of the type: a search that
is abandoned half-way leaves a candidate table behind which lacks the covered columns, and such a
problem can be worked with further.
-/

set_option autoImplicit false

namespace ExactCover

/-- An exact cover problem, as the two tables of its columns and its rows. -/
structure Problem (C R : Type) [Key C] [Key R] where
  /-- The columns to be covered, each with its candidates. -/
  table : Table C R
  /-- The rows, each with its columns. -/
  options : Options C R

namespace Problem

variable {C R : Type} [Key C] [Key R]

@[ext]
theorem ext {p q : Problem C R} (htable : p.table = q.table) (hoptions : p.options = q.options) :
    p = q := by
  cases p; cases q; cases htable; cases hoptions; rfl

/-- Two problems are equal if their tables are. -/
instance : DecidableEq (Problem C R) := fun p q ↦
  decidable_of_iff (p.table = q.table ∧ p.options = q.options)
    ⟨fun h ↦ ext h.1 h.2, fun h ↦ h ▸ ⟨rfl, rfl⟩⟩

/-- The problem without columns and rows.  To select nothing is its only exact cover. -/
protected def empty : Problem C R := ⟨∅, ∅⟩

instance : EmptyCollection (Problem C R) := ⟨Problem.empty⟩

/-! ## Building a problem -/

/-- Declares a column, as yet without candidates. -/
def addColumn (p : Problem C R) (c : C) : Except (TableError C R) (Problem C R) :=
  if c ∈ p.table then .error (.columnDeclaredTwice c)
  else .ok { p with table := p.table.insert c ∅ }

/-- The first fault in the list of columns of a new row `r`: a column that is not in the table, or
one that is among those `seen` before it. -/
def columnFault? (t : Table C R) (r : R) (seen : List C) : List C → Option (TableError C R)
  | [] => none
  | c :: cs =>
    if c ∉ t then some (.columnNotDeclared r c)
    else if c ∈ seen then some (.columnRepeated r c)
    else columnFault? t r (c :: seen) cs

/-- Declares a row that covers the columns `cs`, all of them declared before. -/
def addRow (p : Problem C R) (r : R) (cs : List C) : Except (TableError C R) (Problem C R) :=
  if r ∈ p.options then .error (.rowDeclaredTwice r)
  else match columnFault? p.table r [] cs with
    | some fault => .error fault
    | none => .ok
      { table := cs.foldl (fun t c ↦ t.modify c (·.insert r)) p.table
        options := p.options.insert r cs }

/-! ## Taking tables as they are -/

/-- The fault, if any, in `r` being listed under the column `c`. -/
def candidateFault? (o : Options C R) (c : C) (r : R) : Option (TableError C R) :=
  match o[r]? with
  | none => some (.rowNotDeclared c r)
  | some cs => if c ∈ cs then none else some (.oneSided c r)

/-- The first fault in the list of columns of the row `r`: a column that is among those `seen`
before it, one that is not in the table, or one that does not list the row. -/
def optionFault? (t : Table C R) (r : R) (seen : List C) : List C → Option (TableError C R)
  | [] => none
  | c :: cs =>
    if c ∈ seen then some (.columnRepeated r c)
    else match t[c]? with
      | none => some (.columnNotDeclared r c)
      | some rs => if r ∈ rs then optionFault? t r (c :: seen) cs else some (.oneSided c r)

/-- **The first fault in a pair of tables.**  The candidates are checked first, column by column and
for each of them row by row, and then the options, row by row and for each of them in the order of
its list. -/
def tableFault? (t : Table C R) (o : Options C R) : Option (TableError C R) :=
  (t.toList.findSome? fun (c, rs) ↦ rs.toList.findSome? (candidateFault? o c)) <|>
    o.toList.findSome? fun (r, cs) ↦ optionFault? t r [] cs

/-- The problem with the given tables, if they agree. -/
def ofTables (t : Table C R) (o : Options C R) : Except (TableError C R) (Problem C R) :=
  match tableFault? t o with
  | some fault => .error fault
  | none => .ok ⟨t, o⟩

/-! ## Reading a problem -/

/-- The number of columns still to be covered. -/
def columnCount (p : Problem C R) : Nat := p.table.size

/-- The number of rows. -/
def rowCount (p : Problem C R) : Nat := p.options.size

/-- The columns that a row covers in the order declared, if there is such a row. -/
def columnsOf? (p : Problem C R) (r : R) : Option (List C) := p.options[r]?

/-- **The two tables describe the same relation**: a row is listed under a column exactly when its
options name the column, and no options name a column twice. -/
structure Consistent (p : Problem C R) : Prop where
  /-- A column lists exactly the rows that cover it, and a row covers declared columns only. -/
  lists_iff : ∀ c r, p.table.Lists c r ↔ c ∈ p.options.columns r
  /-- A row covers no column twice. -/
  nodup : ∀ r, (p.options.columns r).Nodup

/-- **An exact cover**: distinct candidates such that every column is covered by exactly one of
them. -/
structure IsExactCover (p : Problem C R) (rows : List R) : Prop where
  /-- No row is selected twice. -/
  nodup : rows.Nodup
  /-- Every selected row is a candidate for some column. -/
  listed : ∀ r ∈ rows, ∃ c, p.table.Lists c r
  /-- Every column is covered by exactly one selected row. -/
  exactly_one : ∀ c ∈ p.table, ∃ r ∈ rows, c ∈ p.options.columns r ∧
    ∀ r' ∈ rows, c ∈ p.options.columns r' → r' = r

end Problem

end ExactCover
