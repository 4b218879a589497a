import ExactCover.Text.Describe

/-!
# What can be wrong with a problem

The reasons for which a column, a row or a pair of tables is refused.  Each names the keys it is
about; `TableError.message` is the only place where the wording is decided.
-/

set_option autoImplicit false

namespace ExactCover

/-- Why tables do not describe an exact cover problem. -/
inductive TableError (C R : Type) where
  /-- The column is there already. -/
  | columnDeclaredTwice (column : C)
  /-- The row is there already. -/
  | rowDeclaredTwice (row : R)
  /-- The row covers a column that is not there. -/
  | columnNotDeclared (row : R) (column : C)
  /-- The row covers the column twice. -/
  | columnRepeated (row : R) (column : C)
  /-- The row is listed under the column, but has no options. -/
  | rowNotDeclared (column : C) (row : R)
  /-- One of the two lists the other, but not the other way round. -/
  | oneSided (column : C) (row : R)
deriving DecidableEq

/-- The wording of an error. -/
def TableError.message {C R : Type} [Describe C] [Describe R] : TableError C R → String
  | .columnDeclaredTwice c => s!"column {describe c} was declared twice"
  | .rowDeclaredTwice r => s!"row {describe r} was declared twice"
  | .columnNotDeclared r c =>
    s!"row {describe r} covers column {describe c}, which was never declared"
  | .columnRepeated r c => s!"row {describe r} lists column {describe c} more than once"
  | .rowNotDeclared c r =>
    s!"column {describe c} lists row {describe r}, which has no options entry"
  | .oneSided c r =>
    s!"column {describe c} and row {describe r} disagree about covering each other"

end ExactCover
