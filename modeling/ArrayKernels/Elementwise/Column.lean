import ArrayKernels.Kernel.Env
import ArrayKernels.Error

/-!
# Columns and rows

The arguments of an elementwise call are columns of numbers. A column of one number stands for that
number in every row; all other columns have one length, which is the number of rows.
-/

namespace ArrayKernels

/-- A column of numbers. -/
abbrev Column := Array Float

/-- The number of a column in a row. -/
def Column.at? (column : Column) (row : Nat) : Option Float :=
  if column.size = 1 then column[0]? else column[row]?

/-- The numbers of all columns in a row. -/
def rowAt? (columns : List Column) (row : Nat) : Option (List Float) :=
  columns.mapM (·.at? row)

/-- The number of rows, when the columns from position `index` on are still to be looked at and
`found` is the length of those before that do not stand for one number. -/
def rowCountFrom (index : Nat) (found : Option Nat) : List Column → Except CallError Nat
  | [] => .ok (found.getD 1)
  | column :: columns =>
    if column.size = 1 then rowCountFrom (index + 1) found columns
    else
      match found with
      | none => rowCountFrom (index + 1) (some column.size) columns
      | some expected =>
        if column.size = expected then rowCountFrom (index + 1) found columns
        else .error (.lengthMismatch index column.size expected)

/-- The number of rows of a call: the length of the columns that do not stand for one number, or one
if all do. -/
def rowCount (columns : List Column) : Except CallError Nat := rowCountFrom 0 none columns

/-! ## Spans of rows -/

/-- The rows from `first` on and before `stop`. -/
structure Span where
  first : Nat
  stop : Nat
deriving DecidableEq

namespace Span

/-- The number of rows. -/
def length (s : Span) : Nat := s.stop - s.first

/-- The rows in their order. -/
def rows (s : Span) : List Nat := List.range' s.first s.length

end Span

/-- The values of a kernel in the rows of a span. -/
def Kernel.onSpan (kernel : Kernel) (columns : List Column) (span : Span) : Option (List Float) :=
  span.rows.mapM fun row => do kernel.onRow (← rowAt? columns row)

end ArrayKernels
