import StructuralTyping.Text.Width

namespace StructuralTyping

/-!
# Tables

Tables of texts with a title and a footer for every column. A column is as wide
as the widest of its lines; titles and footers stand in the middle.
-/

/-- Where the text of a cell stands. -/
inductive Alignment where
  | left
  | center
  deriving Repr, DecidableEq

/-- A column of a table. -/
structure Column where
  title : String
  alignment : Alignment := .left
  footer : String := ""
  deriving Repr, DecidableEq

/-- A table; every row has a cell for every column. -/
structure Table where
  columns : List Column
  rows : List (List String)
  deriving Repr, DecidableEq

/-- A text of one repeated character. -/
def repeated
    (letter : Char)
    (count : Nat) :
    String :=
  String.ofList (List.replicate count letter)

/-- Pad a text with blanks; in the middle the smaller half comes first. -/
def Alignment.pad
    (alignment : Alignment)
    (width : Nat)
    (text : String) :
    String :=
  let gap := width - Text.displayWidth text
  let before :=
    match alignment with
    | .left => 0
    | .center => gap / 2
  repeated ' ' before ++ text ++ repeated ' ' (gap - before)

namespace Table

/-- The lines of a cell. -/
def cellLines
    (cell : String) :
    List String :=
  cell.splitOn "\n"

/-- The widths of the columns. -/
def widths
    (table : Table) :
    List Nat :=
  table.columns.mapIdx fun index column =>
    let cells := table.rows.flatMap fun row => cellLines (row.getD index "")
    ((column.title :: column.footer :: cells).map Text.displayWidth).foldl max 0

/-- The columns beside their widths. -/
def measured
    (table : Table) :
    List (Column × Nat) :=
  table.columns.zip table.widths

/-- The line with the titles. -/
def titleLine
    (table : Table) :
    String :=
  let titles :=
    table.measured.map fun (column, width) =>
      " " ++ Alignment.center.pad width column.title ++ " "
  " " ++ "|".intercalate titles ++ " "

/-- The line above and below the rows. -/
def ruleLine
    (table : Table) :
    String :=
  repeated '-' (table.widths.foldl (fun length width => length + width + 2) 2)

/-- The lines of a row, as many as its tallest cell has. -/
def rowLines
    (table : Table)
    (row : List String) :
    List String :=
  let cells := row.map cellLines
  let height := (cells.map List.length).foldl max 0
  (List.range height).map fun index =>
    let texts :=
      (table.measured.zip cells).map fun ((column, width), lines) =>
        " " ++ column.alignment.pad width (lines.getD index "") ++ " "
    " " ++ "|".intercalate texts ++ " "

/-- The line with the footers, which only those columns end that have one. -/
def footerLine
    (table : Table) :
    String :=
  let texts :=
    table.measured.map fun (column, width) =>
      let ending := if column.footer.isEmpty then " " else "|"
      " " ++ Alignment.center.pad width column.footer ++ " " ++ ending
  " " ++ String.join texts

/-- The line below the footers, from the first column with one. -/
def closingLine
    (table : Table) :
    String :=
  let isBlank := fun (measured : Column × Nat) => measured.1.footer.isEmpty
  let blank := table.measured.takeWhile isBlank
  let ruled := table.measured.dropWhile isBlank
  String.join (blank.map fun (_, width) => repeated ' ' (width + 3)) ++
    repeated '-'
      (ruled.foldl (fun length (_, width) => length + width + 2) 2)

/-- The lines of a table. -/
def lines
    (table : Table) :
    List String :=
  table.titleLine :: table.ruleLine :: table.rows.flatMap table.rowLines ++
    [table.ruleLine, table.footerLine, table.closingLine]

/-- A table as one text. -/
def render
    (table : Table) :
    String :=
  String.join (table.lines.map (· ++ "\n"))

end Table

end StructuralTyping
