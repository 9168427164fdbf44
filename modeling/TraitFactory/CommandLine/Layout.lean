import TraitFactory.CommandLine.Overview
import TraitFactory.Number.Places

/-!
# Layout of overviews

Tables as lines of text: each column is as wide as its widest cell, and a rule stands below the
names of the columns. Marks for style are left out.
-/

namespace TraitFactory

def padRight (width : Nat) (s : String) : String :=
  s ++ String.ofList (List.replicate (width - Text.length s) ' ')

namespace Sheet

/-- The widths of as many columns as there are names. -/
def widths (s : Sheet) : List Nat :=
  s.columns.zipIdx.map fun c =>
    (s.rows.map fun row => Text.length (row[c.2]?.getD "")).foldl max (Text.length c.1)

def rowText (widths : List Nat) (cells : List String) : String :=
  "  ".intercalate ((widths.zip cells).map fun c => padRight c.1 c.2)

def lines (s : Sheet) : List String :=
  let rule := s.widths.map fun n => String.ofList (List.replicate n '-')
  s.title :: rowText s.widths s.columns :: rowText s.widths rule :: s.rows.map (rowText s.widths)

end Sheet

namespace Display

/-- The marks that set dimmed text off. -/
def marks : List String := ["[dim]", "[/dim]"]

def lines : Display → List String
  | .sheet s => s.lines
  | .line text => [marks.foldl (fun s mark => s.replace mark "") text]

end Display

end TraitFactory
