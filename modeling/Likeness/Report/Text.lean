import Likeness.Duplicates.Registry
import Likeness.Json.Text
import Likeness.Number.Layout
import Likeness.Scan.Findings

namespace Likeness.Report

open Duplicates Scan

-- How a stretch of a line is shown on a terminal.
inductive Style where
  | bold
  | dim
  | green
  | cyan
  | yellow
  | boldUnderlined
  | boldYellow

def Style.code : Style → String
  | .bold => "1"
  | .dim => "2"
  | .green => "32"
  | .cyan => "36"
  | .yellow => "33"
  | .boldUnderlined => "1;4"
  | .boldYellow => "1;33"

-- A stretch of a line.
inductive Piece where
  | plain (text : String)
  | styled (style : Style) (text : String)

abbrev Line := List Piece

def Piece.render (color : Bool) : Piece → String
  | .plain text => text
  | .styled style text =>
    if color then "\x1b[" ++ style.code ++ "m" ++ text ++ "\x1b[0m" else text

def Line.render (color : Bool) (line : Line) : String :=
  String.join (line.map (Piece.render color)) ++ "\n"

def plural (count : Nat) (noun : String) : String :=
  if count = 1 then s!"1 {noun}" else s!"{count} {noun}s"

def heading : Category → String
  | .functions => "Duplicate functions"
  | .modules => "Similar modules"
  | .resources => "Similar resource values"
  | .components => "Similar components"

-- The longest text of a value that is shown whole.
def maxValueWidth : Nat := 72

def truncate (text : String) (most : Nat) : String :=
  if text.length ≤ most then text else String.ofList (text.toList.take (most - 3)) ++ "..."

def percentText (places : Nat) (score : Float) : String :=
  Number.fixedPlaces places (score * 100.0) ++ "%"

def title : Representative Float → String
  | .function name shape => name ++ " (" ++ plural shape.length "statement" ++ ")"
  | .module percent => Number.fixedPlaces 1 percent ++ "% of function shapes shared"
  | .value value => truncate value.text maxValueWidth
  | .component name props element =>
    s!"{name} (props {percentText 0 props}, jsx {percentText 0 element})"

def occurrenceLine (o : Occurrence) : Line :=
  let place := match o.line with
    | some line => s!"{o.file.text}:{line}"
    | none => o.file.text
  [.plain s!"      {place}  ", .styled .dim o.locator.text]

def groupLines (number : Nat) (g : Duplicates.Group Float) : List Line :=
  [.plain s!"  [{number}] ", .styled .cyan (title g.representative), .plain "  ",
    .styled .dim (percentText 1 g.similarity)] :: g.occurrences.map occurrenceLine

def groupsLines (number : Nat) : List (Duplicates.Group Float) → List Line
  | [] => []
  | g :: rest => groupLines number g ++ groupsLines (number + 1) rest

def categoryLines (category : Category) (groups : List (Duplicates.Group Float)) : List Line :=
  if groups.isEmpty then []
  else
    [[], [.styled .boldUnderlined (heading category),
      .plain (" (" ++ plural groups.length "group" ++ ")")]] ++ groupsLines 1 groups

def warningLines (warnings : List Skipped) : List Line :=
  if warnings.isEmpty then []
  else
    [[], [.styled .boldYellow "Warnings", .plain (" (" ++ plural warnings.length "file" ++ ")")]] ++
      warnings.map fun w =>
        [.plain "  ", .styled .yellow w.code, .plain (" " ++ w.message)]

-- All lines of the report. `milliseconds` is a text, as it may be left open.
def lines (report : Duplicates.Report Float) (summary : Summary) (milliseconds : String) :
    List Line :=
  [[.plain "Scanned ", .styled .bold (toString summary.codeFiles), .plain " code files and ",
    .styled .bold (toString summary.resourceFiles),
    .plain s!" resource files under {summary.root} in {milliseconds} ms"]] ++
  (if report.isEmpty then [[], [.styled .green "No duplicates found."]] else []) ++
  Category.all.flatMap (fun c => categoryLines c (report.groups c)) ++
  warningLines summary.warnings ++
  [[], [.plain ("Summary: " ++ plural report.total "duplicate group" ++
    s!", {summary.functions} functions, {summary.components} components")]]

def render (color : Bool) (report : Duplicates.Report Float) (summary : Summary)
    (milliseconds : String) : String :=
  String.join ((lines report summary milliseconds).map (Line.render color))

end Likeness.Report
