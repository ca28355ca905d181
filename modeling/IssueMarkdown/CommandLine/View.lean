import IssueMarkdown.CommandLine.Arguments
import IssueMarkdown.Issue.Record
import IssueMarkdown.Json.Printer
import IssueMarkdown.Terminal

/-! # Showing an issue

An issue is shown as a table with its description below, as JSON, or by its description alone.
The table goes out as it is; the other two lose their control sequences.
-/

namespace IssueMarkdown.CommandLine

/-- The lines of a cell. A line break at the end opens no further line, a carriage return
before a break belongs to the break, and there is at least one line. -/
def cellLines (t : Text) : List Text :=
  let ls := Text.lines t
  let body := ls.dropLast.map fun l => if l.getLast? = some '\r' then l.dropLast else l
  match ls.getLast? with
  | none | some [] => if body.isEmpty then [[]] else body
  | some l => body ++ [l]

def padTo (width : Nat) (t : Text) : Text := t ++ List.replicate (width - t.length) ' '

/-- A row of a table with two columns, the first one of a fixed width. -/
def tableRow (width : Nat) (label : Text) (t : Text) : Text :=
  let line (label l : Text) : Text := ' ' :: (padTo width label ++ [' ', ' '] ++ l ++ [' ', '\n'])
  match cellLines t with
  | [] => []
  | l :: ls => line label l ++ ls.flatMap (line [])

/-- A table as wide as its longest label. -/
def table (rows : List (Text × Text)) : Text :=
  let width := rows.foldl (fun w r => max w r.1.length) 0
  rows.flatMap fun (label, t) => tableRow width label t

/-- The rows of an issue; those without a value are left out. -/
def issueRows (r : Record) : List (Text × Text) :=
  (r.issueType.map ("Type".toList, ·)).toList ++ (r.issueTypeIcon.map ("Icon".toList, ·)).toList ++
    [("URL".toList, r.url)]

def tableView (r : Record) : Text :=
  '\n' :: (r.key ++ " - ".toList ++ r.summary ++ "\n\n".toList ++ table (issueRows r) ++
    "\nDescription:\n".toList ++ r.description ++ "\n\n".toList)

def jsonView (r : Record) : Text := Terminal.shown [r.toValue.pretty 0, ['\n']]

def descriptionView (r : Record) : Text := Terminal.shown [r.description, ['\n']]

def Shape.view : Shape → Record → Text
  | .table => tableView
  | .json => jsonView
  | .description => descriptionView

end IssueMarkdown.CommandLine
