import IssueMarkdown.Issue
import IssueMarkdown.Rendering
import IssueMarkdown.Site

/-! # Rendered issues

The record that is printed for an issue: its description rendered, everything else passed on,
and the address where a reader finds it.
-/

namespace IssueMarkdown

open Json

/-- An issue with its description rendered. -/
structure Record where
  key : Text
  summary : Text
  description : Text
  issueType : Option Text
  issueTypeIcon : Option Text
  url : Text
  deriving DecidableEq

namespace Record

structure Slots where
  key : Option Text := none
  summary : Option Text := none
  description : Option Text := none
  issueType : Option (Option Text) := none
  issueTypeIcon : Option (Option Text) := none
  url : Option Text := none

def schema : Schema Slots where
  name := "IssueOutput".toList
  blank := {}
  fields := [
    { name := "key".toList, isSet := (·.key.isSome), optional := false,
      read := fun t s => return { s with key := some (← t.readText) } },
    { name := "summary".toList, isSet := (·.summary.isSome), optional := false,
      read := fun t s => return { s with summary := some (← t.readText) } },
    { name := "description".toList, isSet := (·.description.isSome), optional := false,
      read := fun t s => return { s with description := some (← t.readText) } },
    { name := "issuetype".toList, isSet := (·.issueType.isSome), optional := true,
      trailing := false,
      read := fun t s => return { s with issueType := some (← t.readOptional Tree.readText) } },
    { name := "issuetypeicon".toList, isSet := (·.issueTypeIcon.isSome), optional := true,
      trailing := false,
      read := fun t s => return { s with issueTypeIcon := some (← t.readOptional Tree.readText) } },
    { name := "url".toList, isSet := (·.url.isSome), optional := false,
      read := fun t s => return { s with url := some (← t.readText) } }]

def read (t : Tree) : Reading Record := do
  let s ← schema.read t
  match s.key, s.summary, s.description, s.url with
  | some key, some summary, some description, some url =>
    return ⟨key, summary, description, s.issueType.getD none, s.issueTypeIcon.getD none, url⟩
  | _, _, _, _ => throw .malformed

def parse (t : Text) : Reading Record := Schema.readDocument read t

def toValue (r : Record) : Value :=
  .object [("key".toList, .string r.key), ("summary".toList, .string r.summary),
    ("description".toList, .string r.description), ("issuetype".toList, textOrNull r.issueType),
    ("issuetypeicon".toList, textOrNull r.issueTypeIcon), ("url".toList, .string r.url)]

end Record

/-- Only the description is rendered, everything else is passed on. -/
def Issue.toRecord (i : Issue) (base : Text) (r : Rendering) : Record where
  key := i.key
  summary := i.fields.summary
  description := r.render (markup? i.fields.description)
  issueType := i.fields.issueType.bind (·.name)
  issueTypeIcon := i.fields.issueType.bind (·.iconUrl)
  url := browseUrl base i.key

end IssueMarkdown
