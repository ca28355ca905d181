import IssueMarkdown.Json.Schema

/-! # Issues

An issue as the site describes it, read from JSON and written back to it. Everything but the
key may be missing; members that are not asked for are passed over.
-/

namespace IssueMarkdown

open Json

/-- The kind of an issue. -/
structure IssueType where
  name : Option Text
  iconUrl : Option Text

/-- The fields of an issue that are asked for. A description is wiki markup if it is a string. -/
structure IssueFields where
  summary : Text
  description : Option Value
  issueType : Option IssueType

structure Issue where
  key : Text
  fields : IssueFields

namespace IssueType

abbrev Slots := Option (Option Text) × Option (Option Text)

def schema : Schema Slots where
  name := "JiraIssueType".toList
  blank := (none, none)
  fields := [
    { name := "name".toList, isSet := (·.1.isSome), optional := true,
      read := fun t s => return (some (← t.readOptional Tree.readText), s.2) },
    { name := "iconUrl".toList, isSet := (·.2.isSome), optional := true,
      read := fun t s => return (s.1, some (← t.readOptional Tree.readText)) }]

def read (t : Tree) : Reading IssueType := do
  let s ← schema.read t
  return ⟨s.1.getD none, s.2.getD none⟩

def toValue (t : IssueType) : Value :=
  .object [("name".toList, textOrNull t.name), ("iconUrl".toList, textOrNull t.iconUrl)]

end IssueType

namespace IssueFields

structure Slots where
  summary : Option Text := none
  description : Option (Option Value) := none
  issueType : Option (Option IssueType) := none

/-- The brackets of the issue and of its fields are open around a description. -/
def schema : Schema Slots where
  name := "JiraIssueFields".toList
  blank := {}
  fields := [
    { name := "summary".toList, isSet := (·.summary.isSome), optional := true,
      read := fun t s => return { s with summary := some (← t.readText) } },
    { name := "description".toList, isSet := (·.description.isSome), optional := true,
      read := fun t s =>
        return { s with description := some (← t.readOptional (Tree.readValue 2)) } },
    { name := "issuetype".toList, isSet := (·.issueType.isSome), optional := true,
      read := fun t s => return { s with issueType := some (← t.readOptional IssueType.read) } }]

def read (t : Tree) : Reading IssueFields := do
  let s ← schema.read t
  return ⟨s.summary.getD [], s.description.getD none, s.issueType.getD none⟩

def toValue (f : IssueFields) : Value :=
  .object [("summary".toList, .string f.summary), ("description".toList, f.description.getD .null),
    ("issuetype".toList, (f.issueType.map IssueType.toValue).getD .null)]

end IssueFields

namespace Issue

structure Slots where
  key : Option Text := none
  fields : Option IssueFields := none

def schema : Schema Slots where
  name := "JiraIssueResponse".toList
  blank := {}
  fields := [
    { name := "key".toList, isSet := (·.key.isSome), optional := false,
      read := fun t s => return { s with key := some (← t.readText) } },
    { name := "fields".toList, isSet := (·.fields.isSome), optional := false,
      read := fun t s => return { s with fields := some (← IssueFields.read t) } }]

def read (t : Tree) : Reading Issue := do
  let s ← schema.read t
  match s.key, s.fields with
  | some key, some fields => return ⟨key, fields⟩
  | _, _ => throw .malformed

def parse (t : Text) : Reading Issue := Schema.readDocument read t

def parseBytes (bytes : List UInt8) : Reading Issue := Schema.readBytes read bytes

def toValue (i : Issue) : Value :=
  .object [("key".toList, .string i.key), ("fields".toList, i.fields.toValue)]

end Issue

/-- The wiki markup of a description: a string stands for itself, anything else for nothing. -/
def markup? : Option Value → Option Text
  | some (.string s) => some s
  | _ => none

end IssueMarkdown
