import IssueMarkdown.Json.Schema

/-! # Profiles

What the site tells about the user that a set of credentials belongs to.
-/

namespace IssueMarkdown

open Json

structure Profile where
  displayName : Option Text
  emailAddress : Option Text
  deriving DecidableEq

namespace Profile

abbrev Slots := Option (Option Text) × Option (Option Text)

def schema : Schema Slots where
  name := "JiraMyself".toList
  blank := (none, none)
  fields := [
    { name := "displayName".toList, isSet := (·.1.isSome), optional := true,
      read := fun t s => return (some (← t.readOptional Tree.readText), s.2) },
    { name := "emailAddress".toList, isSet := (·.2.isSome), optional := true,
      read := fun t s => return (s.1, some (← t.readOptional Tree.readText)) }]

def read (t : Tree) : Reading Profile := do
  let s ← schema.read t
  return ⟨s.1.getD none, s.2.getD none⟩

def parse (t : Text) : Reading Profile := Schema.readDocument read t

def parseBytes (bytes : List UInt8) : Reading Profile := Schema.readBytes read bytes

def toValue (p : Profile) : Value :=
  .object [("displayName".toList, textOrNull p.displayName),
    ("emailAddress".toList, textOrNull p.emailAddress)]

end Profile

end IssueMarkdown
