import IssueMarkdown.Json.Value
import IssueMarkdown.Text.Quoted

/-! # Reading records from JSON

A record is read from an object, or from an array with the fields in order. The tree is walked
in the order of the text and the first fault met there is the answer, so a wrong type comes
before a break further on. What is not kept is not judged, beyond being well formed.
-/

namespace IssueMarkdown.Json

/-- What was found where something else was due. -/
inductive Found where
  | null
  | bool (b : Bool)
  | number (n : Number)
  | string (s : Text)
  | sequence
  | map
  deriving DecidableEq, Repr

/-- What was due. -/
inductive Wanted where
  | string
  | record (name : Text)
  deriving DecidableEq, Repr

/-- A well formed text that does not fit the record. -/
inductive Misfit where
  | wrongType (found : Found) (wanted : Wanted)
  | tooShort (length : Nat) (record : Text) (fields : Nat)
  | missing (field : Text)
  | duplicate (field : Text)
  deriving DecidableEq, Repr

inductive Fault where
  | malformed
  | misfit (m : Misfit)
  deriving DecidableEq, Repr

def Found.message : Found → Text
  | .null => "null".toList
  | .bool b => "boolean `".toList ++ (if b then "true".toList else "false".toList) ++ ['`']
  | .number n@(.int _) => "integer `".toList ++ n.text ++ ['`']
  | .number n@(.float _ _) => "floating point `".toList ++ n.text ++ ['`']
  | .string s => "string ".toList ++ Text.quoted s
  | .sequence => "sequence".toList
  | .map => "map".toList

def Wanted.message : Wanted → Text
  | .string => "a string".toList
  | .record name => "struct ".toList ++ name

def Misfit.message : Misfit → Text
  | .wrongType f w => "invalid type: ".toList ++ f.message ++ ", expected ".toList ++ w.message
  | .tooShort n r k =>
    "invalid length ".toList ++ Nat.toDigits 10 n ++ ", expected ".toList ++
      (Wanted.record r).message ++ " with ".toList ++ Nat.toDigits 10 k ++ " elements".toList
  | .missing f => "missing field `".toList ++ f ++ ['`']
  | .duplicate f => "duplicate field `".toList ++ f ++ ['`']

abbrev Reading := Except Fault

def textOrNull (t : Option Text) : Value := (t.map .string).getD .null

def orMalformed {α : Type} : Option α → Reading α
  | some a => .ok a
  | none => .error .malformed

namespace Tree

/-- What a tree is, judged by what has to be read to tell: brackets by the opening one alone. -/
def found : Tree → Reading Found
  | null => .ok .null
  | bool b => .ok (.bool b)
  | number n => orMalformed (n.value?.map .number)
  | string s => orMalformed ((decodePieces? s).map .string)
  | array _ _ => .ok .sequence
  | object _ _ => .ok .map
  | broken => .error .malformed

/-- The fault of a tree that is not what was wanted. -/
def reject {α : Type} (w : Wanted) (t : Tree) : Reading α := do
  throw (.misfit (.wrongType (← t.found) w))

def readText : Tree → Reading Text
  | string s => orMalformed (decodePieces? s)
  | t => t.reject .string

/-- An absent value may be written `null`. -/
def readOptional {α : Type} (read : Tree → Reading α) : Tree → Reading (Option α)
  | null => .ok none
  | t => some <$> read t

/-- Any value, below `outer` brackets that are open already. -/
def readValue (outer : Nat) (t : Tree) : Reading Value :=
  orMalformed (t.toValue? (maxDepth - outer))

end Tree

/-- A field of a record that is filled in as reading goes on. -/
structure Field (σ : Type) where
  name : Text
  isSet : σ → Bool
  read : Tree → σ → Reading σ
  /-- Whether an object may leave the field out. -/
  optional : Bool
  /-- Whether an array may end before the field. -/
  trailing : Bool := optional

/-- A record: its name, its fields in order, and the state before any is read. -/
structure Schema (σ : Type) where
  name : Text
  fields : List (Field σ)
  blank : σ

namespace Schema

variable {σ : Type}

/-- Reads members as they come; one that is not a field is skipped. -/
def readMembers (s : Schema σ) (closed : Bool) (st : σ) :
    List (List Piece × Tree) → Reading σ
  | [] => if closed then .ok st else .error .malformed
  | (k, v) :: ms => do
    let k ← orMalformed (decodePieces? k)
    match s.fields.find? fun f => f.name == k with
    | none => s.readMembers closed st ms
    | some f =>
      if f.isSet st then throw (.misfit (.duplicate f.name))
      else s.readMembers closed (← f.read v st) ms

/-- The first field that is due and was not read. -/
def missing? (s : Schema σ) (st : σ) : Option Text :=
  (s.fields.find? fun f => !f.optional && !f.isSet st).map (·.name)

/-- Reads items in the order of the fields, the first of which has the number `i`. -/
def readItems (s : Schema σ) (closed : Bool) (i : Nat) (st : σ) :
    List (Field σ) → List Tree → Reading σ
  | [], [] => if closed then .ok st else .error .malformed
  | [], _ :: _ => .error .malformed
  | f :: fs, [] =>
    if !closed then .error .malformed
    else if f.trailing then s.readItems closed (i + 1) st fs []
    else throw (.misfit (.tooShort i s.name s.fields.length))
  | f :: fs, v :: vs => do s.readItems closed (i + 1) (← f.read v st) fs vs

def read (s : Schema σ) : Tree → Reading σ
  | .object ms closed => do
    let st ← s.readMembers closed s.blank ms
    match s.missing? st with
    | some f => throw (.misfit (.missing f))
    | none => return st
  | .array vs closed => s.readItems closed 0 s.blank s.fields vs
  | t => t.reject (.record s.name)

/-- Reads a tree that nothing should follow. -/
def readScanned {α : Type} (read : Tree → Reading α) (scanned : Tree × Bool) : Reading α := do
  let a ← read scanned.1
  if scanned.2 then return a else throw .malformed

/-- Reads a text that holds one record and nothing else. -/
def readDocument {α : Type} (read : Tree → Reading α) (t : Text) : Reading α :=
  readScanned read (scanDocument t)

/-- Reads bytes that hold one record and nothing else. -/
def readBytes {α : Type} (read : Tree → Reading α) (bytes : List UInt8) : Reading α :=
  readScanned read (scanBytes bytes)

end Schema

end IssueMarkdown.Json
