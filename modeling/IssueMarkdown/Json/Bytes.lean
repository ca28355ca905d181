import IssueMarkdown.Json.Tree
import IssueMarkdown.Text.Decoding

/-! # JSON in bytes

Bytes are scanned as they are, and only what stands in strings is read as UTF-8 then. So a string
that is kept has to be a text, and one that is passed over may hold any bytes.
-/

namespace IssueMarkdown.Json

open Text

/-- A byte as the character of its number. -/
def byteChar (b : UInt8) : Char := Char.ofNat b.toNat

def Piece.ofChar? : Option Char → Piece
  | some c => .char c
  | none => .stray

/-- The pieces of a string whose characters are bytes, after what is begun of a character. No
character goes on behind an escape. -/
def recodeFrom (p : Option Partial) : List Piece → List Piece
  | [] => (broken p).map .ofChar?
  | .char b :: ps =>
    let (cs, p) := nextByte p b.toNat
    cs.map .ofChar? ++ recodeFrom p ps
  | .unit n :: ps => (broken p).map .ofChar? ++ .unit n :: recodeFrom none ps
  | .stray :: ps => (broken p).map .ofChar? ++ .stray :: recodeFrom none ps

def recode (ps : List Piece) : List Piece := recodeFrom none ps

mutual

/-- The tree with the bytes of its strings read. -/
def Tree.recoded : Tree → Tree
  | .null => .null
  | .bool b => .bool b
  | .number n => .number n
  | .string s => .string (recode s)
  | .array items closed => .array (recodedItems items) closed
  | .object members closed => .object (recodedMembers members) closed
  | .broken => .broken

def recodedItems : List Tree → List Tree
  | [] => []
  | t :: ts => t.recoded :: recodedItems ts

def recodedMembers : List (List Piece × Tree) → List (List Piece × Tree)
  | [] => []
  | (k, t) :: ms => (recode k, t.recoded) :: recodedMembers ms

end

/-- Bytes as a tree, and whether nothing but blanks follows it. -/
def scanBytes (bytes : List UInt8) : Tree × Bool :=
  let (t, ends) := scanDocument (bytes.map byteChar)
  (t.recoded, ends)

end IssueMarkdown.Json
