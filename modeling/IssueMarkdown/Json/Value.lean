import IssueMarkdown.Json.Bytes

/-! # JSON values

A value forgets how it was written. Names in an object are in order and occur once; of
repeated ones the last counts. Values of bounded nesting are kept, deeper ones refused.
-/

namespace IssueMarkdown.Json

inductive Value where
  | null
  | bool (b : Bool)
  | number (n : Number)
  | string (s : Text)
  | array (items : List Value)
  | object (members : List (Text × Value))
  deriving Inhabited

/-- How deep brackets may nest in a value that is kept. -/
def maxDepth : Nat := 127

/-- The characters of a string; none if a surrogate stands alone or bytes are no character. -/
def decodePieces? : List Piece → Option Text
  | [] => some []
  | .char c :: ps => (decodePieces? ps).map (c :: ·)
  | .unit n :: .unit m :: ps =>
    if 0xd800 ≤ n ∧ n < 0xdc00 then
      if 0xdc00 ≤ m ∧ m < 0xe000 then (decodePieces? ps).map (Text.pairChar n m :: ·) else none
    else if 0xdc00 ≤ n ∧ n < 0xe000 then none
    else (decodePieces? (.unit m :: ps)).map (Char.ofNat n :: ·)
  | .unit n :: ps =>
    if 0xd800 ≤ n ∧ n < 0xe000 then none else (decodePieces? ps).map (Char.ofNat n :: ·)
  | .stray :: _ => none

namespace Value

/-- Adds a member where its name belongs, in place of one of the same name. -/
def insert (k : Text) (v : Value) : List (Text × Value) → List (Text × Value)
  | [] => [(k, v)]
  | (k', v') :: ms =>
    if k < k' then (k, v) :: (k', v') :: ms
    else if k = k' then (k, v) :: ms
    else (k', v') :: insert k v ms

end Value

mutual

/-- The value of a whole tree whose brackets nest at most `depth` deep. -/
def Tree.toValue? (depth : Nat) : Tree → Option Value
  | .null => some .null
  | .bool b => some (.bool b)
  | .number n => n.value?.map .number
  | .string s => (decodePieces? s).map .string
  | .array items closed =>
    if depth = 0 ∨ !closed then none else (itemValues? (depth - 1) items).map .array
  | .object members closed =>
    if depth = 0 ∨ !closed then none else (memberValues? (depth - 1) [] members).map .object
  | .broken => none

def itemValues? (depth : Nat) : List Tree → Option (List Value)
  | [] => some []
  | t :: ts => do return (← t.toValue? depth) :: (← itemValues? depth ts)

/-- Members are added one by one to those read before. -/
def memberValues? (depth : Nat) (seen : List (Text × Value)) :
    List (List Piece × Tree) → Option (List (Text × Value))
  | [] => some seen
  | (k, t) :: ms => do
    let name ← decodePieces? k
    let value ← t.toValue? depth
    memberValues? depth (Value.insert name value seen) ms

end

namespace Value

/-- Reads a text that holds one value and nothing else. -/
def parse? (t : Text) : Option Value :=
  match scanDocument t with
  | (v, true) => v.toValue? maxDepth
  | (_, false) => none

end Value

end IssueMarkdown.Json
