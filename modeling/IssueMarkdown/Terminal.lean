import IssueMarkdown.Text.Utf8

/-! # Text without terminal control

A text that does not go to a terminal loses its escape sequences and its control characters
other than white space. Escape sequences are followed by the state machine of the VT500 series.

A printer skips until it meets a character that is shown, then copies while characters are
shown; what it copies is judged as if no sequence were open, but the sequence stays open until
a control character closes it.
-/

namespace IssueMarkdown.Terminal

/-- How far an escape sequence has been read. -/
inductive State where
  | ground
  | escape | escapeIntermediate
  | csiEntry | csiParam | csiIntermediate | csiIgnore
  | dcsEntry | dcsParam | dcsIntermediate | dcsIgnore | dcsPass
  | osc
  | string
  deriving DecidableEq, Repr

def between (lo hi : Nat) (n : Nat) : Bool := lo ≤ n && n ≤ hi

/-- White space among the control characters, which is shown. -/
def isWhite (n : Nat) : Bool := n == 0x09 || n == 0x0a || n == 0x0c || n == 0x0d

/-- A control character other than those that act in every state. -/
def isControl (n : Nat) : Bool := n < 0x20

/-- Whether the byte that ends a control string in eight bit code occurs in a character. -/
def holdsTerminator (c : Char) : Bool := (String.utf8EncodeChar c).contains 0x9c

/-- The state after a character below 0x80, and whether the character is shown. -/
def asciiStep (s : State) (n : Nat) : State × Bool :=
  if n = 0x18 ∨ n = 0x1a then (.ground, false)
  else if n = 0x1b then (.escape, false)
  else match s with
    | .ground => (.ground, isWhite n || between 0x20 0x7e n)
    | .escape =>
      if isControl n then (s, isWhite n)
      else if between 0x20 0x2f n then (.escapeIntermediate, false)
      else if n = 0x5b then (.csiEntry, false)
      else if n = 0x5d then (.osc, false)
      else if n = 0x50 then (.dcsEntry, false)
      else if n = 0x58 ∨ n = 0x5e ∨ n = 0x5f then (.string, false)
      else if n = 0x7f then (s, false)
      else (.ground, false)
    | .escapeIntermediate =>
      if isControl n then (s, isWhite n)
      else if between 0x30 0x7e n then (.ground, false)
      else (s, false)
    | .csiEntry =>
      if isControl n then (s, isWhite n)
      else if between 0x20 0x2f n then (.csiIntermediate, false)
      else if between 0x30 0x3f n then (.csiParam, false)
      else if between 0x40 0x7e n then (.ground, false)
      else (s, false)
    | .csiParam =>
      if isControl n then (s, isWhite n)
      else if between 0x20 0x2f n then (.csiIntermediate, false)
      else if between 0x3c 0x3f n then (.csiIgnore, false)
      else if between 0x40 0x7e n then (.ground, false)
      else (s, false)
    | .csiIntermediate =>
      if isControl n then (s, isWhite n)
      else if between 0x30 0x3f n then (.csiIgnore, false)
      else if between 0x40 0x7e n then (.ground, false)
      else (s, false)
    | .csiIgnore =>
      if isControl n then (s, isWhite n)
      else if between 0x40 0x7e n then (.ground, false)
      else (s, false)
    | .dcsEntry =>
      if between 0x20 0x2f n then (.dcsIntermediate, false)
      else if between 0x30 0x3f n then (.dcsParam, false)
      else if between 0x40 0x7e n then (.dcsPass, false)
      else (s, false)
    | .dcsParam =>
      if between 0x20 0x2f n then (.dcsIntermediate, false)
      else if between 0x3c 0x3f n then (.dcsIgnore, false)
      else if between 0x40 0x7e n then (.dcsPass, false)
      else (s, false)
    | .dcsIntermediate =>
      if between 0x30 0x3f n then (.dcsIgnore, false)
      else if between 0x40 0x7e n then (.dcsPass, false)
      else (s, false)
    | .osc => if n = 0x07 then (.ground, false) else (s, false)
    | .dcsIgnore | .dcsPass | .string => (s, false)

/-- The state after a character, and whether the character is shown. A character above 0x7f is
shown only outside of sequences. -/
def step (s : State) (c : Char) : State × Bool :=
  if c.toNat < 0x80 then asciiStep s c.toNat
  else match s with
    | .ground => (.ground, true)
    | .dcsIgnore | .dcsPass | .string => (if holdsTerminator c then .ground else s, false)
    | _ => (s, false)

/-- Whether a character that is copied closes an open sequence. -/
def closes (c : Char) : Bool := 0x80 ≤ c.toNat || c.toNat = 0x18 || c.toNat = 0x1a

/-- The state of the machine while it copies, where only few characters change it. -/
def copyState (s : State) (c : Char) : State :=
  if closes c then .ground else if c.toNat = 0x1b then .escape else s

/-- The shown part of one piece of text, and the state after it. -/
def strip (s : State) (copying : Bool) : Text → State × Text
  | [] => (s, [])
  | c :: t =>
    let shownHere := (step .ground c).2
    if copying && shownHere then
      let (s', r) := strip (copyState s c) true t
      (s', c :: r)
    else
      let (s₁, shown) := step (if copying then copyState s c else s) c
      if shown then
        let (s', r) := strip (copyState s₁ c) true t
        (s', c :: r)
      else strip s₁ false t

/-- The shown part of a text printed in pieces; each piece starts out skipping. -/
def stripPieces (s : State) : List Text → Text
  | [] => []
  | p :: ps => (strip s false p).2 ++ stripPieces (strip s false p).1 ps

/-- The shown part of a text printed at once. -/
def shown (pieces : List Text) : Text := stripPieces .ground pieces

end IssueMarkdown.Terminal
