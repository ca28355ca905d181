import IssueMarkdown.Text.Utf8

/-! # Bytes that may be no text

Bytes are read one after the other, as UTF-8 or as the units of UTF-16. What is no character is
replaced, and nothing behind it is lost: a byte that does not continue a character may begin one.
-/

namespace IssueMarkdown.Text

/-! ## UTF-8 -/

/-- A character of which bytes are due, between which bounds the next one lies, and the bits that
are known of it. -/
structure Partial where
  due : Nat
  low : Nat := 0x80
  high : Nat := 0xbf
  bits : Nat
  deriving DecidableEq, Repr

/-- What was read, `none` for bytes that are no character, and the character that is begun. -/
abbrev Step := List (Option Char) × Option Partial

/-- Reads the first byte of a character. Surrogates, and characters that are written longer than
they need be, are ruled out by the bounds of the second one. -/
def firstByte (b : Nat) : Step :=
  if b < 0x80 then ([some (Char.ofNat b)], none)
  else if 0xc2 ≤ b ∧ b < 0xe0 then ([], some { due := 1, bits := b - 0xc0 })
  else if 0xe0 ≤ b ∧ b < 0xf0 then
    ([], some { due := 2, low := if b = 0xe0 then 0xa0 else 0x80,
                high := if b = 0xed then 0x9f else 0xbf, bits := b - 0xe0 })
  else if 0xf0 ≤ b ∧ b < 0xf5 then
    ([], some { due := 3, low := if b = 0xf0 then 0x90 else 0x80,
                high := if b = 0xf4 then 0x8f else 0xbf, bits := b - 0xf0 })
  else ([none], none)

/-- Reads the next byte. One that does not go on with what is begun is read as a first byte. -/
def nextByte : Option Partial → Nat → Step
  | none, b => firstByte b
  | some p, b =>
    if p.low ≤ b ∧ b ≤ p.high then
      let bits := 64 * p.bits + (b - 0x80)
      if p.due = 1 then ([some (Char.ofNat bits)], none)
      else ([], some { due := p.due - 1, bits })
    else
      let (cs, p) := firstByte b
      (none :: cs, p)

/-- What is left at the end: nothing, or bytes that are no character. -/
def broken : Option Partial → List (Option Char)
  | none => []
  | some _ => [none]

/-- Reads bytes after what is begun. -/
def decodeFrom (p : Option Partial) : List UInt8 → List (Option Char)
  | [] => broken p
  | b :: bs =>
    let (cs, p) := nextByte p b.toNat
    cs ++ decodeFrom p bs

/-- Stands for what is no character. -/
def replacement : Char := '\ufffd'

/-- The text of bytes in UTF-8, with replacements. -/
def lossy (bytes : List UInt8) : Text := (decodeFrom none bytes).map (·.getD replacement)

/-! ## UTF-16 -/

def isHigh (n : Nat) : Bool := 0xd800 ≤ n && n < 0xdc00

def isLow (n : Nat) : Bool := 0xdc00 ≤ n && n < 0xe000

/-- A surrogate pair as the character it stands for. -/
def pairChar (hi lo : Nat) : Char := Char.ofNat (0x10000 + (hi - 0xd800) * 0x400 + (lo - 0xdc00))

/-- The text of units, of which the last may be cut in half. -/
def ofUnits (halved : Bool) : List Nat → Text
  | [] => if halved then [replacement] else []
  | [u] =>
    if isHigh u then [replacement]
    else (if isLow u then replacement else Char.ofNat u) :: ofUnits halved []
  | u :: v :: us =>
    if isHigh u then
      if isLow v then pairChar u v :: ofUnits halved us else replacement :: ofUnits halved (v :: us)
    else (if isLow u then replacement else Char.ofNat u) :: ofUnits halved (v :: us)

/-- The units of two bytes each, the more significant one first or last. -/
def units (bigEndian : Bool) : List UInt8 → List Nat
  | a :: b :: bs =>
    (if bigEndian then 256 * a.toNat + b.toNat else 256 * b.toNat + a.toNat) :: units bigEndian bs
  | _ => []

/-- The text of bytes in UTF-16, with replacements. -/
def utf16 (bigEndian : Bool) (bytes : List UInt8) : Text :=
  ofUnits (bytes.length % 2 == 1) (units bigEndian bytes)

end IssueMarkdown.Text
