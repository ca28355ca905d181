import IssueMarkdown.Json.Value

/-! # Printing JSON

Quotes, backslashes and control characters are escaped, everything else stands for itself.
Values are printed on one line, or with two blanks of indentation for each level.
-/

namespace IssueMarkdown.Json

/-- The lower case hexadecimal digit of a number below sixteen. -/
def hexDigit (n : Nat) : Char := Nat.digitChar n

def escapeChar : Char → Text
  | '"' => ['\\', '"']
  | '\\' => ['\\', '\\']
  | '\x08' => ['\\', 'b']
  | '\x0c' => ['\\', 'f']
  | '\n' => ['\\', 'n']
  | '\r' => ['\\', 'r']
  | '\t' => ['\\', 't']
  | c =>
    if c < ' ' then ['\\', 'u', '0', '0', hexDigit (c.toNat / 16), hexDigit (c.toNat % 16)]
    else [c]

/-- A text in quotes. -/
def quote (t : Text) : Text := '"' :: (t.flatMap escapeChar ++ ['"'])

def boolText (b : Bool) : Text := if b then ['t', 'r', 'u', 'e'] else ['f', 'a', 'l', 's', 'e']

def nullText : Text := ['n', 'u', 'l', 'l']

namespace Value

mutual

/-- A value on one line, without blanks. -/
def compact : Value → Text
  | .null => nullText
  | .bool b => boolText b
  | .number n => n.text
  | .string s => quote s
  | .array [] => ['[', ']']
  | .array (v :: vs) => '[' :: (compact v ++ compactItems vs)
  | .object [] => ['{', '}']
  | .object ((k, v) :: ms) => '{' :: (quote k ++ ':' :: (compact v ++ compactMembers ms))

def compactItems : List Value → Text
  | [] => [']']
  | v :: vs => ',' :: (compact v ++ compactItems vs)

def compactMembers : List (Text × Value) → Text
  | [] => ['}']
  | (k, v) :: ms => ',' :: (quote k ++ ':' :: (compact v ++ compactMembers ms))

end

/-- A line break and the blanks of an indentation level. -/
def newLine (level : Nat) : Text := '\n' :: List.replicate (2 * level) ' '

mutual

/-- A value with every item and member on a line of its own. -/
def pretty (level : Nat) : Value → Text
  | .null => nullText
  | .bool b => boolText b
  | .number n => n.text
  | .string s => quote s
  | .array [] => ['[', ']']
  | .array (v :: vs) =>
    '[' :: (newLine (level + 1) ++ pretty (level + 1) v ++ prettyItems level vs)
  | .object [] => ['{', '}']
  | .object ((k, v) :: ms) =>
    '{' :: (newLine (level + 1) ++ quote k ++ ':' :: ' ' :: pretty (level + 1) v ++
      prettyMembers level ms)

def prettyItems (level : Nat) : List Value → Text
  | [] => newLine level ++ [']']
  | v :: vs => ',' :: (newLine (level + 1) ++ pretty (level + 1) v ++ prettyItems level vs)

def prettyMembers (level : Nat) : List (Text × Value) → Text
  | [] => newLine level ++ ['}']
  | (k, v) :: ms =>
    ',' :: (newLine (level + 1) ++ quote k ++ ':' :: ' ' :: pretty (level + 1) v ++
      prettyMembers level ms)

end

end Value

end IssueMarkdown.Json
