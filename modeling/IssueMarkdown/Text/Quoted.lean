import IssueMarkdown.Text
import IssueMarkdown.Text.Printable

/-! # Quoted texts in messages

A text is shown in quotes on one line, with an escape for every character that could not be
told apart or would end the quotation.
-/

namespace IssueMarkdown.Text

/-- A character inside quotes; one that is not printable is given by its number. -/
def quoteChar : Char → Text
  | '"' => ['\\', '"']
  | '\\' => ['\\', '\\']
  | '\n' => ['\\', 'n']
  | '\r' => ['\\', 'r']
  | '\t' => ['\\', 't']
  | '\x00' => ['\\', '0']
  | c => if isPrintable c then [c] else '\\' :: 'u' :: '{' :: (Nat.toDigits 16 c.toNat ++ ['}'])

/-- A text in quotes. -/
def quoted (t : Text) : Text := '"' :: (t.flatMap quoteChar ++ ['"'])

end IssueMarkdown.Text
