import IssueMarkdown.Text

/-! # Patterns and replacement

A pattern finds a hit at the front of a text. Replacement walks the text once from the
left, takes the first hit it meets and goes on after it, so hits never overlap.
-/

namespace IssueMarkdown.Markup

/-- What a pattern found: the text to write in its place and the text still to read. -/
structure Hit where
  out : Text
  rest : Text

/-- A pattern is asked at every position, and told whether a line starts there. -/
structure Pattern where
  /-- Whether a line starts after this character. -/
  breaksLine : Char → Bool
  find? : Bool → Text → Option Hit
  shorter : ∀ {start : Bool} {t : Text} {h : Hit}, find? start t = some h →
    h.rest.length < t.length

namespace Pattern

/-- Replaces every hit. No hit ends in a line break, so no line starts right after one. -/
def replaceFrom (p : Pattern) (start : Bool) (t : Text) : Text :=
  match _h : p.find? start t with
  | some hit => hit.out ++ p.replaceFrom false hit.rest
  | none =>
    match t with
    | [] => []
    | c :: r => c :: p.replaceFrom (p.breaksLine c) r
termination_by t.length
decreasing_by
  · exact p.shorter ‹_›
  · exact Nat.lt_succ_self _

/-- The text with every hit replaced; a line starts at its beginning. -/
def replace (p : Pattern) (t : Text) : Text := p.replaceFrom true t

theorem replaceFrom_of_find? {p : Pattern} {start : Bool} {t : Text} {h : Hit}
    (hit : p.find? start t = some h) :
    p.replaceFrom start t = h.out ++ p.replaceFrom false h.rest := by
  rw [replaceFrom]
  split <;> simp_all

@[simp] theorem find?_nil (p : Pattern) (start : Bool) : p.find? start [] = none := by
  cases h : p.find? start [] with
  | none => rfl
  | some hit => simpa using p.shorter h

@[simp] theorem replaceFrom_nil (p : Pattern) (start : Bool) : p.replaceFrom start [] = [] := by
  rw [replaceFrom]
  split <;> simp_all

theorem replaceFrom_cons {p : Pattern} {start : Bool} {c : Char} {t : Text}
    (miss : p.find? start (c :: t) = none) :
    p.replaceFrom start (c :: t) = c :: p.replaceFrom (p.breaksLine c) t := by
  rw [replaceFrom]
  split <;> simp_all

end Pattern

end IssueMarkdown.Markup
