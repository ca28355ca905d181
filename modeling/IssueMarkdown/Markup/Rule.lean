import IssueMarkdown.Markup.Mark

/-! # Conversion rules

A rule replaces the hits of one or two patterns in the whole text. Conversion runs the
seven rules in the standard order; list markers come before headings, which write `#`.
-/

namespace IssueMarkdown.Markup

inductive Rule where
  | status | stripLinks | quotes | panel | code | numberedLists | heading
  deriving DecidableEq, Repr

namespace Rule

/-- The order of conversion. -/
def standard : List Rule := [status, stripLinks, quotes, panel, code, numberedLists, heading]

def name : Rule → Text
  | status => "status".toList
  | stripLinks => "strip-links".toList
  | quotes => "quotes".toList
  | panel => "panel".toList
  | code => "code".toList
  | numberedLists => "numbered-lists".toList
  | heading => "heading".toList

/-- A rule as it is shown to a developer. -/
def describe (r : Rule) : Text := "MarkupRule \x7b name: \"".toList ++ r.name ++ "\" \x7d".toList

/-- The rule of this name. -/
def ofName? (n : Text) : Option Rule := standard.find? fun r => r.name == n

/-- The patterns of a rule; the second one reads what the first one wrote. -/
def patterns : Rule → List Pattern
  | status => [colourPattern]
  | stripLinks => [linkPattern]
  | quotes => [quoteOpenPattern, quoteClosePattern]
  | panel => [panelOpenPattern, panelClosePattern]
  | code => [codePattern]
  | numberedLists => [numberPattern]
  | heading => [headingPattern]

def apply (r : Rule) (t : Text) : Text := r.patterns.foldl (fun t p => p.replace t) t

/-- Each rule reads what the one before it wrote. -/
def applyAll (rules : List Rule) (t : Text) : Text := rules.foldl (fun t r => r.apply t) t

/-- The text after each of the rules in turn. -/
def steps : List Rule → Text → List (Rule × Text)
  | [], _ => []
  | r :: rs, t => (r, r.apply t) :: steps rs (r.apply t)

theorem ofName?_name (r : Rule) : ofName? r.name = some r := by
  cases r <;> decide

theorem applyAll_eq_getLast_steps (rs : List Rule) (t : Text) :
    applyAll rs t = ((steps rs t).getLast?.map (·.2)).getD t := by
  induction rs generalizing t with
  | nil => rfl
  | cons r rs ih =>
    show applyAll rs (r.apply t) = _
    rw [ih]
    cases rs with
    | nil => rfl
    | cons s rs => simp [steps, List.getLast?_cons]

end Rule

/-- Wiki markup as Markdown. -/
def convert (t : Text) : Text := Rule.applyAll Rule.standard t

end IssueMarkdown.Markup
