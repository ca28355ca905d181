import IssueMarkdown.Limit
import IssueMarkdown.Markup.Rule

/-! # Rendering descriptions

A description is converted, or replaced if there is none, and then cut to the limit.
The replacement is never converted, but it is cut.
-/

namespace IssueMarkdown

/-- What stands for a description that is absent or empty. -/
inductive Missing where
  | placeholder (text : Text)
  | empty
  deriving DecidableEq, Repr

namespace Missing

def defaultPlaceholder : Text := "null".toList

instance : Inhabited Missing := ⟨placeholder defaultPlaceholder⟩

/-- The empty text stands for nothing at all. -/
def ofText (t : Text) : Missing := if t.isEmpty then empty else placeholder t

def render : Missing → Text
  | placeholder t => t
  | empty => []

/-- The description in Markdown, or what stands for it. -/
def describe (m : Missing) : Option Text → Text
  | none => m.render
  | some t => if t.isEmpty then m.render else Markup.convert t

@[simp] theorem render_ofText (t : Text) : (ofText t).render = t := by
  cases t <;> rfl

end Missing

/-- How descriptions are rendered in one run. -/
structure Rendering where
  missing : Missing := default
  limit : Limit := .unlimited
  deriving DecidableEq

namespace Rendering

/-- Settings are raw texts; none of them is ever rejected. -/
def ofSettings (limit? missing? : Option Text) : Rendering where
  missing := (missing?.map Missing.ofText).getD default
  limit := (limit?.map Limit.parse).getD .unlimited

def render (r : Rendering) (description : Option Text) : Text :=
  r.limit.cap (r.missing.describe description)

end Rendering

/-- A description under way, with the settings it will be rendered by. -/
structure Draft where
  text : Option Text
  rendering : Rendering := {}

/-- One change to a draft. -/
inductive Draft.Edit where
  | set (text : Option Text)
  | append (text : Text)
  | apply (rule : Markup.Rule)
  | convert
  | describe
  | missing (text : Option Text)
  | limit (raw : Text)
  | cap
  | render

/-- An absent text counts as the empty one wherever a text is needed. -/
def Draft.edit (d : Draft) : Draft.Edit → Draft
  | .set t => { d with text := t }
  | .append t => { d with text := some (d.text.getD [] ++ t) }
  | .apply r => { d with text := some (r.apply (d.text.getD [])) }
  | .convert => { d with text := some (Markup.convert (d.text.getD [])) }
  | .describe => { d with text := some (d.rendering.missing.describe d.text) }
  | .missing t => { d with rendering.missing := (t.map Missing.ofText).getD default }
  | .limit raw => { d with rendering.limit := .parse raw }
  | .cap => { d with text := some (d.rendering.limit.cap (d.text.getD [])) }
  | .render => { d with text := some (d.rendering.render d.text) }

end IssueMarkdown
