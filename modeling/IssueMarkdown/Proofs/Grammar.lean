import IssueMarkdown.Proofs.Colour
import IssueMarkdown.Proofs.Link
import IssueMarkdown.Proofs.Panel
import IssueMarkdown.Proofs.Quote

/-! # The supported grammar

A document is a list of blocks, one above the other. Its source is wiki markup, and its
rendering is the Markdown that stands for it, block by block and item by item.
-/

namespace IssueMarkdown

namespace Text

variable {c : Char} {s l : Text} {ls : List Text}

theorem mem_intercalate (h : c ∈ s.intercalate ls) : c ∈ s ∨ ∃ l ∈ ls, c ∈ l := by
  induction ls with
  | nil => simp at h
  | cons l ls ih =>
    by_cases hn : ls = []
    · subst hn
      exact .inr ⟨l, by simp, by simpa using h⟩
    · rw [List.intercalate_cons_of_ne_nil hn, List.mem_append, List.mem_append] at h
      rcases h with (h | h) | h
      · exact .inr ⟨l, List.mem_cons_self, h⟩
      · exact .inl h
      · exact (ih h).imp_right fun ⟨m, hm, hc⟩ => ⟨m, List.mem_cons_of_mem l hm, hc⟩

theorem mem_intercalate_of_mem (hl : l ∈ ls) (hc : c ∈ l) : c ∈ s.intercalate ls := by
  induction ls with
  | nil => simp at hl
  | cons m ls ih =>
    by_cases hn : ls = []
    · subst hn
      rw [List.mem_singleton] at hl
      simpa [← hl] using hc
    · rw [List.intercalate_cons_of_ne_nil hn, List.mem_append]
      rcases List.mem_cons.mp hl with rfl | hl
      · exact .inl (List.mem_append_left _ hc)
      · exact .inr (ih hl)

/-- Words with single spaces between them. -/
def unwords (ts : List Text) : Text := [' '].intercalate ts

end Text

namespace Markup

open Text

/-! ## Syntax -/

structure Word where
  text : Text
  ne_nil : text ≠ []
  alphanum : ∀ c ∈ text, c.isAlphanum

structure Phrase where
  words : List Word
  ne_nil : words ≠ []

def Phrase.text (p : Phrase) : Text := unwords (p.words.map Word.text)

structure Target where
  text : Text
  ne_nil : text ≠ []
  allowed : ∀ c ∈ text, c.isAlphanum ∨ c ∈ [':', '/', '.', '-', '_', '?', '=', '&']

structure HexDigits (n : ℕ) where
  text : Text
  length_eq : text.length = n
  hex : ∀ c ∈ text, isHex c

inductive Shade where
  | unspecified
  | short (d : HexDigits 3)
  | long (d : HexDigits 6)

inductive Item where
  | word (w : Word)
  | code (p : Phrase)
  | link (p : Phrase) (u : Target)
  | mention (w : Word)
  | colour (s : Shade) (starred : Bool) (p : Phrase)

structure Inline where
  items : List Item
  ne_nil : items ≠ []

inductive Row where
  | inline (l : Inline)
  | quote (l : Inline)

/-! ## Source -/

def Shade.marker : Shade → Text
  | unspecified => colourWord ++ ['}']
  | short d => colourWord ++ ':' :: '#' :: (d.text ++ ['}'])
  | long d => colourWord ++ ':' :: '#' :: (d.text ++ ['}'])

def star (starred : Bool) : Text := if starred then ['*'] else []

def Item.source : Item → Text
  | word w => w.text
  | code p => '{' :: '{' :: (p.text ++ ['}', '}'])
  | link p u => '[' :: (p.text ++ '|' :: (u.text ++ [']']))
  | mention w => mentionLead ++ ':' :: (w.text ++ [']'])
  | colour s b p => (star b ++ s.marker) ++ (p.text ++ (Shade.unspecified.marker ++ star b))

/-- A line whose items are written by `f`, between quote markers if it is a quote. -/
def Row.marked (f : Item → Text) : Row → Text
  | inline l => unwords (l.items.map f)
  | quote l => quoteMarker ++ (unwords (l.items.map f) ++ quoteMarker)

def Row.source (r : Row) : Text := r.marked Item.source

/-! ## Rendering -/

def Item.rendering : Item → Text
  | word w => w.text
  | code p => '`' :: (p.text ++ ['`'])
  | link _ _ | mention _ => []
  | colour _ _ p => ['*', '*'] ++ (p.text ++ ['*', '*'])

/-- A line whose items are written by `f`, after a quotation prompt if it is a quote. -/
def Row.prompted (f : Item → Text) : Row → Text
  | inline l => unwords (l.items.map f)
  | quote l => '>' :: ' ' :: unwords (l.items.map f)

def Row.rendering (r : Row) : Text := r.prompted Item.rendering

/-! ## Documents -/

/-- A panel has a body that something is left of. -/
inductive Block where
  | heading (n : Fin 6) (p : Phrase)
  | listItem (p : Phrase)
  | row (r : Row)
  | panel (d : HexDigits 6) (r : Row) (shown : r.rendering ≠ [])

def panelLead : Text :=
  ['{', 'p', 'a', 'n', 'e', 'l', ':', 'b', 'g', 'C', 'o', 'l', 'o', 'r', '=', '#']

def Block.source : Block → Text
  | heading n p => 'h' :: Nat.digitChar (n + 1) :: '.' :: ' ' :: p.text
  | listItem p => '#' :: ' ' :: p.text
  | row r => r.source
  | panel d r _ => unlines [panelLead ++ (d.text ++ ['}']), r.source, panelCloser]

def Block.rendering : Block → Text
  | heading n p => List.replicate (n + 1) '#' ++ ' ' :: p.text
  | listItem p => '1' :: '.' :: ' ' :: p.text
  | row r => r.rendering
  | panel _ r _ => unlines [[], noteHead, '>' :: ' ' :: r.rendering]

abbrev Document := List Block

def Document.source (d : Document) : Text := unlines (d.map Block.source)

def Document.rendering (d : Document) : Text := unlines (d.map Block.rendering)

def Row.items : Row → List Item
  | inline l | quote l => l.items

def Block.items : Block → List Item
  | heading _ _ | listItem _ => []
  | row r | panel _ r _ => r.items

def Document.items (d : Document) : List Item := d.flatMap Block.items

/-- The word that is a colour marker between braces. -/
def Phrase.IsColourWord (p : Phrase) : Prop := '{' :: p.text.map Char.toLower = colourWord

instance (p : Phrase) : Decidable p.IsColourWord := inferInstanceAs (Decidable (_ = _))

/-! ## Characters -/

/-- What words and the spaces between them are made of. -/
def isPlain (c : Char) : Bool := c.isAlphanum || c == ' '

theorem notMem_of_isPlain {c : Char} {s : List Char} (h : isPlain c)
    (hs : ∀ x ∈ s, isPlain x = false) : c ∉ s := by
  intro hm
  rw [hs c hm] at h
  exact Bool.false_ne_true h

theorem Word.isPlain (w : Word) : ∀ c ∈ w.text, isPlain c :=
  fun c hc => by simp [Markup.isPlain, w.alphanum c hc]

theorem Word.forall_notMem (w : Word) {s : List Char} (hs : ∀ x ∈ s, Markup.isPlain x = false) :
    ∀ c ∈ w.text, c ∉ s :=
  fun c hc => notMem_of_isPlain (w.isPlain c hc) hs

namespace Phrase

variable (p : Phrase)

theorem isPlain : ∀ c ∈ p.text, isPlain c := by
  intro c hc
  rcases mem_intercalate hc with hs | ⟨t, ht, hc⟩
  · rw [List.mem_singleton.mp hs]
    rfl
  · obtain ⟨w, -, rfl⟩ := List.mem_map.mp ht
    exact w.isPlain c hc

theorem exists_cons : ∃ c t, p.text = c :: t ∧ c.isAlphanum := by
  obtain ⟨w, ws, he⟩ := List.exists_cons_of_ne_nil p.ne_nil
  obtain ⟨c, t, ht⟩ := List.exists_cons_of_ne_nil w.ne_nil
  have hc := w.alphanum c (ht ▸ List.mem_cons_self)
  by_cases hn : ws = []
  · exact ⟨c, t, by simp [text, unwords, he, hn, ht], hc⟩
  · refine ⟨c, t ++ ' ' :: unwords (ws.map Word.text), ?_, hc⟩
    rw [text, unwords, he, List.map_cons, List.intercalate_cons_of_ne_nil (by simpa using hn), ht]
    simp [unwords]

theorem text_ne_nil : p.text ≠ [] := by
  obtain ⟨c, t, ht, -⟩ := p.exists_cons
  simp [ht]

theorem forall_notMem {s : List Char} (hs : ∀ x ∈ s, Markup.isPlain x = false) :
    ∀ c ∈ p.text, c ∉ s :=
  fun c hc => notMem_of_isPlain (p.isPlain c hc) hs

theorem notMem {x : Char} (hx : Markup.isPlain x = false) : x ∉ p.text :=
  fun hm => Bool.false_ne_true (hx.symm.trans (p.isPlain x hm))

end Phrase

theorem mem_rendering {c : Char} {i : Item} (h : c ∈ i.rendering) : isPlain c ∨ c ∈ ['*', '`'] := by
  cases i with
  | word w => exact .inl (w.isPlain c h)
  | code p =>
    replace h : c ∈ '`' :: (p.text ++ ['`']) := h
    have := p.isPlain c
    grind
  | link p u => exact absurd h List.not_mem_nil
  | mention w => exact absurd h List.not_mem_nil
  | colour s b p =>
    replace h : c ∈ ['*', '*'] ++ (p.text ++ ['*', '*']) := h
    have := p.isPlain c
    grind

end Markup

end IssueMarkdown
