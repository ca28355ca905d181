import IssueMarkdown.Json.Printer
import IssueMarkdown.Proofs.Reading
import IssueMarkdown.Proofs.Terminal

/-! # Printed JSON

A text that is printed spells itself, escaped as it is. Where the texts of a value are free of
U+007F, none of its characters is lost on the way to a reader.
-/

namespace IssueMarkdown.Json

open Text

variable {s t : Text}

/-! ## Strings -/

theorem hexUnit?_control :
    ∀ n < 0x20, hexUnit? '0' '0' (hexDigit (n / 16)) (hexDigit (n % 16)) = some n := by
  decide

theorem Spells.escapeChar (h : Spells s t) (c : Char) : Spells (escapeChar c ++ s) (c :: t) := by
  unfold Json.escapeChar
  split
  case h_8 hq hb _ _ _ _ _ =>
    split
    · rename_i hc
      have hn : c.toNat < 0x20 := hc
      have hs := h.number (hexUnit?_control c.toNat hn) (.inl (by omega))
      rwa [Char.ofNat_toNat] at hs
    · rename_i hc
      exact h.char (Char.not_lt.mp hc) (by simpa using ⟨hq, hb⟩)
  all_goals exact h.letter rfl

theorem spells_flatMap_escapeChar (t : Text) : Spells (t.flatMap escapeChar) t := by
  induction t with
  | nil => exact .nil
  | cons c t ih => exact ih.escapeChar c

theorem isSpace_newLine (level : ℕ) : ∀ c ∈ Value.newLine level, isSpace c := by
  intro c hc
  rcases List.mem_cons.mp hc with rfl | hc
  · rfl
  · rw [List.eq_of_mem_replicate hc]
    rfl

/-! ## Characters -/

section Characters

open Terminal

variable {c : Char} {ms : List (Text × Value)}

theorem isShown_hexDigit : ∀ n < 16, isShown (hexDigit n) := by
  decide

theorem isShown_escapeChar (hc : c ≠ '\x7f') : ∀ d ∈ escapeChar c, isShown d := by
  unfold escapeChar
  split
  case h_8 =>
    split
    · rename_i hl
      have hn : c.toNat < 0x20 := hl
      simp only [List.forall_mem_cons]
      exact ⟨by decide, by decide, by decide, by decide, isShown_hexDigit _ (by omega),
        isShown_hexDigit _ (by omega), by simp⟩
    · rename_i hl
      simpa using isShown_of_le (Char.not_lt.mp hl) hc
  all_goals decide

theorem isShown_quote (ht : '\x7f' ∉ t) : ∀ c ∈ quote t, isShown c := by
  have hc : ∀ c ∈ t.flatMap escapeChar, isShown c := by
    intro d hd
    obtain ⟨c, hc, hd⟩ := List.mem_flatMap.mp hd
    exact isShown_escapeChar (fun he => ht (he ▸ hc)) d hd
  simp only [quote, List.forall_mem_cons, List.forall_mem_append]
  exact ⟨by decide, hc, by decide⟩

theorem isShown_newLine (level : ℕ) : ∀ c ∈ Value.newLine level, isShown c :=
  List.forall_mem_cons.mpr ⟨by decide, fun c hc => List.eq_of_mem_replicate hc ▸ by decide⟩

namespace Value

/-- However deep the value is printed, each of its characters is shown. -/
def IsShown (v : Value) : Prop := ∀ level, ∀ c ∈ v.pretty level, isShown c

theorem isShown_null : Value.null.IsShown := fun level => by
  rw [pretty]
  decide

theorem isShown_string (ht : '\x7f' ∉ t) : (Value.string t).IsShown := fun level => by
  rw [pretty]
  exact isShown_quote ht

theorem isShown_prettyMembers (h : ∀ m ∈ ms, '\x7f' ∉ m.1 ∧ m.2.IsShown) (level : ℕ) :
    ∀ c ∈ prettyMembers level ms, isShown c := by
  induction ms with
  | nil =>
    simp only [prettyMembers, List.forall_mem_append]
    exact ⟨isShown_newLine level, by decide⟩
  | cons m ms ih =>
    obtain ⟨⟨hk, hv⟩, h⟩ := List.forall_mem_cons.mp h
    simp only [prettyMembers, List.forall_mem_append, List.forall_mem_cons]
    exact ⟨by decide, ⟨⟨isShown_newLine _, isShown_quote hk⟩, by decide, by decide, hv _⟩, ih h⟩

theorem isShown_object (h : ∀ m ∈ ms, '\x7f' ∉ m.1 ∧ m.2.IsShown) : (Value.object ms).IsShown := by
  intro level
  cases ms with
  | nil =>
    rw [pretty]
    decide
  | cons m ms =>
    obtain ⟨⟨hk, hv⟩, h⟩ := List.forall_mem_cons.mp h
    simp only [pretty, List.forall_mem_append, List.forall_mem_cons]
    exact ⟨by decide, ⟨⟨isShown_newLine _, isShown_quote hk⟩, by decide, by decide, hv _⟩,
      isShown_prettyMembers h level⟩

end Value

end Characters

end IssueMarkdown.Json
