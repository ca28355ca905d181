import IssueMarkdown.Proofs.Callout

/-! # Conversion of blocks

Headings and list items have no mark that an earlier rule finds. The opener and the closer
of a panel pass the rules before panels, so the line between them becomes a note.
-/

namespace IssueMarkdown.Markup

open Text Pattern

variable {c : Char} {u : Text}

def Block.converted : Block → Text
  | row r => r.prompted Item.converted
  | panel _ r _ => unlines [[], noteHead, '>' :: ' ' :: r.prompted Item.converted]
  | b => b.rendering

theorem settled_of_isPlain {p : Phrase} (hu : ∀ c ∈ u, c ∉ ['{', '|', '~']) :
    Settled (u ++ p.text) := by
  refine settled_of_notMem fun c hc hm => ?_
  rcases List.mem_append.mp hm with hm | hm
  · exact hu c hm hc
  · exact p.forall_notMem (by decide) c hm hc

theorem lineFeed_notMem_append {p : Phrase} (hu : '\n' ∉ u) : '\n' ∉ u ++ p.text :=
  fun hm => (List.mem_append.mp hm).elim hu (p.notMem rfl)

/-- The marker of a heading. -/
def headingMarker (n : Fin 6) : Text := ['h', Nat.digitChar (n + 1), '.', ' ']

theorem headingMarker_notMem (n : Fin 6) : ∀ c ∈ headingMarker n, c ∉ ['{', '|', '~', '\n'] := by
  revert n
  decide

theorem depth_digitChar (n : Fin 6) : '1' ≤ Nat.digitChar (n + 1) ∧ Nat.digitChar (n + 1) ≤ '6' ∧
    depth (Nat.digitChar (n + 1)) = n + 1 := by
  revert n
  decide

theorem settled_heading (n : Fin 6) (p : Phrase) : Settled (Block.heading n p).source :=
  settled_of_isPlain (u := headingMarker n) fun c hc hm => headingMarker_notMem n c hc
    (List.mem_append_left ['\n'] hm)

theorem convert_heading (n : Fin 6) (p : Phrase) :
    convert (Block.heading n p).source = (Block.heading n p).rendering := by
  obtain ⟨h₁, h₂, hd⟩ := depth_digitChar n
  obtain ⟨c, t, ht, hc⟩ := p.exists_cons
  have hl : '\n' ∉ (Block.heading n p).source :=
    lineFeed_notMem_append (u := headingMarker n)
      fun hm => headingMarker_notMem n '\n' hm (by decide)
  have hb : (' ' :: p.text).dropWhile isHeadingBlank = p.text := by
    have hs : isHeadingBlank c = false := by
      by_contra hn
      simp only [isHeadingBlank, Bool.not_eq_false, Bool.or_eq_true, beq_iff_eq] at hn
      rcases hn with rfl | rfl <;> exact absurd hc (by decide)
    exact dropWhile_append_of_stop (u := [' ']) (r := p.text) (by decide) (by simpa [ht] using hs)
  rw [(settled_heading n p).convert_line hl, Block.source, numbered_heading, titled_heading h₁ h₂,
    hb, hd]
  rfl

theorem settled_listItem (p : Phrase) : Settled (Block.listItem p).source :=
  settled_of_isPlain (u := ['#', ' ']) (by decide)

theorem convert_listItem (p : Phrase) :
    convert (Block.listItem p).source = (Block.listItem p).rendering :=
  (settled_listItem p).convert_line (lineFeed_notMem_append (u := ['#', ' ']) (by decide))

/-! ## Panels -/

theorem panelReady_panel (d : HexDigits 6) (r : Row) (hr : r.rendering ≠ []) :
    panelReady (Block.panel d r hr).source =
      unlines [[], r.prompted Item.unlinked, panelCloser] := by
  rw [Block.source, panelReady_framed, panelReady_row]

theorem rendering_eq_nil {i : Item} (h : i.unlinked = []) : i.rendering = [] := by
  cases i with
  | word w => exact h
  | code p =>
    by_cases hw : p.IsColourWord
    · simp [unlinked_code_of_isColourWord hw] at h
    · simp [unlinked_code hw] at h
  | link p u => rfl
  | mention w => rfl
  | colour s b p => exact absurd h (List.cons_ne_nil _ _)

theorem prompted_unlinked_ne_nil {r : Row} (h : r.rendering ≠ []) :
    r.prompted Item.unlinked ≠ [] := by
  cases r with
  | quote l => exact List.cons_ne_nil _ _
  | inline l =>
    obtain ⟨i, is, hi⟩ := List.exists_cons_of_ne_nil l.ne_nil
    simp only [Row.rendering, Row.prompted, hi, List.map_cons, unwords] at h ⊢
    by_cases hn : is = []
    · subst hn
      simp only [List.map_nil, List.intercalate_singleton] at h ⊢
      exact fun he => h (rendering_eq_nil he)
    · rw [List.intercalate_cons_of_ne_nil (by simpa using hn)]
      simp

theorem convert_panel (d : HexDigits 6) (r : Row) (hr : r.rendering ≠ []) :
    convert (Block.panel d r hr).source = (Block.panel d r hr).converted := by
  have hl : ∀ c ∈ r.prompted Item.unlinked, isWithinLine c :=
    fun _ hc => isWithinLine_of_mem_prompted hc
  rw [convert_of_panelReady (panelReady_panel d r hr) hl,
    callouts_framed (prompted_unlinked_ne_nil hr) hl]
  simp only [List.map_cons, List.map_nil, finished_nil, finished_noteHead]
  rw [show '>' :: ' ' :: r.prompted Item.unlinked = ['>', ' '] ++ r.prompted Item.unlinked from rfl,
    finished_append_prompted fun _ hc => hc]
  rfl

theorem convert_block (b : Block) : convert b.source = b.converted := by
  cases b with
  | heading n p => exact convert_heading n p
  | listItem p => exact convert_listItem p
  | row r => exact convert_row r
  | panel d r hr => exact convert_panel d r hr

/-- No block closes a panel of the block above it. -/
theorem after?_panelReady_block (b : Block) : after? panelCloser (panelReady b.source) = none := by
  cases b with
  | heading n p =>
    rw [(settled_heading n p).panelReady_eq]
    exact after?_eq_none_iff.mpr fun h => absurd (List.cons_prefix_cons.mp h).1 (by decide)
  | listItem p =>
    rw [(settled_listItem p).panelReady_eq]
    exact after?_eq_none_iff.mpr fun h => absurd (List.cons_prefix_cons.mp h).1 (by decide)
  | row r =>
    rw [Block.source, panelReady_row]
    cases r with
    | inline l => exact after?_unwords_unlinked (by decide) _ _
    | quote l => rfl
  | panel d r hr =>
    rw [panelReady_panel]
    rfl

end IssueMarkdown.Markup
