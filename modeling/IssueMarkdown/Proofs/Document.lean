import IssueMarkdown.Proofs.Block

/-! # Conversion of documents

The source of a document becomes its rendering, block by block. The one exception is a code
span around the word `color`: colours come first in the order of the rules, and take the
inner braces of the span with them.
-/

namespace IssueMarkdown.Markup

open Text Pattern

variable {c : Char} {b : Block} {d : Document} {u : Text}

def Document.converted (d : Document) : Text := unlines (d.map Block.converted)

theorem after?_panelReady_source (b : Block) (d : Document) :
    after? panelCloser (panelReady (Document.source (b :: d))) = none := by
  have hb := after?_panelReady_block b
  by_cases hd : d = []
  · subst hd
    simpa [Document.source] using hb
  · rw [Document.source, List.map_cons, unlines_cons (by simpa using hd),
      panelReady_append_lineFeed, stopsAt_after? (by decide), hb]
    rfl

theorem convert_document (d : Document) : convert d.source = d.converted := by
  induction d with
  | nil =>
    have hs : Settled [] := settled_of_notMem fun _ _ => List.not_mem_nil
    exact hs.convert_line List.not_mem_nil
  | cons b d ih =>
    cases d with
    | nil => simpa [Document.source, Document.converted] using convert_block b
    | cons b' d =>
      have h := convert_append_of_after?_eq_none (after?_panelReady_source b' d) b.source
      rw [ih, convert_block] at h
      exact h

/-! ## The colour word -/

theorem converted_eq_rendering {i : Item} (h : ∀ p, i = .code p → ¬ p.IsColourWord) :
    i.converted = i.rendering := by
  cases i with
  | code p => exact if_neg (h p rfl)
  | _ => rfl

theorem Row.converted_eq_rendering {r : Row} (h : ∀ p, Item.code p ∈ r.items → ¬ p.IsColourWord) :
    r.prompted Item.converted = r.rendering :=
  prompted_congr fun _ hi => Markup.converted_eq_rendering fun p he => h p (he ▸ hi)

theorem Block.converted_eq_rendering (h : ∀ p, Item.code p ∈ b.items → ¬ p.IsColourWord) :
    b.converted = b.rendering := by
  cases b with
  | heading n p => rfl
  | listItem p => rfl
  | row r => exact Row.converted_eq_rendering h
  | panel d r hr => rw [converted, rendering, Row.converted_eq_rendering h]

theorem brace_mem_converted {p : Phrase} (hp : Item.code p ∈ b.items) (hw : p.IsColourWord) :
    '{' ∈ b.converted := by
  have hi : '{' ∈ (Item.code p).converted := by
    rw [Item.converted, if_pos hw]
    decide
  cases b with
  | heading n q => exact absurd hp List.not_mem_nil
  | listItem q => exact absurd hp List.not_mem_nil
  | row r => exact mem_prompted_of_mem hp hi
  | panel d r hr =>
    have hm : '{' ∈ '>' :: ' ' :: r.prompted Item.converted :=
      List.mem_cons_of_mem _ (List.mem_cons_of_mem _ (mem_prompted_of_mem hp hi))
    exact mem_intercalate_of_mem (by simp) hm

/-! ## What a rendering is made of -/

theorem Row.rendering_notMem {r : Row} (h : c ∈ r.rendering) {s : List Char}
    (hs : ∀ x ∈ s, isPlain x = false) (ha : ∀ x ∈ s, x ∉ ['>', ' ', '*', '`']) : c ∉ s := by
  intro hm
  rcases mem_prompted h with h | ⟨i, -, h⟩
  · exact ha c hm (List.mem_append_left ['*', '`'] h)
  · rcases mem_rendering h with h | h
    · exact notMem_of_isPlain h hs hm
    · exact ha c hm (List.mem_append_right ['>', ' '] h)

theorem Block.rendering_notMem (h : c ∈ b.rendering) : c ∉ ['{', '|', '~'] := by
  have row : ∀ {r : Row}, c ∈ r.rendering → c ∉ ['{', '|', '~'] :=
    fun h => Row.rendering_notMem h (by decide) (by decide)
  cases b with
  | heading n p =>
    rcases List.mem_append.mp h with h | h
    · rw [List.eq_of_mem_replicate h]
      decide
    · rcases List.mem_cons.mp h with rfl | h
      · decide
      · exact p.forall_notMem (by decide) c h
  | listItem p =>
    rcases List.mem_append.mp (show c ∈ ['1', '.', ' '] ++ p.text from h) with h | h
    · exact (by decide : ∀ c ∈ ['1', '.', ' '], c ∉ ['{', '|', '~']) c h
    · exact p.forall_notMem (by decide) c h
  | row r => exact row h
  | panel d r hr =>
    rcases mem_intercalate h with h | ⟨l, hl, h⟩
    · rw [List.mem_singleton.mp h]
      decide
    · rcases (by simpa using hl : l = [] ∨ l = noteHead ∨ l = '>' :: ' ' :: r.rendering) with
        rfl | rfl | rfl
      · exact absurd h List.not_mem_nil
      · exact (by decide : ∀ c ∈ noteHead, c ∉ ['{', '|', '~']) c h
      · rcases List.mem_append.mp (show c ∈ ['>', ' '] ++ r.rendering from h) with h | h
        · exact (by decide : ∀ c ∈ ['>', ' '], c ∉ ['{', '|', '~']) c h
        · exact row h

theorem Document.rendering_notMem (h : c ∈ d.rendering) : c ∉ ['{', '|', '~'] := by
  rcases mem_intercalate h with h | ⟨l, hl, h⟩
  · rw [List.mem_singleton.mp h]
    decide
  · obtain ⟨b, -, rfl⟩ := List.mem_map.mp hl
    exact b.rendering_notMem h

theorem settled_rendering (d : Document) : Settled d.rendering :=
  settled_of_notMem fun _ hc hm => d.rendering_notMem hm hc

/-! ## Headings of depth one -/

/-- A heading of depth one is taken for a list item. -/
def Block.relisted : Block → Block
  | heading n p => if n = 0 then listItem p else heading n p
  | b => b

theorem Row.lines_rendering (r : Row) : lines r.rendering = [r.rendering] :=
  lines_of_notMem fun hm =>
    Row.rendering_notMem hm (s := ['\n']) (by decide) (by decide) (by decide)

theorem Row.numbered_titled_rendering {r : Row} (hu : ∀ c ∈ u, c ∈ ['>', ' ']) :
    numbered (u ++ r.rendering) = u ++ r.rendering ∧
      titled (u ++ r.rendering) = u ++ r.rendering := by
  have hn : ∀ c ∈ u ++ r.rendering, c ∉ ['#', '.'] := List.forall_mem_append.mpr
    ⟨fun c hc => (by decide : ∀ c ∈ ['>', ' '], c ∉ ['#', '.']) c (hu c hc),
      fun c hc => Row.rendering_notMem hc (by decide) (by decide)⟩
  exact ⟨numbered_of_notMem fun hm => hn _ hm (by decide),
    titled_of_notMem fun hm => hn _ hm (by decide)⟩

theorem Block.lines_heading (n : Fin 6) (p : Phrase) :
    lines (heading n p).rendering = [(heading n p).rendering] := by
  refine lines_of_notMem fun hm => ?_
  rcases List.mem_append.mp hm with hm | hm
  · exact absurd (List.eq_of_mem_replicate hm) (by decide)
  · rcases List.mem_cons.mp hm with hm | hm
    · exact absurd hm (by decide)
    · exact p.notMem rfl hm

theorem Block.lines_listItem (p : Phrase) :
    lines (listItem p).rendering = [(listItem p).rendering] :=
  lines_of_notMem (lineFeed_notMem_append (u := ['1', '.', ' ']) (by decide))

theorem Block.lines_panel (d : HexDigits 6) (r : Row) (hr : r.rendering ≠ []) :
    lines (panel d r hr).rendering = [[], noteHead, ['>', ' '] ++ r.rendering] := by
  refine lines_unlines (by simp) ?_
  have hl : '\n' ∉ r.rendering :=
    notMem_of_mem_lines (t := r.rendering) (by simp [r.lines_rendering])
  simp only [List.forall_mem_cons]
  exact ⟨by simp, by decide, by simpa using hl, by simp⟩

/-- No line of a block but of a heading of depth one looks like a list item or a heading. -/
theorem Block.numbered_titled_rendering (hb : ∀ p, b ≠ heading 0 p) :
    ∀ l ∈ lines b.rendering, numbered l = l ∧ titled l = l := by
  cases b with
  | heading n p =>
    have hn : n ≠ 0 := fun he => hb p (he ▸ rfl)
    obtain ⟨k, hk⟩ := Nat.exists_eq_succ_of_ne_zero (Fin.val_ne_zero_iff.mpr hn)
    rw [lines_heading]
    simp only [List.mem_singleton, forall_eq, rendering, hk]
    exact ⟨rfl, rfl⟩
  | listItem p =>
    rw [lines_listItem]
    simp only [List.mem_singleton, forall_eq]
    exact ⟨rfl, rfl⟩
  | row r =>
    rw [rendering, r.lines_rendering]
    simp only [List.mem_singleton, forall_eq]
    exact Row.numbered_titled_rendering (u := []) (by simp)
  | panel d r hr =>
    rw [lines_panel]
    simp only [List.forall_mem_cons]
    exact ⟨⟨rfl, rfl⟩, ⟨rfl, rfl⟩, Row.numbered_titled_rendering fun _ hc => hc, by simp⟩

theorem Block.lines_relisted (b : Block) :
    lines b.relisted.rendering = (lines b.rendering).map (titled ∘ numbered) := by
  by_cases hb : ∃ p, b = heading 0 p
  · obtain ⟨p, rfl⟩ := hb
    rw [lines_heading]
    exact lines_listItem p
  · have hf := numbered_titled_rendering fun p he => hb ⟨p, he⟩
    have hr : b.relisted = b := by
      cases b with
      | heading n p =>
        refine if_neg ?_
        rintro rfl
        exact hb ⟨p, rfl⟩
      | _ => rfl
    rw [hr, List.map_congr_left (g := id) fun l hl => by simp [hf l hl], List.map_id]

theorem Document.lines_rendering (hd : d ≠ []) :
    lines d.rendering = d.flatMap fun b => lines b.rendering := by
  rw [rendering, lines_unlines_eq_flatMap (by simpa using hd), List.flatMap_map]

theorem convert_rendering (d : Document) :
    convert d.rendering = Document.rendering (d.map Block.relisted) := by
  apply lines_injective
  rw [(settled_rendering d).lines_convert]
  by_cases hd : d = []
  · subst hd
    rfl
  · rw [Document.lines_rendering hd, Document.lines_rendering (by simpa using hd),
      List.map_flatMap, List.flatMap_map]
    simp only [Block.lines_relisted]

theorem apply_rendering (hd : ∀ p, Block.heading 0 p ∉ d) (r : Rule) :
    r.apply d.rendering = d.rendering := by
  refine (settled_rendering d).apply_eq_self (fun l hl => ?_) r
  by_cases hn : d = []
  · subst hn
    obtain rfl : l = [] := List.mem_singleton.mp hl
    exact ⟨rfl, rfl⟩
  · rw [Document.lines_rendering hn] at hl
    obtain ⟨b, hb, hl⟩ := List.mem_flatMap.mp hl
    exact b.numbered_titled_rendering (fun p he => hd p (he ▸ hb)) l hl

theorem convert_source_eq_iff (d : Document) :
    convert d.source = d.rendering ↔ ∀ p, Item.code p ∈ d.items → ¬ p.IsColourWord := by
  rw [convert_document]
  constructor
  · intro he p hp hw
    obtain ⟨b, hb, hp⟩ := List.mem_flatMap.mp hp
    have hm : '{' ∈ d.converted :=
      mem_intercalate_of_mem (List.mem_map_of_mem hb) (brace_mem_converted hp hw)
    exact d.rendering_notMem (he ▸ hm) (by decide)
  · intro h
    refine congrArg unlines (List.map_congr_left fun b hb => ?_)
    exact b.converted_eq_rendering fun p hp => h p (List.mem_flatMap.mpr ⟨b, hb, hp⟩)

/-- A document is converted to its rendering, unless a code span around the colour word is in it.
The rendering has no mark left in it: only a heading of depth one is taken for a list item when
it is converted again, and without one every rule leaves it alone. -/
theorem convert_source (d : Document) :
    (convert d.source = d.rendering ↔ ∀ p, Item.code p ∈ d.items → ¬ p.IsColourWord) ∧
    (∀ c ∈ d.rendering, c ∉ ['{', '|', '~']) ∧
    convert d.rendering = Document.rendering (d.map Block.relisted) ∧
    ((∀ p, Block.heading 0 p ∉ d) → ∀ r : Rule, r.apply d.rendering = d.rendering) :=
  ⟨convert_source_eq_iff d, fun _ hc => d.rendering_notMem hc, convert_rendering d,
    fun hd => apply_rendering hd⟩

/-- The code span whose inner braces are taken for a colour marker. -/
def colourCode : Document :=
  [.row (.inline ⟨[.code ⟨[⟨"color".toList, by decide, by decide⟩], by simp⟩], by simp⟩)]

theorem convert_colourCode_ne : convert colourCode.source ≠ colourCode.rendering := by
  have hs : convert "\x7b\x7bcolor\x7d\x7d".toList = "\x7b**\x7d".toList := by cbv
  rw [show colourCode.source = "\x7b\x7bcolor\x7d\x7d".toList from rfl, hs]
  decide

end IssueMarkdown.Markup
