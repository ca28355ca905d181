import IssueMarkdown.Markup.Mark
import IssueMarkdown.Proofs.Recognition
import IssueMarkdown.Proofs.Replacement

/-! # Lines

A text is its lines with line feeds between them. A pattern that never takes a line feed
and never looks past one replaces in every line by itself.
-/

namespace IssueMarkdown

namespace Text

variable {l t : Text} {ls : List Text}

/-- Lines with line feeds between them. -/
def unlines (ls : List Text) : Text := ['\n'].intercalate ls

@[simp] theorem unlines_nil : unlines [] = [] := rfl

@[simp] theorem unlines_singleton (l : Text) : unlines [l] = l := List.intercalate_singleton

theorem unlines_cons (hls : ls ≠ []) (l : Text) : unlines (l :: ls) = l ++ '\n' :: unlines ls := by
  rw [unlines, List.intercalate_cons_of_ne_nil hls]
  simp [unlines]

theorem unlines_cons_cons (l m : Text) (ls : List Text) :
    unlines (l :: m :: ls) = l ++ '\n' :: unlines (m :: ls) :=
  unlines_cons (List.cons_ne_nil m ls) l

theorem append_unlines_cons (s l : Text) (ls : List Text) :
    s ++ unlines (l :: ls) = unlines ((s ++ l) :: ls) := by
  cases ls with
  | nil => simp
  | cons m ls => rw [unlines_cons_cons, unlines_cons_cons, List.append_assoc]

theorem unlines_append {ks : List Text} (hks : ks ≠ []) (hls : ls ≠ []) :
    unlines (ks ++ ls) = unlines ks ++ '\n' :: unlines ls := by
  induction ks with
  | nil => exact absurd rfl hks
  | cons k ks ih =>
    by_cases hn : ks = []
    · rw [hn, List.singleton_append, unlines_cons hls, unlines_singleton]
    · rw [List.cons_append, unlines_cons (by simp [hls]), ih hn, unlines_cons hn]
      simp

theorem splitBy_eq_splitOnP (isSep : Char → Bool) (t : Text) :
    splitBy isSep t = t.splitOnP isSep := by
  induction t with
  | nil => rfl
  | cons c t ih =>
    rw [List.splitOnP_cons_eq_if_modifyHead, ← ih, splitBy]
    split
    · rfl
    · cases h : splitBy isSep t with
      | nil => exact absurd h (splitBy_ne_nil isSep t)
      | cons l ls => rfl

theorem lines_eq_splitOn (t : Text) : lines t = t.splitOn '\n' :=
  splitBy_eq_splitOnP _ t

theorem lines_ne_nil (t : Text) : lines t ≠ [] := splitBy_ne_nil _ t

theorem unlines_lines (t : Text) : unlines (lines t) = t := by
  rw [unlines, lines_eq_splitOn, List.intercalate_splitOn]

theorem lines_injective : Function.Injective lines := by
  intro s t h
  rw [← unlines_lines s, h, unlines_lines]

theorem lines_of_notMem (h : '\n' ∉ l) : lines l = [l] := by
  rw [lines_eq_splitOn, List.splitOn_eq_singleton h]

theorem lines_append_lineFeed (s t : Text) : lines (s ++ '\n' :: t) = lines s ++ lines t := by
  simp only [lines_eq_splitOn, List.splitOn_append_cons_self]

/-- A text is one line, or one line above another text. -/
theorem line_induction {motive : Text → Prop} (last : ∀ l, '\n' ∉ l → motive l)
    (more : ∀ l t, '\n' ∉ l → motive t → motive (l ++ '\n' :: t)) (t : Text) : motive t := by
  induction ht : t.length using Nat.strongRecOn generalizing t with
  | _ n ih =>
    by_cases hm : '\n' ∈ t
    · obtain ⟨l, r, rfl, hl⟩ := List.eq_append_cons_of_mem hm
      refine more l r hl (ih r.length ?_ r rfl)
      simp only [← ht, List.length_append, List.length_cons]
      omega
    · exact last t hm

theorem lines_cons (h : '\n' ∉ l) (t : Text) : lines (l ++ '\n' :: t) = l :: lines t := by
  rw [lines_append_lineFeed, lines_of_notMem h, List.singleton_append]

theorem notMem_of_mem_lines (h : l ∈ lines t) : '\n' ∉ l := by
  induction t using line_induction with
  | last k hk =>
    rw [lines_of_notMem hk, List.mem_singleton] at h
    exact h ▸ hk
  | more k t hk ih =>
    rw [lines_cons hk, List.mem_cons] at h
    rcases h with rfl | h
    · exact hk
    · exact ih h

theorem lines_unlines_eq_flatMap (hls : ls ≠ []) : lines (unlines ls) = ls.flatMap lines := by
  induction ls with
  | nil => exact absurd rfl hls
  | cons l ls ih =>
    by_cases hn : ls = []
    · simp [hn]
    · rw [unlines_cons hn, lines_append_lineFeed, ih hn, List.flatMap_cons]

theorem lines_unlines (hls : ls ≠ []) (h : ∀ l ∈ ls, '\n' ∉ l) : lines (unlines ls) = ls := by
  rw [lines_eq_splitOn, unlines, List.splitOn_intercalate '\n' h hls]

end Text

namespace Markup

open Text

theorem isLineFeed_eq_false {l : Text} (hl : '\n' ∉ l) : ∀ c ∈ l, isLineFeed c = false :=
  fun _ hc => beq_eq_false_iff_ne.mpr fun he => hl (he ▸ hc)

/-- The same hit with more text to read after it. -/
def Hit.before (h : Hit) (e : Text) : Hit := ⟨h.out, h.rest ++ e⟩

/-- The same hit with one more line feed and text to read after it. -/
def Hit.above (h : Hit) (t : Text) : Hit := ⟨h.out, h.rest ++ '\n' :: t⟩

namespace Pattern

variable {p : Pattern} {e : Text}

/-- What follows changes no hit before it, and gives none that reaches into it. -/
def Ignores (p : Pattern) (e : Text) : Prop :=
  ∀ start s, p.find? start (s ++ e) = (p.find? start s).map (·.before e)

theorem Ignores.replaceFrom_append {x : Char} {t : Text} (hp : p.Ignores (x :: t)) (start : Bool)
    (s : Text) : p.replaceFrom start (s ++ x :: t) =
      p.replaceFrom start s ++ x :: p.replaceFrom (p.breaksLine x) t := by
  induction start, s using scan_induction (p := p) with
  | hit start s h found ih =>
    have found' := hp start s
    rw [found, Option.map_some] at found'
    rw [replaceFrom_of_find? found, replaceFrom_of_find? found', List.append_assoc]
    exact congrArg _ ih
  | done start =>
    have missed := hp start []
    rw [find?_nil, Option.map_none] at missed
    rw [replaceFrom_nil, List.nil_append]
    exact replaceFrom_cons missed
  | pass start c s missed ih =>
    have missed' := hp start (c :: s)
    rw [missed, Option.map_none] at missed'
    rw [List.cons_append] at missed' ⊢
    rw [replaceFrom_cons missed, replaceFrom_cons missed', ih, List.cons_append]

/-- Replacement works line by line: a line starts after a line feed, what follows it changes no
hit before it, and none is added or lost. -/
structure LineLocal (p : Pattern) : Prop where
  breaksLine : p.breaksLine '\n' = true
  find?_append : ∀ start s t, p.find? start (s ++ '\n' :: t) = (p.find? start s).map (·.above t)
  count_replace : ∀ start t, (p.replaceFrom start t).count '\n' = t.count '\n'

section Recognised

variable {f : Text → Option Text} {out : Text}

theorem ignores_of_recognised (hp : ∀ start t, p.find? start t = (f t).map (⟨out, ·⟩))
    (hf : ∀ s, f (s ++ e) = (f s).map (· ++ e)) : p.Ignores e := by
  intro start s
  rw [hp, hp, hf]
  cases f s <;> rfl

theorem ignores_of_recognised_start
    (hp : ∀ start t, p.find? start t = if start then (f t).map (⟨out, ·⟩) else none)
    (hf : ∀ s, f (s ++ e) = (f s).map (· ++ e)) : p.Ignores e := by
  intro start s
  rw [hp, hp, hf]
  cases start
  · rfl
  · cases f s <;> rfl

theorem find?_append_of_stopsAt (hp : ∀ start t, p.find? start t = (f t).map (⟨out, ·⟩))
    (hf : StopsAt '\n' f) (start : Bool) (s t : Text) :
    p.find? start (s ++ '\n' :: t) = (p.find? start s).map (·.above t) :=
  ignores_of_recognised hp (fun s => hf s t) start s

theorem find?_append_of_stopsAt_start
    (hp : ∀ start t, p.find? start t = if start then (f t).map (⟨out, ·⟩) else none)
    (hf : StopsAt '\n' f) (start : Bool) (s t : Text) :
    p.find? start (s ++ '\n' :: t) = (p.find? start s).map (·.above t) :=
  ignores_of_recognised_start hp (fun s => hf s t) start s

end Recognised

namespace LineLocal

theorem replaceFrom_append (hp : p.LineLocal) (start : Bool) (s t : Text) :
    p.replaceFrom start (s ++ '\n' :: t) = p.replaceFrom start s ++ '\n' :: p.replace t := by
  have hi : p.Ignores ('\n' :: t) := fun start s => hp.find?_append start s t
  rw [hi.replaceFrom_append, hp.breaksLine]
  rfl

theorem replace_append (hp : p.LineLocal) (s t : Text) :
    p.replace (s ++ '\n' :: t) = p.replace s ++ '\n' :: p.replace t :=
  hp.replaceFrom_append true s t

theorem replace_unlines (hp : p.LineLocal) (ls : List Text) :
    p.replace (unlines ls) = unlines (ls.map p.replace) := by
  induction ls with
  | nil => exact replaceFrom_nil p true
  | cons l ls ih =>
    by_cases hn : ls = []
    · simp [hn]
    · rw [unlines_cons hn, hp.replace_append, ih, List.map_cons, unlines_cons (by simpa using hn)]

theorem lineFeed_notMem_replace (hp : p.LineLocal) {l : Text} (hl : '\n' ∉ l) :
    '\n' ∉ p.replace l := by
  rw [← List.count_eq_zero] at hl ⊢
  exact (hp.count_replace true l).trans hl

/-- The lines after replacement are the lines before it, each replaced by itself. -/
theorem lines_replace (hp : p.LineLocal) (t : Text) :
    lines (p.replace t) = (lines t).map p.replace := by
  conv_lhs => rw [← unlines_lines t, hp.replace_unlines]
  refine lines_unlines (by simpa using lines_ne_nil t) ?_
  simp only [List.forall_mem_map]
  exact fun l hl => hp.lineFeed_notMem_replace (notMem_of_mem_lines hl)

theorem replace_eq_self_iff (hp : p.LineLocal) (t : Text) :
    p.replace t = t ↔ ∀ l ∈ lines t, p.replace l = l := by
  constructor
  · intro he
    have hm := hp.lines_replace t
    rw [he] at hm
    exact List.map_inj_left.mp (hm.symm.trans (List.map_id _).symm)
  · intro h
    conv_lhs => rw [← unlines_lines t, hp.replace_unlines, List.map_congr_left h]
    simpa using unlines_lines t

end LineLocal

end Pattern

end Markup

end IssueMarkdown
