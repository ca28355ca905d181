import IssueMarkdown.Text
import Mathlib.Data.List.TakeWhile

/-! # What recognisers accept

A recogniser accepts exactly the texts that begin with the thing it looks for. One that
takes no character of a kind gives the same answer whatever follows such a character.
-/

namespace IssueMarkdown.Text

variable {lead t r : Text} {p : Char → Bool} {n : ℕ} {x : Char}

/-- Decided along the list, and not over all characters. -/
instance (priority := 2000) {q : Char → Prop} [DecidablePred q] (s : List Char) :
    Decidable (∀ c ∈ s, q c) :=
  List.decidableBAll q s

/-! ## Accepted texts -/

theorem after?_eq_some_iff : after? lead t = some r ↔ t = lead ++ r := by
  unfold after?
  induction lead generalizing t with
  | nil => simp [afterBy?]
  | cons l ls ih =>
    cases t with
    | nil => simp [afterBy?]
    | cons c t =>
      simp only [afterBy?, beq_iff_eq, Option.ite_none_right_eq_some, ih, List.cons_append,
        List.cons.injEq, eq_comm (a := l)]

theorem after?_eq_none_iff : after? lead t = none ↔ ¬ lead <+: t := by
  constructor
  · rintro h ⟨r, he⟩
    simp [after?_eq_some_iff.mpr he.symm] at h
  · intro h
    by_contra hn
    obtain ⟨r, hr⟩ := Option.ne_none_iff_exists'.mp hn
    exact h ⟨r, (after?_eq_some_iff.mp hr).symm⟩

theorem afterAnyCase?_eq_some_iff : afterAnyCase? lead t = some r ↔
    ∃ u, u.map Char.toLower = lead.map Char.toLower ∧ t = u ++ r := by
  unfold afterAnyCase?
  induction lead generalizing t with
  | nil => simp [afterBy?, eq_comm]
  | cons l ls ih =>
    cases t with
    | nil =>
      simp only [afterBy?, reduceCtorEq, false_iff, not_exists, not_and]
      rintro u hu he
      obtain ⟨rfl, -⟩ := List.append_eq_nil_iff.mp he.symm
      simp at hu
    | cons c t =>
      simp only [afterBy?, beq_iff_eq, Option.ite_none_right_eq_some, ih]
      constructor
      · rintro ⟨hc, u, hu, rfl⟩
        exact ⟨c :: u, by simp [hc, hu], rfl⟩
      · rintro ⟨_ | ⟨c', u⟩, hu, he⟩
        · simp at hu
        · obtain ⟨rfl, rfl⟩ := List.cons.inj he
          obtain ⟨hc, hu⟩ := List.cons.inj hu
          exact ⟨hc.symm, u, hu, rfl⟩

theorem exactly?_eq_some_iff : exactly? p n t = some r ↔
    ∃ u, u.length = n ∧ (∀ c ∈ u, p c) ∧ t = u ++ r := by
  induction n generalizing t with
  | zero => simp [exactly?, List.length_eq_zero_iff, eq_comm (a := t)]
  | succ n ih =>
    cases t with
    | nil =>
      simp only [exactly?, reduceCtorEq, false_iff, not_exists, not_and]
      rintro u hu - he
      obtain ⟨rfl, -⟩ := List.append_eq_nil_iff.mp he.symm
      simp at hu
    | cons c t =>
      simp only [exactly?, Option.ite_none_right_eq_some, ih]
      constructor
      · rintro ⟨hc, u, rfl, hu, rfl⟩
        exact ⟨c :: u, rfl, by simpa using ⟨hc, hu⟩, rfl⟩
      · rintro ⟨_ | ⟨c', u⟩, hn, hu, he⟩
        · simp at hn
        · obtain ⟨rfl, rfl⟩ := List.cons.inj he
          obtain ⟨hc, hu⟩ := List.forall_mem_cons.mp hu
          exact ⟨hc, u, Nat.succ.inj hn, hu, rfl⟩

/-- A run goes as far as it can. -/
theorem dropWhile_append_of_stop (hu : ∀ c ∈ u, p c) (hr : ∀ c ∈ r.head?, p c = false) :
    (u ++ r).dropWhile p = r := by
  rw [List.dropWhile_append_of_pos hu]
  cases r with
  | nil => rfl
  | cons c r => simp [hr c rfl]

theorem takeWhile_append_of_stop (hu : ∀ c ∈ u, p c) (hr : ∀ c ∈ r.head?, p c = false) :
    (u ++ r).takeWhile p = u := by
  rw [List.takeWhile_append_of_pos hu]
  cases r with
  | nil => simp
  | cons c r => simp [hr c rfl]

theorem head?_dropWhile (p : Char → Bool) (t : Text) :
    ∀ c ∈ (t.dropWhile p).head?, p c = false := by
  intro c hc
  have := List.head?_dropWhile_not p t
  rw [Option.mem_def.mp hc] at this
  simpa using this

theorem run?_eq_some_iff : run? p t = some r ↔
    ∃ u, u ≠ [] ∧ (∀ c ∈ u, p c) ∧ (∀ c ∈ r.head?, p c = false) ∧ t = u ++ r := by
  cases t with
  | nil =>
    simp only [run?, reduceCtorEq, false_iff]
    rintro ⟨u, hn, -, -, he⟩
    exact hn (List.append_eq_nil_iff.mp he.symm).1
  | cons c t =>
    simp only [run?, Option.ite_none_right_eq_some, Option.some.injEq]
    constructor
    · rintro ⟨hc, rfl⟩
      refine ⟨c :: t.takeWhile p, by simp, ?_, head?_dropWhile p t, by simp⟩
      exact List.forall_mem_cons.mpr ⟨hc, fun d hd => List.mem_takeWhile_imp hd⟩
    · rintro ⟨_ | ⟨d, u⟩, hn, hu, hr, he⟩
      · exact absurd rfl hn
      · obtain ⟨rfl, rfl⟩ := List.cons.inj he
        obtain ⟨hc, hu⟩ := List.forall_mem_cons.mp hu
        exact ⟨hc, dropWhile_append_of_stop hu hr⟩

/-- The first occurrence of a character splits a text in one way only. -/
theorem first_split_unique {s s' t t' : Text} (hs : x ∉ s) (hs' : x ∉ s')
    (he : s ++ x :: t = s' ++ x :: t') : s = s' ∧ t = t' := by
  have hp : ∀ {s : Text}, x ∉ s → ∀ c ∈ s, (c != x) = true :=
    fun h c hc => by simpa using fun hx : c = x => h (hx ▸ hc)
  have ht := congrArg (List.takeWhile (· != x)) he
  have hd := congrArg (List.dropWhile (· != x)) he
  rw [List.takeWhile_append_of_pos (hp hs), List.takeWhile_append_of_pos (hp hs')] at ht
  rw [List.dropWhile_append_of_pos (hp hs), List.dropWhile_append_of_pos (hp hs')] at hd
  exact ⟨by simpa using ht, by simpa using hd⟩

/-- A word without the character lies on one side of it. -/
theorem infix_or_infix_of_append_cons {m s t : Text} (hx : x ∉ m) (h : m <:+: s ++ x :: t) :
    m <:+: s ∨ m <:+: t := by
  obtain ⟨a, b, he⟩ := h
  rcases List.append_eq_append_iff.mp he with ⟨d, rfl, -⟩ | ⟨d, hs, ht⟩
  · exact .inl ⟨a, d, rfl⟩
  · rcases List.append_eq_append_iff.mp hs with ⟨e, rfl, rfl⟩ | ⟨e, rfl, rfl⟩
    · cases d with
      | nil => exact .inl ⟨a, [], by simp⟩
      | cons y d =>
        obtain ⟨rfl, -⟩ := List.cons.inj ht
        simp at hx
    · cases e with
      | nil =>
        cases m with
        | nil => exact .inl (List.nil_infix)
        | cons y m =>
          obtain ⟨rfl, -⟩ := List.cons.inj ht
          simp at hx
      | cons y e =>
        obtain ⟨-, rfl⟩ := List.cons.inj ht
        exact .inr ⟨e, b, rfl⟩

/-! ## Trimmed texts -/

/-- `t` is what is left of `raw` without the blanks at either end. -/
structure Trims (raw t : Text) : Prop where
  around : ∃ a b, (∀ c ∈ a, isBlank c) ∧ (∀ c ∈ b, isBlank c) ∧ raw = a ++ (t ++ b)
  head : ∀ c ∈ t.head?, isBlank c = false
  last : ∀ c ∈ t.getLast?, isBlank c = false

theorem dropEndWhile_append_of_stop {b : Text} (hb : ∀ c ∈ b, p c)
    (ht : ∀ c ∈ t.getLast?, p c = false) : dropEndWhile p (t ++ b) = t := by
  rw [dropEndWhile, List.reverse_append, dropWhile_append_of_stop (by simpa using hb)
    (by simpa using ht), List.reverse_reverse]

theorem dropEndWhile_of_stop (ht : ∀ c ∈ t.getLast?, p c = false) : dropEndWhile p t = t := by
  simpa using dropEndWhile_append_of_stop (b := []) (by simp) ht

theorem exists_dropEndWhile_append (p : Char → Bool) (t : Text) :
    ∃ b, (∀ c ∈ b, p c) ∧ t = dropEndWhile p t ++ b := by
  refine ⟨(t.reverse.takeWhile p).reverse, fun c hc => ?_, ?_⟩
  · exact List.mem_takeWhile_imp (List.mem_reverse.mp hc)
  · rw [dropEndWhile, ← List.reverse_append, List.takeWhile_append_dropWhile, List.reverse_reverse]

theorem trims_trim (raw : Text) : Trims raw (trim raw) := by
  obtain ⟨b, hb, ht⟩ := exists_dropEndWhile_append isBlank (raw.dropWhile isBlank)
  refine ⟨⟨raw.takeWhile isBlank, b, fun c hc => List.mem_takeWhile_imp hc, hb, ?_⟩, ?_, ?_⟩
  · rw [trim, ← ht, List.takeWhile_append_dropWhile]
  · intro c hc
    refine head?_dropWhile isBlank raw c ?_
    rw [ht, List.head?_append, ← trim, Option.mem_def.mp hc]
    rfl
  · intro c hc
    refine head?_dropWhile isBlank (raw.dropWhile isBlank).reverse c ?_
    rwa [trim, dropEndWhile, List.getLast?_reverse] at hc

theorem Trims.trim_eq {raw : Text} (h : Trims raw t) : trim raw = t := by
  obtain ⟨⟨a, b, ha, hb, rfl⟩, head, last⟩ := h
  rw [trim]
  by_cases hn : t = []
  · subst hn
    have blank : ∀ c ∈ a ++ b, isBlank c := List.forall_mem_append.mpr ⟨ha, hb⟩
    have none : (a ++ b).dropWhile isBlank = [] := by simpa using blank
    rw [List.nil_append, none]
    rfl
  · obtain ⟨c, t, rfl⟩ := List.exists_cons_of_ne_nil hn
    rw [dropWhile_append_of_stop ha (by simpa using head), dropEndWhile_append_of_stop hb last]

theorem trim_eq_iff {raw : Text} : trim raw = t ↔ Trims raw t :=
  ⟨fun h => h ▸ trims_trim raw, Trims.trim_eq⟩

/-! ## Recognisers that stop -/

/-- A recogniser that never takes `x` gives the same answer whatever follows an `x`. -/
def StopsAt (x : Char) (f : Text → Option Text) : Prop :=
  ∀ a b, f (a ++ x :: b) = (f a).map (· ++ x :: b)

variable {f g : Text → Option Text}

theorem StopsAt.bind (hf : StopsAt x f) (hg : StopsAt x g) :
    StopsAt x fun t => (f t).bind g := by
  intro a b
  simp only [hf a b]
  cases f a with
  | none => rfl
  | some r => exact hg r b

theorem StopsAt.or (hf : StopsAt x f) (hg : StopsAt x g) :
    StopsAt x fun t => (f t).or (g t) := by
  intro a b
  simp only [hf a b, hg a b]
  cases f a <;> rfl

theorem stopsAt_afterBy? {same : Char → Char → Bool} (h : ∀ l ∈ lead, same l x = false) :
    StopsAt x (afterBy? same lead) := by
  intro a b
  induction lead generalizing a with
  | nil => rfl
  | cons l ls ih =>
    obtain ⟨hl, hls⟩ := List.forall_mem_cons.mp h
    cases a with
    | nil => simp [afterBy?, hl]
    | cons c a =>
      simp only [List.cons_append, afterBy?, ih hls]
      split <;> rfl

theorem stopsAt_after? (h : x ∉ lead) : StopsAt x (after? lead) :=
  stopsAt_afterBy? fun _ hl => beq_eq_false_iff_ne.mpr fun he => h (he ▸ hl)

theorem stopsAt_exactly? (h : p x = false) : StopsAt x (exactly? p n) := by
  intro a b
  induction n generalizing a with
  | zero => rfl
  | succ n ih =>
    cases a with
    | nil => simp [exactly?, h]
    | cons c a =>
      simp only [List.cons_append, exactly?, ih]
      split <;> rfl

theorem dropWhile_append_cons (h : p x = false) (a b : Text) :
    (a ++ x :: b).dropWhile p = a.dropWhile p ++ x :: b := by
  rw [List.dropWhile_append]
  split <;> simp_all

theorem takeWhile_append_cons (h : p x = false) (a b : Text) :
    (a ++ x :: b).takeWhile p = a.takeWhile p := by
  induction a with
  | nil => simp [h]
  | cons c a ih => simp only [List.cons_append, List.takeWhile_cons, ih]

theorem stopsAt_run? (h : p x = false) : StopsAt x (run? p) := by
  intro a b
  cases a with
  | nil => simp [run?, h]
  | cons c a =>
    simp only [List.cons_append, run?, dropWhile_append_cons h]
    split <;> rfl

/-- A recogniser of markers that do not end in `x` gives the same answer with an `x` at the end
of the text. -/
theorem append_singleton_of_marker {P : Text → Prop}
    (hf : ∀ t r, f t = some r ↔ ∃ m, P m ∧ t = m ++ r)
    (hP : ∀ m, P m → ∃ b c, m = b ++ [c] ∧ c ≠ x) (s : Text) :
    f (s ++ [x]) = (f s).map (· ++ [x]) := by
  refine Option.ext fun r => ?_
  simp only [Option.map_eq_some_iff, hf]
  constructor
  · rintro ⟨m, hm, he⟩
    obtain ⟨b, c, rfl, hc⟩ := hP m hm
    rcases List.eq_nil_or_concat r with rfl | ⟨r, y, rfl⟩
    · rw [List.append_nil] at he
      exact absurd (List.append_singleton_inj.mp he).2.symm hc
    · rw [List.concat_eq_append, ← List.append_assoc] at he
      obtain ⟨rfl, rfl⟩ := List.append_singleton_inj.mp he
      exact ⟨r, ⟨_, hm, rfl⟩, List.concat_eq_append.symm⟩
  · rintro ⟨r, ⟨m, hm, rfl⟩, rfl⟩
    exact ⟨m, hm, List.append_assoc ..⟩

/-! ## Letters in either case -/

theorem eq_of_toLower_eq {c x : Char} (hx : x.isAlpha = false) (h : c.toLower = x) : c = x := by
  unfold Char.toLower at h
  split at h
  · rename_i hc
    subst h
    -- an upper case letter would have become a lower case one
    have hl := (Bool.or_eq_false_iff.mp hx).2
    replace hl := Bool.and_eq_false_iff.mp hl
    simp only [decide_eq_false_iff_not, ge_iff_le, UInt32.le_iff_toNat_le,
      UInt32.toNat_add] at hl hc
    have h₁ : 'A'.val.toNat = 65 := rfl
    have h₂ : 'Z'.val.toNat = 90 := rfl
    have h₃ : 'a'.val.toNat = 97 := rfl
    have h₄ : 'z'.val.toNat = 122 := rfl
    have h₅ : ('a'.val - 'A'.val).toNat = 32 := rfl
    omega
  · exact h

theorem notMem_of_map_toLower {w u : Text} {x : Char} (h : w.map Char.toLower = u)
    (hx : x.toLower ∉ u) : x ∉ w :=
  fun hm => hx (h ▸ List.mem_map_of_mem hm)

/-- A word in either case begins with the same brace. -/
theorem eq_brace_cons {w u : Text} (h : w.map Char.toLower = '{' :: u) :
    ∃ v, w = '{' :: v ∧ v.map Char.toLower = u := by
  obtain ⟨c, v, rfl, hc, hv⟩ := List.map_eq_cons_iff.mp h
  exact ⟨v, by rw [eq_of_toLower_eq rfl hc], hv⟩

end IssueMarkdown.Text
