import IssueMarkdown.Markup.Pattern
import Mathlib.Data.List.Basic

/-! # Laws of replacement

What one hit of a pattern does decides what replacement does to the whole text: which
characters it passes over, which weight it takes away, which texts it leaves alone.
-/

namespace IssueMarkdown.Markup

/-- The sum of the weights of the characters. -/
def weight (w : Char → ℕ) : Text → ℕ
  | [] => 0
  | c :: t => w c + weight w t

@[simp] theorem weight_nil (w : Char → ℕ) : weight w [] = 0 := rfl

@[simp] theorem weight_cons (w : Char → ℕ) (c : Char) (t : Text) :
    weight w (c :: t) = w c + weight w t := rfl

@[simp] theorem weight_append (w : Char → ℕ) (s t : Text) :
    weight w (s ++ t) = weight w s + weight w t := by
  induction s with
  | nil => simp
  | cons c s ih => rw [List.cons_append, weight_cons, weight_cons, ih, Nat.add_assoc]

/-- The weight that counts one character. -/
def occurs (x c : Char) : ℕ := if c = x then 1 else 0

theorem weight_occurs (x : Char) (t : Text) : weight (occurs x) t = t.count x := by
  induction t with
  | nil => rfl
  | cons c t ih =>
    rw [weight_cons, ih, List.count_cons, occurs, Nat.add_comm]
    simp

namespace Pattern

variable {p : Pattern} {start : Bool} {c : Char} {t u : Text} {h : Hit}

/-- The three ways replacement goes on: over a hit, at the end, over one character. -/
theorem scan_induction {motive : Bool → Text → Prop}
    (hit : ∀ start t h, p.find? start t = some h → motive false h.rest → motive start t)
    (done : ∀ start, motive start [])
    (pass : ∀ start c t, p.find? start (c :: t) = none → motive (p.breaksLine c) t →
      motive start (c :: t)) (start : Bool) (t : Text) : motive start t := by
  fun_induction replaceFrom p start t with
  | case1 start t h found ih => exact hit start t h found ih
  | case2 start => exact done start
  | case3 start c t missed ih => exact pass start c t missed ih

/-- Where no hit begins in a text of the kind, and its tails are of the kind as well, it is left
alone. -/
theorem replaceFrom_eq_self {P : Text → Prop} (miss : ∀ t, P t → ∀ start, p.find? start t = none)
    (tail : ∀ c t, P (c :: t) → P t) (start : Bool) (ht : P t) : p.replaceFrom start t = t := by
  induction t generalizing start with
  | nil => exact replaceFrom_nil ..
  | cons c t ih => rw [replaceFrom_cons (miss _ ht start), ih _ (tail c t ht)]

/-! ## Characters passed over -/

/-- No hit begins with the character and no line starts after it. -/
structure Passes (p : Pattern) (c : Char) : Prop where
  find?_cons : ∀ start t, p.find? start (c :: t) = none
  breaksLine : p.breaksLine c = false

theorem replaceFrom_append_of_passes (hu : ∀ c ∈ u, p.Passes c) (start : Bool) (t : Text) :
    p.replaceFrom start (u ++ t) = u ++ p.replaceFrom (start && u.isEmpty) t := by
  induction u generalizing start with
  | nil => simp
  | cons c u ih =>
    obtain ⟨hc, hu⟩ := List.forall_mem_cons.mp hu
    rw [List.cons_append, replaceFrom_cons (hc.find?_cons ..), hc.breaksLine, ih hu]
    simp

/-- Every character but these is passed over. -/
def PassesBut (p : Pattern) (s : List Char) : Prop := ∀ ⦃c⦄, c ∉ s → p.Passes c

theorem PassesBut.mono {s s' : List Char} (hp : p.PassesBut s) (h : s ⊆ s') : p.PassesBut s' :=
  fun _ hc => hp fun hm => hc (h hm)

/-- Replacement passes over the text, whatever follows it. -/
def Keeps (p : Pattern) (u : Text) : Prop :=
  ∀ t, p.replaceFrom false (u ++ t) = u ++ p.replaceFrom false t

theorem keeps_of_passes (hu : ∀ c ∈ u, p.Passes c) : p.Keeps u :=
  fun t => by simpa using replaceFrom_append_of_passes hu false t

theorem PassesBut.keeps {s : List Char} (hp : p.PassesBut s) (hu : ∀ c ∈ u, c ∉ s) : p.Keeps u :=
  keeps_of_passes fun c hc => hp (hu c hc)

theorem Keeps.cons (hf : ∀ t, p.find? false (c :: (u ++ t)) = none) (hc : p.breaksLine c = false)
    (hu : p.Keeps u) : p.Keeps (c :: u) := by
  intro t
  rw [List.cons_append, replaceFrom_cons (hf t), hc, hu t, List.cons_append]

/-! ## Patterns and the start of a line -/

/-- The pattern does not ask whether a line starts. -/
def Anywhere (p : Pattern) : Prop := ∀ t, p.find? true t = p.find? false t

theorem Anywhere.replaceFrom_true (hp : p.Anywhere) (t : Text) :
    p.replaceFrom true t = p.replaceFrom false t := by
  cases hf : p.find? false t with
  | some h => rw [replaceFrom_of_find? hf, replaceFrom_of_find? ((hp t).trans hf)]
  | none =>
    cases t with
    | nil => simp
    | cons c t => rw [replaceFrom_cons hf, replaceFrom_cons ((hp _).trans hf)]

theorem Anywhere.replaceFrom_eq (hp : p.Anywhere) (start : Bool) (t : Text) :
    p.replaceFrom start t = p.replaceFrom false t := by
  cases start with
  | false => rfl
  | true => exact hp.replaceFrom_true t

theorem Anywhere.keeps_cons (hp : p.Anywhere) (hf : ∀ t, p.find? false (c :: (u ++ t)) = none)
    (hu : p.Keeps u) : p.Keeps (c :: u) := by
  intro t
  rw [List.cons_append, replaceFrom_cons (hf t), hp.replaceFrom_eq, hu t, List.cons_append]

/-- Every hit begins where a line starts. -/
def AtLineStart (p : Pattern) : Prop := ∀ t, p.find? false t = none

theorem AtLineStart.replaceFrom_append (hp : p.AtLineStart)
    (hu : ∀ c ∈ u, p.breaksLine c = false) (t : Text) :
    p.replaceFrom false (u ++ t) = u ++ p.replaceFrom false t := by
  induction u with
  | nil => rfl
  | cons c u ih =>
    obtain ⟨hc, hu⟩ := List.forall_mem_cons.mp hu
    rw [List.cons_append, replaceFrom_cons (hp _), hc, ih hu, List.cons_append]

theorem AtLineStart.replaceFrom_false (hp : p.AtLineStart)
    (hu : ∀ c ∈ u, p.breaksLine c = false) : p.replaceFrom false u = u := by
  simpa using hp.replaceFrom_append hu []

theorem AtLineStart.replace_of_hit (hp : p.AtLineStart) (hit : p.find? true t = some h)
    (hr : ∀ c ∈ h.rest, p.breaksLine c = false) : p.replace t = h.out ++ h.rest := by
  rw [replace, replaceFrom_of_find? hit, hp.replaceFrom_false hr]

theorem AtLineStart.replaceFrom_append_of_miss (hp : p.AtLineStart)
    (hu : ∀ c ∈ u, p.breaksLine c = false) (miss : p.find? start (u ++ c :: t) = none) :
    p.replaceFrom start (u ++ c :: t) = u ++ c :: p.replaceFrom (p.breaksLine c) t := by
  cases u with
  | nil => exact replaceFrom_cons miss
  | cons d u =>
    obtain ⟨hd, hu⟩ := List.forall_mem_cons.mp hu
    rw [List.cons_append] at miss ⊢
    rw [replaceFrom_cons miss, hd, hp.replaceFrom_append hu, replaceFrom_cons (hp _),
      List.cons_append]

theorem AtLineStart.replace_of_miss (hp : p.AtLineStart) (miss : p.find? true t = none)
    (ht : ∀ c ∈ t, p.breaksLine c = false) : p.replace t = t := by
  cases t with
  | nil => exact replaceFrom_nil ..
  | cons c t =>
    obtain ⟨hc, ht⟩ := List.forall_mem_cons.mp ht
    rw [replace, replaceFrom_cons miss, hc, hp.replaceFrom_false ht]

/-! ## Weights -/

/-- What every hit takes out of the text and writes in its place. -/
def Turns (p : Pattern) (R : Text → Text → Prop) : Prop :=
  ∀ ⦃start t h⦄, p.find? start t = some h → ∃ u, t = u ++ h.rest ∧ R u h.out

theorem Turns.find?_eq_none {R : Text → Text → Prop} (hp : p.Turns R)
    (h : ∀ u v r, R u v → t ≠ u ++ r) (start : Bool) : p.find? start t = none := by
  by_contra hn
  obtain ⟨hit, found⟩ := Option.ne_none_iff_exists'.mp hn
  obtain ⟨u, he, hu⟩ := hp found
  exact h u hit.out hit.rest hu he

/-- Only what a hit can begin with is not passed over, and what a line starts after. -/
theorem Turns.passesBut {R : Text → Text → Prop} {s : List Char} (hp : p.Turns R)
    (hR : ∀ u v, R u v → ∃ c ∈ s, ∃ u', u = c :: u') (hb : ∀ c, p.breaksLine c → c ∈ s) :
    p.PassesBut s := by
  intro c hc
  constructor
  · intro start t
    refine hp.find?_eq_none ?_ start
    rintro u v r hu he
    obtain ⟨d, hd, u', rfl⟩ := hR u v hu
    obtain ⟨rfl, -⟩ := List.cons.inj he
    exact hc hd
  · exact Bool.eq_false_iff.mpr fun h => hc (hb c h)

/-- Where each hit weighs more than what replaces it, a change makes the text lighter. -/
theorem Turns.replaceFrom_eq_or_weight_lt {R : Text → Text → Prop} {w : Char → ℕ}
    (hp : p.Turns R) (lighter : ∀ u v, R u v → weight w v < weight w u) (start : Bool) (t : Text) :
    p.replaceFrom start t = t ∨ weight w (p.replaceFrom start t) < weight w t := by
  induction start, t using scan_induction (p := p) with
  | hit start t h found ih =>
    rw [replaceFrom_of_find? found]
    obtain ⟨u, rfl, hu⟩ := hp found
    have hlt := lighter _ _ hu
    have hle : weight w (p.replaceFrom false h.rest) ≤ weight w h.rest := by
      rcases ih with ih | ih
      · exact Nat.le_of_eq (congrArg _ ih)
      · exact Nat.le_of_lt ih
    right
    simp only [weight_append]
    omega
  | done start => exact .inl (replaceFrom_nil p start)
  | pass start c t missed ih =>
    rw [replaceFrom_cons missed]
    rcases ih with ih | ih
    · exact .inl (congrArg _ ih)
    · right
      simp only [weight_cons]
      omega

/-- Where each hit weighs as much as what replaces it, so does the whole text. -/
theorem Turns.weight_replaceFrom {R : Text → Text → Prop} {w : Char → ℕ}
    (hp : p.Turns R) (equal : ∀ u v, R u v → weight w v = weight w u) (start : Bool) (t : Text) :
    weight w (p.replaceFrom start t) = weight w t := by
  induction start, t using scan_induction (p := p) with
  | hit start t h found ih =>
    rw [replaceFrom_of_find? found]
    obtain ⟨u, rfl, hu⟩ := hp found
    rw [weight_append, weight_append, ih, equal _ _ hu]
  | done start => rw [replaceFrom_nil]
  | pass start c t missed ih => rw [replaceFrom_cons missed, weight_cons, weight_cons, ih]

theorem Turns.count_replaceFrom {R : Text → Text → Prop} {x : Char}
    (hp : p.Turns R) (equal : ∀ u v, R u v → v.count x = u.count x) (start : Bool) (t : Text) :
    (p.replaceFrom start t).count x = t.count x := by
  simp only [← weight_occurs] at equal ⊢
  exact hp.weight_replaceFrom equal start t

/-- A character that no hit brings in stays out. -/
theorem Turns.notMem_replaceFrom {R : Text → Text → Prop} {x : Char} (hp : p.Turns R)
    (keeps : ∀ u v, R u v → x ∈ v → x ∈ u) (start : Bool) (ht : x ∉ t) :
    x ∉ p.replaceFrom start t := by
  induction start, t using scan_induction (p := p) with
  | hit start t h found ih =>
    rw [replaceFrom_of_find? found]
    obtain ⟨u, rfl, hu⟩ := hp found
    rw [List.mem_append, not_or] at ht ⊢
    exact ⟨fun hm => ht.1 (keeps _ _ hu hm), ih ht.2⟩
  | done start => rwa [replaceFrom_nil]
  | pass start c t missed ih =>
    rw [replaceFrom_cons missed]
    rw [List.mem_cons, not_or] at ht ⊢
    exact ⟨ht.1, ih ht.2⟩

/-- A text without any of the characters that a hit needs is left alone. -/
theorem Turns.replaceFrom_of_notMem {R : Text → Text → Prop} {s : List Char}
    (hp : p.Turns R) (needs : ∀ u v, R u v → ∃ c ∈ s, c ∈ u) (start : Bool)
    (ht : ∀ c ∈ s, c ∉ t) : p.replaceFrom start t = t := by
  refine replaceFrom_eq_self (P := fun t => ∀ c ∈ s, c ∉ t) (fun t ht => ?_) (fun d t ht => ?_)
    start ht
  · refine hp.find?_eq_none fun u v r hu he => ?_
    obtain ⟨c, hc, hcu⟩ := needs _ _ hu
    exact ht c hc (he ▸ List.mem_append_left _ hcu)
  · exact fun c hc hm => ht c hc (List.mem_cons_of_mem d hm)

end Pattern

end IssueMarkdown.Markup
