import IssueMarkdown.Json.Tree
import IssueMarkdown.Proofs.Literal
import IssueMarkdown.Proofs.Recognition

/-! # How a tree is written

The grammar of JSON texts, each with the tree that it writes: blanks around every token, numbers
and strings as the standard has them, brackets nested to any depth. Strings and numbers are read
exactly as the grammar has them.
-/

namespace IssueMarkdown.Json

open Text
open Decimal (AllDigits Sign)

/-! ## The grammar -/

/-- Nothing but blanks. -/
def IsSpaces (t : Text) : Prop := ∀ c ∈ t, isSpace c

/-- What stands between the quotes of a string, with its pieces. -/
inductive WritesPieces : List Piece → Text → Prop where
  | nil : WritesPieces [] []
  | char {c : Char} {ps : List Piece} {s : Text} (hc : ' ' ≤ c) (hn : c ∉ ['"', '\\'])
      (h : WritesPieces ps s) : WritesPieces (.char c :: ps) (c :: s)
  | letter {e c : Char} {ps : List Piece} {s : Text} (he : escape? e = some c)
      (h : WritesPieces ps s) : WritesPieces (.char c :: ps) ('\\' :: e :: s)
  | unit {a b c d : Char} {n : ℕ} {ps : List Piece} {s : Text} (hn : hexUnit? a b c d = some n)
      (h : WritesPieces ps s) : WritesPieces (.unit n :: ps) ('\\' :: 'u' :: a :: b :: c :: d :: s)

inductive WritesFraction : Option Text → Text → Prop where
  | absent : WritesFraction none []
  | present {ds : Text} (hd : AllDigits ds) (hn : ds ≠ []) : WritesFraction (some ds) ('.' :: ds)

inductive WritesPower : Option (Bool × Text) → Text → Prop where
  | absent : WritesPower none []
  | present {c : Char} {s ds : Text} {neg : Bool} (hc : c = 'e' ∨ c = 'E') (hs : Sign s neg)
      (hd : AllDigits ds) (hn : ds ≠ []) : WritesPower (some (neg, ds)) (c :: (s ++ ds))

/-- A number begins with a zero only if no digit follows it. -/
inductive WritesNumber : Literal → Text → Prop where
  | intro {w f p : Text} {frac : Option Text} {power : Option (Bool × Text)} (neg : Bool)
      (hw : AllDigits w) (hn : w ≠ []) (zero : w = ['0'] ∨ w.head? ≠ some '0')
      (hf : WritesFraction frac f) (hp : WritesPower power p) :
      WritesNumber ⟨neg, w, frac, power⟩ ((if neg then ['-'] else []) ++ (w ++ (f ++ p)))

mutual

/-- A value without the blanks around it. -/
inductive Writes : Tree → Text → Prop where
  | null : Writes .null "null".toList
  | bool (b : Bool) : Writes (.bool b) (if b then "true".toList else "false".toList)
  | number {l : Literal} {s : Text} (h : WritesNumber l s) : Writes (.number l) s
  | string {ps : List Piece} {s : Text} (h : WritesPieces ps s) :
      Writes (.string ps) ('"' :: (s ++ ['"']))
  | emptyArray {a : Text} (ha : IsSpaces a) : Writes (.array [] true) ('[' :: (a ++ [']']))
  | array {vs : List Tree} {s : Text} (h : WritesItems vs s) :
      Writes (.array vs true) ('[' :: (s ++ [']']))
  | emptyObject {a : Text} (ha : IsSpaces a) : Writes (.object [] true) ('{' :: (a ++ ['}']))
  | object {ms : List (List Piece × Tree)} {s : Text} (h : WritesMembers ms s) :
      Writes (.object ms true) ('{' :: (s ++ ['}']))

/-- The items of an array, of which there are some. -/
inductive WritesItems : List Tree → Text → Prop where
  | last {v : Tree} {a s b : Text} (ha : IsSpaces a) (h : Writes v s) (hb : IsSpaces b) :
      WritesItems [v] (a ++ (s ++ b))
  | cons {v : Tree} {vs : List Tree} {a s b t : Text} (ha : IsSpaces a) (h : Writes v s)
      (hb : IsSpaces b) (ht : WritesItems vs t) :
      WritesItems (v :: vs) (a ++ (s ++ (b ++ ',' :: t)))

/-- The members of an object, of which there are some. -/
inductive WritesMembers : List (List Piece × Tree) → Text → Prop where
  | last {k : List Piece} {v : Tree} {a q b c s d : Text} (ha : IsSpaces a)
      (hk : WritesPieces k q) (hb : IsSpaces b) (hc : IsSpaces c) (h : Writes v s)
      (hd : IsSpaces d) :
      WritesMembers [(k, v)] (a ++ '"' :: (q ++ '"' :: (b ++ ':' :: (c ++ (s ++ d)))))
  | cons {k : List Piece} {v : Tree} {ms : List (List Piece × Tree)} {a q b c s d t : Text}
      (ha : IsSpaces a) (hk : WritesPieces k q) (hb : IsSpaces b) (hc : IsSpaces c)
      (h : Writes v s) (hd : IsSpaces d) (ht : WritesMembers ms t) :
      WritesMembers ((k, v) :: ms)
        (a ++ '"' :: (q ++ '"' :: (b ++ ':' :: (c ++ (s ++ (d ++ ',' :: t))))))

end

/-- A text that is one value, with blanks around it. -/
def WritesDocument (v : Tree) (t : Text) : Prop :=
  ∃ a s b, IsSpaces a ∧ Writes v s ∧ IsSpaces b ∧ t = a ++ (s ++ b)

variable {a b q r s t : Text} {v : Tree} {ps : List Piece} {l : Literal}

/-! ## Strings -/

theorem WritesPieces.scanString? (h : WritesPieces ps s) (r : Text) :
    scanString? (s ++ '"' :: r) = some (ps, r) := by
  induction h with
  | nil => rfl
  | @char c ps s hc hn h ih =>
    simp only [List.mem_cons, List.not_mem_nil, or_false, not_or] at hn
    have hlt : ¬ (c < ' ' ∨ c = '\\') := not_or.mpr ⟨Char.not_lt.mpr hc, hn.2⟩
    rw [List.cons_append, Json.scanString?, if_neg hlt, ih]
    · rfl
    · exact hn.1
    · rintro _ _ _ _ _ rfl
      exact absurd rfl hn.2
    · rintro _ _ rfl
      exact absurd rfl hn.2
  | @letter e c ps s he h ih =>
    rw [List.cons_append, List.cons_append, Json.scanString?, he, ih]
    · rfl
    · rintro _ _ _ _ _ rfl
      exact absurd he (by simp [escape?])
  | unit hn h ih => simp [Json.scanString?, hn, ih]

theorem exists_writesPieces (h : scanString? t = some (ps, r)) :
    ∃ s, WritesPieces ps s ∧ t = s ++ '"' :: r := by
  fun_induction scanString? t generalizing ps with
  | case1 => simp at h
  | case2 t =>
    obtain ⟨rfl, rfl⟩ := Prod.mk.inj (Option.some.inj h)
    exact ⟨[], .nil, rfl⟩
  | case3 a b c d t ih =>
    obtain ⟨n, hn, h⟩ := Option.bind_eq_some_iff.mp h
    obtain ⟨⟨ps', r'⟩, ht, he⟩ := Option.map_eq_some_iff.mp h
    obtain ⟨rfl, rfl⟩ := Prod.mk.inj he
    obtain ⟨s, hs, rfl⟩ := ih ht
    exact ⟨_, .unit hn hs, rfl⟩
  | case4 e t _ ih =>
    obtain ⟨c, hc, h⟩ := Option.bind_eq_some_iff.mp h
    obtain ⟨⟨ps', r'⟩, ht, he⟩ := Option.map_eq_some_iff.mp h
    obtain ⟨rfl, rfl⟩ := Prod.mk.inj he
    obtain ⟨s, hs, rfl⟩ := ih ht
    exact ⟨_, .letter hc hs, rfl⟩
  | case5 => simp at h
  | case6 c t hq _ _ hc ih =>
    obtain ⟨⟨ps', r'⟩, ht, he⟩ := Option.map_eq_some_iff.mp h
    obtain ⟨rfl, rfl⟩ := Prod.mk.inj he
    obtain ⟨s, hs, rfl⟩ := ih ht
    obtain ⟨low, slash⟩ := not_or.mp hc
    exact ⟨_, .char (Char.not_lt.mp low) (by simpa using ⟨hq, slash⟩) hs, rfl⟩

/-! ## Numbers -/

/-- What may follow a value: a blank, a comma, a closing bracket, or nothing. -/
def Ends (t : Text) : Prop := ∀ c ∈ t.head?, isSpace c ∨ c ∈ [',', ']', '}']

namespace Literal

variable {ds : Text}

theorem digits?_eq_some_iff : digits? t = some (ds, r) ↔
    AllDigits ds ∧ ds ≠ [] ∧ (∀ c ∈ r.head?, c.isDigit = false) ∧ t = ds ++ r := by
  simp only [digits?, Option.map_eq_some_iff, run?_eq_some_iff, Prod.mk.injEq]
  constructor
  · rintro ⟨r, ⟨u, hn, hu, hr, rfl⟩, rfl, rfl⟩
    rw [takeWhile_append_of_stop hu hr]
    exact ⟨hu, hn, hr, rfl⟩
  · rintro ⟨hu, hn, hr, rfl⟩
    exact ⟨r, ⟨ds, hn, hu, hr, rfl⟩, takeWhile_append_of_stop hu hr, rfl⟩

theorem whole?_eq_some_iff : whole? t = some (ds, r) ↔
    AllDigits ds ∧ ds ≠ [] ∧ (ds = ['0'] ∨ ds.head? ≠ some '0') ∧
      (∀ c ∈ r.head?, c.isDigit = false) ∧ t = ds ++ r := by
  simp only [whole?, Option.filter_eq_some_iff, digits?_eq_some_iff, Bool.or_eq_true, beq_iff_eq,
    bne_iff_ne]
  tauto

theorem exists_writesFraction {frac : Option Text} (h : fraction? t = some (frac, r)) :
    ∃ f, WritesFraction frac f ∧ t = f ++ r := by
  unfold fraction? at h
  split at h
  · obtain ⟨⟨ds, r'⟩, hds, he⟩ := Option.map_eq_some_iff.mp h
    obtain ⟨rfl, rfl⟩ := Prod.mk.inj he
    obtain ⟨hd, hn, -, rfl⟩ := digits?_eq_some_iff.mp hds
    exact ⟨_, .present hd hn, rfl⟩
  · obtain ⟨rfl, rfl⟩ := Prod.mk.inj (Option.some.inj h)
    exact ⟨[], .absent, rfl⟩

theorem exists_writesPower {power : Option (Bool × Text)} (h : power? t = some (power, r)) :
    ∃ p, WritesPower power p ∧ t = p ++ r := by
  cases t with
  | nil =>
    obtain ⟨rfl, rfl⟩ := Prod.mk.inj (Option.some.inj h)
    exact ⟨[], .absent, rfl⟩
  | cons c t =>
    simp only [power?, Bool.or_eq_true, beq_iff_eq] at h
    split at h
    · next hc =>
      obtain ⟨⟨ds, r'⟩, hds, he⟩ := Option.map_eq_some_iff.mp h
      obtain ⟨rfl, rfl⟩ := Prod.mk.inj he
      obtain ⟨hd, hn, -, ht⟩ := digits?_eq_some_iff.mp hds
      obtain ⟨s, hs, hts⟩ := Decimal.exists_sign t
      refine ⟨_, .present hc hs hd hn, ?_⟩
      rw [List.cons_append, List.append_assoc, ← ht, ← hts]
    · obtain ⟨rfl, rfl⟩ := Prod.mk.inj (Option.some.inj h)
      exact ⟨[], .absent, rfl⟩

theorem exists_writesNumber (h : scan? t = some (l, r)) : ∃ s, WritesNumber l s ∧ t = s ++ r := by
  obtain ⟨⟨w, t₁⟩, whole, h⟩ := Option.bind_eq_some_iff.mp h
  obtain ⟨⟨frac, t₂⟩, fraction, h⟩ := Option.bind_eq_some_iff.mp h
  obtain ⟨⟨power, t₃⟩, power, he⟩ := Option.map_eq_some_iff.mp h
  obtain ⟨rfl, rfl⟩ := Prod.mk.inj he
  obtain ⟨hw, hn, zero, -, ht⟩ := whole?_eq_some_iff.mp whole
  obtain ⟨f, hf, hft⟩ := exists_writesFraction fraction
  obtain ⟨p, hp, hpt⟩ := exists_writesPower power
  have sign : t = (if (minus t).1 then ['-'] else []) ++ (minus t).2 := by
    unfold minus
    split <;> rfl
  refine ⟨_, .intro (minus t).1 hw hn zero hf hp, ?_⟩
  rw [List.append_assoc, List.append_assoc, List.append_assoc, ← hpt, ← hft, ← ht, ← sign]

end Literal

/-- Nothing that may follow a value makes a number longer. -/
theorem Ends.stop (hr : Ends r) :
    ∀ c ∈ r.head?, c.isDigit = false ∧ c ≠ '.' ∧ c ≠ 'e' ∧ c ≠ 'E' := by
  intro c hc
  rcases hr c hc with h | h
  · simp only [isSpace, Bool.or_eq_true, beq_iff_eq] at h
    rcases h with ((rfl | rfl) | rfl) | rfl <;> decide
  · exact (by decide : ∀ c ∈ [',', ']', '}'],
      c.isDigit = false ∧ c ≠ '.' ∧ c ≠ 'e' ∧ c ≠ 'E') c h

theorem WritesFraction.fraction? {frac : Option Text} {f : Text} (h : WritesFraction frac f)
    (hr : ∀ c ∈ r.head?, c.isDigit = false ∧ c ≠ '.') :
    Literal.fraction? (f ++ r) = some (frac, r) := by
  cases h with
  | absent =>
    rw [List.nil_append]
    unfold Literal.fraction?
    split
    · exact absurd rfl (hr '.' rfl).2
    · rfl
  | present hd hn =>
    have digits := Literal.digits?_eq_some_iff.mpr ⟨hd, hn, fun c hc => (hr c hc).1, rfl⟩
    rw [List.cons_append, Literal.fraction?, digits]
    rfl

theorem WritesPower.power? {power : Option (Bool × Text)} {p : Text} (h : WritesPower power p)
    (hr : ∀ c ∈ r.head?, c.isDigit = false ∧ c ≠ 'e' ∧ c ≠ 'E') :
    Literal.power? (p ++ r) = some (power, r) := by
  cases h with
  | absent =>
    cases r with
    | nil => rfl
    | cons c r => simp [Literal.power?, hr c rfl]
  | @present c s ds neg hc hs hd hn =>
    have digits := Literal.digits?_eq_some_iff.mpr ⟨hd, hn, fun c hc => (hr c hc).1, rfl⟩
    have sign := Decimal.sign_append hs (r := ds ++ r) fun c hc =>
      hd.head_not_sign c (by rwa [List.head?_append_of_ne_nil _ hn] at hc)
    rw [List.cons_append, List.append_assoc, Literal.power?, if_pos (by simpa using hc), sign,
      digits]
    rfl

/-- A fraction or a power ends the digits before it. -/
theorem head?_fraction_append {frac : Option Text} {f : Text} (h : WritesFraction frac f)
    (hr : ∀ c ∈ r.head?, c.isDigit = false) : ∀ c ∈ (f ++ r).head?, c.isDigit = false := by
  cases h with
  | absent => exact hr
  | present => simp

theorem head?_power_append {power : Option (Bool × Text)} {p : Text} (h : WritesPower power p)
    (hr : ∀ c ∈ r.head?, c.isDigit = false ∧ c ≠ '.') :
    ∀ c ∈ (p ++ r).head?, c.isDigit = false ∧ c ≠ '.' := by
  cases h with
  | absent => exact hr
  | present hc => rcases hc with rfl | rfl <;> simp

theorem minus_append {w : Text} (hw : AllDigits w) (hn : w ≠ []) (neg : Bool) (r : Text) :
    Literal.minus ((if neg then ['-'] else []) ++ (w ++ r)) = (neg, w ++ r) := by
  cases neg with
  | true => rfl
  | false =>
    obtain ⟨c, w, rfl⟩ := List.exists_cons_of_ne_nil hn
    simp [Literal.minus, (Decimal.ne_sign_of_isDigit (hw c List.mem_cons_self)).2]

theorem WritesNumber.scan? (h : WritesNumber l s) (hr : Ends r) :
    Literal.scan? (s ++ r) = some (l, r) := by
  obtain ⟨neg, hw, hn, zero, hf, hp⟩ := h
  have power := hp.power? fun c hc => ⟨(hr.stop c hc).1, (hr.stop c hc).2.2⟩
  have stop := head?_power_append hp fun c hc => ⟨(hr.stop c hc).1, (hr.stop c hc).2.1⟩
  have fraction := hf.fraction? stop
  have whole := Literal.whole?_eq_some_iff.mpr
    ⟨hw, hn, zero, head?_fraction_append hf fun c hc => (stop c hc).1, rfl⟩
  rw [List.append_assoc, List.append_assoc, List.append_assoc, Literal.scan?, minus_append hw hn]
  simp only [whole, fraction, power, Option.bind_some, Option.map_some]

end IssueMarkdown.Json
