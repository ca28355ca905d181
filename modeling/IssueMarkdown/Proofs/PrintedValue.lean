import IssueMarkdown.Proofs.Meaning
import IssueMarkdown.Proofs.PrintedLimit
import IssueMarkdown.Proofs.Printing

/-! # Printed values

A value of texts and whole numbers, nested to any depth, is printed in the grammar: on one line or
indented, it is written by one tree, and what that tree means is the value again.
-/

namespace IssueMarkdown.Json

open Text

/-! ## Whole numbers -/

namespace Literal

variable {l : Literal}

/-- The digits before the point, with the sign. -/
def signed (l : Literal) : ℤ := if l.negative then -decimalValue l.whole else decimalValue l.whole

/-- A whole number of 64 bits, with a sign or without one. A negative zero is none. -/
structure IsWhole (l : Literal) : Prop where
  fraction : l.fraction = none
  power : l.power = none
  low : -2 ^ 63 ≤ l.signed
  high : l.signed < 2 ^ 64
  zero : l.negative → decimalValue l.whole ≠ 0

theorem take64_of_lt {n : ℕ} {t : Text}
    (h : t.foldl (fun n c => 10 * n + digitValue c) n < UInt64.size) :
    take64 n t = (t.foldl (fun n c => 10 * n + digitValue c) n, []) := by
  induction t generalizing n with
  | nil => rfl
  | cons c t ih =>
    have le : 10 * n + digitValue c ≤ (10 * n + digitValue c) * 10 ^ t.length :=
      Nat.le_mul_of_pos_right _ (by positivity)
    have fits : 10 * n + digitValue c < UInt64.size := by
      rw [List.foldl_cons, Decimal.foldl_digits] at h
      omega
    rw [take64, if_pos fits]
    exact ih h

theorem IsWhole.value? (h : l.IsWhole) : l.value? = some (.int l.signed) := by
  obtain ⟨neg, w, frac, power⟩ := l
  obtain ⟨rfl, rfl, low, high, zero⟩ := h
  have size : UInt64.size = 2 ^ 64 := rfl
  cases neg with
  | false =>
    replace high : (decimalValue w : ℤ) < 2 ^ 64 := high
    have fits : decimalValue w < UInt64.size := by rw [size]; omega
    have digits : take64 0 w = (decimalValue w, []) := take64_of_lt fits
    simp [Literal.value?, digits, signed]
  | true =>
    replace low : -2 ^ 63 ≤ -(decimalValue w : ℤ) := low
    have fits : decimalValue w < UInt64.size := by rw [size]; omega
    have digits : take64 0 w = (decimalValue w, []) := take64_of_lt fits
    have small : 0 < decimalValue w ∧ 2 * decimalValue w ≤ UInt64.size :=
      ⟨Nat.pos_of_ne_zero (zero rfl), by rw [size]; omega⟩
    simp [Literal.value?, digits, signed, small]

end Literal

namespace Number

variable {n : Number}

/-- What a whole number of 64 bits is read as. -/
def IsWhole (n : Number) : Prop := ∃ l : Literal, l.IsWhole ∧ l.value? = some n

theorem head?_toDigits {n : ℕ} (hn : 0 < n) : (Nat.toDigits 10 n).head? ≠ some '0' := by
  induction n using Nat.strongRecOn with
  | ind n ih =>
    by_cases small : n < 10
    · rw [Nat.toDigits_of_lt_base small]
      interval_cases n <;> decide
    · rw [Nat.toDigits_of_base_le (by decide) (Nat.not_lt.mp small),
        List.head?_append_of_ne_nil _ Nat.toDigits_ne_nil]
      exact ih (n / 10) (by omega) (by omega)

/-- A number is printed without zeros before it. -/
theorem writesNumber_toDigits (neg : Bool) (n : ℕ) :
    WritesNumber ⟨neg, Nat.toDigits 10 n, none, none⟩
      ((if neg then ['-'] else []) ++ Nat.toDigits 10 n) := by
  have zero : Nat.toDigits 10 n = ['0'] ∨ (Nat.toDigits 10 n).head? ≠ some '0' := by
    cases n with
    | zero => exact .inl rfl
    | succ n => exact .inr (head?_toDigits n.succ_pos)
  have written := WritesNumber.intro neg (Limit.allDigits_toDigits n) Nat.toDigits_ne_nil zero
    .absent .absent
  rwa [List.append_nil, List.append_nil] at written

theorem exists_literal_intText (k : ℤ) :
    ∃ neg m, intText k = (if neg then ['-'] else []) ++ Nat.toDigits 10 m ∧
      (⟨neg, Nat.toDigits 10 m, none, none⟩ : Literal).signed = k ∧ (neg → m ≠ 0) := by
  cases k with
  | ofNat m => exact ⟨false, m, rfl, by simp [Literal.signed, Limit.decimalValue_toDigits], nofun⟩
  | negSucc m =>
    refine ⟨true, m + 1, rfl, ?_, fun _ => m.succ_ne_zero⟩
    simp only [Literal.signed, if_true, Limit.decimalValue_toDigits]
    rfl

/-- A whole number is printed as one that is read back. -/
theorem IsWhole.exists_literal (h : n.IsWhole) :
    ∃ l : Literal, WritesNumber l n.text ∧ l.value? = some n := by
  obtain ⟨l, hl, hn⟩ := h
  obtain rfl := Option.some.inj (hl.value?.symm.trans hn)
  obtain ⟨neg, m, printed, signed, nonzero⟩ := exists_literal_intText l.signed
  have whole : (⟨neg, Nat.toDigits 10 m, none, none⟩ : Literal).IsWhole :=
    ⟨rfl, rfl, signed.symm ▸ hl.low, signed.symm ▸ hl.high,
      fun hneg => (Limit.decimalValue_toDigits m).symm ▸ nonzero hneg⟩
  exact ⟨_, by rw [text, printed]; exact writesNumber_toDigits neg m, signed ▸ whole.value?⟩

end Number

/-! ## Printed values -/

variable {a b c : Text} {t : Tree} {v : Value} {ts : List Tree} {vs : List Value}
  {n : List Piece × Tree} {m : Text × Value} {ns : List (List Piece × Tree)}
  {ms : List (Text × Value)} {item : Value → Text}

theorem isSpaces_nil : IsSpaces [] := fun _ => nofun

theorem Writes.writesDocument (h : Writes t a) : WritesDocument t a :=
  ⟨[], a, [], isSpaces_nil, h, isSpaces_nil, by simp⟩

theorem exists_writesPieces_escapeChar (s : Text) :
    ∃ ps, WritesPieces ps (s.flatMap escapeChar) ∧ decodePieces? ps = some s :=
  (spells_flatMap_escapeChar s).exists_writesPieces

theorem quote_append (s r : Text) : quote s ++ r = '"' :: (s.flatMap escapeChar ++ '"' :: r) := by
  simp [quote]

/-- The items that follow the first, up to the bracket that closes them. -/
theorem exists_writesItems_of_tail (tail : List Value → Text) (ha : IsSpaces a) (hb : IsSpaces b)
    (last : tail [] = b ++ [']'])
    (next : ∀ v vs, tail (v :: vs) = ',' :: (a ++ (item v ++ tail vs)))
    (h : Writes t (item v)) (hs : List.Forall₂ (fun v t => Writes t (item v)) vs ts) :
    ∃ s, WritesItems (t :: ts) s ∧ a ++ (item v ++ tail vs) = s ++ [']'] := by
  induction hs generalizing v t with
  | nil => exact ⟨_, .last ha h hb, by simp [last]⟩
  | cons h' _ ih =>
    obtain ⟨s, hs, he⟩ := ih h'
    exact ⟨_, .cons ha h isSpaces_nil hs, by simp [next, he]⟩

/-- The members that follow the first, up to the brace that closes them. -/
theorem exists_writesMembers_of_tail (tail : List (Text × Value) → Text) (ha : IsSpaces a)
    (hb : IsSpaces b) (hc : IsSpaces c) (last : tail [] = b ++ ['}'])
    (next : ∀ k v ms,
      tail ((k, v) :: ms) = ',' :: (a ++ (quote k ++ ':' :: (c ++ (item v ++ tail ms)))))
    (h : WritesPieces n.1 (m.1.flatMap escapeChar) ∧ Writes n.2 (item m.2))
    (hs : List.Forall₂ (fun m n => WritesPieces n.1 (m.1.flatMap escapeChar) ∧
      Writes n.2 (item m.2)) ms ns) :
    ∃ s, WritesMembers (n :: ns) s ∧
      a ++ (quote m.1 ++ ':' :: (c ++ (item m.2 ++ tail ms))) = s ++ ['}'] := by
  induction hs generalizing m n with
  | nil => exact ⟨_, .last ha h.1 isSpaces_nil hc h.2 hb, by simp [last, quote_append]⟩
  | cons h' _ ih =>
    obtain ⟨s, hs, he⟩ := ih h'
    exact ⟨_, .cons ha h.1 isSpaces_nil hc h.2 isSpaces_nil hs, by
      simp only [next, he]
      simp [quote_append]⟩

namespace Value

/-- On one line and indented, the value is written by the tree. -/
def WrittenAs (v : Value) (t : Tree) : Prop :=
  Writes t v.compact ∧ ∀ level, Writes t (v.pretty level)

/-- A member that is written as the name and the value of a tree. -/
def MemberWrittenAs (m : Text × Value) (n : List Piece × Tree) : Prop :=
  WritesPieces n.1 (m.1.flatMap escapeChar) ∧ m.2.WrittenAs n.2

theorem WrittenAs.of_flat (h : Writes t a) (hc : v.compact = a) (hp : ∀ level, v.pretty level = a) :
    v.WrittenAs t :=
  ⟨hc ▸ h, fun level => hp level ▸ h⟩

theorem writtenAs_null : Value.null.WrittenAs .null :=
  .of_flat .null (by rw [compact]; rfl) fun _ => by rw [pretty]; rfl

theorem writtenAs_bool (b : Bool) : (Value.bool b).WrittenAs (.bool b) :=
  .of_flat (.bool b) (by rw [compact]; cases b <;> rfl) fun _ => by rw [pretty]; cases b <;> rfl

theorem writtenAs_number {x : Number} {l : Literal} (h : WritesNumber l x.text) :
    (Value.number x).WrittenAs (.number l) :=
  .of_flat (.number h) (by rw [compact]) fun _ => by rw [pretty]

theorem writtenAs_string {s : Text} {ps : List Piece} (h : WritesPieces ps (s.flatMap escapeChar)) :
    (Value.string s).WrittenAs (.string ps) :=
  .of_flat (.string h) (by rw [compact]; rfl) fun _ => by rw [pretty]; rfl

theorem writtenAs_array (h : List.Forall₂ WrittenAs vs ts) :
    (Value.array vs).WrittenAs (.array ts true) := by
  refine ⟨?_, fun level => ?_⟩
  · cases h with
    | nil =>
      rw [compact]
      exact .emptyArray isSpaces_nil
    | cons h hs =>
      obtain ⟨s, hs, he⟩ := exists_writesItems_of_tail compactItems isSpaces_nil
        isSpaces_nil (by rw [compactItems]; rfl) (fun _ _ => by rw [compactItems]; rfl) h.1
        (hs.imp fun _ _ => And.left)
      rw [List.nil_append] at he
      rw [compact, he]
      exact .array hs
  · cases h with
    | nil =>
      rw [pretty]
      exact .emptyArray isSpaces_nil
    | cons h hs =>
      obtain ⟨s, hs, he⟩ := exists_writesItems_of_tail (prettyItems level)
        (isSpace_newLine (level + 1)) (isSpace_newLine level) (by rw [prettyItems])
        (fun _ _ => by rw [prettyItems, List.append_assoc]) (h.2 (level + 1))
        (hs.imp fun _ _ hw => hw.2 (level + 1))
      rw [pretty, List.append_assoc, he]
      exact .array hs

theorem writtenAs_object (h : List.Forall₂ MemberWrittenAs ms ns) :
    (Value.object ms).WrittenAs (.object ns true) := by
  refine ⟨?_, fun level => ?_⟩
  · cases h with
    | nil =>
      rw [compact]
      exact .emptyObject isSpaces_nil
    | cons h hs =>
      obtain ⟨s, hs, he⟩ := exists_writesMembers_of_tail compactMembers isSpaces_nil
        isSpaces_nil isSpaces_nil (by rw [compactMembers]; rfl)
        (fun _ _ _ => by rw [compactMembers]; rfl) ⟨h.1, h.2.1⟩
        (hs.imp fun _ _ hw => ⟨hw.1, hw.2.1⟩)
      simp only [List.nil_append] at he
      rw [compact, he]
      exact .object hs
  · cases h with
    | nil =>
      rw [pretty]
      exact .emptyObject isSpaces_nil
    | cons h hs =>
      have blank : IsSpaces [' '] := List.forall_mem_singleton.mpr rfl
      obtain ⟨s, hs, he⟩ := exists_writesMembers_of_tail (prettyMembers level)
        (isSpace_newLine (level + 1)) (isSpace_newLine level) blank
        (by rw [prettyMembers]) (fun _ _ _ => by rw [prettyMembers]; simp)
        ⟨h.1, h.2.2 (level + 1)⟩
        (hs.imp fun _ _ hw => ⟨hw.1, hw.2.2 (level + 1)⟩)
      rw [pretty]
      simp only [List.append_assoc, List.cons_append] at he ⊢
      exact he ▸ .object hs

/-! ## Values that are read back -/

/-- The number stands somewhere in the value. -/
inductive Keeps (x : Number) : Value → Prop where
  | number : Keeps x (.number x)
  | item {v : Value} {vs : List Value} (hv : v ∈ vs) (h : Keeps x v) : Keeps x (.array vs)
  | member {k : Text} {v : Value} {ms : List (Text × Value)} (hm : (k, v) ∈ ms) (h : Keeps x v) :
      Keeps x (.object ms)

/-- The numbers of the value are whole. -/
def IsWhole (v : Value) : Prop := ∀ x, v.Keeps x → x.IsWhole

theorem isWhole_string (s : Text) : (Value.string s).IsWhole := fun _ h => by cases h

theorem isWhole_number_iff {x : Number} : (Value.number x).IsWhole ↔ x.IsWhole := by
  refine ⟨fun h => h x .number, fun h y hy => ?_⟩
  cases hy
  exact h

theorem isWhole_array_iff : (Value.array vs).IsWhole ↔ ∀ v ∈ vs, v.IsWhole := by
  refine ⟨fun h v hv x hx => h x (.item hv hx), fun h x hx => ?_⟩
  cases hx with
  | item hv hx => exact h _ hv x hx

theorem isWhole_object_iff : (Value.object ms).IsWhole ↔ ∀ m ∈ ms, m.2.IsWhole := by
  refine ⟨fun h m hm x hx => h x (.member hm hx), fun h x hx => ?_⟩
  cases hx with
  | member hm hx => exact h _ hm x hx

end Value

open Value

section Lists

variable {α β : Type} {R : α → β → Prop} {l : List α} {l' : List β}

theorem exists_forall₂ (h : ∀ a ∈ l, ∃ b, R a b) : ∃ l', List.Forall₂ R l l' := by
  induction l with
  | nil => exact ⟨[], .nil⟩
  | cons a l ih =>
    obtain ⟨⟨b, hb⟩, h⟩ := List.forall_mem_cons.mp h
    obtain ⟨l', hl⟩ := ih h
    exact ⟨b :: l', .cons hb hl⟩

theorem exists_mem_zip {b : β} (length : l.length = l'.length) (hb : b ∈ l') :
    ∃ a, (a, b) ∈ l.zip l' := by
  obtain ⟨i, hi, rfl⟩ := List.mem_iff_getElem.mp hb
  exact ⟨l[i], List.mem_iff_getElem.mpr ⟨i, by simpa [length] using hi, List.getElem_zip⟩⟩

theorem forall_mem_zip_of_flip (h : List.Forall₂ (fun a b => R b a) l' l) :
    ∀ p ∈ l.zip l', R p.1 p.2 :=
  fun _ hp => (List.forall₂_iff_zip.mp h.flip).2 hp

end Lists

/-- A value of whole numbers is written by a tree that means it, nested as deep as the one it was
read from: of its members each name is there once, in order. -/
theorem Tree.Denotes.exists_writtenAs {depth : ℕ} (h : t.Denotes depth v) (hw : v.IsWhole) :
    ∃ t', v.WrittenAs t' ∧ t'.Denotes depth v := by
  induction h with
  | null => exact ⟨_, writtenAs_null, .null⟩
  | bool b => exact ⟨_, writtenAs_bool b, .bool b⟩
  | @number _ _ x _ =>
    obtain ⟨l, hl, hx⟩ := (isWhole_number_iff.mp hw).exists_literal
    exact ⟨_, writtenAs_number hl, .number hx⟩
  | @string _ _ s _ =>
    obtain ⟨ps, hs, hd⟩ := exists_writesPieces_escapeChar s
    exact ⟨_, writtenAs_string hs, .string hd⟩
  | @array depth ts vs length _ ih =>
    have items : ∀ v ∈ vs, ∃ t', v.WrittenAs t' ∧ t'.Denotes depth v := fun v hv => by
      obtain ⟨t, ht⟩ := exists_mem_zip length hv
      exact ih (t, v) ht (isWhole_array_iff.mp hw v hv)
    obtain ⟨ts', written⟩ := exists_forall₂ items
    exact ⟨_, writtenAs_array (written.imp fun _ _ => And.left), .array written.length_eq.symm
      (forall_mem_zip_of_flip (written.imp fun _ _ => And.right))⟩
  | @object depth ms ns vs length _ _ ordered last ih =>
    have members : ∀ m ∈ vs, ∃ n : List Piece × Tree, MemberWrittenAs m n ∧
        decodePieces? n.1 = some m.1 ∧ n.2.Denotes depth m.2 := fun m hm => by
      obtain ⟨k, hk, hd⟩ := exists_writesPieces_escapeChar m.1
      -- what counts is the last member of its name, and that was read
      obtain ⟨n, hn⟩ := exists_mem_zip length ((last m).mp hm).mem
      obtain ⟨t, ht, hv⟩ := ih (n, m) hn (isWhole_object_iff.mp hw m hm)
      exact ⟨(k, t), ⟨hk, ht⟩, hd, hv⟩
    obtain ⟨ns', written⟩ := exists_forall₂ members
    refine ⟨_, writtenAs_object (written.imp fun _ _ => And.left), ?_⟩
    exact .object written.length_eq.symm
      (forall_mem_zip_of_flip (written.imp fun _ _ h => h.2.1))
      (forall_mem_zip_of_flip (written.imp fun _ _ h => h.2.2)) ordered
      fun m => ordered.last_iff.symm

end IssueMarkdown.Json
