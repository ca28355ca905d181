import IssueMarkdown.Json.Bytes
import IssueMarkdown.Proofs.Decoding
import IssueMarkdown.Proofs.Reading

/-! # Documents in UTF-8

The bytes of a text are a document exactly if the text is one, and then they have its tree: all that
the grammar looks at is in ASCII, and the characters of strings are read again from their bytes.
-/

namespace IssueMarkdown.Json

open Text

variable {a b s t x y : Text} {c : Char} {l : Literal} {ps : List Piece} {v : Tree}

/-! ## Texts as characters that stand for bytes -/

/-- The bytes of a text, each as the character of its number. -/
def encoded (t : Text) : Text := (utf8 t).map byteChar

def IsAscii (t : Text) : Prop := ∀ c ∈ t, c.toNat < 128

instance (t : Text) : Decidable (IsAscii t) :=
  inferInstanceAs (Decidable (∀ c ∈ t, c.toNat < 128))

theorem IsAscii.append (ha : IsAscii a) (hb : IsAscii b) : IsAscii (a ++ b) :=
  List.forall_mem_append.mpr ⟨ha, hb⟩

theorem IsAscii.cons (hc : c.toNat < 128) (ha : IsAscii a) : IsAscii (c :: a) :=
  List.forall_mem_cons.mpr ⟨hc, ha⟩

theorem toNat_byteChar (b : UInt8) : (byteChar b).toNat = b.toNat := by
  rw [byteChar, Char.ofNat, dif_pos (.inl (Nat.lt_trans b.toNat_lt (by decide)))]
  rfl

@[simp] theorem encoded_nil : encoded [] = [] := rfl

@[simp] theorem encoded_append (s t : Text) : encoded (s ++ t) = encoded s ++ encoded t := by
  simp [encoded]

theorem encoded_cons (c : Char) (t : Text) : encoded (c :: t) = encoded [c] ++ encoded t :=
  encoded_append [c] t

theorem encoded_singleton (h : c.toNat < 128) : encoded [c] = [c] := by
  have number : (UInt8.ofNat c.toNat).toNat = c.toNat :=
    UInt8.toNat_ofNat_of_lt' (Nat.lt_trans h (by decide))
  have same : byteChar (UInt8.ofNat c.toNat) = c := by
    rw [byteChar, number, Char.ofNat_toNat]
  simp [encoded, utf8, utf8EncodeChar_of_lt h, same]

theorem encoded_cons_of_lt (h : c.toNat < 128) (t : Text) : encoded (c :: t) = c :: encoded t := by
  rw [encoded_cons, encoded_singleton h]
  rfl

theorem IsAscii.encoded_eq (h : IsAscii t) : encoded t = t := by
  induction t with
  | nil => rfl
  | cons c t ih =>
    obtain ⟨hc, h⟩ := List.forall_mem_cons.mp h
    rw [encoded_cons_of_lt hc, ih h]

/-- Every byte of another character is 128 or more. -/
theorem le_toNat_of_mem_encoded (h : 128 ≤ c.toNat) : ∀ d ∈ encoded [c], 128 ≤ d.toNat := by
  intro d hd
  obtain ⟨b, hb, rfl⟩ := List.mem_map.mp hd
  rw [toNat_byteChar]
  by_contra ascii
  have mem : b ∈ String.utf8EncodeChar c := by simpa [utf8] using hb
  have := toNat_of_mem_utf8EncodeChar mem (by omega)
  omega

theorem encoded_singleton_ne_nil (c : Char) : encoded [c] ≠ [] := by
  simp [encoded, utf8, String.utf8EncodeChar_ne_nil]

theorem encoded_eq_nil_iff : encoded t = [] ↔ t = [] := by
  cases t with
  | nil => simp
  | cons c t => simp [encoded_cons c t, encoded_singleton_ne_nil c]

/-! ### What is encoded is split at characters of ASCII -/

theorem exists_of_encoded_eq (hc : c.toNat < 128) (h : encoded t = x ++ c :: y) :
    ∃ t₁ t₂, t = t₁ ++ c :: t₂ ∧ encoded t₁ = x ∧ encoded t₂ = y := by
  induction t generalizing x with
  | nil => simp at h
  | cons d t ih =>
    rw [encoded_cons] at h
    rcases List.append_eq_append_iff.mp h with ⟨x', rfl, ht⟩ | ⟨z, hd, ht⟩
    · obtain ⟨t₁, t₂, rfl, rfl, rfl⟩ := ih ht
      exact ⟨d :: t₁, t₂, rfl, encoded_cons d t₁, rfl⟩
    · cases z with
      | nil =>
        obtain ⟨t₁, t₂, rfl, ht₁, rfl⟩ := ih (x := []) ht.symm
        obtain rfl := encoded_eq_nil_iff.mp ht₁
        exact ⟨[d], t₂, rfl, by simpa using hd, rfl⟩
      | cons e z =>
        -- the character is among the bytes of the first one, which is therefore the same
        obtain ⟨rfl, rfl⟩ := List.cons.inj ht
        have ascii : d.toNat < 128 := by
          by_contra high
          have := le_toNat_of_mem_encoded (Nat.le_of_not_lt high) c (by simp [hd])
          omega
        rw [encoded_singleton ascii] at hd
        cases x with
        | nil =>
          obtain ⟨rfl, rfl⟩ := List.cons.inj hd
          exact ⟨[], t, rfl, rfl, rfl⟩
        | cons d' x => simp at hd

theorem exists_of_encoded_eq_cons (hc : c.toNat < 128) (h : encoded t = c :: y) :
    ∃ t₂, t = c :: t₂ ∧ encoded t₂ = y := by
  obtain ⟨t₁, t₂, rfl, ht₁, rfl⟩ := exists_of_encoded_eq (x := []) hc h
  obtain rfl := encoded_eq_nil_iff.mp ht₁
  exact ⟨t₂, rfl, rfl⟩

theorem IsAscii.exists_of_encoded_eq_append (ha : IsAscii a) (h : encoded t = a ++ y) :
    ∃ t₂, t = a ++ t₂ ∧ encoded t₂ = y := by
  induction a generalizing t with
  | nil => exact ⟨t, rfl, h⟩
  | cons c a ih =>
    obtain ⟨hc, ha⟩ := List.forall_mem_cons.mp ha
    obtain ⟨t', rfl, ht⟩ := exists_of_encoded_eq_cons hc h
    obtain ⟨t₂, rfl, ht₂⟩ := ih ha ht
    exact ⟨t₂, rfl, ht₂⟩

theorem IsAscii.eq_of_encoded_eq (ha : IsAscii a) (h : encoded t = a) : t = a := by
  obtain ⟨t₂, rfl, ht₂⟩ := ha.exists_of_encoded_eq_append (y := []) (by simpa using h)
  rw [encoded_eq_nil_iff.mp ht₂, List.append_nil]

theorem IsAscii.exists_of_encoded_append_eq (hb : IsAscii b) (h : encoded t = x ++ b) :
    ∃ t₁, t = t₁ ++ b ∧ encoded t₁ = x := by
  cases b with
  | nil => exact ⟨t, by simp, by simpa using h⟩
  | cons c b =>
    obtain ⟨hc, hb⟩ := List.forall_mem_cons.mp hb
    obtain ⟨t₁, t₂, rfl, rfl, ht₂⟩ := exists_of_encoded_eq hc h
    rw [IsAscii.eq_of_encoded_eq hb ht₂]
    exact ⟨t₁, rfl, rfl⟩

/-! ## Strings -/

/-- The pieces of bytes are read as those bytes are. -/
theorem recodeFrom_append (p : Option Partial) (bs : List UInt8) (ps : List Piece) :
    recodeFrom p (bs.map (fun b => .char (byteChar b)) ++ ps) =
      (steps p bs).1.map .ofChar? ++ recodeFrom (steps p bs).2 ps := by
  induction bs generalizing p with
  | nil => rfl
  | cons b bs ih => simp [recodeFrom, steps, toNat_byteChar, ih]

theorem recode_encoded_append (c : Char) (ps : List Piece) :
    recode ((encoded [c]).map .char ++ ps) = .char c :: recode ps := by
  have bytes : (encoded [c]).map Piece.char =
      (String.utf8EncodeChar c).map fun b => .char (byteChar b) := by
    simp [encoded, utf8]
  rw [bytes, recode, recodeFrom_append, steps_utf8EncodeChar]
  rfl

theorem recode_cons_of_lt (h : c.toNat < 128) (ps : List Piece) :
    recode (.char c :: ps) = .char c :: recode ps := by
  have := recode_encoded_append c ps
  rwa [encoded_singleton h] at this

theorem WritesPieces.chars (hx : ∀ c ∈ x, ' ' ≤ c ∧ c ∉ ['"', '\\']) (h : WritesPieces ps s) :
    WritesPieces (x.map .char ++ ps) (x ++ s) := by
  induction x with
  | nil => exact h
  | cons c x ih =>
    obtain ⟨hc, hx⟩ := List.forall_mem_cons.mp hx
    exact .char hc.1 hc.2 (ih hx)

/-- A character of 128 or more may stand in a string as it is. -/
theorem plain_of_le (h : 128 ≤ c.toNat) : ' ' ≤ c ∧ c ∉ ['"', '\\'] := by
  refine ⟨?_, ?_⟩
  · exact Char.le_def.mpr (UInt32.le_iff_toNat_le.mpr (Nat.le_trans (by decide) h))
  · intro hm
    rcases List.mem_pair.mp hm with rfl | rfl <;> exact absurd h (by decide)

theorem lt_of_escape? {e : Char} (h : escape? e = some c) : e.toNat < 128 ∧ c.toNat < 128 := by
  unfold escape? at h
  split at h
  all_goals first | (obtain rfl := Option.some.inj h; decide) | cases h

theorem lt_of_hexValue? {n : ℕ} (h : hexValue? c = some n) : c.toNat < 128 := by
  unfold hexValue? at h
  split_ifs at h with digit small large
  · have := (Char.isDigit_iff_toNat.mp digit).2
    exact Nat.lt_of_le_of_lt this (by decide)
  · exact Nat.lt_of_le_of_lt (UInt32.le_iff_toNat_le.mp (Char.le_def.mp small.2)) (by decide)
  · exact Nat.lt_of_le_of_lt (UInt32.le_iff_toNat_le.mp (Char.le_def.mp large.2)) (by decide)

theorem isAscii_of_hexUnit? {a b c d : Char} {n : ℕ} (h : hexUnit? a b c d = some n) :
    IsAscii [a, b, c, d] := by
  simp only [hexUnit?, Option.bind_eq_bind, Option.bind_eq_some_iff] at h
  obtain ⟨_, ha, _, hb, _, hc, _, hd, -⟩ := h
  simpa [IsAscii] using ⟨lt_of_hexValue? ha, lt_of_hexValue? hb, lt_of_hexValue? hc,
    lt_of_hexValue? hd⟩

/-- The bytes of what spells pieces spell what is read as those pieces. -/
theorem WritesPieces.exists_encoded (h : WritesPieces ps s) :
    ∃ ps', WritesPieces ps' (encoded s) ∧ recode ps' = ps := by
  induction h with
  | nil => exact ⟨[], .nil, rfl⟩
  | @char c ps s hc hn h ih =>
    obtain ⟨ps', hs, rfl⟩ := ih
    refine ⟨(encoded [c]).map .char ++ ps', ?_, recode_encoded_append c ps'⟩
    rw [encoded_cons c s]
    refine hs.chars fun d hd => ?_
    by_cases ascii : c.toNat < 128
    · rw [encoded_singleton ascii] at hd
      obtain rfl := List.mem_singleton.mp hd
      exact ⟨hc, hn⟩
    · exact plain_of_le (le_toNat_of_mem_encoded (Nat.le_of_not_lt ascii) d hd)
  | @letter e c ps s he h ih =>
    obtain ⟨ps', hs, rfl⟩ := ih
    obtain ⟨ascii, ascii'⟩ := lt_of_escape? he
    refine ⟨.char c :: ps', ?_, recode_cons_of_lt ascii' ps'⟩
    rw [encoded_cons_of_lt (by decide), encoded_cons_of_lt ascii]
    exact .letter he hs
  | @unit a b c d n ps s hn h ih =>
    obtain ⟨ps', hs, rfl⟩ := ih
    refine ⟨.unit n :: ps', ?_, rfl⟩
    have digits := (isAscii_of_hexUnit? hn).encoded_eq
    have split : encoded ('\\' :: 'u' :: a :: b :: c :: d :: s) =
        '\\' :: 'u' :: a :: b :: c :: d :: encoded s := by
      rw [encoded_cons_of_lt (by decide), encoded_cons_of_lt (by decide)]
      have := encoded_append [a, b, c, d] s
      rw [digits] at this
      exact congrArg _ (congrArg _ this)
    exact split ▸ .unit hn hs

theorem WritesPieces.exists_of_high (hx : ∀ c ∈ x, 128 ≤ c.toNat)
    (h : WritesPieces ps (x ++ s)) : ∃ ps', ps = x.map .char ++ ps' ∧ WritesPieces ps' s := by
  induction x generalizing ps with
  | nil => exact ⟨ps, rfl, h⟩
  | cons c x ih =>
    obtain ⟨hc, hx⟩ := List.forall_mem_cons.mp hx
    rw [List.cons_append] at h
    generalize ht : x ++ s = t at h
    cases h with
    | char _ _ hp =>
      obtain ⟨ps', rfl, hs⟩ := ih hx (ht ▸ hp)
      exact ⟨ps', rfl, hs⟩
    | letter => exact absurd hc (by decide)
    | unit => exact absurd hc (by decide)

/-- What the bytes of a text spell is spelled by the text. -/
theorem WritesPieces.of_encoded : ∀ (s : Text) {ps : List Piece}, WritesPieces ps (encoded s) →
    WritesPieces (recode ps) s
  | [], ps, h => by
    obtain rfl : ps = [] := by cases h; rfl
    exact .nil
  | c :: s, ps, h => by
    by_cases ascii : c.toNat < 128
    · rw [encoded_cons_of_lt ascii] at h
      generalize hx : encoded s = x at h
      cases h with
      | char hc hn h =>
        rw [recode_cons_of_lt ascii]
        exact .char hc hn (of_encoded s (hx ▸ h))
      | letter he h =>
        obtain ⟨ascii, ascii'⟩ := lt_of_escape? he
        obtain ⟨s', rfl, rfl⟩ := exists_of_encoded_eq_cons ascii hx
        rw [recode_cons_of_lt ascii']
        exact .letter he (of_encoded s' h)
      | unit hn h =>
        obtain ⟨s₁, rfl, hs₁⟩ := exists_of_encoded_eq_cons (by decide) hx
        obtain ⟨s', rfl, rfl⟩ := (isAscii_of_hexUnit? hn).exists_of_encoded_eq_append hs₁
        exact .unit hn (of_encoded s' h)
    · have high := Nat.le_of_not_lt ascii
      rw [encoded_cons] at h
      obtain ⟨ps', rfl, hs⟩ := exists_of_high (le_toNat_of_mem_encoded high) h
      obtain ⟨hc, hn⟩ := plain_of_le high
      rw [recode_encoded_append]
      exact .char hc hn (of_encoded s hs)
termination_by s => s.length

/-! ## Values -/

theorem IsSpaces.isAscii (ha : IsSpaces a) : IsAscii a := by
  intro c hc
  have space := ha c hc
  simp only [isSpace, Bool.or_eq_true, beq_iff_eq] at space
  rcases space with ((rfl | rfl) | rfl) | rfl <;> decide

/-- Blanks and a mark behind them stand in bytes as they are. -/
theorem IsSpaces.exists_of_encoded_eq (ha : IsSpaces a) (hc : c.toNat < 128)
    (h : encoded t = a ++ c :: y) : ∃ t₂, t = a ++ c :: t₂ ∧ encoded t₂ = y := by
  obtain ⟨t₁, t₂, rfl, ht₁, rfl⟩ := Json.exists_of_encoded_eq hc h
  exact ⟨t₂, by rw [ha.isAscii.eq_of_encoded_eq ht₁], rfl⟩

theorem isAscii_of_allDigits (h : Decimal.AllDigits a) : IsAscii a := fun c hc =>
  Nat.lt_of_le_of_lt (Char.isDigit_iff_toNat.mp (h c hc)).2 (by decide)

theorem WritesNumber.isAscii (h : WritesNumber l s) : IsAscii s := by
  obtain ⟨neg, hw, -, -, hf, hp⟩ := h
  refine .append (by cases neg <;> decide) (.append (isAscii_of_allDigits hw) (.append ?_ ?_))
  · cases hf with
    | absent => decide
    | present hd => exact .cons (by decide) (isAscii_of_allDigits hd)
  · cases hp with
    | absent => decide
    | present hc hs hd =>
      refine .cons (by rcases hc with rfl | rfl <;> decide) (.append ?_ (isAscii_of_allDigits hd))
      cases hs <;> decide

mutual

/-- The bytes of what writes a value write what is read as that value. -/
theorem Writes.exists_encoded {v : Tree} {s : Text} (h : Writes v s) :
    ∃ v', Writes v' (encoded s) ∧ v'.recoded = v := by
  cases h with
  | null => exact ⟨.null, .null, rfl⟩
  | bool b => exact ⟨.bool b, by cases b <;> exact .bool _, rfl⟩
  | @number l s h => exact ⟨.number l, h.isAscii.encoded_eq.symm ▸ .number h, rfl⟩
  | string h =>
    obtain ⟨ps', h', rfl⟩ := h.exists_encoded
    refine ⟨.string ps', ?_, rfl⟩
    rw [encoded_cons_of_lt (by decide), encoded_append]
    exact .string h'
  | emptyArray ha =>
    refine ⟨.array [] true, ?_, rfl⟩
    rw [encoded_cons_of_lt (by decide), encoded_append, ha.isAscii.encoded_eq]
    exact .emptyArray ha
  | array h =>
    obtain ⟨vs', h', rfl⟩ := WritesItems.exists_encoded h
    refine ⟨.array vs' true, ?_, rfl⟩
    rw [encoded_cons_of_lt (by decide), encoded_append]
    exact .array h'
  | emptyObject ha =>
    refine ⟨.object [] true, ?_, rfl⟩
    rw [encoded_cons_of_lt (by decide), encoded_append, ha.isAscii.encoded_eq]
    exact .emptyObject ha
  | object h =>
    obtain ⟨ms', h', rfl⟩ := WritesMembers.exists_encoded h
    refine ⟨.object ms' true, ?_, rfl⟩
    rw [encoded_cons_of_lt (by decide), encoded_append]
    exact .object h'

theorem WritesItems.exists_encoded {vs : List Tree} {s : Text} (h : WritesItems vs s) :
    ∃ vs', WritesItems vs' (encoded s) ∧ recodedItems vs' = vs := by
  cases h with
  | last ha h hb =>
    obtain ⟨v', h', rfl⟩ := Writes.exists_encoded h
    refine ⟨[v'], ?_, rfl⟩
    rw [encoded_append, encoded_append, ha.isAscii.encoded_eq, hb.isAscii.encoded_eq]
    exact .last ha h' hb
  | cons ha h hb ht =>
    obtain ⟨v', h', rfl⟩ := Writes.exists_encoded h
    obtain ⟨vs', ht', rfl⟩ := WritesItems.exists_encoded ht
    refine ⟨v' :: vs', ?_, rfl⟩
    rw [encoded_append, encoded_append, encoded_append, encoded_cons_of_lt (by decide),
      ha.isAscii.encoded_eq, hb.isAscii.encoded_eq]
    exact .cons ha h' hb ht'

theorem WritesMembers.exists_encoded {ms : List (List Piece × Tree)} {s : Text}
    (h : WritesMembers ms s) : ∃ ms', WritesMembers ms' (encoded s) ∧ recodedMembers ms' = ms := by
  cases h with
  | last ha hk hb hc h hd =>
    obtain ⟨k', hk', rfl⟩ := hk.exists_encoded
    obtain ⟨v', h', rfl⟩ := Writes.exists_encoded h
    refine ⟨[(k', v')], ?_, rfl⟩
    simp only [encoded_append, encoded_cons_of_lt (by decide : '"'.toNat < 128),
      encoded_cons_of_lt (by decide : ':'.toNat < 128), ha.isAscii.encoded_eq,
      hb.isAscii.encoded_eq, hc.isAscii.encoded_eq, hd.isAscii.encoded_eq]
    exact .last ha hk' hb hc h' hd
  | cons ha hk hb hc h hd ht =>
    obtain ⟨k', hk', rfl⟩ := hk.exists_encoded
    obtain ⟨v', h', rfl⟩ := Writes.exists_encoded h
    obtain ⟨ms', ht', rfl⟩ := WritesMembers.exists_encoded ht
    refine ⟨(k', v') :: ms', ?_, rfl⟩
    simp only [encoded_append, encoded_cons_of_lt (by decide : '"'.toNat < 128),
      encoded_cons_of_lt (by decide : ':'.toNat < 128),
      encoded_cons_of_lt (by decide : ','.toNat < 128), ha.isAscii.encoded_eq,
      hb.isAscii.encoded_eq, hc.isAscii.encoded_eq, hd.isAscii.encoded_eq]
    exact .cons ha hk' hb hc h' hd ht'

end

mutual

/-- What the bytes of a text write is written by the text. -/
theorem Writes.of_encoded {v : Tree} {x s : Text} (h : Writes v x) (hx : encoded s = x) :
    Writes v.recoded s := by
  cases h with
  | null => exact (IsAscii.eq_of_encoded_eq (by decide) hx) ▸ .null
  | bool b => exact (IsAscii.eq_of_encoded_eq (by cases b <;> decide) hx) ▸ .bool b
  | number h => exact (h.isAscii.eq_of_encoded_eq hx) ▸ .number h
  | string h =>
    obtain ⟨s₁, rfl, h₁⟩ := exists_of_encoded_eq_cons (by decide) hx
    obtain ⟨s₂, rfl, rfl⟩ := IsAscii.exists_of_encoded_append_eq (b := ['"']) (by decide) h₁
    exact .string (WritesPieces.of_encoded s₂ h)
  | emptyArray ha =>
    have ascii : IsAscii ('[' :: (_ ++ [']'])) := .cons (by decide) (ha.isAscii.append (by decide))
    exact (ascii.eq_of_encoded_eq hx) ▸ .emptyArray ha
  | array h =>
    obtain ⟨s₁, rfl, h₁⟩ := exists_of_encoded_eq_cons (by decide) hx
    obtain ⟨s₂, rfl, h₂⟩ := IsAscii.exists_of_encoded_append_eq (b := [']']) (by decide) h₁
    exact .array (WritesItems.of_encoded h h₂)
  | emptyObject ha =>
    have ascii : IsAscii ('{' :: (_ ++ ['}'])) := .cons (by decide) (ha.isAscii.append (by decide))
    exact (ascii.eq_of_encoded_eq hx) ▸ .emptyObject ha
  | object h =>
    obtain ⟨s₁, rfl, h₁⟩ := exists_of_encoded_eq_cons (by decide) hx
    obtain ⟨s₂, rfl, h₂⟩ := IsAscii.exists_of_encoded_append_eq (b := ['}']) (by decide) h₁
    exact .object (WritesMembers.of_encoded h h₂)

theorem WritesItems.of_encoded {vs : List Tree} {x s : Text} (h : WritesItems vs x)
    (hx : encoded s = x) : WritesItems (recodedItems vs) s := by
  cases h with
  | last ha h hb =>
    obtain ⟨s₁, rfl, h₁⟩ := ha.isAscii.exists_of_encoded_eq_append hx
    obtain ⟨s₂, rfl, h₂⟩ := hb.isAscii.exists_of_encoded_append_eq h₁
    exact .last ha (Writes.of_encoded h h₂) hb
  | @cons v vs a q b t ha h hb ht =>
    obtain ⟨s₁, rfl, h₁⟩ := ha.isAscii.exists_of_encoded_eq_append hx
    rw [← List.append_assoc] at h₁
    obtain ⟨s₂, t', rfl, h₂, h₃⟩ := exists_of_encoded_eq (by decide) h₁
    obtain ⟨s₃, rfl, h₄⟩ := hb.isAscii.exists_of_encoded_append_eq h₂
    rw [List.append_assoc]
    exact .cons ha (Writes.of_encoded h h₄) hb (WritesItems.of_encoded ht h₃)

theorem WritesMembers.of_encoded {ms : List (List Piece × Tree)} {x s : Text}
    (h : WritesMembers ms x) (hx : encoded s = x) : WritesMembers (recodedMembers ms) s := by
  cases h with
  | last ha hk hb hc h hd =>
    obtain ⟨s₁, rfl, h₁⟩ := ha.exists_of_encoded_eq (by decide) hx
    obtain ⟨q, s₂, rfl, rfl, h₂⟩ := exists_of_encoded_eq (by decide) h₁
    obtain ⟨s₃, rfl, h₃⟩ := hb.exists_of_encoded_eq (by decide) h₂
    obtain ⟨s₄, rfl, h₄⟩ := hc.isAscii.exists_of_encoded_eq_append h₃
    obtain ⟨s₅, rfl, h₅⟩ := hd.isAscii.exists_of_encoded_append_eq h₄
    exact .last ha (.of_encoded q hk) hb hc (Writes.of_encoded h h₅) hd
  | cons ha hk hb hc h hd ht =>
    obtain ⟨s₁, rfl, h₁⟩ := ha.exists_of_encoded_eq (by decide) hx
    obtain ⟨q, s₂, rfl, rfl, h₂⟩ := exists_of_encoded_eq (by decide) h₁
    obtain ⟨s₃, rfl, h₃⟩ := hb.exists_of_encoded_eq (by decide) h₂
    obtain ⟨s₄, rfl, h₄⟩ := hc.isAscii.exists_of_encoded_eq_append h₃
    rw [← List.append_assoc] at h₄
    obtain ⟨s₅, t', rfl, h₅, h₆⟩ := exists_of_encoded_eq (by decide) h₄
    obtain ⟨s₆, rfl, h₇⟩ := hd.isAscii.exists_of_encoded_append_eq h₅
    rw [List.append_assoc]
    exact .cons ha (.of_encoded q hk) hb hc (Writes.of_encoded h h₇) hd
      (WritesMembers.of_encoded ht h₆)

end

/-! ## Documents -/

theorem WritesDocument.exists_encoded (h : WritesDocument v s) :
    ∃ v', WritesDocument v' (encoded s) ∧ v'.recoded = v := by
  obtain ⟨a, u, b, ha, hu, hb, rfl⟩ := h
  obtain ⟨v', hv', rfl⟩ := hu.exists_encoded
  refine ⟨v', ⟨a, encoded u, b, ha, hv', hb, ?_⟩, rfl⟩
  rw [encoded_append, encoded_append, ha.isAscii.encoded_eq, hb.isAscii.encoded_eq]

theorem WritesDocument.of_encoded (h : WritesDocument v (encoded s)) :
    WritesDocument v.recoded s := by
  obtain ⟨a, u, b, ha, hu, hb, hs⟩ := h
  obtain ⟨s₁, rfl, h₁⟩ := ha.isAscii.exists_of_encoded_eq_append hs
  obtain ⟨s₂, rfl, h₂⟩ := hb.isAscii.exists_of_encoded_append_eq h₁
  exact ⟨a, s₂, b, ha, hu.of_encoded h₂, hb, rfl⟩

/-- A text in UTF-8 is read as the text is. -/
theorem scanBytes_utf8_eq_iff : scanBytes (utf8 s) = (v, true) ↔ WritesDocument v s := by
  show ((scanDocument (encoded s)).1.recoded, (scanDocument (encoded s)).2) = (v, true) ↔ _
  constructor
  · intro h
    obtain ⟨rfl, ends⟩ := Prod.mk.inj h
    exact .of_encoded (scanDocument_eq_iff.mp (Prod.ext rfl ends))
  · intro h
    obtain ⟨v', hv', rfl⟩ := h.exists_encoded
    rw [scanDocument_eq_iff.mpr hv']

/-- A record is read from a text in UTF-8 as it is from the text. -/
theorem Schema.readBytes_utf8_eq_ok_iff {α : Type} {read : Tree → Reading α} {o : α} :
    readBytes read (utf8 s) = .ok o ↔ readDocument read s = .ok o := by
  simp only [readBytes, readScanned_eq_ok_iff, scanBytes_utf8_eq_iff, readDocument_eq_ok_iff]

end IssueMarkdown.Json
