import IssueMarkdown.Issue.Record
import IssueMarkdown.Proofs.Scanning
import Mathlib.Data.List.Nodup

/-! # What a record is read from

A string is read as the text that it spells, however it is escaped. A field of a record is read
from one place of a tree, whatever stands around it: another member or item changes no more
than its own field, and none is read twice.
-/

namespace IssueMarkdown.Json

open Text

/-! ## Strings -/

/-- What stands between the quotes of a string, and the text it spells: a character as itself,
by a letter or by its number, and one of the upper planes also by two surrogates. -/
inductive Spells : Text → Text → Prop where
  | nil : Spells [] []
  | char {c : Char} {s t : Text} (hc : ' ' ≤ c) (hn : c ∉ ['"', '\\']) (h : Spells s t) :
      Spells (c :: s) (c :: t)
  | letter {e c : Char} {s t : Text} (he : escape? e = some c) (h : Spells s t) :
      Spells ('\\' :: e :: s) (c :: t)
  | number {a b c d : Char} {n : ℕ} {s t : Text} (hn : hexUnit? a b c d = some n)
      (scalar : n < 0xd800 ∨ 0xe000 ≤ n) (h : Spells s t) :
      Spells ('\\' :: 'u' :: a :: b :: c :: d :: s) (Char.ofNat n :: t)
  | surrogates {a b c d a' b' c' d' : Char} {n m : ℕ} {s t : Text}
      (hn : hexUnit? a b c d = some n) (hm : hexUnit? a' b' c' d' = some m)
      (high : 0xd800 ≤ n ∧ n < 0xdc00) (low : 0xdc00 ≤ m ∧ m < 0xe000) (h : Spells s t) :
      Spells ('\\' :: 'u' :: a :: b :: c :: d :: '\\' :: 'u' :: a' :: b' :: c' :: d' :: s)
        (pairChar n m :: t)

theorem decodePieces?_unit {n : ℕ} (scalar : n < 0xd800 ∨ 0xe000 ≤ n) (ps : List Piece) :
    decodePieces? (.unit n :: ps) = (decodePieces? ps).map (Char.ofNat n :: ·) := by
  have hs : ¬ (0xd800 ≤ n ∧ n < 0xe000) := by omega
  have high : ¬ (0xd800 ≤ n ∧ n < 0xdc00) := by omega
  have low : ¬ (0xdc00 ≤ n ∧ n < 0xe000) := by omega
  rcases ps with _ | ⟨c | m | _, ps⟩
  · simp [decodePieces?, hs]
  · simp [decodePieces?, hs]
  · rw [decodePieces?, if_neg high, if_neg low]
  · simp [decodePieces?, hs]

/-- A spelling of a text is written with pieces that are that text. -/
theorem Spells.exists_writesPieces {s t : Text} (h : Spells s t) :
    ∃ ps, WritesPieces ps s ∧ decodePieces? ps = some t := by
  induction h with
  | nil => exact ⟨[], .nil, rfl⟩
  | @char c s t hc hn h ih =>
    obtain ⟨ps, hs, hd⟩ := ih
    exact ⟨.char c :: ps, .char hc hn hs, by rw [decodePieces?, hd]; rfl⟩
  | @letter e c s t he h ih =>
    obtain ⟨ps, hs, hd⟩ := ih
    exact ⟨.char c :: ps, .letter he hs, by rw [decodePieces?, hd]; rfl⟩
  | @number a b c d n s t hn scalar h ih =>
    obtain ⟨ps, hs, hd⟩ := ih
    exact ⟨.unit n :: ps, .unit hn hs, by rw [decodePieces?_unit scalar, hd]; rfl⟩
  | @surrogates a b c d a' b' c' d' n m s t hn hm high low h ih =>
    obtain ⟨ps, hs, hd⟩ := ih
    refine ⟨.unit n :: .unit m :: ps, .unit hn (.unit hm hs), ?_⟩
    rw [decodePieces?, if_pos high, if_pos low, hd]
    rfl

/-- A spelling of a text is read as the same pieces whatever follows the quote that closes it. -/
theorem Spells.exists_pieces_forall {s t : Text} (h : Spells s t) :
    ∃ ps, decodePieces? ps = some t ∧ ∀ r, scanString? (s ++ '"' :: r) = some (ps, r) := by
  obtain ⟨ps, hs, hd⟩ := h.exists_writesPieces
  exact ⟨ps, hd, hs.scanString?⟩

/-- Every spelling of a text is read as that text, up to the quote that closes it. -/
theorem Spells.exists_pieces {s t : Text} (h : Spells s t) (r : Text) :
    ∃ ps, scanString? (s ++ '"' :: r) = some (ps, r) ∧ decodePieces? ps = some t := by
  obtain ⟨ps, hd, hs⟩ := h.exists_pieces_forall
  exact ⟨ps, hs r, hd⟩

/-! ## Readings that succeed -/

section Success

variable {ε α β : Type} {a : α} {b : β}

theorem orMalformed_eq_ok_iff {o : Option α} : orMalformed o = .ok a ↔ o = some a := by
  cases o <;> simp [orMalformed]

theorem bind_eq_ok_iff {x : Except ε α} {f : α → Except ε β} :
    x >>= f = .ok b ↔ ∃ a, x = .ok a ∧ f a = .ok b := by
  cases x <;> simp [bind, Except.bind]

theorem map_eq_ok_iff {x : Except ε α} {f : α → β} :
    (do return f (← x)) = (.ok b : Except ε β) ↔ ∃ a, x = .ok a ∧ f a = b := by
  simp only [bind_eq_ok_iff, pure, Except.pure, Except.ok.injEq]

theorem throw_ne_ok (e : Fault) : (throw e : Reading α) ≠ .ok a := nofun

end Success

/-! ## Fields and their places -/

/-- Where a record keeps what it reads for a field. -/
structure Place (σ : Type) where
  name : Text
  {Carrier : Type}
  get : σ → Option Carrier
  put : Carrier → σ → σ
  read : Tree → Reading Carrier

/-- Neither place reaches the other. -/
structure Place.Apart {σ : Type} (p q : Place σ) : Prop where
  left : ∀ a st, q.get (p.put a st) = q.get st
  right : ∀ b st, p.get (q.put b st) = p.get st
  swap : ∀ a b st, q.put b (p.put a st) = p.put a (q.put b st)

instance {σ : Type} : Std.Symm (@Place.Apart σ) where
  symm _ _ h := ⟨h.right, h.left, fun b a st => (h.swap a b st).symm⟩

/-- What the field reads is put into the place. -/
structure Field.Fills {σ : Type} (f : Field σ) (p : Place σ) : Prop where
  name : f.name = p.name
  isSet : ∀ st, f.isSet st = (p.get st).isSome
  read : ∀ v st, f.read v st = do return p.put (← p.read v) st
  get_put : ∀ a st, p.get (p.put a st) = some a

namespace Field.Fills

variable {σ : Type} {f : Field σ} {p : Place σ} {v : Tree} {st st' : σ}

theorem exists_eq_put (h : f.Fills p) (hr : f.read v st = .ok st') :
    ∃ a, p.read v = .ok a ∧ p.put a st = st' :=
  map_eq_ok_iff.mp ((h.read v st).symm.trans hr)

theorem exists_put (h : f.Fills p) (hr : f.read v st = .ok st') :
    ∃ a, p.read v = .ok a ∧ p.get st' = some a := by
  obtain ⟨a, ha, rfl⟩ := h.exists_eq_put hr
  exact ⟨a, ha, h.get_put a st⟩

end Field.Fills

/-- What a tree has for a field: under the name in an object, or in its turn in an array. -/
inductive Tree.Holds (name : Text) (i : ℕ) : Tree → Tree → Prop where
  | member {k : List Piece} {v : Tree} {ms : List (List Piece × Tree)} {closed : Bool}
      (hm : (k, v) ∈ ms) (hk : decodePieces? k = some name) : Holds name i (.object ms closed) v
  | item {v : Tree} {vs : List Tree} {closed : Bool} (hv : vs[i]? = some v) :
      Holds name i (.array vs closed) v

namespace Schema

variable {σ β : Type} {S : Schema σ} {f g : Field σ} {fs : List (Field σ)} {get : σ → Option β}
  {rd : Tree → Reading β} {st st' : σ} {b : β} {v : Tree} {k : List Piece}
  {ms : List (List Piece × Tree)} {vs : List Tree} {closed : Bool} {i n : ℕ}

/-- A member is passed over, or it is a field that was not read before. -/
theorem readMembers_cons (h : S.readMembers closed st ((k, v) :: ms) = .ok st') :
    ∃ name, decodePieces? k = some name ∧
      ((∀ g ∈ S.fields, g.name ≠ name) ∧ S.readMembers closed st ms = .ok st' ∨
        ∃ g ∈ S.fields, g.name = name ∧ g.isSet st = false ∧
          ∃ st₁, g.read v st = .ok st₁ ∧ S.readMembers closed st₁ ms = .ok st') := by
  rw [readMembers] at h
  obtain ⟨name, hk, h⟩ := bind_eq_ok_iff.mp h
  refine ⟨name, orMalformed_eq_ok_iff.mp hk, ?_⟩
  split at h
  · rename_i hf
    exact .inl ⟨fun g hg => by simpa using List.find?_eq_none.mp hf g hg, h⟩
  · rename_i g hf
    split at h
    · exact absurd h (throw_ne_ok _)
    · rename_i hs
      obtain ⟨st₁, hg, h⟩ := bind_eq_ok_iff.mp h
      exact .inr ⟨g, List.mem_of_find?_eq_some hf, by simpa using List.find?_some hf,
        Bool.eq_false_iff.mpr hs, st₁, hg, h⟩

theorem readMembers_nil (h : S.readMembers closed st [] = .ok st') : st = st' := by
  rw [readMembers] at h
  split at h
  · exact Except.ok.inj h
  · simp at h

/-- In an array each field reads the item in its turn. -/
theorem readItems_cons (h : S.readItems closed n st (g :: fs) vs = .ok st') :
    (vs = [] ∧ S.readItems closed (n + 1) st fs [] = .ok st') ∨
      ∃ v vs', vs = v :: vs' ∧ ∃ st₁, g.read v st = .ok st₁ ∧
        S.readItems closed (n + 1) st₁ fs vs' = .ok st' := by
  cases vs with
  | nil =>
    rw [readItems] at h
    split at h
    · simp at h
    · split at h
      · exact .inl ⟨rfl, h⟩
      · exact absurd h (throw_ne_ok _)
  | cons v vs =>
    rw [readItems] at h
    obtain ⟨st₁, hv, h⟩ := bind_eq_ok_iff.mp h
    exact .inr ⟨v, vs, rfl, st₁, hv, h⟩

theorem readItems_nil (h : S.readItems closed n st [] vs = .ok st') : st = st' := by
  cases vs with
  | nil =>
    rw [readItems] at h
    split at h
    · exact Except.ok.inj h
    · simp at h
  | cons v vs => simp [readItems] at h

/-- The field has a place of its own, where what it reads is put and no other field reaches. -/
structure Owns (S : Schema σ) (f : Field σ) (get : σ → Option β) (rd : Tree → Reading β) :
    Prop where
  mem : f ∈ S.fields
  nodup : (S.fields.map (·.name)).Nodup
  isSet : ∀ st, f.isSet st = (get st).isSome
  read : ∀ v st st', f.read v st = .ok st' → ∃ b, rd v = .ok b ∧ get st' = some b
  frame : ∀ g ∈ S.fields, g.name ≠ f.name → ∀ v st st', g.read v st = .ok st' → get st' = get st

/-- Every field of the record fills a place that is empty at first, and no two places meet. -/
structure Placed (S : Schema σ) (ps : List (Place σ)) : Prop where
  nodup : (S.fields.map (·.name)).Nodup
  fills : List.Forall₂ Field.Fills S.fields ps
  apart : ps.Pairwise Place.Apart
  blank : ps.Forall fun p => p.get S.blank = none

namespace Placed

variable {ps : List (Place σ)} {p q : Place σ}

theorem exists_fills (h : S.Placed ps) (hf : f ∈ S.fields) : ∃ p ∈ ps, f.Fills p := by
  obtain ⟨i, hi, rfl⟩ := List.mem_iff_getElem.mp hf
  have hi' : i < ps.length := h.fills.length_eq ▸ hi
  exact ⟨ps[i], List.getElem_mem hi', h.fills.get hi hi'⟩

theorem exists_field (h : S.Placed ps) (hp : p ∈ ps) : ∃ f ∈ S.fields, f.Fills p := by
  obtain ⟨i, hi, rfl⟩ := List.mem_iff_getElem.mp hp
  have hi' : i < S.fields.length := h.fills.length_eq.symm ▸ hi
  exact ⟨S.fields[i], List.getElem_mem hi', h.fills.get hi' hi⟩

theorem apart_of_name_ne (h : S.Placed ps) (hp : p ∈ ps) (hq : q ∈ ps) (hn : p.name ≠ q.name) :
    p.Apart q :=
  h.apart.forall hp hq fun he => hn (he ▸ rfl)

theorem get_blank (h : S.Placed ps) (hp : p ∈ ps) : p.get S.blank = none :=
  List.forall_iff_forall_mem.mp h.blank p hp

/-- In its turn each field owns its place. -/
theorem owns (h : S.Placed ps) (hp : ps[i]? = some p) :
    ∃ f, S.fields[i]? = some f ∧ f.name = p.name ∧ S.Owns f p.get p.read := by
  obtain ⟨hi', rfl⟩ := List.getElem?_eq_some_iff.mp hp
  have hi : i < S.fields.length := h.fills.length_eq.symm ▸ hi'
  have fills : S.fields[i].Fills ps[i] := h.fills.get hi hi'
  refine ⟨S.fields[i], List.getElem?_eq_getElem hi, fills.name, List.getElem_mem hi, h.nodup,
    fills.isSet, fun v st st' => fills.exists_put, ?_⟩
  intro g hg hn v st st' hr
  obtain ⟨q, hq, hgq⟩ := h.exists_fills hg
  obtain ⟨a, -, rfl⟩ := hgq.exists_eq_put hr
  exact (h.apart_of_name_ne hq (List.getElem_mem hi') (hgq.name ▸ fills.name ▸ hn)).left a st

end Placed

namespace Owns

theorem eq_of_name_eq (h : S.Owns f get rd) (hg : g ∈ S.fields) (hn : g.name = f.name) : g = f :=
  List.inj_on_of_nodup_map h.nodup hg h.mem hn

/-- What was read for a field stays: it is not read again, and no other field changes it. -/
theorem get_readMembers_of_isSet (h : S.Owns f get rd) (hb : get st = some b)
    (hr : S.readMembers closed st ms = .ok st') : get st' = some b := by
  induction ms generalizing st with
  | nil => rwa [← readMembers_nil hr]
  | cons m ms ih =>
    obtain ⟨k, v⟩ := m
    obtain ⟨name, -, ⟨-, hr⟩ | ⟨g, hg, -, hs, st₁, hv, hr⟩⟩ := readMembers_cons hr
    · exact ih hb hr
    · refine ih ?_ hr
      by_cases hn : g.name = f.name
      · obtain rfl := h.eq_of_name_eq hg hn
        rw [h.isSet, hb] at hs
        simp at hs
      · rw [h.frame g hg hn v st st₁ hv, hb]

theorem get_readMembers (h : S.Owns f get rd) (hm : (k, v) ∈ ms)
    (hk : decodePieces? k = some f.name) (hr : S.readMembers closed st ms = .ok st') :
    ∃ b, rd v = .ok b ∧ get st' = some b := by
  induction ms generalizing st with
  | nil => simp at hm
  | cons m ms ih =>
    obtain ⟨k', v'⟩ := m
    obtain ⟨name, hk', hread⟩ := readMembers_cons hr
    rcases List.mem_cons.mp hm with he | hm
    · obtain ⟨rfl, rfl⟩ := Prod.mk.inj he
      obtain rfl : f.name = name := Option.some.inj (hk.symm.trans hk')
      rcases hread with ⟨hno, -⟩ | ⟨g, hg, hn, -, st₁, hv, hr⟩
      · exact absurd rfl (hno f h.mem)
      · obtain rfl := h.eq_of_name_eq hg hn
        obtain ⟨b, hb, hget⟩ := h.read _ _ _ hv
        exact ⟨b, hb, h.get_readMembers_of_isSet hget hr⟩
    · rcases hread with ⟨-, hr⟩ | ⟨-, -, -, -, st₁, -, hr⟩
      · exact ih hm hr
      · exact ih hm hr

theorem get_readItems_of_ne (h : S.Owns f get rd) (hfs : fs ⊆ S.fields)
    (hf : ∀ g ∈ fs, g.name ≠ f.name) (hr : S.readItems closed n st fs vs = .ok st') :
    get st' = get st := by
  induction fs generalizing n st vs with
  | nil => rw [readItems_nil hr]
  | cons g fs ih =>
    obtain ⟨hg, hfs⟩ := List.cons_subset.mp hfs
    obtain ⟨hn, hf⟩ := List.forall_mem_cons.mp hf
    rcases readItems_cons hr with ⟨-, hr'⟩ | ⟨v, vs, -, st₁, hv, hr'⟩
    · exact ih hfs hf hr'
    · rw [ih hfs hf hr', h.frame g hg hn v st st₁ hv]

theorem get_readItems (h : S.Owns f get rd) (hfs : fs ⊆ S.fields)
    (hnd : (fs.map (·.name)).Nodup) (hf : fs[i]? = some f) (hv : vs[i]? = some v)
    (hr : S.readItems closed n st fs vs = .ok st') : ∃ b, rd v = .ok b ∧ get st' = some b := by
  induction fs generalizing n i st vs with
  | nil => simp at hf
  | cons g fs ih =>
    obtain ⟨hg, hfs⟩ := List.cons_subset.mp hfs
    rw [List.map_cons, List.nodup_cons] at hnd
    rcases readItems_cons hr with ⟨rfl, -⟩ | ⟨w, vs, rfl, st₁, hw, hr⟩
    · simp at hv
    · cases i with
      | zero =>
        obtain rfl : g = f := by simpa using hf
        obtain rfl : w = v := by simpa using hv
        obtain ⟨b, hb, hget⟩ := h.read _ _ _ hw
        have hne : ∀ e ∈ fs, e.name ≠ g.name := fun e he hn =>
          hnd.1 (hn ▸ List.mem_map_of_mem he)
        exact ⟨b, hb, (h.get_readItems_of_ne hfs hne hr).trans hget⟩
      | succ i => exact ih hfs hnd.2 (by simpa using hf) (by simpa using hv) hr

/-- In a record that could be read, a field that the tree has is what was read there. -/
theorem get_read (h : S.Owns f get rd) (hi : S.fields[i]? = some f) {t : Tree}
    (hv : t.Holds f.name i v) (hr : S.read t = .ok st) : ∃ b, rd v = .ok b ∧ get st = some b := by
  cases hv with
  | member hm hk =>
    rw [Schema.read] at hr
    obtain ⟨st₁, h₁, hr⟩ := bind_eq_ok_iff.mp hr
    split at hr
    · exact absurd hr (throw_ne_ok _)
    · obtain rfl := Except.ok.inj hr
      exact h.get_readMembers hm hk h₁
  | item hv => exact h.get_readItems (List.Subset.refl _) h.nodup hi hv hr

end Owns

theorem Placed.get_read {ps : List (Place σ)} {p : Place σ} (h : S.Placed ps)
    (hp : ps[i]? = some p) {t : Tree} (hv : t.Holds p.name i v) (hr : S.read t = .ok st) :
    ∃ b, p.read v = .ok b ∧ p.get st = some b := by
  obtain ⟨f, hi, hn, owns⟩ := h.owns hp
  exact owns.get_read hi (hn ▸ hv) hr

theorem readScanned_eq_ok_iff {read : Tree → Reading σ} {scanned : Tree × Bool} :
    readScanned read scanned = .ok st ↔ ∃ t, scanned = (t, true) ∧ read t = .ok st := by
  obtain ⟨t, ends⟩ := scanned
  simp only [readScanned, bind_eq_ok_iff]
  cases ends <;> simp [throw_ne_ok, pure, Except.pure]

/-- A document is read if the grammar has it and its tree is read. -/
theorem readDocument_eq_ok_iff {read : Tree → Reading σ} {s : Text} :
    readDocument read s = .ok st ↔ ∃ t, WritesDocument t s ∧ read t = .ok st := by
  simp only [readDocument, readScanned_eq_ok_iff, scanDocument_eq_iff]

end Schema

end IssueMarkdown.Json

namespace IssueMarkdown

open Json Schema

variable {t u : Tree}

/-! ## The description of an issue -/

theorem IssueFields.placed_schema : schema.Placed
    [⟨"summary".toList, (·.summary), fun a st => { st with summary := some a }, Tree.readText⟩,
      ⟨"description".toList, (·.description), fun a st => { st with description := some a },
        Tree.readOptional (Tree.readValue 2)⟩,
      ⟨"issuetype".toList, (·.issueType), fun a st => { st with issueType := some a },
        Tree.readOptional IssueType.read⟩] where
  nodup := by decide
  fills := by
    refine .cons ?_ (.cons ?_ (.cons ?_ .nil))
    all_goals exact ⟨rfl, fun _ => rfl, fun _ _ => rfl, fun _ _ => rfl⟩
  apart := by
    refine .cons (List.forall_mem_cons.mpr ⟨?_, List.forall_mem_singleton.mpr ?_⟩)
      (List.pairwise_pair.mpr ?_)
    all_goals exact ⟨fun _ _ => rfl, fun _ _ => rfl, fun _ _ _ => rfl⟩
  blank := ⟨rfl, rfl, rfl⟩

theorem Issue.placed_schema : schema.Placed
    [⟨"key".toList, (·.key), fun a st => { st with key := some a }, Tree.readText⟩,
      ⟨"fields".toList, (·.fields), fun a st => { st with fields := some a },
        IssueFields.read⟩] where
  nodup := by decide
  fills := by
    refine .cons ?_ (.cons ?_ .nil)
    all_goals exact ⟨rfl, fun _ => rfl, fun _ _ => rfl, fun _ _ => rfl⟩
  apart := List.pairwise_pair.mpr ⟨fun _ _ => rfl, fun _ _ => rfl, fun _ _ _ => rfl⟩
  blank := ⟨rfl, rfl⟩

theorem Issue.read_fields {i : Issue} (hu : t.Holds "fields".toList 1 u)
    (h : Issue.read t = .ok i) : IssueFields.read u = .ok i.fields := by
  obtain ⟨st, hst, h⟩ := bind_eq_ok_iff.mp h
  obtain ⟨fields, hread, hget⟩ : ∃ fields, IssueFields.read u = .ok fields ∧
      st.fields = some fields := placed_schema.get_read (i := 1) rfl hu hst
  split at h
  · rename_i key fields' hk hf
    obtain rfl := Except.ok.inj h
    obtain rfl : fields' = fields := Option.some.inj (hf.symm.trans hget)
    exact hread
  · exact absurd h (throw_ne_ok _)

theorem IssueFields.read_description {i : IssueFields} (hu : t.Holds "description".toList 1 u)
    (h : IssueFields.read t = .ok i) :
    u.readOptional (Tree.readValue 2) = .ok i.description := by
  obtain ⟨st, hst, h⟩ := bind_eq_ok_iff.mp h
  obtain ⟨v, hread, hget⟩ : ∃ v, u.readOptional (Tree.readValue 2) = .ok v ∧
      st.description = some v := placed_schema.get_read (i := 1) rfl hu hst
  obtain rfl := Except.ok.inj h
  show _ = Except.ok (st.description.getD none)
  rw [hread, hget]
  rfl

/-- The tree of an issue has a string for its description. -/
def DescribedBy (t : Tree) (ps : List Piece) : Prop :=
  ∃ u, t.Holds "fields".toList 1 u ∧ u.Holds "description".toList 1 (.string ps)

theorem markup?_of_describedBy {ps : List Piece} {m : Text} {i : Issue} (h : DescribedBy t ps)
    (hm : decodePieces? ps = some m) (hi : Issue.read t = .ok i) :
    markup? i.fields.description = some m := by
  obtain ⟨u, hu, hv⟩ := h
  have hread := IssueFields.read_description hv (Issue.read_fields hu hi)
  have hs : (Tree.string ps).readOptional (Tree.readValue 2) = .ok (some (.string m)) := by
    simp [Tree.readOptional, Tree.readValue, Tree.toValue?, hm, orMalformed]
  rw [← Except.ok.inj (hs.symm.trans hread)]
  rfl

end IssueMarkdown
