import IssueMarkdown.Json.Value
import Mathlib.Data.List.Basic
import Mathlib.Data.List.Forall2
import Mathlib.Data.Nat.Notation

/-! # What a tree means

The value of a tree by rules that say nothing of the order of reading: an object has the last member
of each name, in the order of the names, and brackets nest no deeper than is allowed.
-/

namespace IssueMarkdown.Json

namespace Value

variable {m n : Text × Value} {ms ns seen : List (Text × Value)} {k : Text} {v : Value}

/-- The last member of its name. -/
inductive Last (m : Text × Value) : List (Text × Value) → Prop where
  | here {ms : List (Text × Value)} (h : ∀ n ∈ ms, n.1 ≠ m.1) : Last m (m :: ms)
  | there {n : Text × Value} {ms : List (Text × Value)} (h : Last m ms) : Last m (n :: ms)

/-- Names in order, none of them twice. -/
def Ordered (ms : List (Text × Value)) : Prop := ms.Pairwise (·.1 < ·.1)

theorem last_cons_iff : Last m (n :: ms) ↔ Last m ms ∨ m = n ∧ ∀ m' ∈ ms, m'.1 ≠ m.1 := by
  constructor
  · intro h
    cases h with
    | here h => exact .inr ⟨rfl, h⟩
    | there h => exact .inl h
  · rintro (h | ⟨rfl, h⟩)
    · exact .there h
    · exact .here h

theorem Last.mem (h : Last m ms) : m ∈ ms := by
  induction h with
  | here => exact List.mem_cons_self
  | there _ ih => exact List.mem_cons_of_mem _ ih

/-- In order every member is the last of its name. -/
theorem Ordered.last_iff (h : Ordered ms) : Last m ms ↔ m ∈ ms := by
  refine ⟨Last.mem, fun hm => ?_⟩
  induction h with
  | nil => exact absurd hm List.not_mem_nil
  | @cons n ms hn _ ih =>
    rcases List.mem_cons.mp hm with rfl | hm
    · exact .here fun n hm he => List.lt_irrefl m.1 (he ▸ hn n hm)
    · exact .there (ih hm)

/-- Members in order are known by what is among them. -/
theorem Ordered.ext (h : Ordered ms) (h' : Ordered ns) (he : ∀ m, m ∈ ms ↔ m ∈ ns) : ms = ns := by
  have distinct {l : List (Text × Value)} (hl : Ordered l) : l.Nodup := by
    refine List.Pairwise.imp ?_ hl
    rintro m _ hlt rfl
    exact List.lt_irrefl m.1 hlt
  exact ((List.perm_ext_iff_of_nodup (distinct h) (distinct h')).mpr he).eq_of_pairwise
    (fun _ _ _ _ hlt hgt => absurd hgt (List.lt_asymm hlt)) h h'

theorem mem_insert_iff (h : Ordered ms) : m ∈ insert k v ms ↔ m = (k, v) ∨ m ∈ ms ∧ m.1 ≠ k := by
  induction h with
  | nil => simp [insert]
  | @cons n ms hn _ ih =>
    obtain ⟨k', v'⟩ := n
    have above : m ∈ ms → k' < m.1 := fun hm => hn m hm
    rw [insert]
    split
    · next hk =>
      have later : m ∈ (k', v') :: ms → m.1 ≠ k := by
        rintro hm rfl
        rcases List.mem_cons.mp hm with rfl | hm
        · exact List.lt_irrefl _ hk
        · exact List.lt_asymm hk (above hm)
      rw [List.mem_cons]
      tauto
    · split
      · next hk =>
        subst hk
        have later : m ∈ ms → m.1 ≠ k := fun hm he => List.lt_irrefl k (he ▸ above hm)
        have first : m = (k, v') → m.1 = k := fun he => he ▸ rfl
        simp only [List.mem_cons]
        tauto
      · next hk =>
        have first : m = (k', v') → m.1 ≠ k := fun he hm => hk (hm ▸ he ▸ rfl)
        simp only [List.mem_cons, ih]
        tauto

theorem Ordered.insert (h : Ordered ms) (k : Text) (v : Value) : Ordered (insert k v ms) := by
  induction h with
  | nil => exact List.pairwise_singleton _ _
  | @cons n ms hn hms ih =>
    obtain ⟨k', v'⟩ := n
    rw [Value.insert]
    split
    · next hk =>
      refine .cons (fun m hm => ?_) (.cons hn hms)
      rcases List.mem_cons.mp hm with rfl | hm
      · exact hk
      · exact List.lt_trans hk (hn m hm)
    · next hlt =>
      split
      · next hk =>
        subst hk
        exact .cons hn hms
      · next hk =>
        refine .cons (fun m hm => ?_) ih
        rcases (mem_insert_iff hms).mp hm with rfl | ⟨hm, -⟩
        · exact ((Std.lt_trichotomy k k').resolve_left hlt).resolve_left hk
        · exact hn m hm

/-- Members that are added one by one. -/
def insertAll (seen ns : List (Text × Value)) : List (Text × Value) :=
  ns.foldl (fun seen n => insert n.1 n.2 seen) seen

theorem Ordered.insertAll (h : Ordered seen) (ns : List (Text × Value)) :
    Ordered (insertAll seen ns) := by
  induction ns generalizing seen with
  | nil => exact h
  | cons n ns ih => exact ih (h.insert n.1 n.2)

/-- They hide those of their names that were there before. -/
theorem mem_insertAll_iff (h : Ordered seen) :
    m ∈ insertAll seen ns ↔ Last m ns ∨ m ∈ seen ∧ ∀ n ∈ ns, n.1 ≠ m.1 := by
  induction ns generalizing seen with
  | nil => simpa [insertAll] using fun h : Last m [] => nomatch h
  | cons n ns ih =>
    have step : insertAll seen (n :: ns) = insertAll (insert n.1 n.2 seen) ns := rfl
    rw [step, ih (h.insert n.1 n.2), mem_insert_iff h, last_cons_iff, List.forall_mem_cons,
      ne_comm (a := n.1)]
    tauto

theorem ordered_nil : Ordered [] := List.Pairwise.nil

theorem mem_insertAll_nil_iff : m ∈ insertAll [] ns ↔ Last m ns := by
  simp [mem_insertAll_iff ordered_nil]

end Value

open Value

variable {depth : ℕ} {t : Tree} {v : Value} {ts : List Tree} {vs : List Value}
  {ms : List (List Piece × Tree)} {seen ns ws : List (Text × Value)} {closed : Bool}

/-! ## Values of trees -/

/-- The value of a whole tree whose brackets nest at most `depth` deep. Every member of an object
has to have a name and a value, but only the last one of each name counts. -/
inductive Tree.Denotes : ℕ → Tree → Value → Prop where
  | null {depth : ℕ} : Denotes depth .null .null
  | bool {depth : ℕ} (b : Bool) : Denotes depth (.bool b) (.bool b)
  | number {depth : ℕ} {l : Literal} {n : Number} (h : l.value? = some n) :
      Denotes depth (.number l) (.number n)
  | string {depth : ℕ} {ps : List Piece} {s : Text} (h : decodePieces? ps = some s) :
      Denotes depth (.string ps) (.string s)
  | array {depth : ℕ} {ts : List Tree} {vs : List Value} (length : ts.length = vs.length)
      (items : ∀ p ∈ ts.zip vs, Denotes depth p.1 p.2) :
      Denotes (depth + 1) (.array ts true) (.array vs)
  | object {depth : ℕ} {ms : List (List Piece × Tree)} {ns vs : List (Text × Value)}
      (length : ms.length = ns.length) (names : ∀ p ∈ ms.zip ns, decodePieces? p.1.1 = some p.2.1)
      (values : ∀ p ∈ ms.zip ns, Denotes depth p.1.2 p.2.2) (ordered : Ordered vs)
      (last : ∀ m, m ∈ vs ↔ Last m ns) : Denotes (depth + 1) (.object ms true) (.object vs)

theorem itemValues?_eq_some_iff : itemValues? depth ts = some vs ↔
    ts.length = vs.length ∧ ∀ p ∈ ts.zip vs, p.1.toValue? depth = some p.2 := by
  induction ts generalizing vs with
  | nil => cases vs <;> simp [itemValues?]
  | cons t ts ih =>
    cases vs with
    | nil => simp [itemValues?, Option.bind_eq_some_iff]
    | cons v vs =>
      simp only [itemValues?, bind, Option.bind_eq_some_iff, pure, Option.some.injEq,
        List.cons.injEq, ih, List.length_cons, Nat.add_right_cancel_iff, List.zip_cons_cons,
        List.forall_mem_cons]
      constructor
      · rintro ⟨v, hv, vs, hvs, rfl, rfl⟩
        exact ⟨hvs.1, hv, hvs.2⟩
      · rintro ⟨length, hv, hvs⟩
        exact ⟨v, hv, vs, ⟨length, hvs⟩, rfl, rfl⟩

theorem memberValues?_eq_some_iff : memberValues? depth seen ms = some ws ↔
    ∃ ns : List (Text × Value), ms.length = ns.length ∧
      (∀ p ∈ ms.zip ns, decodePieces? p.1.1 = some p.2.1) ∧
      (∀ p ∈ ms.zip ns, p.1.2.toValue? depth = some p.2.2) ∧
      ws = insertAll seen ns := by
  induction ms generalizing seen with
  | nil =>
    simp only [memberValues?, Option.some.injEq]
    constructor
    · rintro rfl
      exact ⟨[], rfl, by simp, by simp, rfl⟩
    · rintro ⟨ns, length, -, -, rfl⟩
      rw [List.eq_nil_of_length_eq_zero length.symm]
      rfl
  | cons m ms ih =>
    obtain ⟨k, t⟩ := m
    simp only [memberValues?, bind, Option.bind_eq_some_iff, ih]
    constructor
    · rintro ⟨name, hk, v, hv, ns, length, names, values, rfl⟩
      exact ⟨(name, v) :: ns, congrArg (· + 1) length, List.forall_mem_cons.mpr ⟨hk, names⟩,
        List.forall_mem_cons.mpr ⟨hv, values⟩, rfl⟩
    · rintro ⟨ns, length, names, values, rfl⟩
      obtain ⟨⟨name, v⟩, ns, rfl⟩ := List.exists_cons_of_length_pos (l := ns) (by simp [← length])
      obtain ⟨hk, names⟩ := List.forall_mem_cons.mp names
      obtain ⟨hv, values⟩ := List.forall_mem_cons.mp values
      exact ⟨name, hk, v, hv, ns, Nat.succ.inj length, names, values, rfl⟩

theorem toValue?_array_eq_some_iff : (Tree.array ts closed).toValue? depth = some v ↔
    ∃ d vs, depth = d + 1 ∧ closed = true ∧ itemValues? d ts = some vs ∧ v = .array vs := by
  cases depth with
  | zero => simp [Tree.toValue?]
  | succ d => cases closed <;> simp [Tree.toValue?, Option.map_eq_some_iff, eq_comm (b := v)]

theorem toValue?_object_eq_some_iff : (Tree.object ms closed).toValue? depth = some v ↔
    ∃ d ws, depth = d + 1 ∧ closed = true ∧ memberValues? d [] ms = some ws ∧ v = .object ws := by
  cases depth with
  | zero => simp [Tree.toValue?]
  | succ d => cases closed <;> simp [Tree.toValue?, Option.map_eq_some_iff, eq_comm (b := v)]

theorem Tree.denotes_of_toValue? (h : t.toValue? depth = some v) : t.Denotes depth v := by
  induction depth using Nat.strongRecOn generalizing t v with
  | ind depth ih =>
    cases t with
    | null =>
      obtain rfl : .null = v := by simpa [Tree.toValue?] using h
      exact .null
    | bool b =>
      obtain rfl : .bool b = v := by simpa [Tree.toValue?] using h
      exact .bool b
    | number l =>
      obtain ⟨n, hn, rfl⟩ : ∃ n, l.value? = some n ∧ .number n = v := by
        simpa [Tree.toValue?] using h
      exact .number hn
    | string ps =>
      obtain ⟨s, hs, rfl⟩ : ∃ s, decodePieces? ps = some s ∧ .string s = v := by
        simpa [Tree.toValue?] using h
      exact .string hs
    | array ts closed =>
      obtain ⟨d, vs, rfl, rfl, hvs, rfl⟩ := toValue?_array_eq_some_iff.mp h
      obtain ⟨length, items⟩ := itemValues?_eq_some_iff.mp hvs
      exact .array length fun p hp => ih d d.lt_succ_self (items p hp)
    | object ms closed =>
      obtain ⟨d, ws, rfl, rfl, hws, rfl⟩ := toValue?_object_eq_some_iff.mp h
      obtain ⟨ns, length, names, values, rfl⟩ := memberValues?_eq_some_iff.mp hws
      exact .object length names (fun p hp => ih d d.lt_succ_self (values p hp))
        (ordered_nil.insertAll ns) fun m => mem_insertAll_nil_iff
    | broken => simp [Tree.toValue?] at h

theorem Tree.Denotes.toValue? (h : t.Denotes depth v) : t.toValue? depth = some v := by
  induction h with
  | null => simp [Tree.toValue?]
  | bool b => simp [Tree.toValue?]
  | number h => simp [Tree.toValue?, h]
  | string h => simp [Tree.toValue?, h]
  | array length _ ih =>
    exact toValue?_array_eq_some_iff.mpr
      ⟨_, _, rfl, rfl, itemValues?_eq_some_iff.mpr ⟨length, ih⟩, rfl⟩
  | @object _ ms ns vs length names _ ordered last ih =>
    refine toValue?_object_eq_some_iff.mpr
      ⟨_, _, rfl, rfl, memberValues?_eq_some_iff.mpr ⟨ns, length, names, ih, ?_⟩, rfl⟩
    exact ordered.ext (ordered_nil.insertAll ns) fun m => (last m).trans mem_insertAll_nil_iff.symm

/-- A tree that is kept is read as what it means. -/
theorem Tree.toValue?_eq_some_iff : t.toValue? depth = some v ↔ t.Denotes depth v :=
  ⟨denotes_of_toValue?, Denotes.toValue?⟩

end IssueMarkdown.Json
