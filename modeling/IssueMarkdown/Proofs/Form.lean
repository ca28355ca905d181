import IssueMarkdown.Proofs.MemberOrder

/-! # The forms of a record

A record is read from an array or from an object. A tree is read exactly if its form fits and what
it has for each field can be read, and what is read depends on nothing else.
-/

namespace IssueMarkdown.Json

/-- What a tree has for a field: the member of its name, or the item in its turn. -/
def Tree.field? (name : Text) (i : ℕ) : Tree → Option Tree
  | .object ms _ => (ms.find? fun m => decodePieces? m.1 == some name).map (·.2)
  | .array vs _ => vs[i]?
  | _ => none

theorem Tree.reject_ne_ok {α : Type} {a : α} (w : Wanted) (t : Tree) : t.reject w ≠ .ok a := by
  intro h
  obtain ⟨f, -, hf⟩ := bind_eq_ok_iff.mp h
  exact throw_ne_ok _ hf

theorem Tree.readOptional_of_ne {α : Type} {read : Tree → Reading α} {t : Tree} (hn : t ≠ .null) :
    t.readOptional read = some <$> read t := by
  unfold readOptional
  split
  · exact absurd rfl hn
  · rfl

/-- What there is for the field can be read, whatever was read before, or it may be left out. -/
inductive Field.Ready {σ : Type} (f : Field σ) : Option Tree → Prop where
  | absent (optional : f.optional) (trailing : f.trailing) : Ready f none
  | present {v : Tree} (h : ∀ st, ∃ st', f.read v st = .ok st') : Ready f (some v)

namespace Field.Ready

variable {σ β : Type} {f : Field σ} {v : Tree} {o : Option Tree}

theorem exists_read (h : f.Ready (some v)) (st : σ) : ∃ st', f.read v st = .ok st' := by
  cases h with
  | present h => exact h st

theorem left_out (h : f.Ready none) : f.optional ∧ f.trailing := by
  cases h with
  | absent optional trailing => exact ⟨optional, trailing⟩

theorem of_ok {rd : Tree → Reading β} {put : β → σ → σ} {b : β}
    (hf : ∀ v st, f.read v st = do return put (← rd v) st) (h : rd v = .ok b) : f.Ready (some v) :=
  .present fun st => ⟨put b st, (hf v st).trans (map_eq_ok_iff.mpr ⟨b, h, rfl⟩)⟩

theorem of_optional {read : Tree → Reading β} {put : Option β → σ → σ} {b : Option β}
    (optional : f.optional) (trailing : f.trailing)
    (hf : ∀ v st, f.read v st = do return put (← v.readOptional read) st)
    (h : (o.getD .null).readOptional read = .ok b) : f.Ready o := by
  cases o with
  | none => exact .absent optional trailing
  | some v => exact .of_ok hf h

end Field.Ready

namespace Schema

variable {σ β : Type} {S : Schema σ} {f : Field σ} {fs : List (Field σ)} {get : σ → Option β}
  {rd : Tree → Reading β} {st st' st₁ : σ} {b : β} {t v : Tree} {m : List Piece × Tree}
  {ms : List (List Piece × Tree)} {vs : List Tree} {closed : Bool} {i n : ℕ} {name : Text}

/-! ## Forms -/

/-- No field of the record has two members. -/
def Once (S : Schema σ) (ms : List (List Piece × Tree)) : Prop :=
  ms.Pairwise fun m m' => ∀ f ∈ S.fields,
    decodePieces? m.1 = some f.name → decodePieces? m'.1 ≠ some f.name

/-- A form that the record can be read from: an array with no more items than fields, or an object
whose names can be read, with no field twice among them. -/
inductive Fits (S : Schema σ) : Tree → Prop where
  | array {vs : List Tree} (length : vs.length ≤ S.fields.length) : Fits S (.array vs true)
  | object {ms : List (List Piece × Tree)} (names : ∀ m ∈ ms, (decodePieces? m.1).isSome)
      (once : S.Once ms) : Fits S (.object ms true)

theorem field?_object_eq_none_iff : (Tree.object ms closed).field? name i = none ↔
    ∀ m ∈ ms, decodePieces? m.1 ≠ some name := by
  simp [Tree.field?]

theorem holds_of_field? (h : t.field? name i = some v) : t.Holds name i v := by
  cases t with
  | object ms closed =>
    obtain ⟨⟨k, w⟩, hm, rfl⟩ := Option.map_eq_some_iff.mp h
    exact .member (List.mem_of_find?_eq_some hm) (by simpa using List.find?_some hm)
  | array vs closed => exact .item h
  | _ => cases h

theorem Once.field?_eq_some (h : S.Once ms) (hf : f ∈ S.fields) (hm : m ∈ ms)
    (hk : decodePieces? m.1 = some f.name) :
    (Tree.object ms closed).field? f.name i = some m.2 := by
  induction h with
  | nil => cases hm
  | @cons m' ms hn _ ih =>
    rw [Tree.field?, List.find?_cons]
    rcases List.mem_cons.mp hm with rfl | hm
    · simp [hk]
    · have other : decodePieces? m'.1 ≠ some f.name := fun hk' => hn m hm f hf hk' hk
      rw [beq_eq_false_iff_ne.mpr other]
      exact ih hm

/-! ## Records that could be read -/

namespace Owns

theorem get_readMembers_of_absent (h : S.Owns f get rd)
    (hm : ∀ m ∈ ms, decodePieces? m.1 ≠ some f.name)
    (hr : S.readMembers closed st ms = .ok st') : get st' = get st := by
  induction ms generalizing st with
  | nil => rw [readMembers_nil hr]
  | cons m ms ih =>
    obtain ⟨hk, hm⟩ := List.forall_mem_cons.mp hm
    obtain ⟨name, hk', ⟨-, hr⟩ | ⟨g, hg, rfl, -, st₁, hv, hr⟩⟩ := readMembers_cons hr
    · exact ih hm hr
    · have other : g.name ≠ f.name := fun hn => hk (hn ▸ hk')
      rw [ih hm hr, h.frame g hg other _ st st₁ hv]

theorem get_readItems_of_short (h : S.Owns f get rd) (hfs : fs ⊆ S.fields)
    (hnd : (fs.map (·.name)).Nodup) (hf : fs[i]? = some f) (hv : vs.length ≤ i)
    (hr : S.readItems closed n st fs vs = .ok st') : get st' = get st := by
  induction fs generalizing n i st vs with
  | nil => simp at hf
  | cons g fs ih =>
    obtain ⟨hg, hfs⟩ := List.cons_subset.mp hfs
    rw [List.map_cons, List.nodup_cons] at hnd
    cases i with
    | zero =>
      obtain rfl : g = f := by simpa using hf
      have others : ∀ e ∈ fs, e.name ≠ g.name := fun e he hn =>
        hnd.1 (hn ▸ List.mem_map_of_mem he)
      rcases readItems_cons hr with ⟨-, hr⟩ | ⟨v, vs', rfl, -⟩
      · exact h.get_readItems_of_ne hfs others hr
      · simp at hv
    | succ i =>
      have hf : fs[i]? = some f := by simpa using hf
      rcases readItems_cons hr with ⟨rfl, hr'⟩ | ⟨v, vs', rfl, st₁, hw, hr⟩
      · have none : ([] : List Tree).length ≤ i := Nat.zero_le i
        exact ih hfs hnd.2 hf none hr'
      · have other : g.name ≠ f.name := fun hn =>
          hnd.1 (hn ▸ List.mem_map_of_mem (List.mem_of_getElem? hf))
        rw [ih hfs hnd.2 hf (Nat.le_of_succ_le_succ hv) hr, h.frame g hg other v st st₁ hw]

end Owns

/-- In a record that could be read, a place has what was read where the tree has its field, and
nothing where the tree has none. -/
theorem Placed.rel_field? {ps : List (Place σ)} {p : Place σ} (h : S.Placed ps)
    (hp : ps[i]? = some p) (hr : S.read t = .ok st) :
    Option.Rel (fun v b => p.read v = .ok b) (t.field? p.name i) (p.get st) := by
  cases hv : t.field? p.name i with
  | some v =>
    obtain ⟨b, hb, hget⟩ := h.get_read hp (holds_of_field? hv) hr
    exact hget ▸ .some hb
  | none =>
    obtain ⟨f, hi, hn, owns⟩ := h.owns hp
    rw [← hn] at hv
    have untouched : p.get st = p.get S.blank := by
      cases t with
      | object ms closed =>
        obtain ⟨st₁, hms, hr⟩ := bind_eq_ok_iff.mp hr
        split at hr
        · exact absurd hr (throw_ne_ok _)
        · obtain rfl := Except.ok.inj hr
          exact owns.get_readMembers_of_absent (field?_object_eq_none_iff.mp hv) hms
      | array vs closed =>
        exact owns.get_readItems_of_short (List.Subset.refl _) owns.nodup hi
          (List.getElem?_eq_none_iff.mp hv) hr
      | _ => exact absurd hr (Tree.reject_ne_ok _ _)
    rw [untouched, h.get_blank (List.mem_of_getElem? hp)]
    exact .none

theorem fits_of_readItems (hr : S.readItems closed n st fs vs = .ok st') :
    closed = true ∧ vs.length ≤ fs.length := by
  induction fs generalizing n st vs with
  | nil =>
    cases vs with
    | nil =>
      cases closed with
      | true => exact ⟨rfl, Nat.le_refl _⟩
      | false => cases hr
    | cons v vs => cases hr
  | cons g fs ih =>
    rcases readItems_cons hr with ⟨rfl, hr'⟩ | ⟨v, vs', rfl, st₁, -, hr⟩
    · exact ⟨(ih hr').1, Nat.zero_le _⟩
    · exact ⟨(ih hr).1, Nat.succ_le_succ (ih hr).2⟩

namespace Independent

/-- A member that is taken has a name, and if it is that of a field, the field was not set
before. -/
theorem isSet_of_takes (h : S.Independent) (hm : S.Takes m st st₁) :
    (decodePieces? m.1).isSome ∧ ∀ f ∈ S.fields, (f.isSet st → f.isSet st₁) ∧
      (decodePieces? m.1 = some f.name → f.isSet st = false ∧ f.isSet st₁) := by
  cases hm with
  | pass hk =>
    obtain ⟨name, hk, hn⟩ := hk
    refine ⟨hk ▸ rfl, fun f hf => ⟨id, fun hf' => ?_⟩⟩
    exact absurd (Option.some.inj (hf'.symm.trans hk)) (hn f hf)
  | @fill k v _ _ g hg hk hs hv =>
    refine ⟨hk ▸ rfl, fun f hf => ⟨fun hset => ?_, fun hf' => ?_⟩⟩
    · have other : g.name ≠ f.name := fun hn => by
        rw [h.eq_of_name_eq hg hf hn, hset] at hs
        cases hs
      rw [(h.apart g hg f hf other).frame v st _ hv, hset]
    · obtain rfl := h.eq_of_name_eq hf hg (Option.some.inj (hf'.symm.trans hk))
      exact ⟨hs, h.fills f hf v st _ hv⟩

theorem isSet_readMembers (h : S.Independent) (hf : f ∈ S.fields)
    (hr : S.readMembers closed st ms = .ok st')
    (hs : f.isSet st ∨ ∃ m ∈ ms, decodePieces? m.1 = some f.name) : f.isSet st' := by
  induction ms generalizing st with
  | nil =>
    rw [← readMembers_nil hr]
    simpa using hs
  | cons m ms ih =>
    obtain ⟨st₁, hm, hr⟩ := h.readMembers_cons_eq_ok_iff.mp hr
    obtain ⟨stays, fills⟩ := (h.isSet_of_takes hm).2 f hf
    refine ih hr ?_
    rcases hs with hs | ⟨m', hm', hk⟩
    · exact .inl (stays hs)
    · rcases List.mem_cons.mp hm' with rfl | hm'
      · exact .inl (fills hk).2
      · exact .inr ⟨m', hm', hk⟩

/-- Members that could be read are closed and have names, and no field is read a second time. -/
theorem fits_of_readMembers (h : S.Independent) (hr : S.readMembers closed st ms = .ok st') :
    closed = true ∧ (∀ m ∈ ms, (decodePieces? m.1).isSome) ∧ S.Once ms ∧
      ∀ f ∈ S.fields, f.isSet st → ∀ m ∈ ms, decodePieces? m.1 ≠ some f.name := by
  induction ms generalizing st with
  | nil =>
    refine ⟨?_, by simp, .nil, by simp⟩
    cases closed with
    | true => rfl
    | false => cases hr
  | cons m ms ih =>
    obtain ⟨st₁, hm, hr⟩ := h.readMembers_cons_eq_ok_iff.mp hr
    obtain ⟨named, taken⟩ := h.isSet_of_takes hm
    obtain ⟨hc, names, once, unset⟩ := ih hr
    refine ⟨hc, List.forall_mem_cons.mpr ⟨named, names⟩, .cons ?_ once, fun f hf hs => ?_⟩
    · exact fun m' hm' f hf hk => unset f hf ((taken f hf).2 hk).2 m' hm'
    · refine List.forall_mem_cons.mpr ⟨fun hk => ?_, unset f hf ((taken f hf).1 hs)⟩
      rw [((taken f hf).2 hk).1] at hs
      cases hs

theorem fits_of_read (h : S.Independent) (hr : S.read t = .ok st) : S.Fits t := by
  cases t with
  | object ms closed =>
    obtain ⟨st₁, hms, -⟩ := bind_eq_ok_iff.mp hr
    obtain ⟨rfl, names, once, -⟩ := h.fits_of_readMembers hms
    exact .object names once
  | array vs closed =>
    obtain ⟨rfl, length⟩ := fits_of_readItems hr
    exact .array length
  | _ => exact absurd hr (Tree.reject_ne_ok _ _)

end Independent

/-! ## Records that can be read -/

theorem exists_readItems (length : vs.length ≤ fs.length)
    (ready : ∀ (i : ℕ) (f : Field σ), fs[i]? = some f → f.Ready vs[i]?) :
    ∃ st', S.readItems true n st fs vs = .ok st' := by
  induction fs generalizing n st vs with
  | nil =>
    rw [List.eq_nil_of_length_eq_zero (Nat.le_zero.mp length)]
    exact ⟨st, rfl⟩
  | cons f fs ih =>
    cases vs with
    | nil =>
      have rest : ∃ st', S.readItems true (n + 1) st fs [] = .ok st' :=
        ih (Nat.zero_le _) fun i => ready (i + 1)
      obtain ⟨st', hr⟩ := rest
      exact ⟨st', by simp [readItems, (ready 0 f rfl).left_out.2, hr]⟩
    | cons v vs =>
      obtain ⟨st₁, hv⟩ := (ready 0 f rfl).exists_read st
      have rest : ∃ st', S.readItems true (n + 1) st₁ fs vs = .ok st' :=
        ih (Nat.le_of_succ_le_succ length) fun i => ready (i + 1)
      obtain ⟨st', hr⟩ := rest
      exact ⟨st', bind_eq_ok_iff.mpr ⟨st₁, hv, hr⟩⟩

namespace Independent

theorem exists_readMembers (h : S.Independent) (names : ∀ m ∈ ms, (decodePieces? m.1).isSome)
    (once : S.Once ms)
    (unset : ∀ f ∈ S.fields, f.isSet st → ∀ m ∈ ms, decodePieces? m.1 ≠ some f.name)
    (ready : ∀ m ∈ ms, ∀ f ∈ S.fields, decodePieces? m.1 = some f.name → f.Ready (some m.2)) :
    ∃ st', S.readMembers true st ms = .ok st' := by
  induction ms generalizing st with
  | nil => exact ⟨st, rfl⟩
  | cons m ms ih =>
    obtain ⟨named, names⟩ := List.forall_mem_cons.mp names
    obtain ⟨first, once⟩ := List.pairwise_cons.mp once
    obtain ⟨name, hk⟩ := Option.isSome_iff_exists.mp named
    obtain ⟨hm, ready⟩ := List.forall_mem_cons.mp ready
    have rest : ∀ f ∈ S.fields, f.isSet st → ∀ m ∈ ms, decodePieces? m.1 ≠ some f.name :=
      fun f hf hs m' hm' => unset f hf hs m' (List.mem_cons_of_mem _ hm')
    by_cases hf : ∃ f ∈ S.fields, f.name = name
    · obtain ⟨f, hf, rfl⟩ := hf
      obtain ⟨st₁, hv⟩ := (hm f hf hk).exists_read st
      have hs : f.isSet st = false :=
        Bool.eq_false_iff.mpr fun hs => unset f hf hs m List.mem_cons_self hk
      have unset₁ : ∀ g ∈ S.fields, g.isSet st₁ → ∀ m' ∈ ms, decodePieces? m'.1 ≠ some g.name := by
        intro g hg hs' m' hm'
        by_cases hn : f.name = g.name
        · exact hn ▸ first m' hm' f hf hk
        · exact rest g hg ((h.apart f hf g hg hn).frame _ st st₁ hv ▸ hs') m' hm'
      obtain ⟨st', hr⟩ := ih names once unset₁ ready
      exact ⟨st', h.readMembers_cons_eq_ok_iff.mpr ⟨st₁, .fill hf hk hs hv, hr⟩⟩
    · obtain ⟨st', hr⟩ := ih names once rest ready
      have passes : S.Passes m.1 := ⟨name, hk, fun f hf' hn => hf ⟨f, hf', hn⟩⟩
      exact ⟨st', h.readMembers_cons_eq_ok_iff.mpr ⟨st, .pass passes, hr⟩⟩

end Independent

/-- An object is read if its members are and no field is left out that is due. -/
theorem read_object_of_readMembers (hr : S.readMembers closed S.blank ms = .ok st)
    (h : ∀ f ∈ S.fields, f.optional ∨ f.isSet st) : S.read (.object ms closed) = .ok st := by
  have complete : S.missing? st = none := by
    simp only [missing?, Option.map_eq_none_iff, List.find?_eq_none]
    intro f hf
    rcases h f hf with optional | set
    · simp [optional]
    · simp [set]
  refine bind_eq_ok_iff.mpr ⟨st, hr, ?_⟩
  rw [complete]
  rfl

theorem Placed.isSet_blank {ps : List (Place σ)} (h : S.Placed ps) (hf : f ∈ S.fields) :
    f.isSet S.blank = false := by
  obtain ⟨p, hp, fills⟩ := h.exists_fills hf
  rw [fills.isSet, h.get_blank hp]
  rfl

/-- A tree that fits is read if what it has for the fields can be read. -/
theorem Placed.exists_read {ps : List (Place σ)} (h : S.Placed ps) (fits : S.Fits t)
    (ready : ∀ (i : ℕ) (f : Field σ), S.fields[i]? = some f → f.Ready (t.field? f.name i)) :
    ∃ st, S.read t = .ok st := by
  cases fits with
  | array length => exact exists_readItems length ready
  | @object ms names once =>
    have members : ∀ m ∈ ms, ∀ f ∈ S.fields,
        decodePieces? m.1 = some f.name → f.Ready (some m.2) := by
      intro m hm f hf hk
      obtain ⟨i, hi⟩ := List.mem_iff_getElem?.mp hf
      exact once.field?_eq_some hf hm hk ▸ ready i f hi
    have unset : ∀ f ∈ S.fields, f.isSet S.blank → ∀ m ∈ ms, decodePieces? m.1 ≠ some f.name :=
      fun f hf hs => absurd hs (by simp [h.isSet_blank hf])
    obtain ⟨st, hr⟩ := h.independent.exists_readMembers names once unset members
    refine ⟨st, read_object_of_readMembers hr fun f hf => ?_⟩
    obtain ⟨i, hi⟩ := List.mem_iff_getElem?.mp hf
    by_cases hm : ∃ m ∈ ms, decodePieces? m.1 = some f.name
    · exact .inr (h.independent.isSet_readMembers hf hr (.inr hm))
    · have absent : (Tree.object ms true).field? f.name i = none :=
        field?_object_eq_none_iff.mpr fun m hm' hk => hm ⟨m, hm', hk⟩
      exact .inl (absent ▸ ready i f hi).left_out.1

end Schema

end IssueMarkdown.Json
