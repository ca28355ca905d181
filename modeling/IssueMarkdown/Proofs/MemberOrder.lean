import IssueMarkdown.Proofs.Reading

/-! # The order of members

A record is read the same whatever order its members stand in and whatever members of other names
stand among them: each field has a place of its own, and what is passed over leaves no trace.
-/

namespace IssueMarkdown.Json

/-! ## Fields that do not meet -/

section Fields

variable {σ : Type} {f g : Field σ}

/-- Neither field reaches the place of the other, so that they are read in either order. -/
structure Field.Apart (f g : Field σ) : Prop where
  frame : ∀ v st st', f.read v st = .ok st' → g.isSet st' = g.isSet st
  swap : ∀ v w st st₁ st₂, f.read v st = .ok st₁ → g.read w st₁ = .ok st₂ →
    ∃ st', g.read w st = .ok st' ∧ f.read v st' = .ok st₂

/-- Fields of places that do not meet. -/
theorem Field.Fills.apart {p q : Place σ} (hf : f.Fills p) (hg : g.Fills q) (h : p.Apart q) :
    f.Apart g := by
  refine ⟨fun v st st' hv => ?_, fun v w st st₁ st₂ hv hw => ?_⟩
  · obtain ⟨a, -, rfl⟩ := hf.exists_eq_put hv
    rw [hg.isSet, hg.isSet, h.left]
  · obtain ⟨a, ha, rfl⟩ := hf.exists_eq_put hv
    obtain ⟨b, hb, rfl⟩ := hg.exists_eq_put hw
    exact ⟨q.put b st, (hg.read w st).trans (map_eq_ok_iff.mpr ⟨b, hb, rfl⟩),
      (hf.read v _).trans (map_eq_ok_iff.mpr ⟨a, ha, (h.swap a b st).symm⟩)⟩

end Fields

namespace Schema

variable {σ : Type} {S : Schema σ} {f g : Field σ} {m m' : List Piece × Tree}
  {ms ms' extra : List (List Piece × Tree)} {closed : Bool} {st st' st₁ st₂ : σ} {t t' : Tree}
  {inner : Text → Tree → Tree → Prop}

/-- The fields of a record have names and places of their own. -/
structure Independent (S : Schema σ) : Prop where
  nodup : (S.fields.map (·.name)).Nodup
  fills : ∀ f ∈ S.fields, ∀ v st st', f.read v st = .ok st' → f.isSet st'
  apart : ∀ f ∈ S.fields, ∀ g ∈ S.fields, f.name ≠ g.name → f.Apart g

/-- The name can be read, and it is none of the record's. -/
def Passes (S : Schema σ) (k : List Piece) : Prop :=
  ∃ name, decodePieces? k = some name ∧ ∀ f ∈ S.fields, f.name ≠ name

/-- What one member does: nothing, or it fills a field that was not read before. -/
inductive Takes (S : Schema σ) : List Piece × Tree → σ → σ → Prop where
  | pass {k : List Piece} {v : Tree} {st : σ} (hk : S.Passes k) : Takes S (k, v) st st
  | fill {k : List Piece} {v : Tree} {st st' : σ} {f : Field σ} (hf : f ∈ S.fields)
      (hk : decodePieces? k = some f.name) (hs : f.isSet st = false)
      (hr : f.read v st = .ok st') : Takes S (k, v) st st'

theorem Placed.independent {ps : List (Place σ)} (h : S.Placed ps) : S.Independent := by
  refine ⟨h.nodup, fun f hf v st st' hv => ?_, fun f hf g hg hn => ?_⟩
  · obtain ⟨p, -, fills⟩ := h.exists_fills hf
    obtain ⟨a, -, ha⟩ := fills.exists_put hv
    rw [fills.isSet, ha]
    rfl
  · obtain ⟨p, hp, hfp⟩ := h.exists_fills hf
    obtain ⟨q, hq, hgq⟩ := h.exists_fills hg
    exact hfp.apart hgq (h.apart_of_name_ne hp hq (hfp.name ▸ hgq.name ▸ hn))

namespace Independent

theorem eq_of_name_eq (h : S.Independent) (hf : f ∈ S.fields) (hg : g ∈ S.fields)
    (hn : f.name = g.name) : f = g :=
  List.inj_on_of_nodup_map h.nodup hf hg hn

theorem find?_name (h : S.Independent) (hf : f ∈ S.fields) :
    (S.fields.find? fun g => g.name == f.name) = some f := by
  obtain ⟨g, hg⟩ := Option.isSome_iff_exists.mp
    (List.find?_isSome (p := fun g => g.name == f.name).mpr ⟨f, hf, beq_self_eq_true f.name⟩)
  rw [hg, h.eq_of_name_eq (List.mem_of_find?_eq_some hg) hf (by simpa using List.find?_some hg)]

/-- Members are read one after the other. -/
theorem readMembers_cons_eq_ok_iff (h : S.Independent) :
    S.readMembers closed st (m :: ms) = .ok st' ↔
      ∃ st₁, S.Takes m st st₁ ∧ S.readMembers closed st₁ ms = .ok st' := by
  obtain ⟨k, v⟩ := m
  constructor
  · intro hr
    obtain ⟨name, hk, ⟨hn, hr⟩ | ⟨f, hf, rfl, hs, st₁, hv, hr⟩⟩ := readMembers_cons hr
    · exact ⟨st, .pass ⟨name, hk, hn⟩, hr⟩
    · exact ⟨st₁, .fill hf hk hs hv, hr⟩
  · rintro ⟨st₁, hm, hr⟩
    rw [readMembers]
    cases hm with
    | pass hk =>
      obtain ⟨name, hk, hn⟩ := hk
      have none : (S.fields.find? fun f => f.name == name) = none :=
        List.find?_eq_none.mpr fun f hf => by simpa using hn f hf
      refine bind_eq_ok_iff.mpr ⟨name, orMalformed_eq_ok_iff.mpr hk, ?_⟩
      rwa [none]
    | @fill _ _ _ _ f hf hk hs hv =>
      refine bind_eq_ok_iff.mpr ⟨f.name, orMalformed_eq_ok_iff.mpr hk, ?_⟩
      rw [h.find?_name hf]
      simp only [hs, Bool.false_eq_true, if_false]
      exact bind_eq_ok_iff.mpr ⟨st₁, hv, hr⟩

/-- Two members that are read one after the other are read the other way round as well: had both
one name, the second would have found the field filled. -/
theorem takes_swap (h : S.Independent) (h₁ : S.Takes m st st₁) (h₂ : S.Takes m' st₁ st₂) :
    ∃ st', S.Takes m' st st' ∧ S.Takes m st' st₂ := by
  cases h₁ with
  | pass hk => exact ⟨st₂, h₂, .pass hk⟩
  | @fill k v _ _ f hf hk hs hv =>
    cases h₂ with
    | pass hk' => exact ⟨st, .pass hk', .fill hf hk hs hv⟩
    | @fill k' w _ _ g hg hk' hs' hw =>
      -- the second field was not yet filled, so it is not the first one
      have hn : f.name ≠ g.name := fun hn => by
        rw [← h.eq_of_name_eq hf hg hn, h.fills f hf v st st₁ hv] at hs'
        exact absurd hs' (by simp)
      have apart := h.apart f hf g hg hn
      obtain ⟨st', hw', hv'⟩ := apart.swap v w st st₁ st₂ hv hw
      have hs₁ : g.isSet st = false := (apart.frame v st st₁ hv).symm.trans hs'
      have hs₂ : f.isSet st' = false :=
        ((h.apart g hg f hf hn.symm).frame w st st' hw').trans hs
      exact ⟨st', .fill hg hk' hs₁ hw', .fill hf hk hs₂ hv'⟩

theorem readMembers_perm (h : S.Independent) (hp : ms.Perm ms')
    (hr : S.readMembers closed st ms = .ok st') : S.readMembers closed st ms' = .ok st' := by
  induction hp generalizing st with
  | nil => exact hr
  | cons m _ ih =>
    obtain ⟨st₁, hm, hr⟩ := h.readMembers_cons_eq_ok_iff.mp hr
    exact h.readMembers_cons_eq_ok_iff.mpr ⟨st₁, hm, ih hr⟩
  | swap m m' ms =>
    obtain ⟨st₁, hm', hr⟩ := h.readMembers_cons_eq_ok_iff.mp hr
    obtain ⟨st₂, hm, hr⟩ := h.readMembers_cons_eq_ok_iff.mp hr
    obtain ⟨st₃, hm, hm'⟩ := h.takes_swap hm' hm
    exact h.readMembers_cons_eq_ok_iff.mpr
      ⟨st₃, hm, h.readMembers_cons_eq_ok_iff.mpr ⟨st₂, hm', hr⟩⟩
  | trans _ _ ih₁ ih₂ => exact ih₂ (ih₁ hr)

theorem readMembers_append_of_passes (h : S.Independent) (he : ∀ m ∈ extra, S.Passes m.1)
    (hr : S.readMembers closed st ms = .ok st') :
    S.readMembers closed st (extra ++ ms) = .ok st' := by
  induction extra with
  | nil => exact hr
  | cons m extra ih =>
    obtain ⟨hm, he⟩ := List.forall_mem_cons.mp he
    exact h.readMembers_cons_eq_ok_iff.mpr ⟨st, .pass hm, ih he⟩

end Independent

/-! ## Variations of an object -/

/-- The same member, or one whose value is varied as its name allows. -/
def MemberVaries (inner : Text → Tree → Tree → Prop) (m m' : List Piece × Tree) : Prop :=
  m.1 = m'.1 ∧ (m.2 = m'.2 ∨ ∃ name, decodePieces? m.1 = some name ∧ inner name m.2 m'.2)

/-- An object with its members in any order and with others among them, of any values, whose
names are none of the record's; members that were there may have their values varied. -/
inductive Varies (S : Schema σ) (inner : Text → Tree → Tree → Prop) : Tree → Tree → Prop where
  | object {ms ms₁ extra ms' : List (List Piece × Tree)} {closed : Bool}
      (values : List.Forall₂ (MemberVaries inner) ms ms₁)
      (unknown : ∀ m ∈ extra, S.Passes m.1) (order : ms'.Perm (extra ++ ms₁)) :
      Varies S inner (.object ms closed) (.object ms' closed)

/-- What a record makes of a value does not depend on how that is varied. -/
def Blind (S : Schema σ) (inner : Text → Tree → Tree → Prop) : Prop :=
  ∀ f ∈ S.fields, ∀ v v' st st', inner f.name v v' → f.read v st = .ok st' → f.read v' st = .ok st'

theorem Takes.of_memberVaries (hin : S.Blind inner) (hm : MemberVaries inner m m')
    (h : S.Takes m st st') : S.Takes m' st st' := by
  obtain ⟨k, v⟩ := m
  obtain ⟨k', v'⟩ := m'
  obtain ⟨rfl, hm⟩ : k = k' ∧ _ := hm
  cases h with
  | pass hk => exact .pass hk
  | @fill _ _ _ _ f hf hk hs hr =>
    refine .fill hf hk hs ?_
    rcases hm with rfl | ⟨name, hk', hv⟩
    · exact hr
    · obtain rfl : name = f.name := Option.some.inj (hk'.symm.trans hk)
      exact hin f hf v v' st st' hv hr

namespace Independent

theorem readMembers_of_forall₂ (h : S.Independent) (hin : S.Blind inner)
    (hms : List.Forall₂ (MemberVaries inner) ms ms')
    (hr : S.readMembers closed st ms = .ok st') : S.readMembers closed st ms' = .ok st' := by
  induction hms generalizing st with
  | nil => exact hr
  | cons hm _ ih =>
    obtain ⟨st₁, ht, hr⟩ := h.readMembers_cons_eq_ok_iff.mp hr
    exact h.readMembers_cons_eq_ok_iff.mpr ⟨st₁, ht.of_memberVaries hin hm, ih hr⟩

/-- A record that is read is read the same from every variation of its object. -/
theorem read_of_varies (h : S.Independent) (hin : S.Blind inner) (hv : S.Varies inner t t')
    (hr : S.read t = .ok st) : S.read t' = .ok st := by
  obtain @⟨ms, ms₁, extra, ms', closed, values, unknown, order⟩ := hv
  obtain ⟨st₁, hms, hr⟩ := bind_eq_ok_iff.mp hr
  refine bind_eq_ok_iff.mpr ⟨st₁, h.readMembers_perm order.symm ?_, hr⟩
  exact h.readMembers_append_of_passes unknown (h.readMembers_of_forall₂ hin values hms)

end Independent

end Schema

end IssueMarkdown.Json

namespace IssueMarkdown

open Json Schema

variable {t t' : Tree}

/-! ## Variations of an issue -/

theorem mem_triple {α : Type} {a b c d : α} : d ∈ [a, b, c] ↔ d = a ∨ d = b ∨ d = c := by
  simp only [List.mem_cons, List.not_mem_nil, or_false]

theorem IssueType.placed_schema : schema.Placed
    [⟨"name".toList, (·.1), fun a st => (some a, st.2), Tree.readOptional Tree.readText⟩,
      ⟨"iconUrl".toList, (·.2), fun a st => (st.1, some a), Tree.readOptional Tree.readText⟩] where
  nodup := by decide
  fills := by
    refine .cons ?_ (.cons ?_ .nil)
    all_goals exact ⟨rfl, fun _ => rfl, fun _ _ => rfl, fun _ _ => rfl⟩
  apart := List.pairwise_pair.mpr ⟨fun _ _ => rfl, fun _ _ => rfl, fun _ _ _ => rfl⟩
  blank := ⟨rfl, rfl⟩

/-- The object of an issue's type, varied. -/
def IssueType.Varies : Tree → Tree → Prop := IssueType.schema.Varies fun _ _ _ => False

/-- The object of an issue's fields, varied together with that of its type. -/
def IssueFields.Varies : Tree → Tree → Prop :=
  IssueFields.schema.Varies fun name v v' => name = "issuetype".toList ∧ IssueType.Varies v v'

/-- The object of an issue, varied together with those inside it. -/
def Issue.Varies : Tree → Tree → Prop :=
  Issue.schema.Varies fun name v v' => name = "fields".toList ∧ IssueFields.Varies v v'

theorem IssueType.read_of_varies {a : IssueType} (hv : IssueType.Varies t t')
    (h : IssueType.read t = .ok a) : IssueType.read t' = .ok a := by
  obtain ⟨st, hst, h⟩ := bind_eq_ok_iff.mp h
  have blind : IssueType.schema.Blind fun _ _ _ => False := fun _ _ _ _ _ _ hin => hin.elim
  exact bind_eq_ok_iff.mpr ⟨st, placed_schema.independent.read_of_varies blind hv hst, h⟩

theorem IssueFields.blind_schema : IssueFields.schema.Blind
    fun name v v' => name = "issuetype".toList ∧ IssueType.Varies v v' := by
  rintro f hf v v' st st' ⟨hn, hv⟩ h
  rcases mem_triple.mp hf with rfl | rfl | rfl
  · exact absurd hn (by decide)
  · exact absurd hn (by decide)
  · obtain ⟨o, ho, rfl⟩ := map_eq_ok_iff.mp h
    -- what is varied is an object, so the type is not read as an absent one
    cases hv with
    | object values unknown order =>
      obtain ⟨a, ha, rfl⟩ := map_eq_ok_iff.mp ho
      have ha' := IssueType.read_of_varies (.object values unknown order) ha
      exact map_eq_ok_iff.mpr ⟨some a, map_eq_ok_iff.mpr ⟨a, ha', rfl⟩, rfl⟩

theorem IssueFields.read_of_varies {a : IssueFields} (hv : IssueFields.Varies t t')
    (h : IssueFields.read t = .ok a) : IssueFields.read t' = .ok a := by
  obtain ⟨st, hst, h⟩ := bind_eq_ok_iff.mp h
  exact bind_eq_ok_iff.mpr ⟨st, placed_schema.independent.read_of_varies blind_schema hv hst, h⟩

theorem Issue.blind_schema : Issue.schema.Blind
    fun name v v' => name = "fields".toList ∧ IssueFields.Varies v v' := by
  rintro f hf v v' st st' ⟨hn, hv⟩ h
  rcases List.mem_pair.mp hf with rfl | rfl
  · exact absurd hn (by decide)
  · obtain ⟨a, ha, rfl⟩ := map_eq_ok_iff.mp h
    exact map_eq_ok_iff.mpr ⟨a, IssueFields.read_of_varies hv ha, rfl⟩

theorem Issue.read_of_varies {i : Issue} (hv : Issue.Varies t t') (h : Issue.read t = .ok i) :
    Issue.read t' = .ok i := by
  obtain ⟨st, hst, h⟩ := bind_eq_ok_iff.mp h
  exact bind_eq_ok_iff.mpr ⟨st, placed_schema.independent.read_of_varies blind_schema hv hst, h⟩

/-- A document that is accepted is accepted with the same result however the members of its
objects are ordered and whatever others stand among them. -/
theorem Issue.parse_of_varies {d : Text} {i : Issue} (h : Issue.parse d = .ok i) :
    ∃ t, WritesDocument t d ∧ ∀ t' d', Issue.Varies t t' → WritesDocument t' d' →
      Issue.parse d' = .ok i ∧ ∀ (base : Text) (r : Rendering),
        (Issue.parse d').map (·.toRecord base r) = (Issue.parse d).map (·.toRecord base r) := by
  obtain ⟨t, ht, hread⟩ := readDocument_eq_ok_iff.mp h
  refine ⟨t, ht, fun t' d' hv hd' => ?_⟩
  have h' : Issue.parse d' = .ok i :=
    readDocument_eq_ok_iff.mpr ⟨t', hd', Issue.read_of_varies hv hread⟩
  exact ⟨h', fun base r => by rw [h', h]⟩

/-- A member whose name is written without escapes. -/
def plainMember (name : Text) (v : Tree) : List Piece × Tree := (name.map .char, v)

namespace Issue

def sampleName : List Piece × Tree := plainMember "name".toList (.string [.char 'B'])

def sampleKey : List Piece × Tree := plainMember "key".toList (.string [.char 'K'])

def sample : Tree :=
  .object [sampleKey, plainMember "fields".toList
    (.object [plainMember "issuetype".toList (.object [sampleName] true)] true)] true

def sampleText : Text :=
  "\x7b\"key\":\"K\",\"fields\":\x7b\"issuetype\":\x7b\"name\":\"B\"\x7d\x7d\x7d".toList

/-- The sample the other way round, with members of two other names, one of them twice. -/
def crowdedSample : Tree :=
  .object [plainMember ['x'] (.array [.array [] true] true), plainMember "fields".toList
    (.object [plainMember "issuetype".toList
      (.object [plainMember ['y'] .null, sampleName] true)] true),
    sampleKey, plainMember ['x'] (.string [.unit 0xd800])] true

def crowdedText : Text :=
  ("\x7b\"x\":[[]],\"fields\":\x7b\"issuetype\":\x7b\"y\":null,\"name\":\"B\"\x7d\x7d," ++
    "\"key\":\"K\",\"x\":\"\\ud800\"\x7d").toList

theorem varies_sample : Issue.Varies sample crowdedSample := by
  have unknown : ∀ m ∈ [plainMember ['y'] .null], IssueType.schema.Passes m.1 :=
    List.forall_mem_singleton.mpr ⟨['y'], rfl, by decide⟩
  have type : IssueType.Varies (.object [sampleName] true)
      (.object [plainMember ['y'] .null, sampleName] true) :=
    .object (.cons ⟨rfl, .inl rfl⟩ .nil) unknown (.refl _)
  have fields : IssueFields.Varies
      (.object [plainMember "issuetype".toList (.object [sampleName] true)] true)
      (.object [plainMember "issuetype".toList
        (.object [plainMember ['y'] .null, sampleName] true)] true) := by
    refine .object ?_ (List.forall_mem_nil _) (.refl _)
    exact .cons ⟨rfl, .inr ⟨_, rfl, rfl, type⟩⟩ .nil
  have passes : Issue.schema.Passes [.char 'x'] := ⟨['x'], rfl, by decide⟩
  have unknown' : ∀ m ∈ [plainMember ['x'] (.array [.array [] true] true),
      plainMember ['x'] (.string [.unit 0xd800])], Issue.schema.Passes m.1 :=
    List.forall_mem_cons.mpr ⟨passes, List.forall_mem_singleton.mpr passes⟩
  refine .object ?_ unknown' (.cons _ (List.reverse_perm [_, sampleKey, _]))
  exact .cons ⟨rfl, .inl rfl⟩ (.cons ⟨rfl, .inr ⟨_, rfl, rfl, fields⟩⟩ .nil)

/-- What is read from the sample is read from the crowded one. -/
theorem parse_of_varies_crowded :
    Issue.parse sampleText = .ok ⟨['K'], ⟨[], none, some ⟨some ['B'], none⟩⟩⟩ ∧
    Issue.parse crowdedText = .ok ⟨['K'], ⟨[], none, some ⟨some ['B'], none⟩⟩⟩ := by
  have plain : WritesDocument sample sampleText := scanDocument_eq_iff.mp (by cbv)
  have crowded : WritesDocument crowdedSample crowdedText := scanDocument_eq_iff.mp (by cbv)
  have accepted : Issue.parse sampleText =
      .ok ⟨['K'], ⟨[], none, some ⟨some ['B'], none⟩⟩⟩ :=
    readDocument_eq_ok_iff.mpr ⟨sample, plain, rfl⟩
  obtain ⟨t, ht, varied⟩ := Issue.parse_of_varies accepted
  obtain rfl := ht.eq plain
  exact ⟨accepted, (varied _ _ varies_sample crowded).1⟩

end Issue

end IssueMarkdown
