import IssueMarkdown.Proofs.Form
import IssueMarkdown.Proofs.Meaning

/-! # The contents of an issue

What a document says of an issue, whatever the forms that it says it in, and the issue that this
means. A document is accepted as an issue exactly if it has contents that mean one.
-/

namespace IssueMarkdown.Json

namespace Tree

variable {α : Type} {t : Tree} {a : α} {o : Option α} {s : Text} {v : Value} {outer : ℕ}
  {read : Tree → Reading α} {means : Tree → α → Prop}

/-- A string that is the text. -/
inductive IsText : Tree → Text → Prop where
  | string {ps : List Piece} {s : Text} (h : decodePieces? ps = some s) : IsText (.string ps) s

/-- What may be absent is `null`, or a tree that means something. -/
inductive IsOptional (means : Tree → α → Prop) : Tree → Option α → Prop where
  | absent : IsOptional means .null none
  | present {t : Tree} {a : α} (hn : t ≠ .null) (h : means t a) : IsOptional means t (some a)

theorem readText_eq_ok_iff : t.readText = .ok s ↔ t.IsText s := by
  constructor
  · intro h
    cases t with
    | string ps => exact .string (orMalformed_eq_ok_iff.mp h)
    | _ => exact absurd h (reject_ne_ok _ _)
  · rintro ⟨h⟩
    exact orMalformed_eq_ok_iff.mpr h

theorem readValue_eq_ok_iff : t.readValue outer = .ok v ↔ t.Denotes (maxDepth - outer) v := by
  rw [readValue, orMalformed_eq_ok_iff, toValue?_eq_some_iff]

theorem readOptional_eq_ok_iff (h : ∀ {t a}, read t = .ok a ↔ means t a) :
    t.readOptional read = .ok o ↔ t.IsOptional means o := by
  constructor
  · intro hr
    by_cases hn : t = .null
    · subst hn
      obtain rfl := Except.ok.inj hr
      exact .absent
    · rw [readOptional_of_ne hn] at hr
      obtain ⟨a, ha, rfl⟩ := map_eq_ok_iff.mp hr
      exact .present hn (h.mp ha)
  · intro ho
    cases ho with
    | absent => rfl
    | present hn ha =>
      rw [readOptional_of_ne hn]
      exact map_eq_ok_iff.mpr ⟨_, h.mpr ha, rfl⟩

theorem readOptional_readText_iff {o : Option Text} :
    t.readOptional readText = .ok o ↔ t.IsOptional IsText o :=
  readOptional_eq_ok_iff readText_eq_ok_iff

theorem readOptional_readValue_iff {o : Option Value} :
    t.readOptional (readValue outer) = .ok o ↔ t.IsOptional (Denotes (maxDepth - outer)) o :=
  readOptional_eq_ok_iff readValue_eq_ok_iff

/-- What may be left out is read as if `null` stood in its place. -/
theorem readOptional_getD {o : Option Tree} {b : Option (Option α)}
    (h : Option.Rel (fun v b => v.readOptional read = .ok b) o b) :
    (o.getD .null).readOptional read = .ok (b.getD none) := by
  cases h with
  | some h => exact h
  | none => rfl

theorem elim_readText {o : Option Tree} {b : Option Text}
    (h : Option.Rel (fun v s => v.readText = .ok s) o b) :
    o.elim (b.getD [] = []) fun v => v.readText = .ok (b.getD []) := by
  cases h with
  | some h => exact h
  | none => rfl

theorem eq_some_iff_of_rel {o : Option Tree} {b : Option α}
    (h : Option.Rel (fun v a => read v = .ok a) o b) :
    b = some a ↔ ∃ v, o = some v ∧ read v = .ok a := by
  cases h with
  | some h => simp [h]
  | none => simp

/-- A text that is empty where there is nothing for it. -/
theorem elim_readText_iff {o : Option Tree} :
    (o.elim (s = []) fun v => v.readText = .ok s) ↔ o.elim (s = []) fun v => v.IsText s := by
  cases o with
  | none => rfl
  | some v => exact readText_eq_ok_iff

theorem eq_of_elim_readText {o : Option Tree} {s' : Text}
    (h : o.elim (s = []) fun v => v.readText = .ok s)
    (h' : o.elim (s' = []) fun v => v.readText = .ok s') : s = s' := by
  cases o with
  | none => exact Eq.trans h (Eq.symm h')
  | some v => exact Except.ok.inj (Eq.trans (Eq.symm h) h')

theorem IsOptional.unique {o' : Option α} (ho : t.IsOptional means o) (ho' : t.IsOptional means o')
    (h : ∀ t a b, means t a → means t b → a = b) : o = o' := by
  cases ho with
  | absent =>
    cases ho' with
    | absent => rfl
    | present hn => exact absurd rfl hn
  | present hn ha =>
    cases ho' with
    | absent => exact absurd rfl hn
    | present _ hb => rw [h t _ _ ha hb]

/-- What means something by way of its contents. -/
theorem isOptional_comp_iff {γ : Type} {has : Tree → γ → Prop} {means : γ → α → Prop} :
    t.IsOptional (fun t a => ∃ c, has t c ∧ means c a) o ↔
      ∃ c, t.IsOptional has c ∧ Option.Rel means c o := by
  constructor
  · rintro (_ | ⟨hn, c, hc, ha⟩)
    · exact ⟨none, .absent, .none⟩
    · exact ⟨some c, .present hn hc, .some ha⟩
  · rintro ⟨c, hc, ha⟩
    cases hc with
    | absent =>
      cases ha
      exact .absent
    | present hn hc =>
      cases ha with
      | some ha => exact .present hn ⟨_, hc, ha⟩

end Tree

end IssueMarkdown.Json

namespace IssueMarkdown

open Json Schema

variable {t : Tree}

/-! ## What a document says -/

/-- What is said of the type of an issue; what is left out counts as `null`. -/
structure IssueType.Contents where
  name : Tree
  iconUrl : Tree

/-- What is said of the fields of an issue; a description that is left out counts as `null`. -/
structure IssueFields.Contents where
  summary : Option Tree
  description : Tree
  issueType : Option IssueType.Contents

structure Issue.Contents where
  key : Tree
  fields : IssueFields.Contents

/-- The tree has these contents, in one of its forms. -/
inductive IssueType.Has : Tree → IssueType.Contents → Prop where
  | intro {t : Tree} (fits : IssueType.schema.Fits t) :
      Has t ⟨(t.field? "name".toList 0).getD .null, (t.field? "iconUrl".toList 1).getD .null⟩

inductive IssueFields.Has : Tree → IssueFields.Contents → Prop where
  | intro {t : Tree} {c : Option IssueType.Contents} (fits : IssueFields.schema.Fits t)
      (issueType : ((t.field? "issuetype".toList 2).getD .null).IsOptional IssueType.Has c) :
      Has t ⟨t.field? "summary".toList 0, (t.field? "description".toList 1).getD .null, c⟩

inductive Issue.Has : Tree → Issue.Contents → Prop where
  | intro {t k u : Tree} {c : IssueFields.Contents} (fits : Issue.schema.Fits t)
      (key : t.field? "key".toList 0 = some k) (fields : t.field? "fields".toList 1 = some u)
      (inner : IssueFields.Has u c) : Has t ⟨k, c⟩

/-! A tree has no other contents than its own. -/

theorem IssueType.Has.unique {c c' : IssueType.Contents} (h : IssueType.Has t c)
    (h' : IssueType.Has t c') : c = c' := by
  cases h
  cases h'
  rfl

theorem IssueFields.Has.unique {c c' : IssueFields.Contents} (h : IssueFields.Has t c)
    (h' : IssueFields.Has t c') : c = c' := by
  obtain ⟨-, type⟩ := h
  obtain ⟨-, type'⟩ := h'
  obtain rfl := type.unique type' fun _ _ _ => IssueType.Has.unique
  rfl

theorem Issue.Has.unique {c c' : Issue.Contents} (h : Issue.Has t c) (h' : Issue.Has t c') :
    c = c' := by
  obtain ⟨-, key, fields, inner⟩ := h
  obtain ⟨-, key', fields', inner'⟩ := h'
  obtain rfl := Option.some.inj (key.symm.trans key')
  obtain rfl := Option.some.inj (fields.symm.trans fields')
  obtain rfl := inner.unique inner'
  rfl

/-! ## What that means -/

structure IssueType.Contents.Means (c : IssueType.Contents) (a : IssueType) : Prop where
  name : c.name.IsOptional Tree.IsText a.name
  iconUrl : c.iconUrl.IsOptional Tree.IsText a.iconUrl

/-- A summary that is left out is empty, and a description that is left out or `null` is none. The
brackets of the issue and of its fields are open around a description. -/
structure IssueFields.Contents.Means (c : IssueFields.Contents) (a : IssueFields) : Prop where
  summary : c.summary.elim (a.summary = []) fun t => t.IsText a.summary
  description : c.description.IsOptional (Tree.Denotes (maxDepth - 2)) a.description
  issueType : Option.Rel IssueType.Contents.Means c.issueType a.issueType

structure Issue.Contents.Means (c : Issue.Contents) (i : Issue) : Prop where
  key : c.key.IsText i.key
  fields : c.fields.Means i.fields

/-! ## The type of an issue -/

namespace IssueType

theorem schema_read {st : Slots} (h : schema.read t = .ok st) :
    ((t.field? "name".toList 0).getD .null).readOptional Tree.readText = .ok (st.1.getD none) ∧
    ((t.field? "iconUrl".toList 1).getD .null).readOptional Tree.readText =
      .ok (st.2.getD none) := by
  have name := placed_schema.rel_field? (i := 0) rfl h
  have icon := placed_schema.rel_field? (i := 1) rfl h
  exact ⟨Tree.readOptional_getD name, Tree.readOptional_getD icon⟩

theorem read_eq_ok_iff {a : IssueType} : read t = .ok a ↔ ∃ c, Has t c ∧ c.Means a := by
  constructor
  · intro h
    obtain ⟨st, hst, h⟩ := bind_eq_ok_iff.mp h
    obtain rfl := Except.ok.inj h
    obtain ⟨name, icon⟩ := schema_read hst
    exact ⟨_, .intro (placed_schema.independent.fits_of_read hst),
      Tree.readOptional_readText_iff.mp name,
      Tree.readOptional_readText_iff.mp icon⟩
  · rintro ⟨c, ⟨fits⟩, means⟩
    have name := Tree.readOptional_readText_iff.mpr means.name
    have icon := Tree.readOptional_readText_iff.mpr means.iconUrl
    have ready : ∀ (i : ℕ) (f : Json.Field Slots), schema.fields[i]? = some f →
        f.Ready (t.field? f.name i) := by
      intro i f hi
      rcases i with _ | _ | i
      · obtain rfl := Option.some.inj hi
        exact .of_optional rfl rfl (fun _ _ => rfl) name
      · obtain rfl := Option.some.inj hi
        exact .of_optional rfl rfl (fun _ _ => rfl) icon
      · cases hi
    obtain ⟨st, hst⟩ := placed_schema.exists_read fits ready
    obtain ⟨name', icon'⟩ := schema_read hst
    have same : (⟨st.1.getD none, st.2.getD none⟩ : IssueType) = a := by
      rw [Except.ok.inj (name'.symm.trans name), Except.ok.inj (icon'.symm.trans icon)]
    exact bind_eq_ok_iff.mpr ⟨st, hst, congrArg Except.ok same⟩

theorem readOptional_iff {o : Option IssueType} : t.readOptional read = .ok o ↔
    ∃ c, t.IsOptional Has c ∧ Option.Rel Contents.Means c o :=
  (Tree.readOptional_eq_ok_iff read_eq_ok_iff).trans Tree.isOptional_comp_iff

end IssueType

/-! ## The fields of an issue -/

namespace IssueFields

theorem schema_read {st : Slots} (h : schema.read t = .ok st) :
    ((t.field? "summary".toList 0).elim (st.summary.getD [] = []) fun v =>
      v.readText = .ok (st.summary.getD [])) ∧
    ((t.field? "description".toList 1).getD .null).readOptional (Tree.readValue 2) =
      .ok (st.description.getD none) ∧
    ((t.field? "issuetype".toList 2).getD .null).readOptional IssueType.read =
      .ok (st.issueType.getD none) := by
  have summary := placed_schema.rel_field? (i := 0) rfl h
  have description := placed_schema.rel_field? (i := 1) rfl h
  have type := placed_schema.rel_field? (i := 2) rfl h
  exact ⟨Tree.elim_readText summary, Tree.readOptional_getD description,
    Tree.readOptional_getD type⟩

theorem read_eq_ok_iff {a : IssueFields} : read t = .ok a ↔ ∃ c, Has t c ∧ c.Means a := by
  constructor
  · intro h
    obtain ⟨st, hst, h⟩ := bind_eq_ok_iff.mp h
    obtain rfl := Except.ok.inj h
    obtain ⟨summary, description, type⟩ := schema_read hst
    obtain ⟨c, hc, means⟩ := IssueType.readOptional_iff.mp type
    exact ⟨_, .intro (placed_schema.independent.fits_of_read hst) hc,
      Tree.elim_readText_iff.mp summary, Tree.readOptional_readValue_iff.mp description, means⟩
  · rintro ⟨_, @⟨c, fits, has⟩, means⟩
    have summary := Tree.elim_readText_iff.mpr means.summary
    have description := Tree.readOptional_readValue_iff.mpr means.description
    have type := IssueType.readOptional_iff.mpr ⟨c, has, means.issueType⟩
    have ready : ∀ (i : ℕ) (f : Json.Field Slots), schema.fields[i]? = some f →
        f.Ready (t.field? f.name i) := by
      intro i f hi
      rcases i with _ | _ | _ | i
      · obtain rfl := Option.some.inj hi
        show Field.Ready _ (t.field? "summary".toList 0)
        cases hs : t.field? "summary".toList 0 with
        | none => exact .absent rfl rfl
        | some v =>
          simp only [hs] at summary
          exact .of_ok (fun _ _ => rfl) summary
      · obtain rfl := Option.some.inj hi
        exact .of_optional rfl rfl (fun _ _ => rfl) description
      · obtain rfl := Option.some.inj hi
        exact .of_optional rfl rfl (fun _ _ => rfl) type
      · cases hi
    obtain ⟨st, hst⟩ := placed_schema.exists_read fits ready
    obtain ⟨summary', description', type'⟩ := schema_read hst
    refine bind_eq_ok_iff.mpr ⟨st, hst, ?_⟩
    rw [Tree.eq_of_elim_readText summary' summary,
      Except.ok.inj (description'.symm.trans description), Except.ok.inj (type'.symm.trans type)]
    rfl

end IssueFields

/-! ## Issues -/

namespace Issue

theorem key_eq_some_iff {st : Slots} {key : Text} (h : schema.read t = .ok st) :
    st.key = some key ↔ ∃ k, t.field? "key".toList 0 = some k ∧ k.readText = .ok key :=
  Tree.eq_some_iff_of_rel (placed_schema.rel_field? (i := 0) rfl h)

theorem fields_eq_some_iff {st : Slots} {fields : IssueFields} (h : schema.read t = .ok st) :
    st.fields = some fields ↔
      ∃ u, t.field? "fields".toList 1 = some u ∧ IssueFields.read u = .ok fields :=
  Tree.eq_some_iff_of_rel (placed_schema.rel_field? (i := 1) rfl h)

theorem read_eq_ok_iff {i : Issue} : read t = .ok i ↔ ∃ c, Has t c ∧ c.Means i := by
  constructor
  · intro h
    obtain ⟨st, hst, h⟩ := bind_eq_ok_iff.mp h
    split at h
    · next key fields hk hf =>
      obtain rfl := Except.ok.inj h
      obtain ⟨k, present, hkey⟩ := (key_eq_some_iff hst).mp hk
      obtain ⟨u, present', hfields⟩ := (fields_eq_some_iff hst).mp hf
      obtain ⟨c, hc, means⟩ := IssueFields.read_eq_ok_iff.mp hfields
      exact ⟨_, .intro (placed_schema.independent.fits_of_read hst) present present' hc,
        Tree.readText_eq_ok_iff.mp hkey, means⟩
    · exact absurd h (throw_ne_ok _)
  · rintro ⟨_, @⟨k, u, c, fits, present, present', hc⟩, means⟩
    have key := Tree.readText_eq_ok_iff.mpr means.key
    have fields := IssueFields.read_eq_ok_iff.mpr ⟨c, hc, means.fields⟩
    have ready : ∀ (i : ℕ) (f : Json.Field Slots), schema.fields[i]? = some f →
        f.Ready (t.field? f.name i) := by
      intro i f hi
      rcases i with _ | _ | i
      · obtain rfl := Option.some.inj hi
        exact present ▸ .of_ok (fun _ _ => rfl) key
      · obtain rfl := Option.some.inj hi
        exact present' ▸ .of_ok (fun _ _ => rfl) fields
      · cases hi
    obtain ⟨st, hst⟩ := placed_schema.exists_read fits ready
    refine bind_eq_ok_iff.mpr ⟨st, hst, ?_⟩
    rw [(key_eq_some_iff hst).mpr ⟨k, present, key⟩,
      (fields_eq_some_iff hst).mpr ⟨u, present', fields⟩]
    rfl

end Issue

end IssueMarkdown
