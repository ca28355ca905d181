import IssueMarkdown.Proofs.Form
import IssueMarkdown.Proofs.PrintedValue

/-! # Printed records

A record that is printed as an object, with its fields in order and under their names, is read back:
each field is written by a tree that is read as what its place held.
-/

namespace IssueMarkdown.Json

open Text Value

variable {σ : Type} {S : Schema σ} {ps : List (Place σ)} {ms : List (Text × Value)} {st st' : σ}

/-- The members are what the places are printed as, and these are filled in turn from them. -/
inductive Prints {σ : Type} : List (Place σ) → List (Text × Value) → σ → σ → Prop where
  | nil {st : σ} : Prints [] [] st st
  | cons {p : Place σ} {ps : List (Place σ)} {v : Value} {ms : List (Text × Value)} {a : p.Carrier}
      {st st' : σ} (hv : ∃ t, v.WrittenAs t ∧ p.read t = .ok a)
      (h : Prints ps ms (p.put a st) st') : Prints (p :: ps) ((p.name, v) :: ms) st st'

/-- The members are written under the names of the places, and are read one after the other, since
none of them reaches the place of a later one. -/
theorem Prints.exists_members (h : Prints ps ms st st') (independent : S.Independent)
    (fills : ∀ p ∈ ps, ∃ f ∈ S.fields, f.Fills p) (apart : ps.Pairwise Place.Apart)
    (empty : ∀ p ∈ ps, p.get st = none) :
    ∃ ns, List.Forall₂ MemberWrittenAs ms ns ∧ S.readMembers true st ns = .ok st' ∧
      ∀ p ∈ ps, ∃ n ∈ ns, decodePieces? n.1 = some p.name := by
  induction h with
  | nil => exact ⟨[], .nil, rfl, List.forall_mem_nil _⟩
  | @cons p ps v ms a st st' hv _ ih =>
    obtain ⟨t, written, hr⟩ := hv
    obtain ⟨k, hk, name⟩ := exists_writesPieces_escapeChar p.name
    obtain ⟨⟨f, hf, fills'⟩, fills⟩ := List.forall_mem_cons.mp fills
    obtain ⟨first, apart⟩ := List.pairwise_cons.mp apart
    obtain ⟨unset, empty⟩ := List.forall_mem_cons.mp empty
    obtain ⟨ns, members, read, names⟩ := ih fills apart fun q hq =>
      ((first q hq).left a st).trans (empty q hq)
    refine ⟨(k, t) :: ns, .cons ⟨hk, written⟩ members, ?_, ?_⟩
    · have put : f.read t st = .ok (p.put a st) :=
        (fills'.read t st).trans (map_eq_ok_iff.mpr ⟨a, hr, rfl⟩)
      have notSet : f.isSet st = false := by rw [fills'.isSet, unset]; rfl
      exact independent.readMembers_cons_eq_ok_iff.mpr
        ⟨_, .fill hf (fills'.name ▸ name) notSet put, read⟩
    · refine List.forall_mem_cons.mpr ⟨⟨_, List.mem_cons_self, name⟩, fun q hq => ?_⟩
      obtain ⟨n, hn, hname⟩ := names q hq
      exact ⟨n, List.mem_cons_of_mem _ hn, hname⟩

/-- A record that is printed is read back. -/
theorem Schema.Placed.exists_writtenAs (h : S.Placed ps) (hp : Prints ps ms S.blank st) :
    ∃ t, (Value.object ms).WrittenAs t ∧ S.read t = .ok st := by
  obtain ⟨ns, members, read, names⟩ := hp.exists_members h.independent
    (fun p hp => h.exists_field hp) h.apart fun p hp => h.get_blank hp
  refine ⟨.object ns true, writtenAs_object members,
    read_object_of_readMembers read fun f hf => .inr ?_⟩
  obtain ⟨p, hp, fills⟩ := h.exists_fills hf
  obtain ⟨n, hn, name⟩ := names p hp
  exact h.independent.isSet_readMembers hf read (.inr ⟨n, hn, fills.name ▸ name⟩)

/-! ## Fields that may be absent -/

/-- What is there is told apart from what is absent, if it is not printed as `null`. -/
theorem exists_writtenAs_optional {α : Type} {read : Tree → Reading α} {f : α → Value}
    {o : Option α} (h : ∀ a ∈ o, ∃ t, (f a).WrittenAs t ∧ t ≠ .null ∧ read t = .ok a) :
    ∃ t, ((o.map f).getD .null).WrittenAs t ∧ t.readOptional read = .ok o := by
  cases o with
  | none => exact ⟨.null, writtenAs_null, rfl⟩
  | some a =>
    obtain ⟨t, written, there, hr⟩ := h a rfl
    refine ⟨t, written, ?_⟩
    rw [Tree.readOptional_of_ne there, hr]
    rfl

/-! ## Fields that are texts -/

theorem exists_writtenAs_text (s : Text) :
    ∃ t, (Value.string s).WrittenAs t ∧ t.readText = .ok s := by
  obtain ⟨ps, hs, hd⟩ := exists_writesPieces_escapeChar s
  exact ⟨.string ps, writtenAs_string hs, orMalformed_eq_ok_iff.mpr hd⟩

theorem exists_writtenAs_textOrNull (o : Option Text) :
    ∃ t, (textOrNull o).WrittenAs t ∧ t.readOptional Tree.readText = .ok o := by
  refine exists_writtenAs_optional fun s _ => ?_
  obtain ⟨t, written, read⟩ := exists_writtenAs_text s
  refine ⟨t, written, ?_, read⟩
  rintro rfl
  exact Tree.reject_ne_ok _ _ read

end IssueMarkdown.Json
