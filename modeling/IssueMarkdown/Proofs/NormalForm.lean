import Mathlib
import IssueMarkdown.Proofs.Contents
import IssueMarkdown.Proofs.PrintedRecord

/-! # The normal form of an issue

An issue that was read is printed as a document that is read as the same issue, whatever the form of
the one it was read from: with every field there, in order, and each name of a description once.
-/

namespace IssueMarkdown

open Json Schema Value

variable {t : Tree} {d : Text} {i : Issue}

/-! ## Printed issues -/

theorem IssueType.exists_writtenAs (a : IssueType) :
    ∃ t, a.toValue.WrittenAs t ∧ IssueType.read t = .ok a := by
  obtain ⟨t, written, read⟩ := placed_schema.exists_writtenAs
    (.cons (exists_writtenAs_textOrNull a.name)
      (.cons (exists_writtenAs_textOrNull a.iconUrl) .nil))
  exact ⟨t, written, bind_eq_ok_iff.mpr ⟨_, read, rfl⟩⟩

/-- A description is printed as a tree of no deeper brackets that means it; one that is there is not
printed as `null`, since it was not read from that. -/
theorem exists_writtenAs_description {o : Option Value}
    (h : t.IsOptional (Tree.Denotes (maxDepth - 2)) o) (hw : ∀ w ∈ o, w.IsWhole) :
    ∃ t', (o.getD .null).WrittenAs t' ∧ t'.readOptional (Tree.readValue 2) = .ok o := by
  have printed : ∀ w ∈ o, ∃ t', w.WrittenAs t' ∧ t' ≠ .null ∧ t'.readValue 2 = .ok w := by
    rintro w ⟨⟩
    cases h with
    | present hn hd =>
      obtain ⟨t', written, hd'⟩ := hd.exists_writtenAs (hw w rfl)
      refine ⟨t', written, ?_, Tree.readValue_eq_ok_iff.mpr hd'⟩
      rintro rfl
      cases hd'
      cases hd
      exact hn rfl
  simpa using exists_writtenAs_optional (f := id) printed

theorem exists_writtenAs_issueType (o : Option IssueType) :
    ∃ t, ((o.map IssueType.toValue).getD .null).WrittenAs t ∧
      t.readOptional IssueType.read = .ok o := by
  refine exists_writtenAs_optional fun a _ => ?_
  obtain ⟨t, written, hread⟩ := a.exists_writtenAs
  refine ⟨t, written, ?_, hread⟩
  rintro rfl
  cases hread

theorem IssueFields.exists_writtenAs {c : IssueFields.Contents} {a : IssueFields} (h : c.Means a)
    (hw : ∀ w ∈ a.description, w.IsWhole) :
    ∃ t, a.toValue.WrittenAs t ∧ IssueFields.read t = .ok a := by
  obtain ⟨t, written, read⟩ := placed_schema.exists_writtenAs
    (.cons (exists_writtenAs_text a.summary) (.cons (exists_writtenAs_description h.description hw)
      (.cons (exists_writtenAs_issueType a.issueType) .nil)))
  exact ⟨t, written, bind_eq_ok_iff.mpr ⟨_, read, rfl⟩⟩

theorem Issue.exists_writtenAs {c : Issue.Contents} (h : c.Means i)
    (hw : ∀ w ∈ i.fields.description, w.IsWhole) :
    ∃ t, i.toValue.WrittenAs t ∧ Issue.read t = .ok i := by
  obtain ⟨t, written, read⟩ := placed_schema.exists_writtenAs
    (.cons (exists_writtenAs_text i.key) (.cons (IssueFields.exists_writtenAs h.fields hw) .nil))
  exact ⟨t, written, bind_eq_ok_iff.mpr ⟨_, read, rfl⟩⟩

/-! ## Documents -/

/-- A document is accepted exactly if it has contents that mean an issue. -/
theorem Issue.parse_eq_ok_iff :
    Issue.parse d = .ok i ↔ ∃ t c, WritesDocument t d ∧ Issue.Has t c ∧ c.Means i := by
  rw [Issue.parse, readDocument_eq_ok_iff]
  simp only [Issue.read_eq_ok_iff, exists_and_left]

/-- What was read is written back, on one line or indented, as a document that is read as the same
issue, if the numbers of the description are whole. The issue is what the contents of the document
mean, and every document of these contents is read as that issue, whatever its forms are. -/
theorem Issue.parse_toValue (h : Issue.parse d = .ok i) :
    ((∀ w ∈ i.fields.description, w.IsWhole) → Issue.parse i.toValue.compact = .ok i ∧
      ∀ level, Issue.parse (i.toValue.pretty level) = .ok i) ∧
    ∃ t c, WritesDocument t d ∧ Issue.Has t c ∧ c.Means i ∧
      ∀ t' d', Issue.Has t' c → WritesDocument t' d' → Issue.parse d' = .ok i := by
  obtain ⟨t, c, ht, hc, means⟩ := Issue.parse_eq_ok_iff.mp h
  refine ⟨fun hw => ?_, t, c, ht, hc, means, fun t' d' hc' hd' =>
    Issue.parse_eq_ok_iff.mpr ⟨t', c, hd', hc', means⟩⟩
  obtain ⟨t', written, hread⟩ := Issue.exists_writtenAs means hw
  exact ⟨readDocument_eq_ok_iff.mpr ⟨t', written.1.writesDocument, hread⟩, fun level =>
    readDocument_eq_ok_iff.mpr ⟨t', (written.2 level).writesDocument, hread⟩⟩

/-! ## Both forms of one issue -/

/-- A description with a name that stands twice. -/
def repeatedDescription : Tree :=
  .object [plainMember ['b'] (.array [.number ⟨true, ['2'], none, none⟩] true),
    plainMember ['a'] .null, plainMember ['a'] (.string [.char 'x'])] true

def Issue.described : Issue :=
  ⟨['K'], ⟨['S'], some (.object [(['a'], .string ['x']), (['b'], .array [.number (.int (-2))])]),
    some ⟨some ['B'], none⟩⟩⟩

def Issue.describedContents : Issue.Contents :=
  ⟨.string [.char 'K'], ⟨some (.string [.char 'S']), repeatedDescription,
    some ⟨.string [.char 'B'], .null⟩⟩⟩

def IssueType.arrayForm : Tree := .array [.string [.char 'B']] true

def IssueFields.arrayForm : Tree :=
  .array [.string [.char 'S'], repeatedDescription, IssueType.arrayForm] true

def Issue.arrayForm : Tree := .array [.string [.char 'K'], IssueFields.arrayForm] true

def Issue.arrayText : Text :=
  "[\"K\",[\"S\",\x7b\"b\":[-2],\"a\":null,\"a\":\"x\"\x7d,[\"B\"]]]".toList

/-- The members stand the other way round, with a `null` for what the array leaves out. -/
def IssueType.objectForm : Tree :=
  .object [plainMember "iconUrl".toList .null, plainMember "name".toList (.string [.char 'B'])] true

def IssueFields.objectForm : Tree :=
  .object [plainMember "issuetype".toList IssueType.objectForm,
    plainMember "description".toList repeatedDescription,
    plainMember "summary".toList (.string [.char 'S'])] true

def Issue.objectForm : Tree :=
  .object [plainMember "fields".toList IssueFields.objectForm,
    plainMember "key".toList (.string [.char 'K'])] true

def Issue.objectText : Text :=
  ("\x7b\"fields\":\x7b\"issuetype\":\x7b\"iconUrl\":null,\"name\":\"B\"\x7d," ++
    "\"description\":\x7b\"b\":[-2],\"a\":null,\"a\":\"x\"\x7d,\"summary\":\"S\"\x7d," ++
    "\"key\":\"K\"\x7d").toList

theorem Issue.has_arrayForm : Issue.Has arrayForm describedContents := by
  have type : IssueType.Has IssueType.arrayForm ⟨.string [.char 'B'], .null⟩ :=
    .intro (.array (by decide))
  have fields : IssueFields.Has IssueFields.arrayForm describedContents.fields :=
    .intro (.array (by decide)) (.present nofun type)
  exact .intro (.array (by decide)) rfl rfl fields

theorem Issue.has_objectForm : Issue.Has objectForm describedContents := by
  have type : IssueType.Has IssueType.objectForm ⟨.string [.char 'B'], .null⟩ :=
    .intro (.object (by decide) (by unfold Once; decide))
  have fields : IssueFields.Has IssueFields.objectForm describedContents.fields :=
    .intro (.object (by decide) (by unfold Once; decide)) (.present nofun type)
  exact .intro (.object (by decide) (by unfold Once; decide)) rfl rfl fields

theorem Issue.isWhole_described : ∀ w ∈ described.fields.description, w.IsWhole := by
  have number : Number.IsWhole (.int (-2)) :=
    ⟨⟨true, ['2'], none, none⟩, ⟨rfl, rfl, by decide, by decide, by decide⟩, rfl⟩
  rintro _ ⟨⟩
  simp [isWhole_object_iff, isWhole_array_iff, isWhole_number_iff, isWhole_string, number]

/-- What is read from the arrays is read from the objects, and from what is printed. -/
theorem Issue.parse_toValue_forms :
    Issue.parse Issue.arrayText = .ok Issue.described ∧
    Issue.parse Issue.objectText = .ok Issue.described ∧
    Issue.parse Issue.described.toValue.compact = .ok Issue.described := by
  have array : WritesDocument arrayForm arrayText := scanDocument_eq_iff.mp (by cbv)
  have object : WritesDocument objectForm objectText := scanDocument_eq_iff.mp (by cbv)
  have accepted : Issue.parse arrayText = .ok described :=
    readDocument_eq_ok_iff.mpr ⟨arrayForm, array, rfl⟩
  obtain ⟨back, t, c, ht, hc, -, alike⟩ := Issue.parse_toValue accepted
  obtain rfl := ht.eq array
  obtain rfl := hc.unique has_arrayForm
  exact ⟨accepted, alike _ _ has_objectForm object, (back isWhole_described).1⟩

end IssueMarkdown
