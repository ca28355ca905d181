import IssueMarkdown.Text

/-! # Texts as bytes -/

namespace IssueMarkdown.Text

/-- The bytes of a text in UTF-8. -/
def utf8 (t : Text) : List UInt8 := t.flatMap String.utf8EncodeChar

/-- The text that bytes write in UTF-8, if they write one. -/
def ofUtf8? (bytes : List UInt8) : Option Text :=
  (String.fromUTF8? ⟨bytes.toArray⟩).map String.toList

@[simp] theorem utf8_append (s t : Text) : utf8 (s ++ t) = utf8 s ++ utf8 t :=
  List.flatMap_append

theorem fromUTF8?_eq_some_iff {b : ByteArray} {s : String} :
    String.fromUTF8? b = some s ↔ s.toByteArray = b := by
  unfold String.fromUTF8?
  constructor
  · intro h
    split at h
    · obtain rfl := Option.some.inj h
      rfl
    · simp at h
  · rintro rfl
    rw [dif_pos s.isValidUTF8]
    rfl

/-- Bytes are read as a text exactly if they are the bytes of that text. -/
theorem ofUtf8?_eq_some_iff {bytes : List UInt8} {t : Text} :
    ofUtf8? bytes = some t ↔ utf8 t = bytes := by
  have encoded : ∀ s : String, s.toByteArray = ⟨bytes.toArray⟩ ↔ utf8 s.toList = bytes := by
    intro s
    rw [← String.utf8Encode_toList, ByteArray.ext_iff, List.utf8Encode, List.data_toByteArray]
    exact ⟨List.toArray_inj, congrArg _⟩
  simp only [ofUtf8?, Option.map_eq_some_iff, fromUTF8?_eq_some_iff]
  constructor
  · rintro ⟨s, hs, rfl⟩
    exact (encoded s).mp hs
  · intro h
    refine ⟨String.ofList t, (encoded _).mpr ?_, String.toList_ofList⟩
    rw [String.toList_ofList, h]

theorem ofUtf8?_utf8 (t : Text) : ofUtf8? (utf8 t) = some t := ofUtf8?_eq_some_iff.mpr rfl

theorem ofUtf8?_eq_none_iff {bytes : List UInt8} : ofUtf8? bytes = none ↔ ∀ t, utf8 t ≠ bytes := by
  rw [Option.eq_none_iff_forall_ne_some]
  exact forall_congr' fun t => not_congr ofUtf8?_eq_some_iff

end IssueMarkdown.Text
