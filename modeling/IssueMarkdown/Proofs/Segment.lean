import IssueMarkdown.Proofs.Lines
import IssueMarkdown.Web.Path

/-! # Texts as segments of a path

A text in percent encoding is one segment of a path, which stands for the bytes of the text. It is
kept as it is when the path is read, unless the text is one dot or two.
-/

namespace IssueMarkdown

open Text

variable {t r key : Text} {c : Char} {b : UInt8} {n : ℕ}

theorem Text.utf8_injective : Function.Injective utf8 := by
  intro s t h
  exact Option.some.inj (by rw [← ofUtf8?_utf8, h, ofUtf8?_utf8])

namespace Web.Percent

/-! ## Reading an encoded text -/

theorem hexValue?_hexDigit (hn : n < 16) : hexValue? (hexDigit n) = some n := by
  decide +revert

theorem isUnreserved_hexDigit (hn : n < 16) : isUnreserved (hexDigit n) := by
  decide +revert

theorem byte?_hexDigit (b : UInt8) :
    byte? (hexDigit (b.toNat / 16)) (hexDigit (b.toNat % 16)) = some b := by
  have hb : b.toNat < 256 := b.toNat_lt
  have whole : b.toNat / 16 * 16 + b.toNat % 16 = b.toNat := by omega
  rw [byte?, hexValue?_hexDigit (by omega), hexValue?_hexDigit (by omega)]
  show some (UInt8.ofNat (b.toNat / 16 * 16 + b.toNat % 16)) = some b
  rw [whole, UInt8.ofNat_toNat]

theorem decode_encodeByte_append (b : UInt8) (t : Text) :
    decode (encodeByte b ++ t) = b :: decode t := by
  simp only [encodeByte, List.cons_append, List.nil_append, decode, byte?_hexDigit]

theorem decode_flatMap_encodeByte_append (bs : List UInt8) (t : Text) :
    decode (bs.flatMap encodeByte ++ t) = bs ++ decode t := by
  induction bs with
  | nil => rfl
  | cons b bs ih =>
    rw [List.flatMap_cons, List.append_assoc, decode_encodeByte_append, ih, List.cons_append]

theorem decode_cons_of_ne (hc : c ≠ '%') (t : Text) :
    decode (c :: t) = String.utf8EncodeChar c ++ decode t := by
  rw [decode]
  all_goals simp [hc]

theorem ne_percent_of_isUnreserved (hc : isUnreserved c) : c ≠ '%' := by
  rintro rfl
  exact absurd hc (by decide)

/-- What is read from an encoded text are the bytes of the text. -/
theorem decode_encode (t : Text) : decode (encode t) = utf8 t := by
  induction t with
  | nil => rfl
  | cons c t ih =>
    rw [encode, encodeBy, List.flatMap_cons, utf8, List.flatMap_cons]
    split
    · next hc => exact (decode_cons_of_ne (ne_percent_of_isUnreserved hc) _).trans (congrArg _ ih)
    · exact (decode_flatMap_encodeByte_append _ _).trans (congrArg _ ih)

theorem encode_injective : Function.Injective encode := by
  intro s t h
  exact utf8_injective (by rw [← decode_encode, h, decode_encode])

theorem encode_ne_nil (h : t ≠ []) : encode t ≠ [] := fun he => h (encode_injective he)

/-- Every character of an encoded text is unreserved, or begins a byte. -/
theorem mem_encode (h : c ∈ encode t) : isUnreserved c ∨ c = '%' := by
  obtain ⟨d, -, hc⟩ := List.mem_flatMap.mp h
  split at hc
  · next hd =>
    obtain rfl := List.mem_singleton.mp hc
    exact .inl hd
  · obtain ⟨b, -, hc⟩ := List.mem_flatMap.mp hc
    have hb : b.toNat < 256 := b.toNat_lt
    simp only [encodeByte, List.mem_cons, List.not_mem_nil, or_false] at hc
    rcases hc with rfl | rfl | rfl
    · exact .inr rfl
    · exact .inl (isUnreserved_hexDigit (by omega))
    · exact .inl (isUnreserved_hexDigit (by omega))

theorem encodeBy_of_forall {keep : Char → Bool} (h : ∀ c ∈ t, keep c) : encodeBy keep t = t := by
  induction t with
  | nil => rfl
  | cons c t ih =>
    obtain ⟨hc, ht⟩ := List.forall_mem_cons.mp h
    rw [encodeBy, List.flatMap_cons, if_pos hc, List.singleton_append]
    exact congrArg _ (ih ht)

/-- Unreserved characters are ASCII, of which each keeps its place in a path. -/
theorem keepsInPath_of_isUnreserved (hc : isUnreserved c) : keepsInPath c := by
  have ascii : c.toNat < 128 := by
    simp only [isUnreserved, Bool.or_eq_true, beq_iff_eq] at hc
    rcases hc with (((hc | rfl) | rfl) | rfl) | rfl
    · rcases Bool.or_eq_true_iff.mp hc with letter | digit
      · rcases Bool.or_eq_true_iff.mp letter with upper | lower
        · have high : c.val ≤ 'Z'.val := (of_decide_eq_true upper).2
          exact Nat.lt_of_le_of_lt high (by decide)
        · have high : c.val ≤ 'z'.val := of_decide_eq_true (Bool.and_eq_true_iff.mp lower).2
          exact Nat.lt_of_le_of_lt high (by decide)
      · exact Nat.lt_of_le_of_lt (Char.isDigit_iff_toNat.mp digit).2 (by decide)
    all_goals decide
  have all : ∀ n < 128, isUnreserved (Char.ofNat n) → keepsInPath (Char.ofNat n) := by decide
  exact (c.ofNat_toNat ▸ all c.toNat ascii) hc

theorem allowed_of_keepsInPath (hc : keepsInPath c) : ' ' < c ∧ c ∉ ['?', '#'] := by
  simp only [keepsInPath, keepsInFragment, isGraphic, Bool.and_eq_true, decide_eq_true_eq,
    Bool.not_eq_true', List.contains_eq_mem, decide_eq_false_iff_not] at hc
  obtain ⟨⟨⟨low, -⟩, notFragment⟩, notPath⟩ := hc
  refine ⟨Char.not_le.mp fun high => ?_, fun hm => ?_⟩
  · obtain rfl := Char.le_antisymm high low
    exact notFragment (by decide)
  · rcases List.mem_cons.mp hm with rfl | hm
    · exact notPath (by decide)
    · obtain rfl := List.mem_singleton.mp hm
      exact notPath (by decide)

theorem keepsInPath_of_mem_encode (h : c ∈ encode t) : keepsInPath c := by
  rcases mem_encode h with hc | rfl
  · exact keepsInPath_of_isUnreserved hc
  · decide

end Web.Percent

namespace Web.Path

open Percent

/-! ## Dots -/

/-- A dot that is read as one is decoded to one. -/
theorem decode_of_undot_eq_cons (h : undot t = '.' :: r) :
    ∃ t', undot t' = r ∧ decode t = '.'.toUInt8 :: decode t' := by
  unfold undot at h
  split at h
  · exact absurd h (by simp)
  · next t' => exact ⟨t', (List.cons.inj h).2, decode_encodeByte_append '.'.toUInt8 t'⟩
  · next t' => exact ⟨t', (List.cons.inj h).2, rfl⟩
  · next c t' _ _ =>
    obtain ⟨rfl, rfl⟩ := List.cons.inj h
    exact ⟨t', rfl, decode_cons_of_ne (by decide) t'⟩

theorem eq_nil_of_undot_eq_nil (h : undot t = []) : t = [] := by
  unfold undot at h
  split at h <;> simp_all

/-- No encoded text is read as a dot but the dot itself. -/
theorem isHere_encode_iff : isHere (encode key) ↔ key = ['.'] := by
  constructor
  · intro h
    obtain ⟨t, ht, hd⟩ := decode_of_undot_eq_cons (eq_of_beq h)
    rw [eq_nil_of_undot_eq_nil ht, decode_encode] at hd
    exact utf8_injective hd
  · rintro rfl
    decide

theorem isUp_encode_iff : isUp (encode key) ↔ key = ['.', '.'] := by
  constructor
  · intro h
    obtain ⟨t, ht, hd⟩ := decode_of_undot_eq_cons (eq_of_beq h)
    obtain ⟨t', ht', hd'⟩ := decode_of_undot_eq_cons ht
    rw [hd', eq_nil_of_undot_eq_nil ht', decode_encode] at hd
    exact utf8_injective hd
  · rintro rfl
    decide

theorem undot_of_notMem (h : '%' ∉ t) : undot t = t := by
  induction t with
  | nil => rfl
  | cons c t ih =>
    obtain ⟨hc, ht⟩ := not_or.mp (List.mem_cons.not.mp h)
    rw [undot, ih ht]
    all_goals
      rintro _ rfl
      exact absurd rfl hc

/-! ## Segments -/

/-- The segments of a path in normal form. -/
structure Normal (ss : List Text) : Prop where
  unreserved : ∀ s ∈ ss, ∀ c ∈ s, isUnreserved c
  notHere : ['.'] ∉ ss
  notUp : ['.', '.'] ∉ ss

variable {ss : List Text} {s : Text} {isSep : Char → Bool}

theorem splitBy_append_flatMap (hs : isSep '/') (ht : ∀ c ∈ t, isSep c = false)
    (hss : ∀ s ∈ ss, ∀ c ∈ s, isSep c = false) :
    splitBy isSep (t ++ ss.flatMap ('/' :: ·)) = t :: ss := by
  induction ss generalizing t with
  | nil =>
    rw [List.flatMap_nil, List.append_nil, splitBy_eq_splitOnP, List.splitOnP_eq_singleton ht]
  | cons s ss ih =>
    obtain ⟨h, hss⟩ := List.forall_mem_cons.mp hss
    rw [List.flatMap_cons, List.cons_append, splitBy_eq_splitOnP, List.splitOnP_append_cons _ _ hs,
      List.splitOnP_eq_singleton ht, ← splitBy_eq_splitOnP, ih h hss, List.singleton_append]

theorem resolve_append (kept : List Text) (h : ∀ s ∈ ss, isUp s = false ∧ isHere s = false)
    (ls : List Text) : resolve id kept (ss ++ ls) = resolve id (ss.reverse ++ kept) ls := by
  induction ss generalizing kept with
  | nil => rfl
  | cons s ss ih =>
    obtain ⟨⟨hu, hh⟩, h⟩ := List.forall_mem_cons.mp h
    rw [List.cons_append, resolve]
    simp only [hu, hh, Bool.false_eq_true, if_false, id, ite_self]
    rw [ih _ h, List.reverse_cons, List.append_assoc, List.singleton_append]

theorem resolve_singleton (kept : List Text) (s : Text) : resolve id kept [s] =
    if isUp s then (up kept).reverse ++ [[]]
    else kept.reverse ++ [if isHere s then [] else s] := by
  simp only [resolve, List.isEmpty_nil, if_true, id, ite_self]
  split_ifs <;> simp

namespace Normal

variable {ls : List Text}

theorem append (h : Normal ss) (h' : Normal ls) : Normal (ss ++ ls) where
  unreserved s hs := (List.mem_append.mp hs).elim (h.unreserved s) (h'.unreserved s)
  notHere hs := (List.mem_append.mp hs).elim h.notHere h'.notHere
  notUp hs := (List.mem_append.mp hs).elim h.notUp h'.notUp

theorem mono (h : Normal ss) (hl : ls ⊆ ss) : Normal ls where
  unreserved s hs := h.unreserved s (hl hs)
  notHere hs := h.notHere (hl hs)
  notUp hs := h.notUp (hl hs)

theorem slash_notMem (h : Normal ss) : ∀ s ∈ ss, '/' ∉ s := by
  intro s hs hm
  exact absurd (h.unreserved s hs _ hm) (by decide)

theorem undot_eq (h : Normal ss) (hs : s ∈ ss) : undot s = s :=
  undot_of_notMem fun hm => ne_percent_of_isUnreserved (h.unreserved s hs _ hm) rfl

theorem isUp_eq_false (h : Normal ss) (hs : s ∈ ss) : isUp s = false := by
  rw [isUp, h.undot_eq hs, beq_eq_false_iff_ne]
  rintro rfl
  exact h.notUp hs

theorem isHere_eq_false (h : Normal ss) (hs : s ∈ ss) : isHere s = false := by
  rw [isHere, h.undot_eq hs, beq_eq_false_iff_ne]
  rintro rfl
  exact h.notHere hs

theorem map_encodeBy (h : Normal ss) : ss.map (encodeBy keepsInPath) = ss := by
  have kept : ∀ s ∈ ss, encodeBy keepsInPath s = id s := fun s hs =>
    encodeBy_of_forall fun c hc => keepsInPath_of_isUnreserved (h.unreserved s hs c hc)
  exact (List.map_congr_left kept).trans (List.map_id ss)

/-- Below segments in normal form, an encoded text stays what it is, but for the dots. -/
theorem resolve_map_append (h : Normal ss) (key : Text) :
    resolve id [] ((ss ++ [encode key]).map (encodeBy keepsInPath)) =
      if key = ['.', '.'] then (up ss.reverse).reverse ++ [[]]
      else ss ++ [if key = ['.'] then [] else encode key] := by
  rw [List.map_append, h.map_encodeBy, List.map_singleton,
    encodeBy_of_forall fun _ => keepsInPath_of_mem_encode,
    resolve_append _ fun s hs => ⟨h.isUp_eq_false hs, h.isHere_eq_false hs⟩, List.append_nil,
    resolve_singleton, List.reverse_reverse]
  simp only [isUp_encode_iff, isHere_encode_iff]

end Normal

end Web.Path

end IssueMarkdown
