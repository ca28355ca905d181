import IssueMarkdown.Proofs.Writing
import Mathlib.Tactic.IntervalCases

/-! # Documents are read as they are written

A text is read as a whole tree exactly if the grammar has it, and then as the tree that it writes.
-/

namespace IssueMarkdown.Json

open Text

variable {α : Type} {a b q r s t u word : Text} {v : Tree} {ps : List Piece} {l : Literal}

/-! ## Blanks -/

theorem exists_isSpaces (t : Text) : ∃ a, IsSpaces a ∧ t = a ++ skipSpace t :=
  ⟨t.takeWhile isSpace, fun _ hc => List.mem_takeWhile_imp hc,
    List.takeWhile_append_dropWhile.symm⟩

theorem skipSpace_append (hs : ∀ c ∈ s, isSpace c) (ht : ∀ c ∈ t.head?, isSpace c = false) :
    skipSpace (s ++ t) = t :=
  dropWhile_append_of_stop hs ht

/-! ## Items that are whole -/

/-- The item and the rest of the text, if the text does not break off inside the item. -/
def Scan.whole? : Scan α t → Option (α × Text)
  | whole a r _ => some (a, r)
  | broken _ => none

theorem Scan.exists_of_whole? {x : Scan α t} {a : α} (h : x.whole? = some (a, r)) :
    ∃ shorter, x = .whole a r shorter := by
  cases x with
  | whole b s shorter =>
    obtain ⟨rfl, rfl⟩ := Prod.mk.inj (Option.some.inj h)
    exact ⟨shorter, rfl⟩
  | broken b => exact absurd h (Option.some_ne_none _).symm

@[simp] theorem Scan.whole?_lift (h : s.length ≤ t.length) (x : Scan α s) :
    (x.lift h).whole? = x.whole? := by
  cases x <;> rfl

theorem scanDocument_of_whole? (h : (scanValue t).whole? = some (v, r)) :
    scanDocument t = (v, (skipSpace r).isEmpty) := by
  obtain ⟨shorter, h⟩ := Scan.exists_of_whole? h
  rw [scanDocument, h]

theorem whole?_scanWord (hw : word ≠ []) (v : Tree) (t : Text) :
    (scanWord word v t hw).whole? = (after? word t).map (v, ·) := by
  unfold scanWord
  split <;> simp_all [Scan.whole?]

theorem whole?_scanWord_append (hw : word ≠ []) (v : Tree) (r : Text) :
    (scanWord word v (word ++ r) hw).whole? = some (v, r) := by
  rw [whole?_scanWord, after?_eq_some_iff.mpr rfl]
  rfl

/-! ## Values -/

theorem whole?_scanValue_null (ht : skipSpace t = "null".toList ++ r) :
    (scanValue t).whole? = some (.null, r) := by
  unfold scanValue
  split
  case h_4 q hq =>
    obtain rfl : q = ['u', 'l', 'l'] ++ r := by simpa [ht] using hq.symm
    exact (Scan.whole?_lift _ _).trans (whole?_scanWord_append (by decide) .null r)
  all_goals simp_all

theorem whole?_scanValue_true (ht : skipSpace t = "true".toList ++ r) :
    (scanValue t).whole? = some (.bool true, r) := by
  unfold scanValue
  split
  case h_5 q hq =>
    obtain rfl : q = ['r', 'u', 'e'] ++ r := by simpa [ht] using hq.symm
    exact (Scan.whole?_lift _ _).trans (whole?_scanWord_append (by decide) (.bool true) r)
  all_goals simp_all

theorem whole?_scanValue_false (ht : skipSpace t = "false".toList ++ r) :
    (scanValue t).whole? = some (.bool false, r) := by
  unfold scanValue
  split
  case h_6 q hq =>
    obtain rfl : q = ['a', 'l', 's', 'e'] ++ r := by simpa [ht] using hq.symm
    exact (Scan.whole?_lift _ _).trans (whole?_scanWord_append (by decide) (.bool false) r)
  all_goals simp_all

theorem whole?_scanValue_string (ht : skipSpace t = '"' :: q) (hq : scanString? q = some (ps, r)) :
    (scanValue t).whole? = some (.string ps, r) := by
  unfold scanValue
  split
  case h_1 q' hq' =>
    obtain rfl : q = q' := by simpa [ht] using hq'
    split <;> simp_all [Scan.whole?]
  all_goals simp_all

theorem whole?_scanValue_number (hc : ∀ c ∈ (skipSpace t).head?, c = '-' ∨ c.isDigit)
    (hq : Literal.scan? (skipSpace t) = some (l, r)) :
    (scanValue t).whole? = some (.number l, r) := by
  unfold scanValue
  split
  case h_7 =>
    split
    · simp_all [Scan.whole?]
    · simp_all
  all_goals
    rename_i hq'
    rw [hq'] at hc
    exact absurd (hc _ rfl) (by decide)

theorem whole?_scanValue_emptyArray (ht : skipSpace t = '[' :: q) (hq : skipSpace q = ']' :: r) :
    (scanValue t).whole? = some (.array [] true, r) := by
  unfold scanValue
  split
  case h_2 q' hq' =>
    obtain rfl : q = q' := by simpa [ht] using hq'
    split
    · simp_all [Scan.whole?]
    · rename_i he
      exact absurd hq (he _)
  all_goals simp_all

theorem whole?_scanValue_array {vs : List Tree} (ht : skipSpace t = '[' :: q)
    (hn : ∀ u, skipSpace q ≠ ']' :: u) (hq : (scanItems q).whole? = some (vs, r)) :
    (scanValue t).whole? = some (.array vs true, r) := by
  obtain ⟨shorter, hq⟩ := Scan.exists_of_whole? hq
  unfold scanValue
  split
  case h_2 q' hq' =>
    obtain rfl : q = q' := by simpa [ht] using hq'
    split
    · rename_i he
      exact absurd he (hn _)
    · rw [hq]
      rfl
  all_goals simp_all

theorem whole?_scanValue_emptyObject (ht : skipSpace t = '{' :: q) (hq : skipSpace q = '}' :: r) :
    (scanValue t).whole? = some (.object [] true, r) := by
  unfold scanValue
  split
  case h_3 q' hq' =>
    obtain rfl : q = q' := by simpa [ht] using hq'
    split
    · simp_all [Scan.whole?]
    · rename_i he
      exact absurd hq (he _)
  all_goals simp_all

theorem whole?_scanValue_object {ns : List (List Piece × Tree)} (ht : skipSpace t = '{' :: q)
    (hn : ∀ u, skipSpace q ≠ '}' :: u) (hq : (scanMembers q).whole? = some (ns, r)) :
    (scanValue t).whole? = some (.object ns true, r) := by
  obtain ⟨shorter, hq⟩ := Scan.exists_of_whole? hq
  unfold scanValue
  split
  case h_3 q' hq' =>
    obtain rfl : q = q' := by simpa [ht] using hq'
    split
    · rename_i he
      exact absurd he (hn _)
    · rw [hq]
      rfl
  all_goals simp_all

/-- After an item stands a comma and more items, or the bracket that closes them. -/
theorem whole?_scanItems (ht : (scanValue t).whole? = some (v, q)) :
    (scanItems t).whole? = match skipSpace q with
      | ',' :: w => (scanItems w).whole?.map fun (vs, x) => (v :: vs, x)
      | ']' :: w => some ([v], w)
      | _ => none := by
  obtain ⟨shorter, ht⟩ := Scan.exists_of_whole? ht
  rw [scanItems, ht]
  dsimp only
  split
  · rename_i w hw
    simp only [hw]
    cases scanItems w <;> rfl
  · rename_i w hw
    simp only [hw]
    rfl
  · simp_all [Scan.whole?]

/-- After a member stands a comma and more members, or the brace that closes them. -/
theorem whole?_scanMembers (ht : skipSpace t = '"' :: q) (hq : scanString? q = some (ps, r))
    (hr : skipSpace r = ':' :: s) (hs : (scanValue s).whole? = some (v, u)) :
    (scanMembers t).whole? = match skipSpace u with
      | ',' :: w => (scanMembers w).whole?.map fun (ns, x) => ((ps, v) :: ns, x)
      | '}' :: w => some ([(ps, v)], w)
      | _ => none := by
  obtain ⟨shorter, hs⟩ := Scan.exists_of_whole? hs
  rw [scanMembers]
  split
  · rename_i q' hq'
    obtain rfl : q = q' := by simpa [ht] using hq'
    split
    · simp_all
    · rename_i k r' hk
      obtain ⟨rfl, rfl⟩ : ps = k ∧ r = r' := by simpa [hq] using hk
      split
      · rename_i s' hs'
        obtain rfl : s = s' := by simpa [hr] using hs'
        rw [hs]
        dsimp only
        split
        · rename_i w hw
          simp only [hw]
          cases scanMembers w <;> rfl
        · rename_i w hw
          simp only [hw]
          rfl
        · simp_all [Scan.whole?]
      · simp_all
  · simp_all

/-! ## What is written is read -/

theorem WritesNumber.head (h : WritesNumber l s) : ∃ c s', s = c :: s' ∧ (c = '-' ∨ c.isDigit) := by
  obtain ⟨neg, hw, hn, -, -, -⟩ := h
  obtain ⟨d, w, rfl⟩ := List.exists_cons_of_ne_nil hn
  cases neg with
  | true => exact ⟨'-', _, rfl, .inl rfl⟩
  | false => exact ⟨d, _, rfl, .inr (hw d List.mem_cons_self)⟩

theorem isSpace_of_isDigit {c : Char} (hc : c = '-' ∨ c.isDigit) :
    isSpace c = false ∧ c ≠ ']' := by
  rcases hc with rfl | hc
  · decide
  · obtain ⟨low, high⟩ : 48 ≤ c.toNat ∧ c.toNat ≤ 57 := Char.isDigit_iff_toNat.mp hc
    rw [← Char.ofNat_toNat c]
    interval_cases c.toNat <;> decide

/-- A value begins with a character that is no blank and closes nothing. -/
theorem Writes.head (h : Writes v s) : ∃ c s', s = c :: s' ∧ isSpace c = false ∧ c ≠ ']' := by
  cases h with
  | bool b => cases b <;> exact ⟨_, _, rfl, by decide⟩
  | number h =>
    obtain ⟨c, s', rfl, hc⟩ := h.head
    exact ⟨c, s', rfl, isSpace_of_isDigit hc⟩
  | _ => exact ⟨_, _, rfl, by decide⟩

theorem Writes.skipSpace_append (h : Writes v s) (ha : IsSpaces a) (r : Text) :
    skipSpace (a ++ (s ++ r)) = s ++ r := by
  obtain ⟨c, s', rfl, hc, -⟩ := h.head
  exact Json.skipSpace_append ha (by simpa using hc)

theorem IsSpaces.ends (ha : IsSpaces a) (hr : Ends r) : Ends (a ++ r) := by
  cases a with
  | nil => exact hr
  | cons c a => rintro d ⟨⟩; exact .inl (ha c List.mem_cons_self)

theorem IsSpaces.skipSpace_append (ha : IsSpaces a) {c : Char} (hc : isSpace c = false)
    (r : Text) : skipSpace (a ++ c :: r) = c :: r :=
  Json.skipSpace_append ha (by simpa using hc)

theorem ends_cons {c : Char} (hc : c ∈ [',', ']', '}']) (r : Text) : Ends (c :: r) := by
  rintro d ⟨⟩
  exact .inr hc

theorem WritesItems.notClosed {vs : List Tree} (h : WritesItems vs s) (r u : Text) :
    skipSpace (s ++ r) ≠ ']' :: u := by
  have first {v : Tree} {a s : Text} (ha : IsSpaces a) (h : Writes v s) (r : Text) :
      skipSpace (a ++ (s ++ r)) ≠ ']' :: u := by
    rw [h.skipSpace_append ha]
    obtain ⟨c, s', rfl, -, hn⟩ := h.head
    exact fun he => hn (List.cons.inj he).1
  cases h with
  | last ha h hb =>
    rw [List.append_assoc, List.append_assoc]
    exact first ha h _
  | cons ha h hb ht =>
    rw [List.append_assoc, List.append_assoc]
    exact first ha h _

theorem WritesMembers.notClosed {ms : List (List Piece × Tree)} (h : WritesMembers ms s)
    (r u : Text) : skipSpace (s ++ r) ≠ '}' :: u := by
  cases h with
  | last ha | cons ha =>
    rw [List.append_assoc, List.cons_append, ha.skipSpace_append (by decide)]
    simp

mutual

/-- A value is read up to its end, whatever may follow it. -/
theorem Writes.whole? {v : Tree} {s a r : Text} (h : Writes v s) (ha : IsSpaces a) (hr : Ends r) :
    (scanValue (a ++ (s ++ r))).whole? = some (v, r) := by
  have ht := h.skipSpace_append ha r
  cases h with
  | null => exact whole?_scanValue_null ht
  | bool b =>
    cases b with
    | true => exact whole?_scanValue_true ht
    | false => exact whole?_scanValue_false ht
  | number h =>
    obtain ⟨c, s', rfl, hc⟩ := h.head
    refine whole?_scanValue_number ?_ ?_
    · rw [ht]
      rintro d ⟨⟩
      exact hc
    · rw [ht]
      exact h.scan? hr
  | @string ps s h =>
    exact whole?_scanValue_string (q := s ++ '"' :: r) (ht.trans (by simp)) (h.scanString? r)
  | @emptyArray b hb =>
    exact whole?_scanValue_emptyArray (q := b ++ ']' :: r) (ht.trans (by simp))
      (hb.skipSpace_append (by decide) r)
  | @array vs s h =>
    exact whole?_scanValue_array (q := s ++ ']' :: r) (ht.trans (by simp)) (h.notClosed _)
      (WritesItems.whole? h)
  | @emptyObject b hb =>
    exact whole?_scanValue_emptyObject (q := b ++ '}' :: r) (ht.trans (by simp))
      (hb.skipSpace_append (by decide) r)
  | @object ms s h =>
    exact whole?_scanValue_object (q := s ++ '}' :: r) (ht.trans (by simp)) (h.notClosed _)
      (WritesMembers.whole? h)

theorem WritesItems.whole? {vs : List Tree} {s r : Text} (h : WritesItems vs s) :
    (scanItems (s ++ ']' :: r)).whole? = some (vs, r) := by
  cases h with
  | @last v a s b ha h hb =>
    have hv := Writes.whole? h ha (hb.ends (ends_cons (c := ']') (by decide) r))
    rw [List.append_assoc, List.append_assoc, whole?_scanItems hv,
      hb.skipSpace_append (by decide)]
    rfl
  | @cons v vs a s b t ha h hb ht =>
    have hv := Writes.whole? h ha (hb.ends (ends_cons (c := ',') (by decide) (t ++ ']' :: r)))
    rw [List.append_assoc, List.append_assoc, List.append_assoc, List.cons_append,
      whole?_scanItems hv, hb.skipSpace_append (by decide)]
    simp only [WritesItems.whole? ht, Option.map_some]

theorem WritesMembers.whole? {ms : List (List Piece × Tree)} {s r : Text}
    (h : WritesMembers ms s) : (scanMembers (s ++ '}' :: r)).whole? = some (ms, r) := by
  cases h with
  | @last k v a q b c s d ha hk hb hc h hd =>
    have hv := Writes.whole? h hc (hd.ends (ends_cons (c := '}') (by decide) r))
    have ht : skipSpace (a ++ '"' :: (q ++ '"' :: (b ++ ':' :: (c ++ (s ++ d)))) ++ '}' :: r) =
        '"' :: (q ++ '"' :: (b ++ ':' :: (c ++ (s ++ (d ++ '}' :: r))))) := by
      rw [List.append_assoc, List.cons_append, ha.skipSpace_append (by decide)]
      simp
    rw [whole?_scanMembers ht (hk.scanString? _) (hb.skipSpace_append (by decide) _) hv,
      hd.skipSpace_append (by decide)]
    rfl
  | @cons k v ms a q b c s d t ha hk hb hc h hd hms =>
    have hv := Writes.whole? h hc (hd.ends (ends_cons (c := ',') (by decide) (t ++ '}' :: r)))
    have ht : skipSpace (a ++ '"' :: (q ++ '"' :: (b ++ ':' :: (c ++ (s ++ (d ++ ',' :: t))))) ++
        '}' :: r) =
        '"' :: (q ++ '"' :: (b ++ ':' :: (c ++ (s ++ (d ++ ',' :: (t ++ '}' :: r)))))) := by
      rw [List.append_assoc, List.cons_append, ha.skipSpace_append (by decide)]
      simp
    rw [whole?_scanMembers ht (hk.scanString? _) (hb.skipSpace_append (by decide) _) hv,
      hd.skipSpace_append (by decide)]
    simp only [WritesMembers.whole? hms, Option.map_some]

end

/-! ## What is read is written -/

theorem exists_append_of_scanWord {word : Text} {hw : word ≠ []} {u : Tree}
    (h : (scanWord word u t hw).whole? = some (v, r)) : v = u ∧ t = word ++ r := by
  rw [whole?_scanWord] at h
  obtain ⟨r', hr, he⟩ := Option.map_eq_some_iff.mp h
  obtain ⟨rfl, rfl⟩ := Prod.mk.inj he
  exact ⟨rfl, after?_eq_some_iff.mp hr⟩

theorem length_lt_of_skipSpace {c : Char} (h : skipSpace t = c :: q) : q.length < t.length := by
  have := length_skipSpace_le t
  rw [h, List.length_cons] at this
  omega

mutual

/-- What is read as a whole value is blanks and a text that writes the value. -/
theorem exists_writes {t r : Text} {v : Tree} (h : (scanValue t).whole? = some (v, r)) :
    ∃ a s, IsSpaces a ∧ Writes v s ∧ t = a ++ (s ++ r) := by
  obtain ⟨a, ha, ht⟩ := exists_isSpaces t
  rw [scanValue] at h
  split at h
  case h_1 q hq =>
    split at h
    · next ps rest hps =>
      obtain ⟨rfl, rfl⟩ := Prod.mk.inj (Option.some.inj h)
      obtain ⟨s, hs, rfl⟩ := exists_writesPieces hps
      exact ⟨a, _, ha, .string hs, by rw [ht, hq]; simp⟩
    · simp [Scan.whole?] at h
  case h_2 q hq =>
    split at h
    · next rest hr =>
      obtain ⟨rfl, rfl⟩ := Prod.mk.inj (Option.some.inj h)
      obtain ⟨b, hb, hqb⟩ := exists_isSpaces q
      exact ⟨a, _, ha, .emptyArray hb, by rw [ht, hq, hqb, hr]; simp⟩
    · split at h
      · next vs rest shorter hvs =>
        have := length_lt_of_skipSpace hq
        obtain ⟨rfl, rfl⟩ := Prod.mk.inj (Option.some.inj h)
        obtain ⟨s, hs, rfl⟩ := exists_writesItems (congrArg Scan.whole? hvs)
        exact ⟨a, _, ha, .array hs, by rw [ht, hq]; simp⟩
      · simp [Scan.whole?] at h
  case h_3 q hq =>
    split at h
    · next rest hr =>
      obtain ⟨rfl, rfl⟩ := Prod.mk.inj (Option.some.inj h)
      obtain ⟨b, hb, hqb⟩ := exists_isSpaces q
      exact ⟨a, _, ha, .emptyObject hb, by rw [ht, hq, hqb, hr]; simp⟩
    · split at h
      · next ms rest shorter hms =>
        have := length_lt_of_skipSpace hq
        obtain ⟨rfl, rfl⟩ := Prod.mk.inj (Option.some.inj h)
        obtain ⟨s, hs, rfl⟩ := exists_writesMembers (congrArg Scan.whole? hms)
        exact ⟨a, _, ha, .object hs, by rw [ht, hq]; simp⟩
      · simp [Scan.whole?] at h
  case h_4 q hq =>
    rw [Scan.whole?_lift] at h
    obtain ⟨rfl, hw⟩ := exists_append_of_scanWord h
    exact ⟨a, _, ha, .null, by rw [ht, hq, hw]; rfl⟩
  case h_5 q hq =>
    rw [Scan.whole?_lift] at h
    obtain ⟨rfl, hw⟩ := exists_append_of_scanWord h
    exact ⟨a, _, ha, .bool true, by rw [ht, hq, hw]; rfl⟩
  case h_6 q hq =>
    rw [Scan.whole?_lift] at h
    obtain ⟨rfl, hw⟩ := exists_append_of_scanWord h
    exact ⟨a, _, ha, .bool false, by rw [ht, hq, hw]; rfl⟩
  case h_7 =>
    split at h
    · next l rest hn =>
      obtain ⟨rfl, rfl⟩ := Prod.mk.inj (Option.some.inj h)
      obtain ⟨s, hs, hts⟩ := Literal.exists_writesNumber hn
      exact ⟨a, s, ha, .number hs, by rw [← hts]; exact ht⟩
    · simp [Scan.whole?] at h
termination_by (t.length, 0)
decreasing_by all_goals exact Prod.Lex.left _ _ (by omega)

theorem exists_writesItems {t r : Text} {vs : List Tree}
    (h : (scanItems t).whole? = some (vs, r)) :
    ∃ s, WritesItems vs s ∧ t = s ++ ']' :: r := by
  rw [scanItems] at h
  split at h
  · simp [Scan.whole?] at h
  · next v u shorter hv =>
    obtain ⟨a, s, ha, hs, ht⟩ := exists_writes (congrArg Scan.whole? hv)
    obtain ⟨b, hb, hu⟩ := exists_isSpaces u
    split at h
    · next w hw =>
      split at h
      · next vs rest shorter' hvs =>
        have := length_lt_of_skipSpace hw
        obtain ⟨rfl, rfl⟩ := Prod.mk.inj (Option.some.inj h)
        obtain ⟨s', hs', rfl⟩ := exists_writesItems (congrArg Scan.whole? hvs)
        exact ⟨_, .cons ha hs hb hs', by rw [ht, hu, hw]; simp⟩
      · simp [Scan.whole?] at h
    · next w hw =>
      obtain ⟨rfl, rfl⟩ := Prod.mk.inj (Option.some.inj h)
      exact ⟨_, .last ha hs hb, by rw [ht, hu, hw]; simp⟩
    · simp [Scan.whole?] at h
termination_by (t.length, 1)
decreasing_by
  · exact Prod.Lex.right _ (by omega)
  · exact Prod.Lex.left _ _ (by omega)

theorem exists_writesMembers {t r : Text} {ms : List (List Piece × Tree)}
    (h : (scanMembers t).whole? = some (ms, r)) :
    ∃ s, WritesMembers ms s ∧ t = s ++ '}' :: r := by
  obtain ⟨a, ha, hta⟩ := exists_isSpaces t
  rw [scanMembers] at h
  split at h
  · next q hq =>
    split at h
    · simp [Scan.whole?] at h
    · next k u hk =>
      obtain ⟨b, hb, hu⟩ := exists_isSpaces u
      split at h
      · next s hs =>
        split at h
        · simp [Scan.whole?] at h
        · next v x shorter hv =>
          have := length_lt_of_skipSpace hq
          have := length_scanString? hk
          have := length_lt_of_skipSpace hs
          obtain ⟨c, s', hc, hs', hss⟩ := exists_writes (congrArg Scan.whole? hv)
          obtain ⟨d, hd, hx⟩ := exists_isSpaces x
          split at h
          · next w hw =>
            split at h
            · next ms rest shorter' hms =>
              have := length_lt_of_skipSpace hw
              obtain ⟨rfl, rfl⟩ := Prod.mk.inj (Option.some.inj h)
              obtain ⟨p, hp, hqp⟩ := exists_writesPieces hk
              obtain ⟨t', ht', rfl⟩ := exists_writesMembers (congrArg Scan.whole? hms)
              refine ⟨_, .cons ha hp hb hc hs' hd ht', ?_⟩
              rw [hta, hq, hqp, hu, hs, hss, hx, hw]
              simp
            · simp [Scan.whole?] at h
          · next w hw =>
            obtain ⟨rfl, rfl⟩ := Prod.mk.inj (Option.some.inj h)
            obtain ⟨p, hp, hqp⟩ := exists_writesPieces hk
            refine ⟨_, .last ha hp hb hc hs' hd, ?_⟩
            rw [hta, hq, hqp, hu, hs, hss, hx, hw]
            simp
          · simp [Scan.whole?] at h
      · simp [Scan.whole?] at h
  · simp [Scan.whole?] at h
termination_by (t.length, 1)
decreasing_by all_goals exact Prod.Lex.left _ _ (by omega)

end

/-! ## Documents -/

/-- A text is a whole document exactly if the grammar has it, and its tree is the one it writes. -/
theorem scanDocument_eq_iff : scanDocument t = (v, true) ↔ WritesDocument v t := by
  constructor
  · intro h
    unfold scanDocument at h
    split at h
    · next u rest shorter hu =>
      obtain ⟨rfl, blank⟩ := Prod.mk.inj h
      obtain ⟨a, s, ha, hs, ht⟩ := exists_writes (congrArg Scan.whole? hu)
      exact ⟨a, s, rest, ha, hs, List.dropWhile_eq_nil_iff.mp (List.isEmpty_iff.mp blank), ht⟩
    · exact absurd (Prod.mk.inj h).2 Bool.false_ne_true
  · rintro ⟨a, s, b, ha, hs, hb, rfl⟩
    have ends : Ends b := by simpa using hb.ends (r := []) (by simp [Ends])
    have blank : skipSpace b = [] := List.dropWhile_eq_nil_iff.mpr hb
    rw [scanDocument_of_whole? (hs.whole? ha ends), blank]
    rfl

/-- No document has two trees. -/
theorem WritesDocument.eq {u v : Tree} (h : WritesDocument u t) (h' : WritesDocument v t) :
    u = v :=
  congrArg Prod.fst ((scanDocument_eq_iff.mpr h).symm.trans (scanDocument_eq_iff.mpr h'))

end IssueMarkdown.Json
