/-! # Texts

A text is a list of characters. Recognisers take a text and return what is left
after the thing they look for; each says how much shorter the rest is.
-/

namespace IssueMarkdown

abbrev Text := List Char

namespace Text

/-- The Unicode property `White_Space`. -/
def isBlank (c : Char) : Bool :=
  ('\t' ≤ c && c ≤ '\r') || c == ' ' || c == '\u0085' || c == '\u00a0' || c == '\u1680' ||
  ('\u2000' ≤ c && c ≤ '\u200a') || c == '\u2028' || c == '\u2029' || c == '\u202f' ||
  c == '\u205f' || c == '\u3000'

/-- The text without the longest run of `p` at its end. -/
def dropEndWhile (p : Char → Bool) (t : Text) : Text := (t.reverse.dropWhile p).reverse

/-- The text without blanks at either end. -/
def trim (t : Text) : Text := dropEndWhile isBlank (t.dropWhile isBlank)

/-- A trimmed value, if anything is left of it. -/
def nonblank? (t : Text) : Option Text :=
  if (trim t).isEmpty then none else some (trim t)

/-- What follows `lead` at the front of a text, characters compared by `same`. -/
def afterBy? (same : Char → Char → Bool) : Text → Text → Option Text
  | [], t => some t
  | _ :: _, [] => none
  | l :: ls, c :: t => if same l c then afterBy? same ls t else none

/-- What follows `lead` at the front of a text. -/
def after? (lead t : Text) : Option Text := afterBy? (· == ·) lead t

/-- What follows `lead` at the front of a text, ASCII letters in either case. -/
def afterAnyCase? (lead t : Text) : Option Text :=
  afterBy? (fun l c => l.toLower == c.toLower) lead t

/-- What follows a nonempty run of `p` that cannot be made longer. -/
def run? (p : Char → Bool) : Text → Option Text
  | [] => none
  | c :: t => if p c then some (t.dropWhile p) else none

def isHex (c : Char) : Bool :=
  c.isDigit || ('a' ≤ c && c ≤ 'f') || ('A' ≤ c && c ≤ 'F')

/-- What follows exactly `n` characters of `p`. -/
def exactly? (p : Char → Bool) : Nat → Text → Option Text
  | 0, t => some t
  | _ + 1, [] => none
  | n + 1, c :: t => if p c then exactly? p n t else none

/-- The number that a hexadecimal digit writes. -/
def hexValue? (c : Char) : Option Nat :=
  if c.isDigit then some (c.toNat - '0'.toNat)
  else if 'a' ≤ c ∧ c ≤ 'f' then some (c.toNat - 'a'.toNat + 10)
  else if 'A' ≤ c ∧ c ≤ 'F' then some (c.toNat - 'A'.toNat + 10)
  else none

def digitValue (c : Char) : Nat := c.toNat - '0'.toNat

/-- The number that decimal digits write. -/
def decimalValue (t : Text) : Nat := t.foldl (fun n c => 10 * n + digitValue c) 0

/-- The pieces between separators; there is one more of them than separators. -/
def splitBy (isSep : Char → Bool) : Text → List Text
  | [] => [[]]
  | c :: t =>
    if isSep c then [] :: splitBy isSep t
    else match splitBy isSep t with
      | [] => [[c]]
      | l :: ls => (c :: l) :: ls

/-- The pieces between line feeds. -/
def lines (t : Text) : List Text := splitBy (· == '\n') t

/-- The number of bytes of a text in UTF-8. -/
def byteLength : Text → Nat
  | [] => 0
  | c :: t => c.utf8Size + byteLength t

/-- Each character with the number of bytes before it, of which `start` are before the text. -/
def charIndices (start : Nat) : Text → List (Nat × Char)
  | [] => []
  | c :: t => (start, c) :: charIndices (start + c.utf8Size) t

/-- The characters that lie within the first `n` bytes. -/
def takeBytes : Nat → Text → Text
  | _, [] => []
  | n, c :: t => if c.utf8Size ≤ n then c :: takeBytes (n - c.utf8Size) t else []

theorem getElem?_charIndices (start n : Nat) (t : Text) : (charIndices start t)[n]? =
    t[n]?.map fun c => (start + byteLength (t.take n), c) := by
  induction t generalizing start n with
  | nil => simp [charIndices]
  | cons c t ih =>
    cases n with
    | zero => simp [charIndices, byteLength]
    | succ n => simp [charIndices, byteLength, ih, Nat.add_assoc]

/-- The number of bytes before a character is where the text is to be cut before it. -/
theorem takeBytes_byteLength (s t : Text) : takeBytes (byteLength s) (s ++ t) = s := by
  induction s with
  | nil =>
    cases t with
    | nil => rfl
    | cons c t => exact if_neg (Nat.not_le_of_lt c.utf8Size_pos)
  | cons c s ih => simp [takeBytes, byteLength, ih]

theorem length_afterBy? {same : Char → Char → Bool} {lead t r : Text}
    (h : afterBy? same lead t = some r) : r.length + lead.length = t.length := by
  induction lead generalizing t with
  | nil => simp_all [afterBy?]
  | cons l ls ih =>
    cases t with
    | nil => simp [afterBy?] at h
    | cons c t =>
      simp only [afterBy?] at h
      split at h
      · have := ih h
        simp only [List.length_cons]
        omega
      · simp at h

theorem length_after? {lead t r : Text} (h : after? lead t = some r) :
    r.length + lead.length = t.length :=
  length_afterBy? h

theorem length_dropWhile_le (p : Char → Bool) (t : Text) : (t.dropWhile p).length ≤ t.length :=
  (List.dropWhile_suffix p).length_le

theorem length_run? {p : Char → Bool} {t r : Text} (h : run? p t = some r) :
    r.length < t.length := by
  cases t with
  | nil => simp [run?] at h
  | cons c t =>
    simp only [run?] at h
    split at h
    · rw [← Option.some.inj h, List.length_cons]
      exact Nat.lt_succ_of_le (length_dropWhile_le p t)
    · simp at h

theorem length_exactly? {p : Char → Bool} {n : Nat} {t r : Text} (h : exactly? p n t = some r) :
    r.length + n = t.length := by
  induction n generalizing t with
  | zero => simp_all [exactly?]
  | succ n ih =>
    cases t with
    | nil => simp [exactly?] at h
    | cons c t =>
      simp only [exactly?] at h
      split at h
      · have := ih h
        simp only [List.length_cons]
        omega
      · simp at h

theorem splitBy_ne_nil (isSep : Char → Bool) (t : Text) : splitBy isSep t ≠ [] := by
  cases t with
  | nil => simp [splitBy]
  | cons c t =>
    simp only [splitBy]
    split
    · simp
    · split <;> simp

end Text

end IssueMarkdown
