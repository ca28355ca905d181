import IssueMarkdown.Json.Number

/-! # JSON texts as trees

A tree keeps a JSON text as it is written, as far as it can be read: numbers stay digits,
strings stay pieces. Where the text breaks off, the tree says so, so that what comes before
the break can still be judged.
-/

namespace IssueMarkdown.Json

open Text

/-- A character of a string, a UTF-16 unit written as `\u` and four digits, or bytes that are no
character. -/
inductive Piece where
  | char (c : Char)
  | unit (n : Nat)
  | stray
  deriving DecidableEq, Repr

/-- `closed` tells whether the closing bracket was found; the text breaks off otherwise, after
the last item or inside it. -/
inductive Tree where
  | null
  | bool (b : Bool)
  | number (n : Literal)
  | string (s : List Piece)
  | array (items : List Tree) (closed : Bool)
  | object (members : List (List Piece × Tree)) (closed : Bool)
  | broken

/-- What reading finds at the front of `t`: a whole item and the rest of the text, or an item in
which the text breaks off. -/
inductive Scan (α : Type) (t : Text) where
  | whole (item : α) (rest : Text) (shorter : rest.length < t.length)
  | broken (item : α)

namespace Scan

variable {α : Type} {s t : Text}

/-- The same item read from a longer text. -/
def lift (h : s.length ≤ t.length) : Scan α s → Scan α t
  | whole a r hr => whole a r (Nat.lt_of_lt_of_le hr h)
  | broken a => broken a

end Scan

def isSpace (c : Char) : Bool := c == ' ' || c == '\n' || c == '\t' || c == '\r'

def skipSpace (t : Text) : Text := t.dropWhile isSpace

theorem length_skipSpace_le (t : Text) : (skipSpace t).length ≤ t.length :=
  length_dropWhile_le isSpace t

/-- The character that a one letter escape stands for. -/
def escape? : Char → Option Char
  | '"' => some '"'
  | '\\' => some '\\'
  | '/' => some '/'
  | 'b' => some '\x08'
  | 'f' => some '\x0c'
  | 'n' => some '\n'
  | 'r' => some '\r'
  | 't' => some '\t'
  | _ => none

/-- The number that four hexadecimal digits write. -/
def hexUnit? (a b c d : Char) : Option Nat := do
  return ((← hexValue? a) * 16 + (← hexValue? b)) * 256 + ((← hexValue? c) * 16 + (← hexValue? d))

/-- The rest of a string after its opening quote, up to the closing one. -/
def scanString? : Text → Option (List Piece × Text)
  | [] => none
  | '"' :: t => some ([], t)
  | '\\' :: 'u' :: a :: b :: c :: d :: t =>
    (hexUnit? a b c d).bind fun n => (scanString? t).map fun (ps, r) => (.unit n :: ps, r)
  | '\\' :: e :: t =>
    (escape? e).bind fun c => (scanString? t).map fun (ps, r) => (.char c :: ps, r)
  | c :: t =>
    if c < ' ' ∨ c = '\\' then none
    else (scanString? t).map fun (ps, r) => (.char c :: ps, r)

theorem length_scanString? {t r : Text} {ps : List Piece} (h : scanString? t = some (ps, r)) :
    r.length < t.length := by
  fun_induction scanString? t generalizing ps with
  | case1 => simp at h
  | case2 t => simp_all
  | case3 a b c d t ih =>
    obtain ⟨n, -, h⟩ := Option.bind_eq_some_iff.mp h
    obtain ⟨⟨ps', r'⟩, ht, he⟩ := Option.map_eq_some_iff.mp h
    obtain ⟨-, rfl⟩ := Prod.mk.inj he
    have := ih ht
    simp only [List.length_cons]
    omega
  | case4 e t _ ih =>
    obtain ⟨c, -, h⟩ := Option.bind_eq_some_iff.mp h
    obtain ⟨⟨ps', r'⟩, ht, he⟩ := Option.map_eq_some_iff.mp h
    obtain ⟨-, rfl⟩ := Prod.mk.inj he
    have := ih ht
    simp only [List.length_cons]
    omega
  | case5 => simp at h
  | case6 c t _ _ _ _ ih =>
    obtain ⟨⟨ps', r'⟩, ht, he⟩ := Option.map_eq_some_iff.mp h
    obtain ⟨-, rfl⟩ := Prod.mk.inj he
    have := ih ht
    simp only [List.length_cons]
    omega

/-- A word at the front of a text, as the tree it stands for. -/
def scanWord (word : Text) (v : Tree) (t : Text) (h : word ≠ []) : Scan Tree t :=
  match hr : after? word t with
  | some r => .whole v r (by
      have := length_after? hr
      have := List.length_pos_iff.mpr h
      omega)
  | none => .broken .broken

mutual

/-- Reads one value, blanks before it allowed. -/
def scanValue (t : Text) : Scan Tree t :=
  match ht : skipSpace t with
  | '"' :: r =>
    match hs : scanString? r with
    | some (ps, rest) => .whole (.string ps) rest (by
        have := length_scanString? hs
        have := length_skipSpace_le t
        simp only [ht, List.length_cons] at this
        omega)
    | none => .broken .broken
  | '[' :: r =>
    match hr : skipSpace r with
    | ']' :: rest => .whole (.array [] true) rest (by
        have h₁ := length_skipSpace_le t
        have h₂ := length_skipSpace_le r
        simp only [ht, hr, List.length_cons] at h₁ h₂
        omega)
    | _ =>
      match scanItems r with
      | .whole vs rest h => .whole (.array vs true) rest (by
          have := length_skipSpace_le t
          simp only [ht, List.length_cons] at this
          omega)
      | .broken vs => .broken (.array vs false)
  | '{' :: r =>
    match hr : skipSpace r with
    | '}' :: rest => .whole (.object [] true) rest (by
        have h₁ := length_skipSpace_le t
        have h₂ := length_skipSpace_le r
        simp only [ht, hr, List.length_cons] at h₁ h₂
        omega)
    | _ =>
      match scanMembers r with
      | .whole ms rest h => .whole (.object ms true) rest (by
          have := length_skipSpace_le t
          simp only [ht, List.length_cons] at this
          omega)
      | .broken ms => .broken (.object ms false)
  | 'n' :: r =>
    (scanWord ['n', 'u', 'l', 'l'] .null ('n' :: r) (by simp)).lift (ht ▸ length_skipSpace_le t)
  | 't' :: r =>
    (scanWord ['t', 'r', 'u', 'e'] (.bool true) ('t' :: r) (by simp)).lift
      (ht ▸ length_skipSpace_le t)
  | 'f' :: r =>
    (scanWord ['f', 'a', 'l', 's', 'e'] (.bool false) ('f' :: r) (by simp)).lift
      (ht ▸ length_skipSpace_le t)
  | r =>
    match hn : Literal.scan? r with
    | some (n, rest) => .whole (.number n) rest (by
        have := Literal.length_scan? hn
        have := length_skipSpace_le t
        simp only [ht] at this
        omega)
    | none => .broken .broken
termination_by (t.length, 0)
decreasing_by all_goals
  have := length_skipSpace_le t
  simp only [ht, List.length_cons] at this
  exact Prod.Lex.left _ _ (by omega)

/-- Reads the items of an array up to its closing bracket; at least one is due. -/
def scanItems (t : Text) : Scan (List Tree) t :=
  match scanValue t with
  | .broken v => .broken [v]
  | .whole v r h =>
    match hr : skipSpace r with
    | ',' :: s =>
      match scanItems s with
      | .whole vs rest h' => .whole (v :: vs) rest (by
          have := length_skipSpace_le r
          simp only [hr, List.length_cons] at this
          omega)
      | .broken vs => .broken (v :: vs)
    | ']' :: s => .whole [v] s (by
        have := length_skipSpace_le r
        simp only [hr, List.length_cons] at this
        omega)
    | _ => .broken [v]
termination_by (t.length, 1)
decreasing_by
  · exact Prod.Lex.right _ (by omega)
  · have := length_skipSpace_le r
    simp only [hr, List.length_cons] at this
    exact Prod.Lex.left _ _ (by omega)

/-- Reads the members of an object up to its closing brace; at least one is due. A name that is
not followed by a colon stays, with a broken value. -/
def scanMembers (t : Text) : Scan (List (List Piece × Tree)) t :=
  match ht : skipSpace t with
  | '"' :: q =>
    match hq : scanString? q with
    | none => .broken []
    | some (k, r) =>
      match hr : skipSpace r with
      | ':' :: s =>
        match scanValue s with
        | .broken v => .broken [(k, v)]
        | .whole v u h =>
          match hu : skipSpace u with
          | ',' :: w =>
            match scanMembers w with
            | .whole ms rest h' => .whole ((k, v) :: ms) rest (by
                have h₁ := length_skipSpace_le t
                have h₂ := length_scanString? hq
                have h₃ := length_skipSpace_le r
                have h₄ := length_skipSpace_le u
                simp only [ht, hr, hu, List.length_cons] at h₁ h₃ h₄
                omega)
            | .broken ms => .broken ((k, v) :: ms)
          | '}' :: w => .whole [(k, v)] w (by
              have h₁ := length_skipSpace_le t
              have h₂ := length_scanString? hq
              have h₃ := length_skipSpace_le r
              have h₄ := length_skipSpace_le u
              simp only [ht, hr, hu, List.length_cons] at h₁ h₃ h₄
              omega)
          | _ => .broken [(k, v)]
      | _ => .broken [(k, .broken)]
  | _ => .broken []
termination_by (t.length, 1)
decreasing_by
  · have h₁ := length_skipSpace_le t
    have h₂ := length_scanString? hq
    have h₃ := length_skipSpace_le r
    simp only [ht, hr, List.length_cons] at h₁ h₃
    exact Prod.Lex.left _ _ (by omega)
  · have h₁ := length_skipSpace_le t
    have h₂ := length_scanString? hq
    have h₃ := length_skipSpace_le r
    have h₄ := length_skipSpace_le u
    simp only [ht, hr, hu, List.length_cons] at h₁ h₃ h₄
    exact Prod.Lex.left _ _ (by omega)

end

/-- A text as a tree, and whether nothing but blanks follows it. -/
def scanDocument (t : Text) : Tree × Bool :=
  match scanValue t with
  | .whole v rest _ => (v, (skipSpace rest).isEmpty)
  | .broken v => (v, false)

end IssueMarkdown.Json
