import IssueMarkdown.Markup.Pattern

/-! # The marks of wiki markup

One recogniser for each construct that conversion knows, and the pattern built on it.
Every recogniser gives the text after the construct, which is shorter.
-/

namespace IssueMarkdown.Markup

open Text

def isLineFeed (c : Char) : Bool := c == '\n'

/-- Quote markers also know lines that end in a carriage return. Between a carriage return and
its line feed no line starts; no pattern begins with a line feed, so none can tell. -/
def isLineEnd (c : Char) : Bool := c == '\n' || c == '\r'

/-! ## Colours -/

/-- A colour value `:#RRGGBB` or `:#RGB` with the brace that closes the marker. -/
def colourValue? (t : Text) : Option Text :=
  (after? [':', '#'] t).bind fun t =>
    ((exactly? isHex 6 t).bind (after? ['}'])).or ((exactly? isHex 3 t).bind (after? ['}']))

/-- A colour marker: the word in either case, and perhaps a value. -/
def colour? (t : Text) : Option Text :=
  (afterAnyCase? ['{', 'c', 'o', 'l', 'o', 'r'] t).bind fun t =>
    (after? ['}'] t).or (colourValue? t)

/-- A text without the one emphasis star it may begin with. -/
def dropStar : Text → Text
  | '*' :: t => t
  | t => t

/-- A colour marker takes one star on either side with it. -/
def starredColour? (t : Text) : Option Text := (colour? (dropStar t)).map dropStar

theorem length_dropStar_le (t : Text) : (dropStar t).length ≤ t.length := by
  unfold dropStar
  split <;> simp

theorem length_colour? {t r : Text} (h : colour? t = some r) : r.length < t.length := by
  obtain ⟨s, hs, hr⟩ := Option.bind_eq_some_iff.mp h
  have h₁ := length_afterBy? hs
  have h₂ : r.length ≤ s.length := by
    rcases Option.or_eq_some_iff.mp hr with hr | ⟨-, hr⟩
    · have := length_after? hr
      omega
    · obtain ⟨u, hu, hr⟩ := Option.bind_eq_some_iff.mp hr
      have := length_after? hu
      rcases Option.or_eq_some_iff.mp hr with hr | ⟨-, hr⟩ <;>
      · obtain ⟨v, hv, hr⟩ := Option.bind_eq_some_iff.mp hr
        have := length_exactly? hv
        have := length_after? hr
        omega
  simp only [List.length_cons, List.length_nil] at h₁
  omega

theorem length_starredColour? {t r : Text} (h : starredColour? t = some r) :
    r.length < t.length := by
  obtain ⟨s, hs, rfl⟩ := Option.map_eq_some_iff.mp h
  have h₁ := length_dropStar_le s
  have h₂ := length_dropStar_le t
  have h₃ := length_colour? hs
  omega

/-- Colour markers become bold markers. -/
def colourPattern : Pattern where
  breaksLine := isLineFeed
  find? _ t := (starredColour? t).map (⟨['*', '*'], ·⟩)
  shorter h := by
    obtain ⟨r, hr, rfl⟩ := Option.map_eq_some_iff.mp h
    exact length_starredColour? hr

/-! ## Links -/

def isLabel (c : Char) : Bool := c != ']' && c != '|' && c != '\n'

def isTarget (c : Char) : Bool := c != ']' && c != '\n'

/-- A link `[label|target]`, neither part empty, within one line. -/
def link? (t : Text) : Option Text :=
  (after? ['['] t).bind fun t => (run? isLabel t).bind fun t =>
    (after? ['|'] t).bind fun t => (run? isTarget t).bind (after? [']'])

/-- A mention `[~accountid…]` within one line. -/
def mention? (t : Text) : Option Text :=
  (after? ['[', '~', 'a', 'c', 'c', 'o', 'u', 'n', 't', 'i', 'd'] t).bind fun t =>
    after? [']'] (t.dropWhile isTarget)

theorem length_link? {t r : Text} (h : link? t = some r) : r.length < t.length := by
  obtain ⟨a, ha, h⟩ := Option.bind_eq_some_iff.mp h
  obtain ⟨b, hb, h⟩ := Option.bind_eq_some_iff.mp h
  obtain ⟨c, hc, h⟩ := Option.bind_eq_some_iff.mp h
  obtain ⟨d, hd, h⟩ := Option.bind_eq_some_iff.mp h
  have := length_after? ha
  have := length_run? hb
  have := length_after? hc
  have := length_run? hd
  have := length_after? h
  omega

theorem length_mention? {t r : Text} (h : mention? t = some r) : r.length < t.length := by
  obtain ⟨a, ha, h⟩ := Option.bind_eq_some_iff.mp h
  have h₁ := length_after? ha
  have h₂ := length_after? h
  have h₃ := length_dropWhile_le isTarget a
  simp only [List.length_cons, List.length_nil] at h₁
  omega

/-- Links and mentions are left out. -/
def linkPattern : Pattern where
  breaksLine := isLineFeed
  find? _ t := ((link? t).or (mention? t)).map (⟨[], ·⟩)
  shorter h := by
    obtain ⟨r, hr, rfl⟩ := Option.map_eq_some_iff.mp h
    rcases Option.or_eq_some_iff.mp hr with hr | ⟨-, hr⟩
    · exact length_link? hr
    · exact length_mention? hr

/-! ## Quotes -/

def quoteMarker : Text := ['{', 'q', 'u', 'o', 't', 'e', '}']

/-- Whether a line ends at the front of a text. -/
def endsLine : Text → Bool
  | [] => true
  | c :: _ => isLineEnd c

/-- A quote marker that starts a line becomes a quotation prompt. -/
def quoteOpenPattern : Pattern where
  breaksLine := isLineEnd
  find? start t := if start then (after? quoteMarker t).map (⟨['>', ' '], ·⟩) else none
  shorter h := by
    split at h
    · obtain ⟨r, hr, rfl⟩ := Option.map_eq_some_iff.mp h
      have := length_after? hr
      simp only [quoteMarker, List.length_cons, List.length_nil] at this
      show r.length < _
      omega
    · simp at h

/-- A quote marker that ends a line is left out. -/
def quoteClosePattern : Pattern where
  breaksLine := isLineEnd
  find? _ t := ((after? quoteMarker t).filter endsLine).map (⟨[], ·⟩)
  shorter h := by
    obtain ⟨r, hr, rfl⟩ := Option.map_eq_some_iff.mp h
    have := length_after? (Option.filter_eq_some_iff.mp hr).1
    simp only [quoteMarker, List.length_cons, List.length_nil] at this
    show r.length < _
    omega

/-! ## Panels -/

/-- A panel opener with a six digit colour, in either case. -/
def panelOpener? (t : Text) : Option Text :=
  (afterAnyCase?
    ['{', 'p', 'a', 'n', 'e', 'l', ':', 'b', 'g', 'c', 'o', 'l', 'o', 'r', '=', '#'] t).bind
    fun t => (exactly? isHex 6 t).bind (after? ['}'])

def panelCloser : Text := ['{', 'p', 'a', 'n', 'e', 'l', '}']

def isWithinLine (c : Char) : Bool := c != '\r' && c != '\n'

/-- A line break at the front of a text, with the text after it. -/
def lineBreak? : Text → Option (Text × Text)
  | '\n' :: t => some (['\n'], t)
  | '\r' :: '\n' :: t => some (['\r', '\n'], t)
  | _ => none

/-- The head line of a note. -/
def noteHead : Text := ['>', ' ', '[', '!', 'N', 'O', 'T', 'E', ']']

/-- A nonempty line with a panel closer below it becomes a note, its break kept. -/
def panelBody? (t : Text) : Option Hit :=
  if (t.takeWhile isWithinLine).isEmpty then none
  else (lineBreak? (t.dropWhile isWithinLine)).bind fun (br, r) =>
    (after? panelCloser r).map fun r =>
      ⟨noteHead ++ br ++ ['>', ' '] ++ t.takeWhile isWithinLine, r⟩

theorem length_panelOpener? {t r : Text} (h : panelOpener? t = some r) :
    r.length < t.length := by
  obtain ⟨a, ha, h⟩ := Option.bind_eq_some_iff.mp h
  obtain ⟨b, hb, h⟩ := Option.bind_eq_some_iff.mp h
  have h₁ := length_afterBy? ha
  have := length_exactly? hb
  have := length_after? h
  simp only [List.length_cons, List.length_nil] at h₁
  omega

theorem length_lineBreak? {t r br : Text} (h : lineBreak? t = some (br, r)) :
    r.length < t.length := by
  unfold lineBreak? at h
  split at h
  · obtain ⟨-, rfl⟩ := Prod.mk.inj (Option.some.inj h)
    exact Nat.lt_succ_self _
  · obtain ⟨-, rfl⟩ := Prod.mk.inj (Option.some.inj h)
    exact Nat.lt_succ_of_lt (Nat.lt_succ_self _)
  · simp at h

/-- Panel openers are left out. -/
def panelOpenPattern : Pattern where
  breaksLine := isLineFeed
  find? _ t := (panelOpener? t).map (⟨[], ·⟩)
  shorter h := by
    obtain ⟨r, hr, rfl⟩ := Option.map_eq_some_iff.mp h
    exact length_panelOpener? hr

def panelClosePattern : Pattern where
  breaksLine := isLineFeed
  find? start t := if start then panelBody? t else none
  shorter {start t hit} h := by
    split at h
    · unfold panelBody? at h
      split at h
      · simp at h
      · obtain ⟨⟨br, a⟩, ha, h⟩ := Option.bind_eq_some_iff.mp h
        obtain ⟨b, hb, rfl⟩ := Option.map_eq_some_iff.mp h
        have := length_lineBreak? ha
        have := length_dropWhile_le isWithinLine t
        have := length_after? hb
        show b.length < _
        omega
    · simp at h

/-! ## Code -/

/-- The text before the nearest `}}` of the line, and the text after it. -/
def spanEnd? : Text → Option (Text × Text)
  | [] => none
  | '}' :: '}' :: t => some ([], t)
  | c :: t => if c = '\n' then none else (spanEnd? t).map fun (s, r) => (c :: s, r)

/-- A code span `{{…}}`: at least one character, then as few as possible, all in one line. -/
def codeSpan? : Text → Option (Text × Text)
  | '{' :: '{' :: c :: t =>
    if c = '\n' then none else (spanEnd? t).map fun (s, r) => (c :: s, r)
  | _ => none

theorem length_spanEnd? {t s r : Text} (h : spanEnd? t = some (s, r)) :
    r.length < t.length := by
  fun_induction spanEnd? t generalizing s with
  | case1 => simp at h
  | case2 t =>
    obtain ⟨-, rfl⟩ := Prod.mk.inj (Option.some.inj h)
    exact Nat.lt_succ_of_lt (Nat.lt_succ_self _)
  | case3 => simp at h
  | case4 c t _ _ ih =>
    obtain ⟨⟨s', r'⟩, ht, he⟩ := Option.map_eq_some_iff.mp h
    obtain ⟨-, rfl⟩ := Prod.mk.inj he
    have := ih ht
    simp only [List.length_cons]
    omega

/-- Code spans stand between backticks. -/
def codePattern : Pattern where
  breaksLine := isLineFeed
  find? _ t := (codeSpan? t).map fun (s, r) => ⟨'`' :: s ++ ['`'], r⟩
  shorter h := by
    obtain ⟨⟨s, r⟩, hr, rfl⟩ := Option.map_eq_some_iff.mp h
    unfold codeSpan? at hr
    split at hr
    · split at hr
      · simp at hr
      · obtain ⟨⟨s', r'⟩, ht, he⟩ := Option.map_eq_some_iff.mp hr
        obtain ⟨-, rfl⟩ := Prod.mk.inj he
        have := length_spanEnd? ht
        simp only [List.length_cons]
        omega
    · simp at hr

/-! ## Lists and headings -/

/-- A list marker at the start of a line becomes a number. -/
def numberPattern : Pattern where
  breaksLine := isLineFeed
  find? start t := if start then (after? ['#', ' '] t).map (⟨['1', '.', ' '], ·⟩) else none
  shorter h := by
    split at h
    · obtain ⟨r, hr, rfl⟩ := Option.map_eq_some_iff.mp h
      have := length_after? hr
      simp only [List.length_cons, List.length_nil] at this
      show r.length < _
      omega
    · simp at h

/-- The depth of a heading marker `h1.` to `h6.`, and the text after its blanks. -/
def heading? : Text → Option (Nat × Text)
  | 'h' :: d :: '.' :: t =>
    if '1' ≤ d ∧ d ≤ '6' then
      some (d.toNat - '0'.toNat, t.dropWhile fun c => c == ' ' || c == '\t')
    else none
  | _ => none

/-- A heading marker at the start of a line becomes as many hash signs as it is deep. -/
def headingPattern : Pattern where
  breaksLine := isLineFeed
  find? start t :=
    if start then (heading? t).map fun (n, r) => ⟨List.replicate n '#' ++ [' '], r⟩ else none
  shorter h := by
    split at h
    · obtain ⟨⟨n, r⟩, hr, rfl⟩ := Option.map_eq_some_iff.mp h
      unfold heading? at hr
      split at hr
      · split at hr
        · obtain ⟨-, rfl⟩ := Prod.mk.inj (Option.some.inj hr)
          rename_i t _
          have := length_dropWhile_le (fun c => c == ' ' || c == '\t') t
          simp only [List.length_cons]
          omega
        · simp at hr
      · simp at hr
    · simp at h

end IssueMarkdown.Markup
