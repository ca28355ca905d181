import Mathlib
import IssueMarkdown.Proofs.Encoded
import IssueMarkdown.Proofs.Outcome
import IssueMarkdown.Proofs.Terminal

/-! # Markup from anywhere

Markup comes from a file, from the standard input, or from the answer of a site. Whatever it
comes from, the same text under the same settings is rendered and shown alike.
-/

namespace IssueMarkdown.CommandLine

open Web

variable {w : World} {args : List Text} {i : Invocation} {path : Option Text}
  {bytes : List UInt8} {m key : Text} {r : Rendering} {s : Settings} {response : Response}
  {tables : Tables}

/-! ## Markup from a file or the standard input -/

/-- The bytes of a file, or of the standard input if no path is given. -/
def World.bytes? (w : World) : Option Text → Option (List UInt8)
  | none => some w.input
  | some path => w.file? path

def sourceOf : Option Text → Source
  | none => .input
  | some path => .file path

theorem readMarkup_eq (w : World) (path : Option Text) : readMarkup w path =
    ((w.bytes? path).bind Text.ofUtf8?).elim (.error (.unreadable (sourceOf path))) .ok := by
  cases path <;> rfl

/-- The arguments are accepted, and ask to convert what these bytes write. -/
structure Converts (w : World) (args : List Text) (i : Invocation) (path : Option Text)
    (bytes : List UInt8) : Prop where
  accepted : parse w.environment args = .ok i
  command : i.command = .convert path
  bytes : w.bytes? path = some bytes

/-- The banner of a run that converts, if it is verbose. -/
def Invocation.convertBanner (i : Invocation) : Text :=
  if i.verbose then "Running convert...\n".toList else []

namespace Converts

theorem run_eq (h : Converts w args i path bytes) :
    run w args = (runConvert w i.rendering path).after i.convertBanner := by
  rw [run_of_parse_ok h.accepted, h.command]
  rfl

theorem run_of_utf8 (h : Converts w args i path (Text.utf8 m)) : run w args =
    { stdout := i.convertBanner ++ Terminal.shown [i.rendering.render (some m)] } := by
  have hm : readMarkup w path = .ok m := by
    rw [readMarkup_eq, h.bytes, Option.bind_some, Text.ofUtf8?_utf8]
    rfl
  rw [h.run_eq, runConvert, hm]
  rfl

theorem run_of_forall_ne (h : Converts w args i path bytes) (hb : ∀ t, Text.utf8 t ≠ bytes) :
    run w args = { stdout := i.convertBanner,
                   trouble := some (.failure (.unreadable (sourceOf path))) } := by
  have hm : readMarkup w path = .error (.unreadable (sourceOf path)) := by
    rw [readMarkup_eq, h.bytes, Option.bind_some, Text.ofUtf8?_eq_none_iff.mpr hb]
    rfl
  rw [h.run_eq, runConvert, hm]
  show Outcome.mk (i.convertBanner ++ []) _ _ _ = _
  rw [List.append_nil]
  rfl

end Converts

/-! ## Markup from the site -/

/-- A successful response with an issue whose description is a string that decodes to the text. -/
structure Describes (response : Response) (m : Text) : Prop where
  success : response.isSuccess
  accepted : (Issue.parseBytes response.content).isOk
  description : ∃ t ps, Json.scanBytes response.content = (t, true) ∧ DescribedBy t ps ∧
    Json.decodePieces? ps = some m

theorem Describes.judgeIssue (h : Describes response m) (tables : Tables) (s : Settings)
    (r : Rendering) (key : Text) :
    ∃ record, judgeIssue tables s r key response = .ok (some record) ∧
      record.description = r.render (some m) := by
  obtain ⟨hs, ha, t, ps, ht, hd, hm⟩ := h
  obtain ⟨issue, hi⟩ := exists_eq_ok_of_isOk ha
  obtain ⟨t', ht', hread⟩ := Json.Schema.readScanned_eq_ok_iff.mp hi
  obtain ⟨rfl, -⟩ := Prod.mk.inj (ht.symm.trans ht')
  refine ⟨issue.toRecord s.baseUrl r, judgeIssue_of_parse hs hi tables s r key, ?_⟩
  rw [Issue.toRecord, markup?_of_describedBy hd hm hread]

theorem Describes.fetchIssue (h : Describes response m) (hq : Requestable tables s key)
    (r : Rendering) :
    ∃ record, (fetchIssue s r key (.answered response) tables).result = .ok (some record) ∧
      record.description = r.render (some m) := by
  obtain ⟨q, hq⟩ := exists_eq_ok_of_isOk hq
  obtain ⟨record, hr, hd⟩ := h.judgeIssue tables s r key
  refine ⟨record, ?_, hd⟩
  rw [IssueMarkdown.fetchIssue, Exchange.ask, hq]
  exact hr

/-- The arguments are accepted, and ask to show the description alone of an issue that the site
answers with. -/
structure Shows (w : World) (args : List Text) (i : Invocation) (m : Text) : Prop where
  accepted : parse w.environment args = .ok i
  command : ∃ key fail s, i.command = .get key .description fail ∧
    Settings.ofEnvironment w.environment = .ok s ∧ Requestable w.tables s key
  answer : ∃ response, w.delivery = .answered response ∧ Describes response m

theorem Shows.run_eq (h : Shows w args i m) : (run w args).trouble = none ∧
    (run w args).stdout = (if i.verbose then "Running issue command...\n".toList else []) ++
      Terminal.shown [i.rendering.render (some m), ['\n']] := by
  obtain ⟨accepted, ⟨key, fail, s, hc, hs, hq⟩, response, hr, hd⟩ := h
  -- the flag for missing issues has no part in the address
  have hq' : Requestable w.tables (s.override fail) key := hq
  obtain ⟨record, hf, hrecord⟩ := hd.fetchIssue hq' i.rendering
  rw [← hr] at hf
  rw [run_of_parse_ok accepted, hc, Command.run, runGet_of_result hs hf, ← hrecord]
  exact ⟨rfl, rfl⟩

/-- The same text under the same settings gives the same output, whether it is read from a file
or the standard input, and the same description, whether it is converted or comes in an issue,
however it is escaped there; the document that it comes in is read from the bytes of its text as
from the text. Bytes that are no text are converted to nothing, wherever they are read. -/
theorem convert_agrees_with_get :
    (∀ m w w' args args' i i' path path', Converts w args i path (Text.utf8 m) →
      Converts w' args' i' path' (Text.utf8 m) → i.rendering = i'.rendering →
      i.verbose = i'.verbose → run w args = run w' args' ∧ (run w args).trouble = none) ∧
    (∀ m tables s r key response, Requestable tables s key → Describes response m → ∃ record,
      (fetchIssue s r key (.answered response) tables).result = .ok (some record) ∧
      record.description = r.render (some m)) ∧
    (∀ spelling m, Json.Spells spelling m → ∀ rest, ∃ ps,
      Json.scanString? (spelling ++ '"' :: rest) = some (ps, rest) ∧
      Json.decodePieces? ps = some m) ∧
    (∀ document t, Json.scanDocument document = (t, true) →
      Json.scanBytes (Text.utf8 document) = (t, true)) ∧
    (∀ m w w' args args' i i' path, Converts w args i path (Text.utf8 m) →
      Shows w' args' i' m → i.rendering = i'.rendering → i.verbose = false → i'.verbose = false →
      '\x1b' ∉ i.rendering.render (some m) →
      (run w' args').stdout = (run w args).stdout ++ ['\n'] ∧ (run w' args').trouble = none) ∧
    (∀ bytes, (∀ t, Text.utf8 t ≠ bytes) → ∀ w args i path, Converts w args i path bytes →
      run w args = { stdout := i.convertBanner,
                     trouble := some (.failure (.unreadable (sourceOf path))) }) := by
  refine ⟨?_, ?_, ?_, ?_, ?_, ?_⟩
  · intro m w w' args args' i i' path path' h h' hr hv
    rw [h.run_of_utf8, h'.run_of_utf8, Invocation.convertBanner, Invocation.convertBanner, hr, hv]
    exact ⟨rfl, rfl⟩
  · exact fun m tables s r key response hq hd => hd.fetchIssue hq r
  · exact fun spelling m h rest => h.exists_pieces rest
  · exact fun document t ht => Json.scanBytes_utf8_eq_iff.mpr (Json.scanDocument_eq_iff.mp ht)
  · intro m w w' args args' i i' path h h' hr hv hv' hesc
    obtain ⟨ht, hs⟩ := h'.run_eq
    refine ⟨?_, ht⟩
    rw [hs, h.run_of_utf8, Invocation.convertBanner, hv, hv', ← hr, Terminal.shown_lineFeed hesc]
    rfl
  · exact fun bytes hb w args i path h => h.run_of_forall_ne hb

/-- The body of an issue whose description has two of its four characters escaped. -/
def World.sampleBody : Text :=
  "\x7b\"key\":\"K\",\"fields\":\x7b\"description\":\"# \\u0041\\/\"\x7d\x7d".toList

/-- A site with that issue, the same markup in a file, and no text on the standard input. -/
def World.sample : World where
  environment
    | .baseUrl => some "http://a".toList
    | .email => some ['b']
    | .apiToken => some ['c']
    | .characterLimit => some ['9']
    | _ => none
  input := [0xff]
  file? path := if path = ['f'] then some (Text.utf8 "# A/".toList) else none
  delivery := .answered ⟨200, none, Text.utf8 sampleBody⟩

theorem parse_sampleBody : (Issue.parse World.sampleBody).isOk := by cbv

theorem scanDocument_sampleBody : Json.scanDocument World.sampleBody =
    (.object [("key".toList.map .char, .string ("K".toList.map .char)),
      ("fields".toList.map .char, .object [("description".toList.map .char,
        .string [.char '#', .char ' ', .unit 0x41, .char '/'])] true)] true, true) := by cbv

theorem describes_sample : Describes ⟨200, none, Text.utf8 World.sampleBody⟩ "# A/".toList where
  success := rfl
  accepted := by
    obtain ⟨issue, parsed⟩ := exists_eq_ok_of_isOk parse_sampleBody
    have read : Issue.parseBytes (Text.utf8 World.sampleBody) = .ok issue :=
      Json.Schema.readBytes_utf8_eq_ok_iff.mpr parsed
    show (Issue.parseBytes (Text.utf8 World.sampleBody)).isOk
    rw [read]
    rfl
  description := by
    refine ⟨_, [.char '#', .char ' ', .unit 0x41, .char '/'], Json.scanBytes_utf8_eq_iff.mpr
      (Json.scanDocument_eq_iff.mp scanDocument_sampleBody), ?_, by decide⟩
    exact ⟨_, .member (List.mem_cons_of_mem _ List.mem_cons_self) rfl,
      .member List.mem_cons_self rfl⟩

theorem shows_sample :
    Shows .sample ["issue".toList, "get".toList, ['K'], "--description-only".toList]
      ⟨.get ['K'] .description false, ⟨some (.environment, ['9']), none, none⟩⟩
      "# A/".toList where
  accepted := rfl
  command := ⟨['K'], false, World.sampleSettings, rfl, rfl, requestable_sample⟩
  answer := ⟨_, rfl, describes_sample⟩

/-- The markup of the sample, from a file, from the standard input and from the site. -/
theorem convert_agrees_with_get_sample :
    run .sample ["convert".toList, ['f']] =
      run { World.sample with input := Text.utf8 "# A/".toList } ["convert".toList] ∧
    (∃ record, (fetchIssue World.sampleSettings {} ['K'] World.sample.delivery).result =
        .ok (some record) ∧ record.description = "1. A/".toList) ∧
    (∃ ps, Json.scanString? "# \\u0041\\/\",".toList = some (ps, [',']) ∧
      Json.decodePieces? ps = some "# A/".toList) ∧
    (Json.scanBytes (Text.utf8 World.sampleBody)).2 = true ∧
    (run .sample ["issue".toList, "get".toList, ['K'], "--description-only".toList]).stdout =
      (run .sample ["convert".toList, ['f']]).stdout ++ ['\n'] ∧
    (run .sample ["convert".toList]).trouble = some (.failure (.unreadable .input)) := by
  have file : Converts .sample ["convert".toList, ['f']]
      ⟨.convert (some ['f']), ⟨some (.environment, ['9']), none, none⟩⟩ (some ['f'])
      (Text.utf8 "# A/".toList) := ⟨rfl, rfl, rfl⟩
  have input : Converts { World.sample with input := Text.utf8 "# A/".toList }
      ["convert".toList] ⟨.convert none, ⟨some (.environment, ['9']), none, none⟩⟩ none
      (Text.utf8 "# A/".toList) := ⟨rfl, rfl, rfl⟩
  have broken : Converts .sample ["convert".toList]
      ⟨.convert none, ⟨some (.environment, ['9']), none, none⟩⟩ none [0xff] := ⟨rfl, rfl, rfl⟩
  have noText : ∀ t, Text.utf8 t ≠ [0xff] := Text.ofUtf8?_eq_none_iff.mp (by decide +kernel)
  have rendered : ({} : Rendering).render (some "# A/".toList) = "1. A/".toList := by cbv
  have limited : (Rendering.ofSettings (some ['9']) none).render (some "# A/".toList) =
      "1. A/".toList := by cbv
  have noEscape : '\x1b' ∉ (Rendering.ofSettings (some ['9']) none).render
      (some "# A/".toList) := by
    rw [limited]
    decide
  have spelled : Json.Spells "# \\u0041\\/".toList "# A/".toList :=
    .char (by decide) (by decide) (.char (by decide) (by decide)
      (.number (n := 0x41) rfl (.inl (by decide)) (.letter rfl .nil)))
  obtain ⟨sources, fetched, spellings, sent, shown, unreadable⟩ := convert_agrees_with_get
  refine ⟨(sources _ _ _ _ _ _ _ _ _ file input rfl rfl).1, ?_, spellings _ _ spelled [','],
    congrArg Prod.snd (sent _ _ scanDocument_sampleBody),
    (shown _ _ _ _ _ _ _ _ file shows_sample rfl rfl rfl noEscape).1, ?_⟩
  · obtain ⟨record, hr, hd⟩ := fetched _ _ _ {} _ _ requestable_sample describes_sample
    exact ⟨record, hr, hd.trans rendered⟩
  · rw [unreadable _ noText _ _ _ _ broken]
    rfl

end IssueMarkdown.CommandLine
