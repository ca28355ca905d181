import Mathlib
import IssueMarkdown.Proofs.Encoded
import IssueMarkdown.Proofs.Outcome
import IssueMarkdown.Proofs.PrintedRecord

/-! # The record that is printed

What is printed for an issue as JSON is read back as its record, whatever its texts are: a text
is escaped so that nothing of it is taken for a control sequence, and a text that is absent is
told apart from an empty one.
-/

namespace IssueMarkdown

open Json

namespace Record

variable {r : Record}

/-- The texts of a record. -/
def texts (r : Record) : List Text :=
  [r.key, r.summary, r.description] ++ r.issueType.toList ++ r.issueTypeIcon.toList ++ [r.url]

theorem placed_schema : schema.Placed
    [⟨"key".toList, (·.key), fun a st => { st with key := some a }, Tree.readText⟩,
      ⟨"summary".toList, (·.summary), fun a st => { st with summary := some a }, Tree.readText⟩,
      ⟨"description".toList, (·.description), fun a st => { st with description := some a },
        Tree.readText⟩,
      ⟨"issuetype".toList, (·.issueType), fun a st => { st with issueType := some a },
        Tree.readOptional Tree.readText⟩,
      ⟨"issuetypeicon".toList, (·.issueTypeIcon), fun a st => { st with issueTypeIcon := some a },
        Tree.readOptional Tree.readText⟩,
      ⟨"url".toList, (·.url), fun a st => { st with url := some a }, Tree.readText⟩] where
  nodup := by decide
  fills := by
    refine .cons ?_ (.cons ?_ (.cons ?_ (.cons ?_ (.cons ?_ (.cons ?_ .nil)))))
    all_goals exact ⟨rfl, fun _ => rfl, fun _ _ => rfl, fun _ _ => rfl⟩
  apart := by
    have mem {p : Place Slots} {ps : List (Place Slots)} (h : ps.Forall p.Apart) :
        ∀ q ∈ ps, p.Apart q := List.forall_iff_forall_mem.mp h
    refine .cons (mem ⟨?_, ?_, ?_, ?_, ?_⟩) (.cons (mem ⟨?_, ?_, ?_, ?_⟩) (.cons (mem ⟨?_, ?_, ?_⟩)
      (.cons (mem ⟨?_, ?_⟩) (List.pairwise_pair.mpr ?_))))
    all_goals exact ⟨fun _ _ => rfl, fun _ _ => rfl, fun _ _ _ => rfl⟩
  blank := ⟨rfl, rfl, rfl, rfl, rfl, rfl⟩

theorem exists_writtenAs (r : Record) : ∃ t, r.toValue.WrittenAs t ∧ Record.read t = .ok r := by
  obtain ⟨t, written, read⟩ := placed_schema.exists_writtenAs
    (.cons (exists_writtenAs_text r.key) (.cons (exists_writtenAs_text r.summary)
      (.cons (exists_writtenAs_text r.description) (.cons (exists_writtenAs_textOrNull r.issueType)
        (.cons (exists_writtenAs_textOrNull r.issueTypeIcon)
          (.cons (exists_writtenAs_text r.url) .nil))))))
  exact ⟨t, written, bind_eq_ok_iff.mpr ⟨_, read, rfl⟩⟩

theorem parse_pretty (r : Record) (level : ℕ) {u : Text} (hu : IsSpaces u) :
    Record.parse (r.toValue.pretty level ++ u) = .ok r := by
  obtain ⟨t, written, read⟩ := r.exists_writtenAs
  have document : WritesDocument t (r.toValue.pretty level ++ u) :=
    ⟨[], _, u, isSpaces_nil, written.2 level, hu, rfl⟩
  exact Schema.readDocument_eq_ok_iff.mpr ⟨t, document, read⟩

theorem isShown_textOrNull {o : Option Text} (h : ∀ t ∈ o, '\x7f' ∉ t) :
    (textOrNull o).IsShown := by
  cases o with
  | none => exact Value.isShown_null
  | some t => exact Value.isShown_string (h t rfl)

theorem isShown_toValue (h : ∀ t ∈ r.texts, '\x7f' ∉ t) : r.toValue.IsShown := by
  simp only [texts, List.forall_mem_append, List.forall_mem_cons, Option.mem_toList] at h
  obtain ⟨⟨⟨⟨key, summary, description, -⟩, type⟩, icon⟩, url, -⟩ := h
  refine Value.isShown_object ?_
  simp only [List.forall_mem_cons]
  exact ⟨⟨by decide, Value.isShown_string key⟩, ⟨by decide, Value.isShown_string summary⟩,
    ⟨by decide, Value.isShown_string description⟩, ⟨by decide, isShown_textOrNull type⟩,
    ⟨by decide, isShown_textOrNull icon⟩, ⟨by decide, Value.isShown_string url⟩, by simp⟩

end Record

namespace CommandLine

open Terminal Web

variable {w : World} {args : List Text} {i : Invocation} {key : Text} {fail : Bool} {r : Record}

theorem jsonView_eq (h : ∀ t ∈ r.texts, '\x7f' ∉ t) :
    jsonView r = r.toValue.pretty 0 ++ ['\n'] := by
  have hs : ∀ p ∈ [r.toValue.pretty 0, ['\n']], ∀ c ∈ p, isShown c := by
    simp only [List.forall_mem_cons]
    exact ⟨Record.isShown_toValue h 0, by decide, by simp⟩
  rw [jsonView, shown_eq_flatten hs]
  simp

/-- A run that succeeds and shows an issue as JSON prints a text that is read back as the record of
the issue, unless one of its texts holds U+007F. -/
theorem parse_stdout_of_json (accepted : parse w.environment args = .ok i)
    (command : i.command = .get key .json fail) (quiet : i.verbose = false)
    (success : (run w args).trouble = none) :
    ∃ s answer, Settings.ofEnvironment w.environment = .ok s ∧
      (fetchIssue (s.override fail) i.rendering key w.delivery w.tables).result = .ok answer ∧
      ∀ record, answer = some record → (∀ t ∈ record.texts, '\x7f' ∉ t) →
        Record.parse (run w args).stdout = .ok record := by
  obtain ⟨s, answer, hs, hf, ho⟩ := exists_answer_of_run accepted command success
  refine ⟨s, answer, hs, hf, ?_⟩
  rintro record rfl hd
  rw [ho, quiet]
  show Record.parse (jsonView record) = _
  rw [jsonView_eq hd]
  exact record.parse_pretty 0 (List.forall_mem_singleton.mpr rfl)

/-- An issue whose summary holds a quote, a backslash, an escape and a line break, with an empty
type and no icon. -/
def World.scriptedBody : Text :=
  ("\x7b\"key\":\"K\",\"fields\":\x7b\"summary\":\"\\\"\\\\\\u001b[0m\\n\"," ++
    "\"issuetype\":\x7b\"name\":\"\"\x7d\x7d\x7d").toList

def World.scriptedRecord : Record :=
  ⟨['K'], "\"\\\x1b[0m\n".toList, "null".toList, some [], none, "http://a/browse/K".toList⟩

def World.scripted : World where
  environment
    | .baseUrl => some "http://a".toList
    | .email => some ['b']
    | .apiToken => some ['c']
    | _ => none
  input := []
  file? _ := none
  delivery := .answered ⟨200, none, Text.utf8 scriptedBody⟩

theorem fetchIssue_scripted :
    (fetchIssue World.sampleSettings (.ofSettings none none) ['K'] World.scripted.delivery).result =
      .ok (some World.scriptedRecord) := by
  have success : Response.isSuccess ⟨200, none, Text.utf8 World.scriptedBody⟩ := rfl
  have parsed : Issue.parse World.scriptedBody =
      .ok ⟨['K'], "\"\\\x1b[0m\n".toList, none, some ⟨some [], none⟩⟩ := by cbv
  show fetched _ _ _ _ ⟨200, none, Text.utf8 World.scriptedBody⟩ = _
  rw [fetched_eq requestable_sample,
    judgeIssue_of_parse success (Schema.readBytes_utf8_eq_ok_iff.mpr parsed)]
  rfl

theorem parse_stdout_of_json_scripted :
    (run .scripted ["issue".toList, "get".toList, ['K'], "--json".toList]).trouble = none ∧
    Record.parse (run .scripted
      ["issue".toList, "get".toList, ['K'], "--json".toList]).stdout =
        .ok World.scriptedRecord := by
  have accepted : parse World.scripted.environment
      ["issue".toList, "get".toList, ['K'], "--json".toList] =
        .ok ⟨.get ['K'] .json false, ⟨none, none, none⟩⟩ := rfl
  have settings : Settings.ofEnvironment World.scripted.environment =
      .ok World.sampleSettings := rfl
  have success : (run .scripted
      ["issue".toList, "get".toList, ['K'], "--json".toList]).trouble = none := by
    have rendering : Invocation.rendering ⟨.get ['K'] .json false, ⟨none, none, none⟩⟩ =
      .ofSettings none none := rfl
    rw [run_of_parse_ok accepted, rendering, Command.run,
      runGet_of_result settings fetchIssue_scripted]
    rfl
  refine ⟨success, ?_⟩
  obtain ⟨s, answer, hs, hf, hread⟩ := parse_stdout_of_json accepted rfl rfl success
  obtain rfl := Except.ok.inj (settings.symm.trans hs)
  exact hread _ (Except.ok.inj (hf.symm.trans fetchIssue_scripted)) (by decide)

end CommandLine

end IssueMarkdown
