import IssueMarkdown.CommandLine.Run
import IssueMarkdown.Proofs.Decoding
import IssueMarkdown.Proofs.Reading

/-! # What comes of a run

A response is judged by its status first: a missing issue is an error only if the settings say
so, a successful response is decoded, and any other is reported. A run that fails has printed
nothing but its banner, and nothing is sent before all required settings are there.
-/

namespace IssueMarkdown.CommandLine

open Web

variable {env : Environment} {w : World} {args : List Text} {i : Invocation} {c : Command}
  {key : Text} {r : Rendering} {s : Settings} {response : Response} {v : Variable} {tables : Tables}

/-! ## Settings that are required -/

/-- Nothing but blanks is given for the variable. -/
def Blank (env : Environment) (v : Variable) : Prop := ∀ t ∈ env v, Text.trim t = []

theorem exists_require_of_not_blank (h : ¬ Blank env v) : ∃ t, Settings.require env v = .ok t := by
  simp only [Blank, Classical.not_forall] at h
  obtain ⟨t, ht, hn⟩ := h
  refine ⟨t, ?_⟩
  rw [Settings.require, ht]
  simp [hn]

theorem exists_eq_ok_of_isOk {ε α : Type} {x : Except ε α} (h : x.isOk) : ∃ a, x = .ok a := by
  cases x with
  | ok a => exact ⟨a, rfl⟩
  | error e => exact absurd h Bool.false_ne_true

/-- The settings and the key give an address that a request can be sent to. -/
def Requestable (tables : Tables) (s : Settings) (key : Text) : Prop :=
  (Request.get? tables s.credentials (apiUrl s.baseUrl (Percent.encode key))).isOk

/-- What comes of a question for an issue that was answered. -/
def fetched (tables : Tables) (s : Settings) (r : Rendering) (key : Text) (response : Response) :
    Except Failure (Option Record) :=
  (fetchIssue s r key (.answered response) tables).result

theorem fetched_eq (h : Requestable tables s key) (r : Rendering) (response : Response) :
    fetched tables s r key response = judgeIssue tables s r key response := by
  obtain ⟨q, hq⟩ := exists_eq_ok_of_isOk h
  rw [fetched, fetchIssue, Exchange.ask, hq]

theorem status_ne_of_isSuccess (h : response.isSuccess) : response.status ≠ 404 := by
  intro he
  simp [Response.isSuccess, he] at h

theorem judgeIssue_of_parse {issue : Issue} (hs : response.isSuccess)
    (hp : Issue.parseBytes response.content = .ok issue) (tables : Tables) (s : Settings)
    (r : Rendering) (key : Text) :
    judgeIssue tables s r key response = .ok (some (issue.toRecord s.baseUrl r)) := by
  rw [judgeIssue, if_neg (status_ne_of_isSuccess hs), hs, hp]
  rfl

theorem run_of_parse_error {e : UsageError} (h : parse w.environment args = .error e) :
    run w args = { trouble := some (.usage e) } := by
  rw [run, h]

theorem run_of_parse_ok (h : parse w.environment args = .ok i) : run w args =
    (i.command.run w i.rendering).after (if i.verbose then i.command.banner else []) := by
  rw [run, h]
  rfl

theorem request_runConvert (w : World) (r : Rendering) (path : Option Text) :
    (runConvert w r path).request = none := by
  unfold runConvert
  split <;> rfl

theorem runGet_of_result {shape : Shape} {fail : Bool} {record : Record}
    (hs : Settings.ofEnvironment w.environment = .ok s)
    (hf : (fetchIssue (s.override fail) r key w.delivery w.tables).result = .ok (some record)) :
    runGet w r key shape fail =
      { request := (fetchIssue (s.override fail) r key w.delivery w.tables).request,
        stdout := shape.view record } := by
  simp only [runGet, hs, hf]

theorem exists_answer_of_runGet {shape : Shape} {fail : Bool}
    (h : (runGet w r key shape fail).trouble = none) :
    ∃ s answer, Settings.ofEnvironment w.environment = .ok s ∧
      (fetchIssue (s.override fail) r key w.delivery w.tables).result = .ok answer ∧
      (runGet w r key shape fail).stdout = answer.elim [] shape.view := by
  revert h
  unfold runGet
  split
  · exact fun h => absurd h (Option.some_ne_none _)
  · rename_i s hs
    dsimp only
    split
    · exact fun h => absurd h (Option.some_ne_none _)
    · rename_i hf
      exact fun _ => ⟨s, none, hs, hf, rfl⟩
    · rename_i record hf
      exact fun _ => ⟨s, some record, hs, hf, rfl⟩

/-- A run that succeeds prints its banner and what was asked for of the answer. -/
theorem exists_answer_of_run {shape : Shape} {fail : Bool}
    (accepted : parse w.environment args = .ok i) (command : i.command = .get key shape fail)
    (success : (run w args).trouble = none) :
    ∃ s answer, Settings.ofEnvironment w.environment = .ok s ∧
      (fetchIssue (s.override fail) i.rendering key w.delivery w.tables).result = .ok answer ∧
      (run w args).stdout =
        (if i.verbose then i.command.banner else []) ++ answer.elim [] shape.view := by
  rw [run_of_parse_ok accepted, command] at success ⊢
  obtain ⟨s, answer, hs, hf, ho⟩ := exists_answer_of_runGet success
  exact ⟨s, answer, hs, hf, congrArg _ ho⟩

/-! ## Answers and failures -/

def World.sampleSettings : Settings := ⟨"http://a".toList, ⟨['b'], ['c']⟩, false⟩

theorem requestable_sample : Requestable .ascii World.sampleSettings ['K'] := by
  show Except.isOk _ = true
  decide +kernel

end IssueMarkdown.CommandLine
