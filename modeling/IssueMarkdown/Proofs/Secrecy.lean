import IssueMarkdown.Proofs.Outcome

/-! # Where credentials go

Two runs that differ in their credentials differ in the authorization of their request and in
nothing else. A run that converts markup does not look at any setting of a connection.
-/

namespace IssueMarkdown

open Web

/-! ## Requests without their authorization -/

namespace Web.Request

/-- The request without the value that its credentials are in. -/
def redacted (q : Request) : Request := { q with authorization := [] }

@[simp] theorem url_redacted (q : Request) : q.redacted.url = q.url := rfl

/-- Whether there is a request, and where it goes, is up to the address. -/
theorem get?_cases (tables : Tables) (c c' : Credentials) (address : Text) :
    (∃ f, get? tables c address = .error f ∧ get? tables c' address = .error f) ∨
    ∃ q q', get? tables c address = .ok q ∧ get? tables c' address = .ok q' ∧
      q.redacted = q'.redacted := by
  unfold get?
  cases Url.parse? tables.toAscii? address with
  | none => exact .inl ⟨_, rfl, rfl⟩
  | some u =>
    dsimp only
    split
    · exact .inr ⟨_, _, rfl, rfl, rfl⟩
    · exact .inl ⟨_, rfl, rfl⟩

end Web.Request

namespace Exchange

variable {α : Type}

def redacted (e : Exchange α) : Exchange α := { e with request := e.request.map .redacted }

theorem redacted_eq_iff {e e' : Exchange α} : e.redacted = e'.redacted ↔
    e.request.map Request.redacted = e'.request.map Request.redacted ∧ e.result = e'.result := by
  simp [redacted]

theorem redacted_ask (tables : Tables) (c c' : Credentials) (address : Text) (d : Delivery)
    (judge : Response → Except Failure α) :
    (ask tables c address d judge).redacted = (ask tables c' address d judge).redacted := by
  unfold ask
  rcases Request.get?_cases tables c c' address with ⟨f, hf, hf'⟩ | ⟨q, q', hq, hq', hr⟩
  · rw [hf, hf']
  · have hu : q.url = q'.url := by simpa using congrArg Request.url hr
    rw [hq, hq']
    -- a failure to deliver tells the address of the request
    cases d <;> simp [redacted, hr, hu]

theorem redacted_fetchIssue (s : Settings) (c : Credentials) (r : Rendering) (key : Text)
    (d : Delivery) (tables : Tables) :
    (fetchIssue { s with credentials := c } r key d tables).redacted =
      (fetchIssue s r key d tables).redacted :=
  redacted_ask _ _ _ _ _ _

theorem redacted_fetchDisplayName (s : Settings) (c : Credentials) (d : Delivery)
    (tables : Tables) : (fetchDisplayName { s with credentials := c } d tables).redacted =
      (fetchDisplayName s d tables).redacted :=
  redacted_ask _ _ _ _ _ _

end Exchange

namespace Variable

def credentials : List Variable := [email, apiToken]

/-- What a connection is set up from. -/
def connection : List Variable := [baseUrl, orgName, email, apiToken, failWhenNotFound]

theorem credentials_subset : credentials ⊆ connection := by decide

end Variable

namespace CommandLine

variable {env env' : Environment} {w w' : World} {args : List Text} {vs us : List Variable}

/-! ## Arguments do not depend on a connection -/

section Arguments

variable (h : ∀ v ∉ Variable.connection, env v = env' v)

include h

theorem Globals.ofGiven_congr (g : Given) : ofGiven env g = ofGiven env' g := by
  simp only [ofGiven, verboseOf, h .characterLimit (by decide), h .missingDescription (by decide),
    h .verbose (by decide)]

theorem Level.command_congr (l : Level) (g : Given) (s : Globals) :
    l.command env g s = l.command env' g s := by
  cases l with
  | get => simp only [command, h .issueKey (by decide)]
  | root | issue | convert | ping => rfl

theorem Progress.finish_congr (p : Progress) (l : Level) : p.finish l env = p.finish l env' := by
  simp only [finish, Globals.ofGiven_congr h]

theorem parseFrom_congr (l : Level) (p : Progress) (ts : List Text) :
    parseFrom env l p ts = parseFrom env' l p ts := by
  induction ts generalizing l p with
  | nil => simp only [parseFrom, Progress.finish_congr h, Level.command_congr h]
  | cons t ts ih => simp only [parseFrom, Progress.finish_congr h, ih]

theorem parse_congr (ts : List Text) : parse env ts = parse env' ts :=
  parseFrom_congr h .root {} ts

end Arguments

/-! ## Settings that differ in their credentials -/

/-- Both credentials are given. -/
def Credentialed (env : Environment) : Prop := ¬ Blank env .email ∧ ¬ Blank env .apiToken

theorem ofEnvironment_cases (h : ∀ v ∉ Variable.credentials, env v = env' v)
    (hc : Credentialed env) (hc' : Credentialed env') :
    (∃ f, Settings.ofEnvironment env = .error f ∧ Settings.ofEnvironment env' = .error f) ∨
    ∃ s c, Settings.ofEnvironment env = .ok s ∧
      Settings.ofEnvironment env' = .ok { s with credentials := c } := by
  obtain ⟨email, he⟩ := exists_require_of_not_blank hc.1
  obtain ⟨token, ht⟩ := exists_require_of_not_blank hc.2
  obtain ⟨email', he'⟩ := exists_require_of_not_blank hc'.1
  obtain ⟨token', ht'⟩ := exists_require_of_not_blank hc'.2
  unfold Settings.ofEnvironment
  rw [h .baseUrl (by decide), h .orgName (by decide), h .failWhenNotFound (by decide), he, ht, he',
    ht']
  cases resolveBaseUrl? (env' .baseUrl) (env' .orgName) with
  | none => exact .inl ⟨_, rfl, rfl⟩
  | some base => exact .inr ⟨_, ⟨email', token'⟩, rfl, rfl⟩

/-! ## Runs -/

/-- The worlds differ in nothing but these variables. -/
structure World.AgreeBut (vs : List Variable) (w w' : World) : Prop where
  environment : ∀ v ∉ vs, w.environment v = w'.environment v
  input : w.input = w'.input
  file? : w.file? = w'.file?
  delivery : w.delivery = w'.delivery
  tables : w.tables = w'.tables

theorem World.AgreeBut.mono (h : w.AgreeBut vs w') (hs : vs ⊆ us) : w.AgreeBut us w' :=
  { h with environment := fun v hv => h.environment v fun hm => hv (hs hm) }

def Outcome.redacted (o : Outcome) : Outcome := { o with request := o.request.map .redacted }

theorem redacted_after (banner : Text) (o : Outcome) :
    (o.after banner).redacted = o.redacted.after banner := rfl

theorem runConvert_congr (h : w.AgreeBut vs w') (r : Rendering) (path : Option Text) :
    runConvert w r path = runConvert w' r path := by
  have hm : readMarkup w path = readMarkup w' path := by
    cases path with
    | none => rw [readMarkup, readMarkup, h.input]
    | some path => rw [readMarkup, readMarkup, h.file?]
  rw [runConvert, runConvert, hm]

section Credentials

variable (h : w.AgreeBut Variable.credentials w') (hc : Credentialed w.environment)
  (hc' : Credentialed w'.environment)

include h hc hc'

theorem redacted_runGet (r : Rendering) (key : Text) (shape : Shape) (fail : Bool) :
    (runGet w r key shape fail).redacted = (runGet w' r key shape fail).redacted := by
  unfold runGet
  rcases ofEnvironment_cases h.environment hc hc' with ⟨f, hf, hf'⟩ | ⟨s, c, hs, hs'⟩
  · rw [hf, hf']
  · obtain ⟨hq, hr⟩ := Exchange.redacted_eq_iff.mp
      (Exchange.redacted_fetchIssue (s.override fail) c r key w'.delivery w'.tables)
    rw [hs, hs', h.delivery, h.tables]
    -- the flag for missing issues is apart from the credentials
    dsimp only [Settings.override] at hq hr ⊢
    rw [hr]
    split <;> simp only [Outcome.redacted, hq]

theorem redacted_runPing : (runPing w).redacted = (runPing w').redacted := by
  unfold runPing
  rcases ofEnvironment_cases h.environment hc hc' with ⟨f, hf, hf'⟩ | ⟨s, c, hs, hs'⟩
  · rw [hf, hf']
  · obtain ⟨hq, hr⟩ := Exchange.redacted_eq_iff.mp
      (Exchange.redacted_fetchDisplayName s c w'.delivery w'.tables)
    rw [hs, hs', h.delivery, h.tables]
    dsimp only
    rw [hr]
    split <;> simp only [Outcome.redacted, hq]

theorem Command.redacted_run (r : Rendering) (c : Command) :
    (c.run w r).redacted = (c.run w' r).redacted := by
  cases c with
  | get key shape fail => exact redacted_runGet h hc hc' r key shape fail
  | convert path => exact congrArg _ (runConvert_congr h r path)
  | ping => exact redacted_runPing h hc hc'

theorem redacted_run (args : List Text) : (run w args).redacted = (run w' args).redacted := by
  have hp := parse_congr (h.mono Variable.credentials_subset).environment args
  cases ha : parse w.environment args with
  | error e => rw [run_of_parse_error ha, run_of_parse_error (hp.symm.trans ha)]
  | ok i =>
    rw [run_of_parse_ok ha, run_of_parse_ok (hp.symm.trans ha), redacted_after, redacted_after,
      i.command.redacted_run h hc hc']

end Credentials

/-! ## Runs that convert -/

/-- The arguments ask to convert markup, unless they are rejected. -/
def ConvertsOnly (env : Environment) (args : List Text) : Prop :=
  ∀ i, parse env args = .ok i → ∃ path, i.command = .convert path

theorem run_congr_of_convertsOnly (h : w.AgreeBut Variable.connection w')
    (ho : ConvertsOnly w.environment args) : run w args = run w' args := by
  have hp := parse_congr h.environment args
  cases ha : parse w.environment args with
  | error e => rw [run_of_parse_error ha, run_of_parse_error (hp.symm.trans ha)]
  | ok i =>
    obtain ⟨path, hi⟩ := ho i ha
    rw [run_of_parse_ok ha, run_of_parse_ok (hp.symm.trans ha), hi, Command.run, Command.run,
      runConvert_congr h]

theorem request_run_of_convertsOnly (ho : ConvertsOnly w.environment args) :
    (run w args).request = none := by
  cases ha : parse w.environment args with
  | error e => rw [run_of_parse_error ha]
  | ok i =>
    obtain ⟨path, hi⟩ := ho i ha
    rw [run_of_parse_ok ha, hi]
    exact request_runConvert w i.rendering path

/-! ## Two runs -/

/-- Other credentials give another authorization and leave everything else of a run as it is: what
it prints, how it fails, and where it sends its request. A run that converts markup sends none, and
is the same whatever a connection is set up from. -/
theorem run_hides_credentials :
    (∀ w w' args, World.AgreeBut Variable.credentials w w' → Credentialed w.environment →
      Credentialed w'.environment → (run w args).redacted = (run w' args).redacted) ∧
    (∀ w w' args, World.AgreeBut Variable.connection w w' → ConvertsOnly w.environment args →
      run w args = run w' args ∧ (run w args).request = none) :=
  ⟨fun _ _ args h hc hc' => redacted_run h hc hc' args,
    fun _ _ _ h ho => ⟨run_congr_of_convertsOnly h ho, request_run_of_convertsOnly ho⟩⟩

/-- A site that closes every connection, and the credentials it is asked with. -/
def World.closing (email token : Text) : World where
  environment
    | .baseUrl => some "http://a".toList
    | .email => some email
    | .apiToken => some token
    | _ => none
  input := Text.utf8 ['b']
  file? _ := none
  delivery := .dropped

/-- Two requests differ in their authorization, and nothing is needed to convert markup. -/
theorem run_hides_credentials_closing :
    (run (.closing ['x'] ['y']) ["ping".toList]).request ≠
      (run (.closing ['u'] ['v']) ["ping".toList]).request ∧
    (run (.closing ['x'] ['y']) ["ping".toList]).redacted =
      (run (.closing ['u'] ['v']) ["ping".toList]).redacted ∧
    run (.closing ['x'] ['y']) ["convert".toList] =
      run ⟨fun _ => none, Text.utf8 ['b'], fun _ => none, .dropped, .ascii⟩ ["convert".toList] := by
  obtain ⟨hidden, unused⟩ := run_hides_credentials
  have agree : World.AgreeBut Variable.credentials (.closing ['x'] ['y'])
      (.closing ['u'] ['v']) := by
    refine ⟨fun v hv => ?_, rfl, rfl, rfl, rfl⟩
    cases v with
    | email | apiToken => exact absurd (by decide) hv
    | _ => rfl
  have agree' : World.AgreeBut Variable.connection (.closing ['x'] ['y'])
      ⟨fun _ => none, Text.utf8 ['b'], fun _ => none, .dropped, .ascii⟩ := by
    refine ⟨fun v hv => ?_, rfl, rfl, rfl, rfl⟩
    cases v with
    | baseUrl | email | apiToken => exact absurd (by decide) hv
    | _ => rfl
  have accepted : parse (World.closing ['x'] ['y']).environment ["convert".toList] =
      .ok ⟨.convert none, ⟨none, none, none⟩⟩ := rfl
  refine ⟨by decide +kernel, hidden _ _ _ agree ?_ ?_, (unused _ _ _ agree' ?_).1⟩
  · exact ⟨fun h => absurd (h _ rfl) (by decide), fun h => absurd (h _ rfl) (by decide)⟩
  · exact ⟨fun h => absurd (h _ rfl) (by decide), fun h => absurd (h _ rfl) (by decide)⟩
  · intro i hi
    obtain rfl := Except.ok.inj (accepted.symm.trans hi)
    exact ⟨none, rfl⟩

end CommandLine

end IssueMarkdown
