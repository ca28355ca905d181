import IssueMarkdown.CommandLine.View
import IssueMarkdown.Fetch

/-! # Running a command

A run is a function of what the program is given. It prints nothing but a banner before it
fails, and failures themselves are not printed. Neither are the texts of help and version, which
are left out: a run that is asked for them ends with the word for it.
-/

namespace IssueMarkdown.CommandLine

/-- Everything a run depends on; a path without a file has no bytes. -/
structure World where
  environment : Environment
  input : List UInt8
  file? : Text → Option (List UInt8)
  delivery : Web.Delivery
  tables : Web.Tables := .ascii

/-- Why a run ends without success. -/
inductive Trouble where
  | usage (e : UsageError)
  | failure (f : Failure)
  deriving DecidableEq, Repr

structure Outcome where
  stdout : Text := []
  stderr : Text := []
  request : Option Web.Request := none
  trouble : Option Trouble := none
  deriving DecidableEq, Repr

namespace Outcome

def fail (f : Failure) : Outcome := { trouble := some (.failure f) }

/-- The outcome after something else was printed. -/
def after (banner : Text) (o : Outcome) : Outcome := { o with stdout := banner ++ o.stdout }

end Outcome

/-- Markup from a file, or from the standard input if no path is given. -/
def readMarkup (w : World) : Option Text → Except Failure Text
  | none => (Text.ofUtf8? w.input).elim (.error (.unreadable .input)) .ok
  | some path => ((w.file? path).bind Text.ofUtf8?).elim (.error (.unreadable (.file path))) .ok

def runConvert (w : World) (r : Rendering) (path : Option Text) : Outcome :=
  match readMarkup w path with
  | .error f => .fail f
  | .ok markup => { stdout := Terminal.shown [r.render (some markup)] }

def runGet (w : World) (r : Rendering) (key : Text) (shape : Shape) (failWhenNotFound : Bool) :
    Outcome :=
  match Settings.ofEnvironment w.environment with
  | .error f => .fail (.settings f)
  | .ok s =>
    let e := fetchIssue (s.override failWhenNotFound) r key w.delivery w.tables
    match e.result with
    | .error f => { request := e.request, trouble := some (.failure f) }
    | .ok none =>
      { request := e.request,
        stderr := Terminal.shown ["Jira issue ".toList, key, " not found\n".toList] }
    | .ok (some record) => { request := e.request, stdout := shape.view record }

def runPing (w : World) : Outcome :=
  match Settings.ofEnvironment w.environment with
  | .error f => .fail (.settings f)
  | .ok s =>
    let e := fetchDisplayName s w.delivery w.tables
    match e.result with
    | .error f => { request := e.request, trouble := some (.failure f) }
    | .ok name =>
      { request := e.request, stdout := Terminal.shown ["Jira user: ".toList, name, ['\n']] }

/-- What a verbose run prints before anything else. -/
def Command.banner : Command → Text
  | .get _ _ _ => "Running issue command...\n".toList
  | .convert _ => "Running convert...\n".toList
  | .ping => []

def Command.run (w : World) (r : Rendering) : Command → Outcome
  | .get key shape fail => runGet w r key shape fail
  | .convert path => runConvert w r path
  | .ping => runPing w

/-- Whether a command reads the standard input. -/
def Command.readsInput : Command → Bool
  | .convert none => true
  | _ => false

/-- The file that a command reads. -/
def Command.path? : Command → Option Text
  | .convert path => path
  | _ => none

def Invocation.run (w : World) (i : Invocation) : Outcome :=
  (i.command.run w i.rendering).after (if i.verbose then i.command.banner else [])

/-- Runs the program with the arguments after its name. Of arguments that are rejected, or that ask
for help or for the version, the kind is told alone. -/
def run (w : World) (args : List Text) : Outcome :=
  match parse w.environment args with
  | .error e => { trouble := some (.usage e) }
  | .ok i => i.run w

end IssueMarkdown.CommandLine
