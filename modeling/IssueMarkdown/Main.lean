import IssueMarkdown.CommandLine.Run

/-! # The program

Gathers what a run depends on and prints what it comes to. Nothing is sent from here, so every
request ends as a refused connection, and no tables are at hand for names outside of ASCII. The
texts of usage, help and version are left out: a word tells which of them is due.
-/

namespace IssueMarkdown.CommandLine

def readEnvironment : IO Environment := do
  let values ← Variable.all.mapM fun v => return (v, ← IO.getEnv (String.ofList v.name))
  return fun v => (values.lookup v).join.map String.toList

/-- The bytes of a file; none if it cannot be read. -/
def readBytes? (path : Text) : IO (Option (List UInt8)) := do
  try
    return some (← IO.FS.readBinFile (String.ofList path)).toList
  catch _ =>
    return none

/-- Only what the command reads is read. -/
def gatherWorld (environment : Environment) (c : Command) : IO World := do
  let input ← if c.readsInput then (← IO.getStdin).readBinToEnd else pure .empty
  let file ← match c.path? with
    | some path => readBytes? path
    | none => pure none
  return { environment, input := input.toList, file? := fun _ => file, delivery := .refused }

/-- Tells why a run ended without success, and with which code. What was asked for instead of a run
goes to the standard output. -/
def Trouble.report : Trouble → IO UInt32
  | .usage e => do
    let message := String.ofList e.message
    if e.exitCode == 0 then IO.println message else IO.eprintln message
    return e.exitCode
  | .failure f => do
    IO.eprintln s!"Error: {String.ofList f.message}"
    return 1

def runProgram (args : List Text) : IO UInt32 := do
  let environment ← readEnvironment
  match parse environment args with
  | .error e => Trouble.report (.usage e)
  | .ok i =>
    let outcome := i.run (← gatherWorld environment i.command)
    IO.print (String.ofList outcome.stdout)
    IO.eprint (String.ofList outcome.stderr)
    match outcome.trouble with
    | none => return 0
    | some t => Trouble.report t

end IssueMarkdown.CommandLine

def main (args : List String) : IO UInt32 :=
  IssueMarkdown.CommandLine.runProgram (args.map String.toList)
