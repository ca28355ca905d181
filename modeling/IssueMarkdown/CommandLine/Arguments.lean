import IssueMarkdown.Settings

/-! # Arguments

Commands are nested, and each level of the nesting has its own arguments. The settings of
rendering and `--verbose` may stand at every level: a value of the command line beats one of
the environment, and of two equals the one further inside counts.
-/

namespace IssueMarkdown.CommandLine

/-- Why arguments are rejected, or what they ask for instead of a run. -/
inductive UsageError where
  | unknownArgument | invalidValue | argumentConflict | missingRequiredArgument
  | invalidSubcommand | missingSubcommand | tooManyValues
  | displayHelp | displayVersion | displayHelpOnMissing
  deriving DecidableEq, Repr

namespace UsageError

/-- The word for a rejection, or for a text that is asked for. The texts are left out. -/
def message : UsageError → Text
  | unknownArgument => "UnknownArgument".toList
  | invalidValue => "InvalidValue".toList
  | argumentConflict => "ArgumentConflict".toList
  | missingRequiredArgument => "MissingRequiredArgument".toList
  | invalidSubcommand => "InvalidSubcommand".toList
  | missingSubcommand => "MissingSubcommand".toList
  | tooManyValues => "TooManyValues".toList
  | displayHelp => "DisplayHelp".toList
  | displayVersion => "DisplayVersion".toList
  | displayHelpOnMissing => "DisplayHelpOnMissingArgumentOrSubcommand".toList

/-- Asking for help or for the version is no error. -/
def exitCode : UsageError → UInt32
  | displayHelp | displayVersion => 0
  | _ => 2

end UsageError

inductive Level where
  | root | issue | get | convert | ping
  deriving DecidableEq, Repr

/-- An option with a value. -/
inductive Setting where
  | limit | missingDescription
  deriving DecidableEq, Repr

/-- An option without a value. -/
inductive Switch where
  | verbose | json | descriptionOnly | failWhenNotFound
  deriving DecidableEq, Repr

/-- What an option name stands for. -/
inductive Choice where
  | help | version
  | setting (s : Setting)
  | switch (s : Switch)
  deriving DecidableEq, Repr

namespace Level

def children : Level → List (Text × Level)
  | root => [("issue".toList, issue), ("convert".toList, convert), ("ping".toList, ping)]
  | issue => [("get".toList, get)]
  | get | convert | ping => []

/-- The level of a command name. -/
def child? (l : Level) (name : Text) : Option Level := l.children.lookup name

def hasCommands (l : Level) : Bool := !l.children.isEmpty

/-- Levels with commands have one more that explains them. -/
def isHelp (l : Level) (name : Text) : Bool := l.hasCommands && name == "help".toList

def hasOperand : Level → Bool
  | get | convert => true
  | root | issue | ping => false

/-- The options that may stand at a level. -/
def choices : Level → List (Text × Choice)
  | root => ("version".toList, .version) :: everywhere
  | get => [("json".toList, .switch .json), ("description-only".toList, .switch .descriptionOnly),
      ("fail-when-not-found".toList, .switch .failWhenNotFound)] ++ everywhere
  | issue | convert | ping => everywhere
where
  everywhere : List (Text × Choice) :=
    [("help".toList, .help), ("limit".toList, .setting .limit),
      ("missing-description".toList, .setting .missingDescription),
      ("verbose".toList, .switch .verbose)]

/-- The options that have a one letter name. -/
def short? (l : Level) (c : Char) : Option Choice :=
  if c = 'h' then some .help
  else if c = 'V' ∧ l = root then some .version
  else none

/-- Whether a path of command names leads to something that can be explained. -/
def explains (l : Level) : List Text → Bool
  | [] => true
  | n :: ns =>
    match l.child? n with
    | some k => k.explains ns
    | none => l.isHelp n && ns.isEmpty

end Level

/-- What one level was given. -/
structure Given where
  limit : Option Text := none
  missingDescription : Option Text := none
  verbose : Bool := false
  json : Bool := false
  descriptionOnly : Bool := false
  failWhenNotFound : Bool := false
  operand : Option Text := none
  deriving DecidableEq, Repr

namespace Given

/-- A value may be given once at a level. -/
def addSetting (g : Given) (s : Setting) (v : Text) : Except UsageError Given :=
  match s with
  | .limit => if g.limit.isSome then .error .argumentConflict else .ok { g with limit := some v }
  | .missingDescription =>
    if g.missingDescription.isSome then .error .argumentConflict
    else .ok { g with missingDescription := some v }

/-- A switch may be given once at a level. -/
def addSwitch (g : Given) (s : Switch) : Except UsageError Given :=
  match s with
  | .verbose => if g.verbose then .error .argumentConflict else .ok { g with verbose := true }
  | .json => if g.json then .error .argumentConflict else .ok { g with json := true }
  | .descriptionOnly =>
    if g.descriptionOnly then .error .argumentConflict else .ok { g with descriptionOnly := true }
  | .failWhenNotFound =>
    if g.failWhenNotFound then .error .argumentConflict else .ok { g with failWhenNotFound := true }

end Given

/-- What was read last and is not yet judged. -/
inductive Pending where
  | nothing
  | awaiting (s : Setting)
  | value (s : Setting) (v : Text)
  | operand (v : Text)
  deriving DecidableEq, Repr

/-- Judges what was read last: an option has a value, a path is not empty. -/
def Pending.settle (p : Pending) (l : Level) (g : Given) : Except UsageError Given :=
  match p with
  | .nothing => .ok g
  | .awaiting _ => .error .invalidValue
  | .value s v => g.addSetting s v
  | .operand v =>
    if l = .convert ∧ v.isEmpty then .error .invalidValue else .ok { g with operand := some v }

/-- Where a value comes from. -/
inductive Origin where
  | environment | commandLine
  deriving DecidableEq, Repr

/-- A value of a setting that may stand at every level, if there is one. -/
abbrev Ranked (α : Type) := Option (Origin × α)

namespace Ranked

variable {α : Type}

/-- The value of the environment, if the command line has none. -/
def fallback (given : Option α) (env : Option α) : Ranked α :=
  match given with
  | some v => some (.commandLine, v)
  | none => env.map (.environment, ·)

/-- The value that counts, of the inner levels and the one around them. -/
def beneath (inner outer : Ranked α) : Ranked α :=
  match outer, inner with
  | outer, none => outer
  | some (.commandLine, v), some (.environment, _) => some (.commandLine, v)
  | _, inner => inner

end Ranked

/-- The settings that may stand at every level. -/
structure Globals where
  limit : Ranked Text
  missingDescription : Ranked Text
  verbose : Ranked Bool
  deriving DecidableEq, Repr

namespace Globals

def isGiven (g : Globals) : Bool :=
  g.limit.isSome || g.missingDescription.isSome || g.verbose.isSome

def beneath (inner outer : Globals) : Globals where
  limit := inner.limit.beneath outer.limit
  missingDescription := inner.missingDescription.beneath outer.missingDescription
  verbose := inner.verbose.beneath outer.verbose

/-- The value of a switch in the environment is one of two words. -/
def parseSwitch (t : Text) : Except UsageError Bool :=
  if t = "true".toList then .ok true
  else if t = "false".toList then .ok false
  else .error .invalidValue

/-- The switch as it was given, or as the environment has it. -/
def verboseOf (env : Environment) (given : Bool) : Except UsageError (Ranked Bool) :=
  if given then .ok (some (.commandLine, true))
  else match env .verbose with
    | none => .ok none
    | some t => (parseSwitch t).map fun b => some (.environment, b)

/-- What a level was given, or the environment in its place. -/
def ofGiven (env : Environment) (g : Given) : Except UsageError Globals := do
  return ⟨.fallback g.limit (env .characterLimit),
    .fallback g.missingDescription (env .missingDescription), ← verboseOf env g.verbose⟩

end Globals

/-- How an issue is shown. -/
inductive Shape where
  | table | json | description
  deriving DecidableEq, Repr

inductive Command where
  | get (key : Text) (shape : Shape) (failWhenNotFound : Bool)
  | convert (path : Option Text)
  | ping
  deriving DecidableEq, Repr

/-- Arguments that were accepted. -/
structure Invocation where
  command : Command
  globals : Globals
  deriving DecidableEq, Repr

namespace Invocation

def verbose (i : Invocation) : Bool := (i.globals.verbose.map (·.2)).getD false

def rendering (i : Invocation) : Rendering :=
  .ofSettings (i.globals.limit.map (·.2)) (i.globals.missingDescription.map (·.2))

end Invocation

/-- The command of the innermost level. Two shapes exclude each other, and a key is due. -/
def Level.command (l : Level) (env : Environment) (g : Given) (s : Globals) :
    Except UsageError Command :=
  match l with
  | .root | .issue => .error (if s.isGiven then .missingSubcommand else .displayHelpOnMissing)
  | .get =>
    if g.json && g.descriptionOnly then .error .argumentConflict
    else match g.operand.or (env .issueKey) with
      | none => .error .missingRequiredArgument
      | some key =>
        let shape := if g.json then .json else if g.descriptionOnly then .description else .table
        .ok (.get key shape g.failWhenNotFound)
  | .convert => .ok (.convert g.operand)
  | .ping => .ok .ping

/-- What an argument is, by its looks. -/
inductive Token where
  | separator
  | long (name : Text) (value : Option Text)
  | short (letter : Char)
  | plain
  deriving DecidableEq, Repr

def Token.ofText : Text → Token
  | ['-', '-'] => .separator
  | '-' :: '-' :: t =>
    .long (t.takeWhile (· != '=')) (Text.after? ['='] (t.dropWhile (· != '=')))
  | '-' :: c :: _ => .short c
  | _ => .plain

/-- Where reading stands at one level. -/
structure Progress where
  given : Given := {}
  pending : Pending := .nothing
  /-- Whether a separator was read, after which everything is an operand. -/
  trailing : Bool := false

namespace Progress

def awaits (p : Progress) : Bool :=
  match p.pending with
  | .awaiting _ => !p.trailing
  | _ => false

def settle (p : Progress) (l : Level) : Except UsageError Given := p.pending.settle l p.given

/-- Acts on an option. -/
def choose (p : Progress) (l : Level) (c : Choice) (value : Option Text) :
    Except UsageError Progress :=
  match c, value with
  | .setting s, none => do return { p with given := ← p.settle l, pending := .awaiting s }
  | .setting s, some v => do
    return { p with given := ← (← p.settle l).addSetting s v, pending := .nothing }
  | _, some _ => .error .tooManyValues
  | .switch s, none => do
    return { p with given := ← (← p.settle l).addSwitch s, pending := .nothing }
  | .help, none => do let _ ← p.settle l; throw .displayHelp
  | .version, none => do let _ ← p.settle l; throw .displayVersion

/-- Takes an argument that is no option. -/
def takePlain (p : Progress) (l : Level) (t : Text) : Except UsageError Progress :=
  match p.pending, p.trailing with
  | .awaiting s, false => .ok { p with pending := .value s t }
  | pending, trailing =>
    let taken := p.given.operand.isSome || pending matches .operand _
    if l.hasOperand && !taken then do
      return { p with given := ← p.settle l, pending := .operand t }
    else if trailing && ((l.child? t).isSome || l.isHelp t) then .error .unknownArgument
    else if l.hasCommands then .error .invalidSubcommand
    else .error .unknownArgument

/-- Takes one argument that is no command. -/
def take (p : Progress) (l : Level) (t : Text) : Except UsageError Progress :=
  if p.trailing then p.takePlain l t
  else match Token.ofText t with
    | .separator => .ok { p with trailing := true }
    | .long name value =>
      match l.choices.lookup name with
      | some c => p.choose l c value
      | none => .error .unknownArgument
    | .short c =>
      match l.short? c with
      | some c => p.choose l c none
      | none => .error .unknownArgument
    | .plain => p.takePlain l t

/-- What a level was given in the end, with the settings that may stand at every level. -/
def finish (p : Progress) (l : Level) (env : Environment) :
    Except UsageError (Given × Globals) := do
  let g ← p.settle l
  return (g, ← Globals.ofGiven env g)

end Progress

/-- Reads the arguments of a level. A command name opens the level inside, which is judged
before this one. -/
def parseFrom (env : Environment) (l : Level) (p : Progress) :
    List Text → Except UsageError Invocation
  | [] => do
    let (g, s) ← p.finish l env
    return ⟨← l.command env g s, s⟩
  | t :: ts =>
    if p.trailing || p.awaits then do parseFrom env l (← p.take l t) ts
    else match l.child? t with
      | some k => do
        let i ← parseFrom env k {} ts
        let (_, s) ← p.finish l env
        return { i with globals := i.globals.beneath s }
      | none =>
        if l.isHelp t then
          .error (if l.explains ts then .displayHelp else .invalidSubcommand)
        else do parseFrom env l (← p.take l t) ts

/-- Reads all arguments after the name of the program. -/
def parse (env : Environment) (args : List Text) : Except UsageError Invocation :=
  parseFrom env .root {} args

end IssueMarkdown.CommandLine
