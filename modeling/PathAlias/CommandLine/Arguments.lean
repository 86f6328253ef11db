import PathAlias.Configuration
import PathAlias.Settings
import PathAlias.Task

/-!
# Arguments

A command line is read from left to right: first options of the program, then the command, then
its options and operands. An option stands alone, or takes a value from the same argument after an
equals sign or else from the next one; one-letter options may share a dash. The first argument
that is wrong, or that asks for the version, ends the reading.
-/

namespace PathAlias.CommandLine

/-- Options that stand alone. -/
inductive Switch
  | verbose
  | json
  | version
  | suspending
  | relative
  deriving DecidableEq

/-- Options that take a value. -/
inductive Setting
  | cwd
  | project
  | parent
  | extensions
  | mainFields
  deriving DecidableEq

/-- What options stand for: the program or one of its commands. -/
inductive Level
  | program
  | version
  | resolve
  | config
  deriving DecidableEq

def Level.ofName? (name : Text) : Option Level :=
  if name = "version" then some .version
  else if name = "resolve" then some .resolve
  else if name = "config" then some .config
  else none

/-- The option of a name that stands alone, where it is known. -/
def Level.switch? (level : Level) (name : Text) : Option Switch :=
  if name = "verbose" then some .verbose
  else if name = "json" then some .json
  else
    match level with
    | .program => if name = "version" then some .version else none
    | .resolve =>
        if name = "async" then some .suspending
        else if name = "relative" then some .relative
        else none
    | _ => none

/-- The option of a name that takes a value, where it is known. -/
def Level.setting? (level : Level) (name : Text) : Option Setting :=
  if name = "cwd" then some .cwd
  else
    match level with
    | .resolve =>
        if name = "project" then some .project
        else if name = "parent" then some .parent
        else if name = "ext" then some .extensions
        else if name = "main-fields" then some .mainFields
        else none
    | .config => if name = "project" then some .project else none
    | _ => none

def Level.letter? (level : Level) (letter : Char) : Option Switch :=
  if letter = 'v' then some .verbose
  else if letter = 'V' then level.switch? "version"
  else none

/-- Why reading ends before the end. -/
inductive Stop
  | rejected
  | version
  deriving DecidableEq

/-- What has been given at one level. -/
structure Given where
  verbose : Nat := 0
  json : Bool := false
  cwd : Option Text := none
  project : Option Text := none
  parent : Option Text := none
  extensions : List Text := []
  mainFields : List Text := []
  suspending : Bool := false
  relative : Bool := false
  /-- What is no option, in order. -/
  operands : List Text := []
  deriving DecidableEq

namespace Given

/-- Gives an option that stands alone; only the one for verbosity may be repeated. -/
def switch (given : Given) : Switch → Except Stop Given
  | .verbose => .ok { given with verbose := given.verbose + 1 }
  | .json => if given.json then .error .rejected else .ok { given with json := true }
  | .version => .error .version
  | .suspending =>
      if given.suspending then .error .rejected else .ok { given with suspending := true }
  | .relative => if given.relative then .error .rejected else .ok { given with relative := true }

/-- The value of a path option, which is not empty and not given before. -/
def pathOnce (before : Option Text) (value : Text) : Except Stop (Option Text) :=
  if before.isSome || value = [] then .error .rejected else .ok (some value)

/-- Gives an option that takes a value. Lists are divided at commas and may be given in parts. -/
def setting (given : Given) (name : Setting) (value : Text) : Except Stop Given :=
  match name with
  | .cwd => (pathOnce given.cwd value).map fun cwd => { given with cwd }
  | .project => (pathOnce given.project value).map fun project => { given with project }
  | .parent => (pathOnce given.parent value).map fun parent => { given with parent }
  | .extensions => .ok { given with extensions := given.extensions ++ splitOn ',' value }
  | .mainFields => .ok { given with mainFields := given.mainFields ++ splitOn ',' value }

end Given

/-- What an argument looks like. -/
inductive Shape
  /-- Nothing after it is an option. -/
  | endOfOptions
  /-- An option by name, and the value attached to it. -/
  | long (name : Text) (value : Option Text)
  | short (letters : Text)
  | operand

/-- What an argument looks like; a dash alone is no option. -/
def shape : Text → Shape
  | ['-', '-'] => .endOfOptions
  | '-' :: '-' :: rest =>
      match splitFirst? '=' rest with
      | some (name, value) => .long name (some value)
      | none => .long rest none
  | '-' :: letter :: letters => .short (letter :: letters)
  | _ => .operand

/-- Whether an argument cannot be the value of the option before it. -/
def looksLikeOption (argument : Text) : Bool :=
  match shape argument with
  | .operand => false
  | _ => true

/-- Reads the arguments of one level. At the level of the program reading ends at the first
operand, which names the command and is left with all that follows it. -/
def scan (level : Level) (given : Given) : List Text → Except Stop (Given × List Text)
  | [] => .ok (given, [])
  | argument :: rest =>
      match shape argument with
      | .endOfOptions =>
          if level = .resolve then .ok ({ given with operands := given.operands ++ rest }, [])
          else if rest = [] then .ok (given, [])
          else .error .rejected
      | .long name (some value) =>
          match level.setting? name with
          | some setting => do scan level (← given.setting setting value) rest
          | none => .error .rejected
      | .long name none =>
          match level.switch? name with
          | some switch => do scan level (← given.switch switch) rest
          | none =>
              match level.setting? name with
              | none => .error .rejected
              | some setting =>
                  match rest with
                  | [] => .error .rejected
                  | value :: later =>
                      if looksLikeOption value then .error .rejected
                      else do scan level (← given.setting setting value) later
      | .short letters => do
          let after ← letters.foldlM (fun given letter =>
            match level.letter? letter with
            | some switch => given.switch switch
            | none => .error .rejected) given
          scan level after rest
      | .operand =>
          match level with
          | .program => .ok (given, argument :: rest)
          | .resolve => scan level { given with operands := given.operands ++ [argument] } rest
          | _ => .error .rejected

/-- What to resolve and how. -/
structure Request where
  specifiers : List Text
  parent : Option Text
  /-- The extensions to look for; none means the default ones. -/
  extensions : List Text
  /-- The manifest fields that count; none means the default ones. -/
  mainFields : List Text
  mode : Mode
  /-- Whether to answer with specifiers that are relative to the importing file. -/
  relative : Bool
  deriving DecidableEq

/-- What the program is told to do. -/
inductive Command
  | version
  | resolve (request : Request)
  | config
  deriving DecidableEq

/-- A command with what holds for the run. -/
structure Invocation where
  command : Command
  json : Bool
  settings : Settings RawPath
  deriving DecidableEq

/-- The project to use: the one given, or else the one in the environment, which is not empty. -/
def chooseProject (env : Environment) (given : Option Text) : Except Stop (Option Text) :=
  match given.or (env projectVariable) with
  | some [] => .error .rejected
  | project => .ok project

/-- The request for which options and operands were given. -/
def Given.request (given : Given) : Except Stop Request :=
  if given.operands = [] || (given.relative && given.parent.isNone) then .error .rejected
  else
    .ok {
      specifiers := given.operands
      parent := given.parent
      extensions := given.extensions
      mainFields := given.mainFields
      mode := if given.suspending then .suspending else .blocking
      relative := given.relative }

/-- Puts together what was given for the program and for its command. -/
def invocation (env : Environment) (workingDirectory : Text) (program : Given) (level : Level)
    (given : Given) : Except Stop Invocation := do
  let settings : Settings RawPath :=
    { cwd := (given.cwd.or program.cwd).getD workingDirectory
      jsonLogs := program.json || given.json
      verbosity := program.verbose + given.verbose }
  let json := program.json || given.json
  match level with
  | .resolve =>
      let request ← given.request
      let project := (← chooseProject env given.project).map Utf8.encode
      return { command := .resolve request, json, settings := { settings with project } }
  | .config =>
      let project := (← chooseProject env given.project).map Utf8.encode
      return { command := .config, json, settings := { settings with project } }
  | _ => return { command := .version, json, settings }

/-- Reads a command line without the name of the program. No command asks for the version. -/
def parse (env : Environment) (workingDirectory : Text) (arguments : List Text) :
    Except Stop Invocation := do
  let (program, rest) ← scan .program {} arguments
  match rest with
  | [] => invocation env workingDirectory program .version {}
  | name :: later =>
      match Level.ofName? name with
      | some level =>
          let (given, _) ← scan level {} later
          invocation env workingDirectory program level given
      | none => .error .rejected

end PathAlias.CommandLine
