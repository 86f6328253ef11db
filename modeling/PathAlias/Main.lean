import PathAlias.CommandLine.Run

/-!
# The program

The disk, the environment and the streams of the machine, and nothing else.
-/

namespace PathAlias.Machine

/-- The cause that an error code of the operating system stands for; a code may come with its
sign reversed. -/
def causeOfCode? (code : UInt32) : Option AccessError :=
  if code = 2 || code = 0 - 2 then some .notFound
  else if code = 20 || code = 0 - 20 then some .notADirectory
  else if code = 21 || code = 0 - 21 then some .isADirectory
  else if code = 36 || code = 0 - 36 then some .nameTooLong
  else none

def code? : IO.Error → Option UInt32
  | .noFileOrDirectory _ code _ => some code
  | .inappropriateType _ code _ => some code
  | .invalidArgument _ code _ => some code
  | .resourceExhausted _ code _ => some code
  | .noSuchThing _ code _ => some code
  | .otherError code _ => some code
  | _ => none

def cause (e : IO.Error) : AccessError :=
  ((code? e).bind causeOfCode?).getD (.reported (toString e).toList)

def access {α : Type} (path : Text) (act : String → IO α) : IO (Except AccessError α) := do
  if '\x00' ∈ path then
    return .error .nulInPath
  if path = [] then
    return .error .notFound
  try
    return .ok (← act (String.ofList path))
  catch e =>
    return .error (cause e)

def kindAt (path : String) : IO NodeKind := do
  let here ← IO.currentDir
  let found ← (here / path).metadata
  match found.type with
  | .file => return .file
  | .dir => return .directory
  | _ => return .other

/-- The disk of the machine; it has fewer files than a number of 64 bits can count. -/
def disk : Disk IO where
  stat path := access path kindAt
  read path := access path fun p => do return (← IO.FS.readBinFile p).toList
  real path := do
    match ← access path fun p => do return (← IO.FS.realPath p).toString.toList with
    | .ok place => return some place
    | .error _ => return none
  fileLimit := Nat.pow 2 64

def environment : IO Environment := do
  let project ← IO.getEnv (String.ofList projectVariable)
  let baseUrl ← IO.getEnv (String.ofList baseUrlVariable)
  return fun name =>
    if name = projectVariable then project.map String.toList
    else if name = baseUrlVariable then baseUrl.map String.toList
    else none

end PathAlias.Machine

open PathAlias in
def main (arguments : List String) : IO UInt32 := do
  let env ← Machine.environment
  let here ← IO.currentDir
  let outcome ← CommandLine.run Machine.disk env here.toString.toList
    (arguments.map String.toList)
  match outcome with
  | .failed message => IO.eprintln (String.ofList message)
  | _ => IO.print (String.ofList outcome.output)
  return UInt32.ofNat outcome.exitCode
