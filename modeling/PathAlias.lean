import PathAlias.Path.Relative
import PathAlias.Pattern
import PathAlias.Mapping
import PathAlias.Candidate
import PathAlias.Utf8
import PathAlias.Path.Raw
import PathAlias.CoreModule
import PathAlias.Json.Tree
import PathAlias.Json.Lexer
import PathAlias.Json.Quoted
import PathAlias.Json.Numeral
import PathAlias.Json.Strict
import PathAlias.Json.Relaxed
import PathAlias.Error
import PathAlias.ConfigFile.Declaration
import PathAlias.Manifest
import PathAlias.Lookup
import PathAlias.Task
import PathAlias.Matcher
import PathAlias.Package
import PathAlias.Disk
import PathAlias.Tree
import PathAlias.ConfigFile.Inheritance
import PathAlias.Configuration
import PathAlias.Registry
import PathAlias.Json.Printer
import PathAlias.Settings
import PathAlias.CommandLine.Arguments
import PathAlias.CommandLine.Report
import PathAlias.CommandLine.Run
import PathAlias.Main
import PathAlias.Proofs.Interleaving
import PathAlias.Proofs.Candidate
import PathAlias.Proofs.Precedence
import PathAlias.Proofs.Path.Spelling
import PathAlias.Proofs.Registry.Named
import PathAlias.Proofs.Place
import PathAlias.Proofs.ConfigFile.Cycle
import PathAlias.Proofs.ConfigFile.PostOrder
import PathAlias.Proofs.Specificity
import PathAlias.Proofs.CommandLine.Arguments
import PathAlias.Proofs.CommandLine.Suspension
import PathAlias.Proofs.Agreement
import PathAlias.Proofs.ConfigFile.Respelling
import PathAlias.Proofs.Path.Specifier
import PathAlias.Proofs.Registry.Respelling
import PathAlias.Proofs.Registry.Rewriting
import PathAlias.Proofs.Insertion
import PathAlias.Proofs.Extension
import PathAlias.Proofs.Path.Composition
import PathAlias.Proofs.Path.Joining
import PathAlias.Proofs.Wildcards
import PathAlias.Proofs.Substitution
import PathAlias.Proofs.Path.ImportPath
import PathAlias.Proofs.Registry.Repetition
import PathAlias.Proofs.CommandLine.Operands
import PathAlias.Proofs.CommandLine.Runs
import PathAlias.Proofs.Json.Printing
import PathAlias.Proofs.CommandLine.Reports
import PathAlias.Proofs.Utf8
import PathAlias.Proofs.Path.Raw
import PathAlias.Proofs.CommandLine.Configuration
import PathAlias.Proofs.Reordering
import PathAlias.Proofs.Path.Canonical
import PathAlias.Proofs.Containment
import PathAlias.Proofs.ConfigFile.Canonical
import PathAlias.Proofs.Registry.Canonical
import PathAlias.Proofs.ConfigFile.Packages
import PathAlias.Proofs.Path.NormalForm
import PathAlias.Proofs.Capture
import PathAlias.Proofs.Installed
import PathAlias.Proofs.ConfigFile.Discovery
import PathAlias.Proofs.Path.ShortestWay
import PathAlias.Proofs.SharedDirectory
import PathAlias.Proofs.PackageName
