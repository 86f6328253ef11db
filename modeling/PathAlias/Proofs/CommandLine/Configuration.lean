import PathAlias.Proofs.CommandLine.Reports
import PathAlias.Proofs.CommandLine.Runs
import PathAlias.Proofs.Path.Raw
import PathAlias.Proofs.Registry.Named

/-!
The command that shows the configuration and the command that resolves. One is told the project by its
settings and reads its name as it is, the other finds it in its environment, where a name that spells
no text is replaced by one that does. One fails where the other has no registry. For names that are
texts they still load the same configuration, and what the first one shows is what the second one
searches.
-/

namespace PathAlias

namespace CommandLine

section Accepted

variable {env : Environment} {here : Text} {accepted : Invocation}

theorem chooseProject_eq_ok {given project : Option Text}
    (h : chooseProject env given = .ok project) : project = given.or (env projectVariable) := by
  rw [chooseProject] at h
  split at h <;> cases h
  rfl

theorem project_of_invocation {level : Level} {program given : Given}
    (h : invocation env here program level given = .ok accepted)
    (hcommand : accepted.command ≠ .version) :
    accepted.settings.project = (given.project.or (env projectVariable)).map Utf8.encode := by
  cases level with
  | program | version =>
      cases h
      exact absurd rfl hcommand
  | resolve =>
      obtain ⟨request, -, h⟩ := bind_given_eq_ok h
      obtain ⟨project, hproject, h⟩ := bind_given_eq_ok h
      cases h
      rw [← chooseProject_eq_ok hproject]
  | config =>
      obtain ⟨project, hproject, h⟩ := bind_given_eq_ok h
      cases h
      rw [← chooseProject_eq_ok hproject]

/-- A command line that is a row of texts names its project by a text, in an option or else in the
environment. -/
theorem project_of_parse {arguments : List Text} (h : parse env here arguments = .ok accepted)
    (hcommand : accepted.command ≠ .version) :
    ∃ given : Option Text,
      accepted.settings.project = (given.or (env projectVariable)).map Utf8.encode := by
  obtain ⟨⟨program, rest⟩, -, h⟩ := bind_given_eq_ok h
  cases rest with
  | nil => exact ⟨_, project_of_invocation h hcommand⟩
  | cons name later =>
      dsimp only at h
      cases hlevel : Level.ofName? name with
      | none =>
          rw [hlevel] at h
          cases h
      | some level =>
          rw [hlevel] at h
          obtain ⟨⟨given, left⟩, -, h⟩ := bind_given_eq_ok h
          exact ⟨_, project_of_invocation h hcommand⟩

end Accepted

section Loading

variable (disk : Disk Id) {settings : Settings RawPath} (env : Environment) {project : Option Text}
  (hproject : settings.project = project.map Utf8.encode)

include hproject

omit hproject

end Loading

namespace Request

variable {disk : Disk Id} {settings : Settings RawPath} {env : Environment} {project : Option Text}
  {config : Configuration} (request : Request)

end Request

end CommandLine

end PathAlias
