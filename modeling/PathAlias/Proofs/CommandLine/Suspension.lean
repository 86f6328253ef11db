import PathAlias.CommandLine.Run
import PathAlias.Proofs.CommandLine.Arguments
import PathAlias.Proofs.Registry.Suspension

/-!
Command lines with the flag that suspends lookups. The flag may stand before any item of the
command, and all that it changes is the way in which questions are asked. Together with what holds
of registries this says that suspending is never observed, neither by a host nor on the output.
-/

namespace PathAlias

namespace CommandLine

/-! ### Reading the flag -/

/-- What has been given, with lookups suspended. -/
def Given.suspend (given : Given) : Given := { given with suspending := true }

/-- The same request with its lookups made in this way. -/
def Request.inMode (mode : Mode) (request : Request) : Request := { request with mode }

section Flag

variable {given after : Given}

theorem switch_suspend {switch : Switch} (h : given.switch switch = .ok after)
    (hafter : after.suspending = false) :
    given.suspending = false ∧ given.suspend.switch switch = .ok after.suspend := by
  cases switch with
  | verbose =>
      cases h
      exact ⟨hafter, rfl⟩
  | json =>
      simp only [Given.switch] at h
      split_ifs at h with hgiven
      cases h
      exact ⟨hafter, if_neg hgiven⟩
  | version => cases h
  | suspending =>
      simp only [Given.switch] at h
      split_ifs at h
      cases h
      cases hafter
  | relative =>
      simp only [Given.switch] at h
      split_ifs at h with hgiven
      cases h
      exact ⟨hafter, if_neg hgiven⟩

theorem setting_suspend {setting : Setting} {value : Text}
    (h : given.setting setting value = .ok after) :
    given.suspending = after.suspending ∧
      given.suspend.setting setting value = .ok after.suspend := by
  have honce : ∀ {before : Option Text} {put : Option Text → Given},
      (Given.pathOnce before value).map put = .ok after →
      ∃ path, Given.pathOnce before value = .ok path ∧ put path = after := by
    intro before put hmap
    cases hpath : Given.pathOnce before value with
    | error stop =>
        rw [hpath] at hmap
        cases hmap
    | ok path =>
        rw [hpath] at hmap
        exact ⟨path, rfl, Except.ok.inj hmap⟩
  cases setting with
  | cwd =>
      obtain ⟨path, hpath, rfl⟩ := honce h
      exact ⟨rfl, congrArg (Except.map _) hpath⟩
  | project =>
      obtain ⟨path, hpath, rfl⟩ := honce h
      exact ⟨rfl, congrArg (Except.map _) hpath⟩
  | parent =>
      obtain ⟨path, hpath, rfl⟩ := honce h
      exact ⟨rfl, congrArg (Except.map _) hpath⟩
  | extensions =>
      cases h
      exact ⟨rfl, rfl⟩
  | mainFields =>
      cases h
      exact ⟨rfl, rfl⟩

theorem letters_suspend {level : Level} {letters : Text}
    (h : letters.foldlM level.giveLetter given = .ok after) (hafter : after.suspending = false) :
    given.suspending = false ∧
      letters.foldlM level.giveLetter given.suspend = .ok after.suspend := by
  induction letters generalizing given with
  | nil =>
      cases h
      exact ⟨hafter, rfl⟩
  | cons letter rest ih =>
      rw [List.foldlM_cons] at h
      obtain ⟨next, hletter, hrest⟩ := bind_given_eq_ok h
      obtain ⟨hnext, hsuspended⟩ := ih hrest
      rw [Level.giveLetter] at hletter
      cases hswitch : level.letter? letter with
      | none =>
          rw [hswitch] at hletter
          cases hletter
      | some switch =>
          rw [hswitch] at hletter
          obtain ⟨hgiven, hfirst⟩ := switch_suspend hletter hnext
          rw [List.foldlM_cons, Level.giveLetter, hswitch]
          simp only [hfirst]
          exact ⟨hgiven, hsuspended⟩

/-- An item gives the same with lookups suspended, unless it is the flag itself. -/
theorem Item.suspend {level : Level} {arguments : List Text} {give : Given → Except Stop Given}
    (hitem : Item level arguments give) (h : give given = .ok after)
    (hafter : after.suspending = false) :
    given.suspending = false ∧ give given.suspend = .ok after.suspend := by
  cases hitem with
  | attached _ _ => exact (setting_suspend h).imp_left (·.trans hafter)
  | flag _ _ => exact switch_suspend h hafter
  | spaced _ _ _ _ => exact (setting_suspend h).imp_left (·.trans hafter)
  | letters _ => exact letters_suspend h hafter
  | operand _ _ =>
      cases h
      exact ⟨hafter, rfl⟩

/-- Arguments without the flag are read the same with lookups suspended. -/
theorem Scans.suspend {level : Level} {arguments rest : List Text}
    (h : Scans level given arguments (after, rest)) (hafter : after.suspending = false) :
    given.suspending = false ∧ Scans level given.suspend arguments (after.suspend, rest) := by
  generalize hend : (after, rest) = stop at h
  induction h with
  | done given =>
      cases hend
      exact ⟨hafter, .done _⟩
  | ended given operands hlevel =>
      cases hend
      exact ⟨hafter, .ended _ operands hlevel⟩
  | closed given hlevel =>
      cases hend
      exact ⟨hafter, .closed _ hlevel⟩
  | command given rest hlevel hname =>
      cases hend
      exact ⟨hafter, .command _ rest hlevel hname⟩
  | item hitem hgive _ ih =>
      obtain ⟨hnext, hrest⟩ := ih hend
      obtain ⟨hgiven, hsuspended⟩ := hitem.suspend hgive hnext
      exact ⟨hgiven, .item hitem hsuspended hrest⟩

theorem scans_flag (given : Given) (hgiven : given.suspending = false) {rest : List Text}
    {result : Given × List Text} (h : Scans .resolve given.suspend rest result) :
    Scans .resolve given (("--async" : Text) :: rest) result := by
  have hitem : Item .resolve [("--async" : Text)] fun given => given.switch .suspending :=
    .flag (show shape "--async" = .long "async" none from rfl) rfl
  refine .item hitem ?_ h
  simp only [Given.switch, hgiven, Bool.false_eq_true, if_false]
  rfl

end Flag

/-! ### Accepted command lines -/

section Accepted

variable {env : Environment} {here : Text} {program given : Given} {accepted : Invocation}
  {request : Request}

theorem command_of_invocation {level : Level}
    (h : invocation env here program level given = .ok accepted)
    (hcommand : accepted.command = .resolve request) : level = .resolve := by
  cases level with
  | resolve => rfl
  | config =>
      obtain ⟨project, -, h⟩ := bind_given_eq_ok h
      cases h
      cases hcommand
  | program =>
      cases h
      cases hcommand
  | version =>
      cases h
      cases hcommand

theorem request_suspend (h : given.request = .ok request) (hmode : request.mode = .blocking) :
    given.suspending = false ∧ given.suspend.request = .ok (request.inMode .suspending) := by
  rw [Given.request] at h
  split_ifs at h with hincomplete hgiven
  · cases h
    cases hmode
  · cases h
    exact ⟨Bool.eq_false_iff.mpr hgiven, if_neg hincomplete⟩

theorem invocation_suspend (h : invocation env here program .resolve given = .ok accepted)
    (hcommand : accepted.command = .resolve request) (hmode : request.mode = .blocking) :
    given.suspending = false ∧
      invocation env here program .resolve given.suspend =
        .ok { accepted with command := .resolve (request.inMode .suspending) } := by
  obtain ⟨made, hmade, h⟩ := bind_given_eq_ok h
  obtain ⟨project, hproject, h⟩ := bind_given_eq_ok h
  cases h
  cases hcommand
  obtain ⟨hgiven, hrequest⟩ := request_suspend hmade hmode
  refine ⟨hgiven, ?_⟩
  have hsame : chooseProject env given.suspend.project = .ok project := hproject
  simp only [invocation, hrequest, hsame]
  rfl

/-- A command line that resolves has options of the program, the name of the command, and what is
given for it. -/
theorem parse_eq_ok {arguments : List Text} (h : parse env here arguments = .ok accepted)
    (hcommand : accepted.command = .resolve request) :
    ∃ program given later left,
      Scans .program {} arguments (program, ("resolve" : Text) :: later) ∧
      Scans .resolve {} later (given, left) ∧
      invocation env here program .resolve given = .ok accepted := by
  obtain ⟨⟨program, rest⟩, hprogram, h⟩ := bind_given_eq_ok h
  cases rest with
  | nil => cases command_of_invocation h hcommand
  | cons name later =>
      dsimp only at h
      cases hlevel : Level.ofName? name with
      | none =>
          rw [hlevel] at h
          cases h
      | some level =>
          rw [hlevel] at h
          obtain ⟨⟨given, left⟩, hgiven, h⟩ := bind_given_eq_ok h
          obtain rfl := command_of_invocation h hcommand
          have hname : name = ("resolve" : Text) := by
            rw [Level.ofName?] at hlevel
            split_ifs at hlevel with hversion hresolve hconfig
            · cases hlevel
            · exact hresolve
            · cases hlevel
          rw [hname] at hprogram
          exact ⟨program, given, later, left, scans_of_scan hprogram, scans_of_scan hgiven, h⟩

theorem parse_of_scans {arguments later left : List Text}
    (hprogram : Scans .program {} arguments (program, ("resolve" : Text) :: later))
    (hgiven : Scans .resolve {} later (given, left)) :
    parse env here arguments = invocation env here program .resolve given := by
  have hlevel : Level.ofName? ("resolve" : Text) = some .resolve := rfl
  simp only [parse, scan_of_scans hprogram, bind, Except.bind, hlevel, scan_of_scans hgiven]

end Accepted

/-! ### Runs -/

section Runs

variable {m : Type → Type} [Monad m] [LawfulMonad m] (disk : Disk m) (env : Environment)
  (mode : Mode) (request : Request)

theorem resolveOne_inMode (cwd : Text) (registry : Registry) (specifier : Text) :
    (request.inMode mode).resolveOne disk env cwd registry specifier =
      request.resolveOne disk env cwd registry specifier := by
  simp only [Request.resolveOne, Request.inMode, Registry.resolve_mode disk env mode,
    Registry.resolve_mode disk env request.mode, Registry.resolveRelative_mode disk env mode,
    Registry.resolveRelative_mode disk env request.mode]

theorem resolveAll_inMode (cwd : Text) (registry : Registry) (specifiers : List Text) :
    (request.inMode mode).resolveAll disk env cwd registry specifiers =
      request.resolveAll disk env cwd registry specifiers := by
  induction specifiers generalizing registry with
  | nil => rfl
  | cons specifier rest ih => simp only [Request.resolveAll, resolveOne_inMode, ih]

theorem runResolve_inMode (settings : Settings RawPath) (json : Bool) :
    runResolve disk env settings json (request.inMode mode) =
      runResolve disk env settings json request := by
  simp only [runResolve, resolveAll_inMode]
  rfl

end Runs

/-! ### Where the flag may stand -/

/-- Arguments that a command reads to their end without an end of its options. -/
def Complete (level : Level) (arguments : List Text) : Prop :=
  ['-', '-'] ∉ arguments ∧ ∃ given, scan level {} arguments = .ok (given, [])

section Flagged

variable {env : Environment} {here : Text} {program given : Given} {accepted : Invocation}
  {request : Request} {before front rest left : List Text}

theorem parse_flagged
    (hprogram : ∀ other, Scans .program {} (before ++ ("resolve" : Text) :: other)
      (program, ("resolve" : Text) :: other))
    (hgiven : Scans .resolve {} (front ++ rest) (given, left))
    (h : invocation env here program .resolve given = .ok accepted)
    (hcommand : accepted.command = .resolve request) (hmode : request.mode = .blocking)
    (hfront : Complete .resolve front) :
    parse env here (before ++ ("resolve" : Text) :: (front ++ ("--async" : Text) :: rest)) =
      .ok { accepted with command := .resolve (request.inMode .suspending) } := by
  obtain ⟨hopen, middle, hmiddle⟩ := hfront
  obtain ⟨hblocking, hinvocation⟩ := invocation_suspend h hcommand hmode
  have happend := (scans_of_scan hmiddle).scan_append hopen
  have hrest : scan .resolve middle rest = .ok (given, left) :=
    (happend rest).symm.trans (scan_of_scans hgiven)
  obtain ⟨hbefore, hsuspended⟩ := (scans_of_scan hrest).suspend hblocking
  have hflagged : scan .resolve {} (front ++ ("--async" : Text) :: rest) =
      .ok (given.suspend, left) :=
    (happend _).trans (scan_of_scans (scans_flag middle hbefore hsuspended))
  rw [parse_of_scans (hprogram _) (scans_of_scan hflagged), hinvocation]

/-- An accepted command line that resolves without the flag has a command, and with the flag
anywhere after it the same is run with lookups suspended. -/
theorem run_flagged {m : Type → Type} [Monad m] [LawfulMonad m] (disk : Disk m)
    {arguments : List Text} (h : parse env here arguments = .ok accepted)
    (hcommand : accepted.command = .resolve request) (hmode : request.mode = .blocking) :
    ∃ before later, arguments = before ++ ("resolve" : Text) :: later ∧
      ∀ front rest, later = front ++ rest → Complete .resolve front →
        let flagged := before ++ ("resolve" : Text) :: (front ++ ("--async" : Text) :: rest)
        parse env here flagged =
            .ok { accepted with command := .resolve (request.inMode .suspending) } ∧
          run disk env here flagged = run disk env here arguments := by
  obtain ⟨program, given, later, left, hprogram, hgiven, hinvocation⟩ := parse_eq_ok h hcommand
  obtain ⟨before, rfl, hbefore⟩ := hprogram.command_append
  refine ⟨before, later, rfl, ?_⟩
  rintro front rest rfl hfront
  have hflagged := parse_flagged hbefore hgiven hinvocation hcommand hmode hfront
  refine ⟨hflagged, ?_⟩
  rw [run, run, h, hflagged]
  simp only [Invocation.run, hcommand, runResolve_inMode]

end Flagged

end CommandLine

/-! ### Suspending is not observed -/

/-- **Suspending is not observed.** Over any history of a registry, with the tree and the
environment changing between its calls, calls that suspend over files of which the same is reported
give back what calls that block give back, errors included, and leave the same registry after every
operation. An accepted command line that resolves ends as it does with the flag that suspends, at
any place of the command where it is no value of another option and no operand. -/
theorem suspending_unobserved :
    (∀ (registry : Registry) (operations others : List Operation),
      List.Forall₂ Operation.Suspends operations others →
        registry.transcript others = registry.transcript operations) ∧
    ∀ {m : Type → Type} [Monad m] [LawfulMonad m] (disk : Disk m) (env : Environment) (here : Text)
      (arguments : List Text) (accepted : CommandLine.Invocation) (request : CommandLine.Request),
      CommandLine.parse env here arguments = .ok accepted →
      accepted.command = .resolve request → request.mode = .blocking →
      ∃ before later, arguments = before ++ ("resolve" : Text) :: later ∧
        ∀ front rest, later = front ++ rest → CommandLine.Complete .resolve front →
          let flagged := before ++ ("resolve" : Text) :: (front ++ ("--async" : Text) :: rest)
          CommandLine.parse env here flagged =
              .ok { accepted with command := .resolve (request.inMode .suspending) } ∧
            CommandLine.run disk env here flagged = CommandLine.run disk env here arguments :=
  ⟨fun registry _ _ h => registry.transcript_suspends h,
    fun disk _ _ _ _ _ h hcommand hmode => CommandLine.run_flagged disk h hcommand hmode⟩

/-- A host that asks about a file twice and sets extensions in between, with the mode of its second
call left open. -/
def asks (mode : Mode) : List Operation :=
  [.call Registry.neighbours (.absolute .blocking "x" (some "/lib/a.ts")),
    .extensions [".js"],
    .call Registry.neighbours (.relative mode "x" "/none/b.ts")]

theorem suspending_unobserved_neighbours :
    (∀ registry : Registry,
      registry.transcript (asks .suspending) = registry.transcript (asks .blocking)) ∧
    let disk := Registry.neighbours.disk
    CommandLine.run disk Registry.neighbours.env "/app" ["resolve", "x", "--async", "--json"] =
      CommandLine.run disk Registry.neighbours.env "/app" ["resolve", "x", "--json"] := by
  have hasks : List.Forall₂ Operation.Suspends (asks .blocking) (asks .suspending) :=
    .cons (.same _) (.cons (.same _)
      (.cons (.call _ (.relative .blocking "x" "/none/b.ts") rfl rfl) .nil))
  refine ⟨fun registry => suspending_unobserved.1 registry _ _ hasks, ?_⟩
  obtain ⟨before, later, harguments, hflagged⟩ :=
    suspending_unobserved.2 Registry.neighbours.disk Registry.neighbours.env "/app"
      ["resolve", "x", "--json"] _ _ rfl rfl rfl
  obtain ⟨rfl, rfl⟩ : before = [] ∧ later = ["x", "--json"] := by
    rcases before with _ | ⟨first, _ | ⟨second, _ | ⟨third, others⟩⟩⟩
    · exact ⟨rfl, (List.cons.inj harguments).2.symm⟩
    · cases harguments
    · cases harguments
    · cases others <;> cases harguments
  exact (hflagged ["x"] ["--json"] rfl ⟨by decide, _, rfl⟩).2

end PathAlias
