import FoldingProtocol.CommandLine.Run
import FoldingProtocol.Proofs.AcceptedConfig
import FoldingProtocol.Proofs.Fitting
import FoldingProtocol.Proofs.JsonRoundTrip
import FoldingProtocol.Proofs.RequestRoundTrip

/-!
# A run of the ranges command

A run goes through stages, each of which may stop it: the arguments are sorted,
the configuration says from which level on records are shown, the response is
found and read, a result is decoded from it, and the result is fitted to the
client. Here the stages of a run of one command are put next to each other, with
what each of them gives where it does not stop.
-/

namespace FoldingProtocol.CommandLine

/-- The arguments of the ranges command lead to a response, and ask for settings. -/
inductive Asks (env : Environment) (args : List String) :
    Settings → String × Utf8.Bytes → Prop where
  | intro {sorted : Sorted} {settings : Settings} {path : String} {source : String × Utf8.Bytes}
      (hsort : sort Command.ranges.switches true args = .ok sorted)
      (hhelp : sorted.has .help = false) (hsettings : sorted.settings = .ok settings)
      (hrest : sorted.rest = [path]) (hsource : env.source path = .ok source) :
      Asks env args settings source

/-- The switches of the program for an output format. -/
def formatSwitches (json : Bool) : List String := if json then ["--json"] else []

/-- The level that the configuration sets. -/
def configThreshold (env : Environment) : Except Stop Nat := threshold env ⟨[], []⟩

/-- Arguments that lead to a command are some arguments, and the command is run on what is
left of them. -/
theorem runProgram_of_command {env : Environment} {args rest : List String} {sorted : Sorted}
    {command : Command} (hsort : sortProgram args = .ok sorted)
    (hcommand : findCommand sorted.rest = .ok (command, rest)) :
    runProgram env args =
      (threshold env sorted).bind fun level =>
        (runCommand env (sorted.has .json) command rest).bind fun effect => .ok (level, effect) := by
  have hsome : args.isEmpty = false := by
    cases args with
    | nil =>
        cases hsort
        cases hcommand
    | cons _ _ => rfl
  simp only [runProgram, hsome, hsort, hcommand, bind, Except.bind, Bool.false_eq_true, if_false]

theorem runProgram_ranges (env : Environment) (json : Bool) (args : List String) :
    runProgram env (formatSwitches json ++ "ranges" :: args) =
      (configThreshold env).bind fun level =>
        (runCommand env json .ranges args).bind fun effect => .ok (level, effect) := by
  cases json with
  | true => rfl
  | false => rfl

section

variable {env : Environment} {args : List String} {settings : Settings}
  {source : String × Utf8.Bytes}

theorem runCommand_of_asks (json : Bool) (h : Asks env args settings source) :
    runCommand env json .ranges args = runRanges env json settings source := by
  cases h with
  | intro hsort hhelp hsettings hrest hsource =>
      simp only [runCommand, hsort, hhelp, hsettings, hrest, takeArgument, hsource, noExtras,
        Except.mapError, bind, Except.bind, Bool.false_eq_true, if_false]

end

/-! ## Effects -/

theorem Effect.result_of_printed {effect : Effect} {output : String} (errors : String)
    (h : printedIn effect.storage effect.output = some output) :
    effect.result errors = ⟨0, output, errors, none, effect.files⟩ := by
  rw [result, h]

theorem Effect.result_of_torn {effect : Effect} (errors : String)
    (h : printedIn effect.storage effect.output = none) :
    effect.result errors = ⟨1, "", errors, some .tornText, effect.files⟩ := by
  rw [result, h]

theorem Effect.result_of_plain {effect : Effect} (errors : String)
    (h : effect.storage = .plain) :
    effect.result errors = ⟨0, CommandLine.printed effect.output, errors, none, effect.files⟩ :=
  result_of_printed errors (by rw [h]; rfl)

theorem Effect.files_result (effect : Effect) (errors : String) :
    (effect.result errors).files = effect.files := by
  unfold result
  split <;> rfl

theorem run_of_ok {env : Environment} {args : List String} {level : Nat} {effect : Effect}
    (h : runProgram env args = .ok (level, effect)) :
    run env args = effect.result
      (String.join ((Log.atLeast level effect.records).map (recordLine env.timestamp))) := by
  rw [run, h]

theorem run_of_stop {env : Environment} {args : List String} {stop : Stop}
    (h : runProgram env args = .error stop) : run env args = stop.result env.files := by
  rw [run, h]

/-! ## Stops that are no call for help -/

theorem exitCode_result (files : FileTree) (stop : Stop) :
    (stop.result files).exitCode = 0 ↔ ∃ scope, stop = .help scope := by
  cases stop with
  | help scope => exact ⟨fun _ => ⟨scope, rfl⟩, fun _ => rfl⟩
  | noArguments | usage | failure | rejection | escape =>
      exact ⟨nofun, fun ⟨_, h⟩ => by cases h⟩

theorem run_of_failure {env : Environment} {args : List String} {message : String}
    (h : runProgram env args = .error (.failure message)) :
    run env args = ⟨1, "", printed ("Error: " ++ message ++ "\n"), none, env.files⟩ :=
  run_of_stop h

/-- What never shows a help page. -/
def Earnest {α : Type} (x : Except Stop α) : Prop := ∀ scope, x ≠ .error (.help scope)

theorem earnest_bind {α β : Type} {x : Except Stop α} {f : α → Except Stop β} (hx : Earnest x)
    (hf : ∀ a, Earnest (f a)) : Earnest (x >>= f) := by
  cases x with
  | ok a => exact hf a
  | error stop => exact fun scope h => hx scope (by cases h; rfl)

theorem earnest_ok {α : Type} (a : α) : Earnest (.ok a) := fun _ => nofun

theorem earnest_error {α : Type} {stop : Stop} (h : ∀ scope, stop ≠ .help scope) :
    Earnest (.error stop : Except Stop α) :=
  fun scope heq => h scope (by cases heq; rfl)

theorem earnest_mapError {ε α : Type} (x : Except ε α) {f : ε → Stop}
    (h : ∀ e scope, f e ≠ .help scope) : Earnest (x.mapError f) := by
  cases x with
  | ok a => exact earnest_ok a
  | error e => exact earnest_error (h e)

theorem earnest_config (env : Environment) : Earnest env.config := by
  unfold Environment.config
  dsimp only
  split
  all_goals
    dsimp only [bind, Except.bind]
    first
      | exact earnest_error nofun
      | split
        · exact earnest_ok _
        all_goals exact earnest_error nofun

theorem earnest_readText (contents : Utf8.Bytes) : Earnest (readText contents) := by
  unfold readText
  split
  · exact earnest_ok _
  · exact earnest_error nofun

theorem earnest_readJson (name : String) (contents : Utf8.Bytes) :
    Earnest (readJson name contents) := by
  refine earnest_bind (earnest_readText contents) fun cs => ?_
  split
  · exact earnest_ok _
  · exact earnest_error nofun
  · exact earnest_error nofun

theorem earnest_shown (text? : Option String) : Earnest (shown text?) := by
  cases text? with
  | none => exact earnest_error nofun
  | some text => exact earnest_ok text

theorem failureStop_ne_help (failure : FoldingRequest.Failure) (scope : Scope) :
    failureStop failure ≠ .help scope := by
  cases failure with
  | refused refusal => cases refusal <;> exact nofun
  | notResponse | malformedError | error | notShowable => exact nofun

theorem earnest_runRanges (env : Environment) (json : Bool) (settings : Settings)
    (source : String × Utf8.Bytes) : Earnest (runRanges env json settings source) := by
  unfold runRanges
  refine earnest_bind (earnest_config env) fun config => ?_
  refine earnest_bind (earnest_readJson _ _) fun v => ?_
  refine earnest_bind (earnest_mapError _ failureStop_ne_help) fun result => ?_
  refine earnest_bind (earnest_mapError _ fun _ _ => nofun) fun capabilities => ?_
  refine earnest_bind (earnest_mapError _ fun _ _ => nofun) fun fit => ?_
  exact earnest_bind (earnest_shown _) fun text => earnest_ok _

theorem earnest_threshold (env : Environment) (sorted : Sorted) :
    Earnest (threshold env sorted) := by
  unfold threshold
  dsimp only
  split
  · refine earnest_bind (earnest_ok _) fun level => ?_
    split
    · exact earnest_ok _
    · exact earnest_error nofun
  · refine earnest_bind (earnest_config env) fun config => ?_
    split
    all_goals
      refine earnest_bind (earnest_ok _) fun level => ?_
      split
      · exact earnest_ok _
      · exact earnest_error nofun

/-! ## What a run comes to -/

/-- The settings and the response of a run come to a result, with some records
written on the way. -/
inductive ComesTo (env : Environment) (settings : Settings) (source : String × Utf8.Bytes) :
    Option FoldingRangeList → List Log.Record → Prop where
  | intro {config : Members} {v : Value} {result fit : Option FoldingRangeList}
      {capabilities : FoldingClientCapabilities} {records : List Log.Record}
      (hconfig : env.config = .ok config) (hread : readJson source.1 source.2 = .ok v)
      (hresult : decodeAnswer v = .ok result)
      (hcapabilities : clientCapabilities config settings = .ok capabilities)
      (hfit : capabilities.apply (offsetPolicy config settings)
        (settings.truncate || (foldingSetting config "truncate").isTruthy) result =
          .ok (fit, records)) :
      ComesTo env settings source fit records

/-- The format that a switch chooses. -/
def formatOf (json : Bool) : OutputFormat := if json then .json else .plain

section

variable {env : Environment} {settings : Settings} {source : String × Utf8.Bytes}
  {fit : Option FoldingRangeList} {records : List Log.Record}

/-- What the command does with a result that it comes to: it prints it, if its numbers can be
shown. -/
theorem runRanges_of_comesTo (json : Bool) (h : ComesTo env settings source fit records) :
    runRanges env json settings source =
      (shown ((Output.ofRanges fit).render .marked (formatOf json))).map fun text =>
        ⟨text ++ "\n", records, env.files, .marked⟩ := by
  cases h with
  | intro hconfig hread hresult hcapabilities hfit =>
      simp only [runRanges, hconfig, hread, hresult, hcapabilities, hfit, Except.mapError, bind,
        Except.bind]
      rfl

theorem comesTo_of_runRanges {json : Bool} {effect : Effect}
    (h : runRanges env json settings source = .ok effect) :
    ∃ fit records, ComesTo env settings source fit records := by
  unfold runRanges at h
  obtain ⟨config, hconfig, h⟩ := bind_eq_ok.mp h
  obtain ⟨v, hread, h⟩ := bind_eq_ok.mp h
  obtain ⟨result, hresult, h⟩ := bind_eq_ok.mp h
  obtain ⟨capabilities, hcapabilities, h⟩ := bind_eq_ok.mp h
  obtain ⟨⟨fit, records⟩, hfit, -⟩ := bind_eq_ok.mp h
  exact ⟨fit, records, .intro hconfig hread (mapError_eq_ok.mp hresult)
    (mapError_eq_ok.mp hcapabilities) (mapError_eq_ok.mp hfit)⟩

end

/-- A run that succeeds, with arguments that lead to a response, comes to a result. -/
theorem comesTo_of_exitCode {env : Environment} {args : List String} {settings : Settings}
    {source : String × Utf8.Bytes} (json : Bool) (hargs : Asks env args settings source)
    (h : (run env (formatSwitches json ++ "ranges" :: args)).exitCode = 0) :
    ∃ level fit records, configThreshold env = .ok level ∧
      ComesTo env settings source fit records := by
  rw [run, runProgram_ranges, runCommand_of_asks json hargs] at h
  split at h
  · next hrun =>
      obtain ⟨level, hlevel, hrun⟩ := bind_eq_ok.mp hrun
      obtain ⟨effect, hranges, -⟩ := bind_eq_ok.mp hrun
      obtain ⟨fit, records, hcomes⟩ := comesTo_of_runRanges hranges
      exact ⟨level, fit, records, hlevel, hcomes⟩
  · next stop hrun =>
      obtain ⟨scope, rfl⟩ := (exitCode_result _ _).mp h
      have hearnest := earnest_bind (earnest_threshold env ⟨[], []⟩) fun level =>
        earnest_bind (earnest_runRanges env json settings source) fun effect =>
          earnest_ok (level, effect)
      exact absurd hrun (hearnest scope)

end FoldingProtocol.CommandLine
