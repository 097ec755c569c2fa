import FoldingProtocol.Proofs.ConfigPlace
import FoldingProtocol.Proofs.GivenSwitches
import FoldingProtocol.Proofs.MergedKeys
import FoldingProtocol.Proofs.PrintedRanges
import FoldingProtocol.Proofs.SavedConfig

/-!
# An existing configuration is kept

Of all that a run does, one thing changes files, and it is done last: by the command for
the configuration, with the switch to make one, where none is found. So the files after a
run are the files before it, or the run is such a call. Then it succeeds, and what it
puts at the place of the configuration loads as the defaults. Nor does such a call succeed
in another way: what stops it is a failure, and no help page is shown.

The defaults load again as they are, and not only up to the order of members. What was
saved is merged into the defaults when it is loaded, so the order is that of the defaults,
and there are no arrays in them whose items could be in another order.
-/

namespace FoldingProtocol

/-! ## The saved defaults -/

namespace Config

open Value

/-- A value without arrays. -/
inductive ArrayFree : Value → Prop where
  | null : ArrayFree .null
  | bool (b : Bool) : ArrayFree (.bool b)
  | int (n : Int) : ArrayFree (.int n)
  | float (x : Binary64) : ArrayFree (.float x)
  | str (s : String) : ArrayFree (.str s)
  | moment (m : Moment) : ArrayFree (.moment m)
  | obj {ms : Members} (hmembers : ∀ m ∈ ms, ArrayFree m.2) : ArrayFree (.obj ms)

/-- Over a table its own settings are no news, whatever their order. -/
theorem settingOver_of_reordered {v w : Value} (h : Reordered v w) (hv : ArrayFree v)
    (hw : w.Distinct) : settingOver (some v) w = v := by
  induction h with
  | leaf _ hobj => exact settingOver_of_leaf hobj _
  | arr => cases hv
  | @obj ms ns hbound _ ih =>
      have hmembers : ∀ m ∈ ms, ArrayFree m.2 := by
        cases hv with
        | obj hmembers => exact hmembers
      refine congrArg Value.obj (merge_eq_self fun m hm => ?_)
      have hn : ns.get? m.1 = some m.2 := (Members.get?_eq_some hw.keys).mpr hm
      obtain ⟨x, hx⟩ := Option.isSome_iff_exists.mp ((hbound m.1).trans (by rw [hn]; rfl))
      exact ⟨x, hx, ih m.1 x m.2 hx hn (hmembers _ (Members.mem_of_get? hx)) (hw.of_get? hn)⟩

theorem arrayFree_defaults : ArrayFree (.obj defaults) := by
  refine .obj ?_
  simp only [defaults, List.forall_mem_cons]
  refine ⟨.obj (List.forall_mem_singleton.mpr (.str _)), .obj ?_, List.forall_mem_nil _⟩
  simp only [List.forall_mem_cons]
  exact ⟨.bool _, .int _, .bool _, .str _, .bool _, List.forall_mem_nil _⟩

/-- The defaults load again as they were saved. -/
theorem load_save_defaults (path : FilePath) :
    load path (some (save defaults).1) = .ok defaults := by
  obtain ⟨settings, hspelled, hsame⟩ :=
    spelled_write (sound_defaults.writable (.obj short_defaults))
  have hdistinct := (Toml.sound_read hspelled).deeplyDistinct
  have hmerge : merge defaults settings = defaults :=
    Value.obj.inj (settingOver_of_reordered hsame arrayFree_defaults hdistinct)
  have hcheck : check defaults = .ok () := rfl
  rw [save, load_of_settings hspelled, hmerge, hcheck]

end Config

namespace CommandLine

/-! ## What a run leaves -/

/-- The files after something are the files before it. -/
def Keeps (env : Environment) (x : Except Stop Effect) : Prop :=
  ∀ effect, x = .ok effect → effect.files = env.files

section

variable {env : Environment} {effect : Effect} {settings : Settings} {json : Bool}
  {command : Command} {args rest : List String}

theorem keeps_error (stop : Stop) : Keeps env (.error stop) := nofun

theorem keeps_of_files (h : effect.files = env.files) : Keeps env (.ok effect) := by
  rintro _ ⟨⟩
  exact h

theorem keeps_bind {α : Type} {x : Except Stop α} {f : α → Except Stop Effect}
    (hf : ∀ a, Keeps env (f a)) : Keeps env (x >>= f) := by
  cases x with
  | ok a => exact hf a
  | error stop => exact keeps_error stop

theorem keeps_runRequest (env : Environment) (json : Bool) (settings : Settings) (path : String) :
    Keeps env (runRequest env json settings path) := by
  unfold runRequest
  split
  · exact keeps_error _
  · exact keeps_bind fun _ => keeps_of_files rfl

theorem keeps_runRanges (env : Environment) (json : Bool) (settings : Settings)
    (source : String × Utf8.Bytes) : Keeps env (runRanges env json settings source) := by
  unfold runRanges
  exact keeps_bind fun _ => keeps_bind fun _ => keeps_bind fun _ => keeps_bind fun _ =>
    keeps_bind fun _ => keeps_bind fun _ => keeps_of_files rfl

theorem keeps_runCapabilities (env : Environment) : Keeps env (runCapabilities env) := by
  unfold runCapabilities
  refine keeps_bind fun config => ?_
  split
  · exact keeps_bind fun _ => keeps_of_files rfl
  · exact keeps_error _
  · exact keeps_error _

/-- The defaults are saved, where no file is found at the path of the configuration. -/
structure Saves (env : Environment) (effect : Effect) : Prop where
  absent : ∀ contents, env.configFound ≠ .file contents
  saved : env.saveConfig Config.defaults = .ok effect.files
  storage : effect.storage = .plain

theorem keeps_runConfig (hinit : settings.init = false) : Keeps env (runConfig env settings) := by
  cases hfound : env.configFound with
  | file =>
      simp only [runConfig, hfound, hinit]
      exact keeps_bind fun _ => keeps_of_files rfl
  | directory =>
      simp only [runConfig, hfound, hinit]
      exact keeps_error _
  | missing | throughFile =>
      simp only [runConfig, hfound, hinit]
      exact keeps_of_files rfl

theorem saves_of_init (hinit : settings.init = true) (h : runConfig env settings = .ok effect) :
    Saves env effect := by
  cases hfound : env.configFound with
  | file | directory =>
      simp only [runConfig, hfound, hinit] at h
      cases h
  | missing | throughFile =>
      simp only [runConfig, hfound, hinit] at h
      obtain ⟨files, hsave, h⟩ := bind_eq_ok.mp h
      cases h
      exact ⟨by rw [hfound]; exact fun _ => nofun, hsave, rfl⟩

theorem runCommand_config {given : Sorted}
    (hgiven : sort Command.config.switches true args = .ok given)
    (hhelp : given.has .help = false) :
    runCommand env json .config args =
      (given.settings.mapError (.usage (some .config))).bind fun settings =>
        (noExtras .config given.rest).bind fun _ => runConfig env settings := by
  simp only [runCommand, hgiven, hhelp, Except.mapError, bind, Except.bind, Bool.false_eq_true,
    if_false]

theorem runCommand_cases (h : runCommand env json command args = .ok effect) :
    effect.files = env.files ∨
      command = .config ∧ ∃ given, sort Command.config.switches true args = .ok given ∧
        given.has .init = true ∧ given.has .help = false ∧ Saves env effect := by
  unfold runCommand at h
  obtain ⟨given, hgiven, h⟩ := bind_eq_ok.mp h
  cases hhelp : given.has .help with
  | true =>
      rw [hhelp] at h
      cases h
  | false =>
      simp only [hhelp, Bool.false_eq_true, if_false] at h
      obtain ⟨settings, hsettings, h⟩ := bind_eq_ok.mp h
      cases command with
      | request =>
          exact .inl (keeps_bind (fun _ => keeps_bind fun _ => keeps_bind fun _ =>
            keeps_runRequest env json settings _) effect h)
      | ranges =>
          exact .inl (keeps_bind (fun _ => keeps_bind fun _ => keeps_bind fun _ =>
            keeps_runRanges env json settings _) effect h)
      | capabilities =>
          exact .inl (keeps_bind (fun _ => keeps_runCapabilities env) effect h)
      | config =>
          obtain ⟨_, -, h⟩ := bind_eq_ok.mp h
          cases hinit : settings.init with
          | false => exact .inl (keeps_runConfig hinit effect h)
          | true =>
              have hasked := (init_iff_has (mapError_eq_ok.mp hsettings)).mp hinit
              exact .inr ⟨rfl, given, mapError_eq_ok.mp hgiven, hasked, hhelp,
                saves_of_init hinit h⟩

theorem findCommand_eq_ok (h : findCommand args = .ok (command, rest)) :
    args = command.name :: rest := by
  cases args with
  | nil => cases h
  | cons name args =>
      cases hname : Command.ofName? name with
      | some found =>
          simp only [findCommand, hname] at h
          cases h
          have heq : command.name = name := by simpa using List.find?_some hname
          rw [heq]
      | none =>
          simp only [findCommand, hname] at h
          split at h
          · obtain ⟨_, -, h⟩ := bind_eq_ok.mp h
            cases h
          · cases h

/-- A run that gives something has sorted its arguments, found a command, and run it. -/
theorem runProgram_eq_ok {level : Nat} (h : runProgram env args = .ok (level, effect)) :
    ∃ sorted command rest, sortProgram args = .ok sorted ∧
      findCommand sorted.rest = .ok (command, rest) ∧
      runCommand env (sorted.has .json) command rest = .ok effect := by
  unfold runProgram at h
  dsimp only at h
  split at h
  · cases h
  obtain ⟨sorted, hsort, h⟩ := bind_eq_ok.mp h
  obtain ⟨⟨command, rest⟩, hcommand, h⟩ := bind_eq_ok.mp h
  obtain ⟨_, -, h⟩ := bind_eq_ok.mp h
  obtain ⟨_, hrun, h⟩ := bind_eq_ok.mp h
  cases h
  exact ⟨sorted, command, rest, hsort, hcommand, hrun⟩

theorem sortProgram_eq_ok {sorted : Sorted} (h : sortProgram args = .ok sorted) :
    sort programSwitches false args = .ok sorted := by
  unfold sortProgram at h
  obtain ⟨found, hsort, h⟩ := bind_eq_ok.mp h
  split at h
  · cases h
  · cases h
    exact mapError_eq_ok.mp hsort

end

theorem files_result (files : FileTree) (stop : Stop) : (stop.result files).files = files := by
  cases stop <;> rfl

/-! ### What stops a call that makes a configuration is no help page. -/

theorem earnest_noExtras (command : Command) (extras : List String) :
    Earnest (noExtras command extras) := by
  cases extras with
  | nil => exact earnest_ok _
  | cons => exact earnest_error nofun

theorem earnest_saveConfig (env : Environment) (config : Members) :
    Earnest (env.saveConfig config) := by
  unfold Environment.saveConfig
  dsimp only
  split
  · exact earnest_error nofun
  · split
    · exact earnest_error nofun
    · exact earnest_ok _

theorem earnest_runConfig (env : Environment) (settings : Settings) :
    Earnest (runConfig env settings) := by
  unfold runConfig
  dsimp only
  split
  · exact earnest_error nofun
  · exact earnest_error nofun
  · exact earnest_bind (earnest_saveConfig _ _) fun _ => earnest_ok _
  · exact earnest_bind (earnest_readText _) fun _ => earnest_ok _
  · exact earnest_error nofun
  · exact earnest_ok _

theorem earnest_runCommand_config {given : Sorted} {json : Bool} (env : Environment)
    {args : List String} (hgiven : sort Command.config.switches true args = .ok given)
    (hhelp : given.has .help = false) : Earnest (runCommand env json .config args) := by
  rw [runCommand_config hgiven hhelp]
  refine earnest_bind (earnest_mapError _ ?_) fun settings => ?_
  · rintro _ _ ⟨⟩
  · exact earnest_bind (earnest_noExtras _ _) fun _ => earnest_runConfig env settings

/-! ## Calls that make a configuration -/

/-- The command for the configuration is called with the switch to make one, which is spelled
behind it, and without a call for help. -/
inductive CallsInit (args : List String) : Prop where
  | intro {before after : List String} {sorted given : Sorted}
      (hargs : args = before ++ "config" :: after) (hspelled : "--init" ∈ after)
      (hsort : sortProgram args = .ok sorted) (hrest : sorted.rest = "config" :: after)
      (hgiven : sort Command.config.switches true after = .ok given)
      (hinit : given.has .init = true) (hhelp : given.has .help = false) : CallsInit args

/-- The program as it would be found by the next run. -/
def Environment.after (env : Environment) (out : Result) : Environment :=
  { env with files := out.files }

/-- A run makes a configuration where there is none: it is called to, succeeds, and puts at the
place of the configuration contents that load as the defaults. The next run has the defaults
for its configuration. Along a path without two dots nothing was at that place before, and the
next run finds what was put there. -/
structure Creates (env : Environment) (args : List String) (out : Result)
    (contents : Utf8.Bytes) : Prop where
  absent : ∀ contents, env.configFound ≠ .file contents
  calls : CallsInit args
  exitCode : out.exitCode = 0
  escaped : out.escaped = none
  files : out.files = env.files.put env.configPlace contents
  loads : Config.load env.configPath (some contents) = .ok Config.defaults
  config : env.configPath.Spelled → (env.after out).config = .ok Config.defaults
  found : env.configPath.Direct → env.files.get? env.configPlace = none ∧
    (env.after out).configFound = .file contents

/-- What a run does to the configuration: one that is found stays as it is, any change is the
making of one, and a call to make one that succeeds does make it. -/
structure Spares (env : Environment) (args : List String) (out : Result) : Prop where
  kept : ∀ contents, env.configFound = .file contents →
    out.files = env.files ∧ (env.after out).configFound = .file contents
  created : out.files = env.files ∨ ∃ contents, Creates env args out contents
  made : CallsInit args → out.exitCode = 0 → ∃ contents, Creates env args out contents

section

variable {env : Environment} {args rest : List String} {sorted given : Sorted} {effect : Effect}

theorem callsInit_of_has (hsort : sortProgram args = .ok sorted)
    (hcommand : findCommand sorted.rest = .ok (.config, rest))
    (hgiven : sort Command.config.switches true rest = .ok given)
    (hinit : given.has .init = true) (hhelp : given.has .help = false) : CallsInit args := by
  have hrest : sorted.rest = "config" :: rest := findCommand_eq_ok hcommand
  obtain ⟨before, hargs⟩ := rest_suffix_of_sort (sortProgram_eq_ok hsort)
  rw [hrest] at hargs
  have hplain : Switch.init.Plain := ⟨rfl, rfl⟩
  have hspelled := spelling_mem_of_sort hgiven (Sorted.has_iff.mp hinit) hplain
  exact .intro hargs.symm hspelled hsort hrest hgiven hinit hhelp

theorem creates_of_saves {out : Result} (hcalls : CallsInit args) (hsaves : Saves env effect)
    (hexit : out.exitCode = 0) (hescaped : out.escaped = none)
    (hfiles : out.files = effect.files) :
    Creates env args out (Config.save Config.defaults).1 := by
  obtain ⟨hput, hreach⟩ := Environment.saveConfig_eq_ok hsaves.saved
  have hloads := Config.load_save_defaults env.configPath
  have hafter : env.after out = env.holding (Config.save Config.defaults).1 := by
    rw [Environment.after, hfiles, hput]
    rfl
  refine ⟨hsaves.absent, hcalls, hexit, hescaped, hfiles.trans hput, hloads, fun hpath => ?_,
    fun hpath => ⟨?_, ?_⟩⟩
  · rw [hafter]
    exact Environment.config_holding hpath hloads (Config.load_none _)
  · -- A file that was there would have been found.
    cases hget : env.files.get? env.configPlace with
    | none => rfl
    | some contents =>
        exact absurd (Environment.configFound_of_get? hpath hreach hget) (hsaves.absent contents)
  · rw [hafter]
    exact Environment.configFound_holding hpath hreach _

theorem files_or_creates (env : Environment) (args : List String) :
    (run env args).files = env.files ∨ ∃ contents, Creates env args (run env args) contents := by
  cases hrun : runProgram env args with
  | error stop =>
      rw [run, hrun]
      exact .inl (files_result env.files stop)
  | ok shown =>
      obtain ⟨level, effect⟩ := shown
      obtain ⟨sorted, command, rest, hsort, hcommand, heffect⟩ := runProgram_eq_ok hrun
      rw [run_of_ok hrun]
      rcases runCommand_cases heffect with hfiles | ⟨rfl, given, hgiven, hinit, hhelp, hsaves⟩
      · exact .inl ((effect.files_result _).trans hfiles)
      · have hcalls := callsInit_of_has hsort hcommand hgiven hinit hhelp
        rw [Effect.result_of_plain _ hsaves.storage]
        exact .inr ⟨_, creates_of_saves hcalls hsaves rfl rfl rfl⟩

/-- A call to make a configuration does nothing else if it succeeds. -/
theorem creates_of_calls (hcalls : CallsInit args) (hexit : (run env args).exitCode = 0) :
    ∃ contents, Creates env args (run env args) contents := by
  have hcalled := hcalls
  cases hcalled with
  | @intro before after sorted given _ _ hsort hrest hgiven hinit hhelp =>
      have hcommand : findCommand sorted.rest = .ok (.config, after) := by
        rw [hrest]
        rfl
      have hprogram : runProgram env args = _ := runProgram_of_command hsort hcommand
      cases hrun : runProgram env args with
      | ok shown =>
          obtain ⟨level, effect⟩ := shown
          rw [hrun, runCommand_config hgiven hhelp] at hprogram
          obtain ⟨_, -, h⟩ := bind_eq_ok.mp hprogram.symm
          obtain ⟨found, h, heffect⟩ := bind_eq_ok.mp h
          obtain ⟨settings, hsettings, h⟩ := bind_eq_ok.mp h
          obtain ⟨_, -, h⟩ := bind_eq_ok.mp h
          cases heffect
          have hasked := (init_iff_has (mapError_eq_ok.mp hsettings)).mpr hinit
          have hsaves := saves_of_init hasked h
          rw [run_of_ok hrun, Effect.result_of_plain _ hsaves.storage]
          exact ⟨_, creates_of_saves hcalls hsaves rfl rfl rfl⟩
      | error stop =>
          -- An error that ends well is a help page, and the call asks for none.
          rw [run, hrun] at hexit
          obtain ⟨scope, rfl⟩ := (exitCode_result _ _).mp hexit
          have hearnest : Earnest (runProgram env args) := by
            rw [hprogram]
            refine earnest_bind (earnest_threshold env sorted) fun level => ?_
            exact earnest_bind (earnest_runCommand_config env hgiven hhelp) fun effect =>
              earnest_ok (level, effect)
          exact absurd hrun (hearnest scope)

end

/-- Whatever the arguments, the input and the files, and whether the configuration is valid or
not: a run leaves it as it is, and where there is none, just the calls to make one that succeed
make one, which loads as the defaults. -/
theorem run_spares_configuration (env : Environment) (args : List String) :
    Spares env args (run env args) := by
  have hcases := files_or_creates env args
  refine ⟨fun contents hfound => ?_, hcases, creates_of_calls⟩
  have hfiles : (run env args).files = env.files := by
    refine hcases.resolve_right ?_
    rintro ⟨_, hcreates⟩
    exact hcreates.absent contents hfound
  refine ⟨hfiles, ?_⟩
  rw [Environment.after, hfiles]
  exact hfound

/-- Where nothing is found and the directory can be made, the call makes a configuration. -/
theorem run_init_of_absent {env : Environment} {files : FileTree}
    (habsent : env.configFound = .missing ∨ env.configFound = .throughFile)
    (hsave : env.saveConfig Config.defaults = .ok files) :
    run env ["config", "--init"] =
      ⟨0, printed ("Wrote default config to " ++ String.ofList env.configPath.text ++ "\n"), "",
        none, files⟩ := by
  have hargs : runProgram env ["config", "--init"] = (configThreshold env).bind fun level =>
      (runConfig env { Settings.standard with init := true }).bind fun effect =>
        .ok (level, effect) := rfl
  have hconfig : env.config = .ok Config.defaults := by
    rcases habsent with hfound | hfound <;>
      simp only [Environment.config, hfound, Config.load_none, bind, Except.bind]
  have hlevel : configThreshold env = .ok 30 := by
    simp only [configThreshold, threshold, hconfig]
    rfl
  have hrun : runConfig env { Settings.standard with init := true } =
      .ok ⟨"Wrote default config to " ++ String.ofList env.configPath.text ++ "\n", [], files,
        .plain⟩ := by
    rcases habsent with hfound | hfound <;>
      simp only [runConfig, hfound, hsave, bind, Except.bind]
  rw [run, hargs, hlevel, hrun]
  rfl

/-- A configuration is made where there is none, and one that is no text is kept. -/
theorem init_makes_and_keeps :
    let bare := onInput ""
    let broken := bare.holding [255]
    (∃ contents, Creates bare ["config", "--init"] (run bare ["config", "--init"]) contents) ∧
      broken.config = .error (.escape .notText) ∧
      (run broken ["--log-level", "info", "config", "--init"]).exitCode = 1 ∧
      ((broken.after (run broken ["--log-level", "info", "config", "--init"])).configFound =
        .file [255]) := by
  intro bare broken
  refine ⟨?_, rfl, rfl, ((run_spares_configuration broken _).kept [255] rfl).2⟩
  refine (run_spares_configuration bare _).created.resolve_left ?_
  have hrun : run bare ["config", "--init"] = _ := run_init_of_absent (.inl rfl) rfl
  rw [hrun]
  exact nofun

end CommandLine

end FoldingProtocol
