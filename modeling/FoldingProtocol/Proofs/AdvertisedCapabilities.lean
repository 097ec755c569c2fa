import FoldingProtocol.Proofs.ReportedConfig
import FoldingProtocol.Proofs.UsableConfig

/-!
# What is advertised is what is enforced

Three readers look at the folding section of a configuration. One makes the capabilities
that are advertised, and looks all three settings up, with null for one that is absent;
one is given the settings that are there; and the ranges command passes on two of them.
All of them take the same values for capabilities, so they agree on the limit and on
whole lines, which is all that fitting a result looks at.

What is advertised goes through its wire form, where absent capabilities are left out
two objects deep, and through its printed form, where an integer may have too many
digits. A form that comes out reads back to the capabilities that went in.
-/

namespace FoldingProtocol

open Decoder Decoded FoldingProtocol.Field

namespace FoldingClientCapabilities

variable {c : FoldingClientCapabilities} {folding : Members}

/-! ## The settings that are given -/

/-- The settings that are there in a configuration section. -/
def given (folding : Members) : Members :=
  settingFields.filterMap fun field => (folding.get? field.name).map (field.name, ·)

/-- A setting that is not given is read like one that is null. -/
theorem ofSettings_given :
    ofSettings (given folding) = .ok c ↔ c.Takes fun f => .ofOption (folding.get? f.name) := by
  refine ofSettings_of_valueIn (forall_settingFields.mpr ?_)
  simp only [given, settingFields, List.filterMap_cons, List.filterMap_nil]
  generalize folding.get? dynamicRegistrationField.name = register
  generalize folding.get? maximumNumberOfRangesField.name = limit
  generalize folding.get? completeLineFoldingOnlyField.name = lines
  cases register <;> cases limit <;> cases lines <;> exact ⟨rfl, rfl, rfl⟩

/-! ## The wire form -/

theorem encode_advertised (c : FoldingClientCapabilities) :
    c.advertised.encode .wire =
      .obj [("textDocument", .obj [("foldingProvider", c.encode .wire)])] := by
  show Value.obj [("textDocument",
    .obj [("foldingProvider", (c.encode .wire).dumped.dumped)])] = _
  rw [Value.dumped_dumped, Value.dumped_of_isFinite (isFinite_encode c)]

theorem decode_advertised (c : FoldingClientCapabilities) :
    ClientCapabilities.decode (c.advertised.encode .wire) = .accepted c.advertised := by
  have hprovider : Decoder.optional TextDocumentClientCapabilities.foldingProviderField
      FoldingClientCapabilities.decode [("foldingProvider", c.encode .wire)] = .accepted (some c) :=
    optional_iff.mpr (nullable_ofOption readsBack (some c))
  have hdocument : Decoder.optional ClientCapabilities.textDocumentField
      TextDocumentClientCapabilities.decode
        [("textDocument", .obj [("foldingProvider", c.encode .wire)])] =
          .accepted (some ⟨some c, []⟩) :=
    optional_iff.mpr (map_accepted (map_accepted hprovider))
  rw [encode_advertised]
  exact map_accepted hdocument

/-- What is advertised is read as what it was made of. -/
theorem ofValue_advertised (c : FoldingClientCapabilities) :
    ofValue (c.advertised.encode .wire) = .ok c := by
  have hread : (ClientCapabilities.decode (c.advertised.encode .wire)).titled
      "ClientCapabilities" = .ok c.advertised := titled_eq_ok.mpr (decode_advertised c)
  obtain ⟨ms, hms⟩ : ∃ ms, c.advertised.encode .wire = .obj ms := ⟨_, rfl⟩
  rw [hms] at hread ⊢
  rw [ofValue, hread]
  rfl

/-! ## The printed form -/

theorem isShowable_single (key : String) (v : Value) :
    (Value.obj [(key, v)]).isShowable = v.isShowable := Bool.and_true _

/-- Only the limit can be too long to be shown. -/
theorem isShowable_encode (c : FoldingClientCapabilities) :
    (c.encode .wire).isShowable = (Value.ofNat? c.maximumNumberOfRanges).isShowable := by
  obtain ⟨register, limit, lines⟩ := c
  cases limit with
  | none => cases register <;> cases lines <;> rfl
  | some n =>
      have hlimit (more : Bool) (hmore : more = true) :
          (Numeral.isShowable n && more) = (Value.ofNat? (some n)).isShowable := by
        rw [hmore]
        exact Bool.and_true _
      cases register <;> cases lines <;> exact hlimit _ rfl

theorem isShowable_advertised (c : FoldingClientCapabilities) :
    (c.advertised.encode .wire).isShowable =
      (Value.ofNat? c.maximumNumberOfRanges).isShowable := by
  rw [encode_advertised, isShowable_single, isShowable_single, isShowable_encode]

theorem readable_encode {c : FoldingClientCapabilities}
    (h : ∀ n, c.maximumNumberOfRanges = some n → Numeral.Short n) :
    Json.ReadableIn ⟨some Numeral.digitLimit, .plain⟩ (c.encode .wire) := by
  have hapart : Apart [dynamicRegistrationField, maximumNumberOfRangesField,
    completeLineFoldingOnlyField] := by decide
  have hnames : ∀ f ∈ [dynamicRegistrationField, maximumNumberOfRangesField,
    completeLineFoldingOnlyField], Text.mark ∉ f.wire.toList := by decide
  have hflag (b : Option Bool) :
      Json.ReadableIn ⟨some Numeral.digitLimit, .plain⟩ (.ofBool? b) := by
    cases b with
    | none => exact .null
    | some b => exact .bool b
  show Json.ReadableIn _ (.obj (wireMembers [
    (dynamicRegistrationField, .ofBool? c.dynamicRegistration),
    (maximumNumberOfRangesField, .ofNat? c.maximumNumberOfRanges),
    (completeLineFoldingOnlyField, .ofBool? c.completeLineFoldingOnly)]))
  refine readable_wireMembers hapart hnames ?_
  simp only [List.forall_mem_cons]
  exact ⟨hflag _, Value.readable_ofNat? fun n hn => (h n hn).within, hflag _, nofun⟩

theorem readable_advertised {c : FoldingClientCapabilities}
    (h : (c.advertised.encode .wire).isShowable = true) :
    Json.ReadableIn ⟨some Numeral.digitLimit, .plain⟩ (c.advertised.encode .wire) := by
  rw [isShowable_advertised] at h
  have hshort : ∀ n, c.maximumNumberOfRanges = some n → Numeral.Short n := by
    intro n hn
    rw [hn] at h
    exact Numeral.isShowable_iff.mp h
  have hnested {key : String} {v : Value} (hkey : Text.mark ∉ key.toList)
      (hv : Json.ReadableIn ⟨some Numeral.digitLimit, .plain⟩ v) :
      Json.ReadableIn ⟨some Numeral.digitLimit, .plain⟩ (.obj [(key, v)]) :=
    .obj (List.pairwise_singleton _ _)
      (List.forall_mem_singleton.mpr (Text.Storage.plain.holds_of_not_mem hkey))
      (List.forall_mem_singleton.mpr hv)
  rw [encode_advertised]
  exact hnested (by decide) (hnested (by decide) (readable_encode hshort))

/-- Fitting a result does not ask whether registrations are understood. -/
theorem apply_without_register (c : FoldingClientCapabilities) (policy : OffsetPolicy)
    (truncate : Bool) (result : Option FoldingRangeList) :
    { c with dynamicRegistration := none }.apply policy truncate result =
      c.apply policy truncate result := by
  cases result <;> rfl

end FoldingClientCapabilities

/-! ## The two commands -/

namespace CommandLine

open FoldingClientCapabilities

section

variable {env : Environment} {config folding : Members} {c : FoldingClientCapabilities}

theorem clientCapabilities_of_takes (h : c.Takes fun f => foldingSetting config f.name) :
    clientCapabilities config .standard = .ok { c with dynamicRegistration := none } :=
  ofSettings_eq_ok.mpr ⟨rfl, h.limit, h.lines⟩

theorem runProgram_capabilities (env : Environment) :
    runProgram env ["capabilities"] =
      (configThreshold env).bind fun level =>
        (runCapabilities env).bind fun effect => .ok (level, effect) := rfl

theorem runCapabilities_eq_ok (hconfig : env.config = .ok config) {effect : Effect} :
    runCapabilities env = .ok effect ↔
      ∃ advertised, ClientCapabilities.ofConfig (.obj config) = .ok advertised ∧
        (advertised.encode .wire).isShowable = true ∧
        effect = ⟨Json.pretty .plain (advertised.encode .wire) ++ "\n", [], env.files, .plain⟩ := by
  unfold runCapabilities
  rw [hconfig]
  dsimp only [bind, Except.bind]
  cases ClientCapabilities.ofConfig (.obj config) with
  | error failure => cases failure <;> exact ⟨nofun, nofun⟩
  | ok advertised =>
      dsimp only
      rw [Json.pretty?]
      cases hshown : (advertised.encode .wire).isShowable with
      | true =>
          constructor
          · rintro ⟨⟩
            exact ⟨advertised, rfl, hshown, rfl⟩
          · rintro ⟨_, ⟨⟩, -, rfl⟩
            rfl
      | false =>
          refine ⟨nofun, ?_⟩
          rintro ⟨_, ⟨⟩, h, -⟩
          rw [hshown] at h
          cases h

theorem earnest_runCapabilities (env : Environment) : Earnest (runCapabilities env) := by
  refine earnest_bind (earnest_config env) fun config => ?_
  split
  · exact earnest_bind (earnest_shown _) fun text => earnest_ok _
  · exact earnest_error nofun
  · exact earnest_error nofun

theorem storage_runCapabilities {effect : Effect} (h : runCapabilities env = .ok effect) :
    effect.storage = .plain := by
  unfold runCapabilities at h
  obtain ⟨config, -, h⟩ := bind_eq_ok.mp h
  split at h
  · obtain ⟨text, -, h⟩ := bind_eq_ok.mp h
    cases h
    rfl
  · cases h
  · cases h

theorem run_capabilities {level : Nat} {effect : Effect} (hlevel : configThreshold env = .ok level)
    (h : runCapabilities env = .ok effect) :
    (run env ["capabilities"]).exitCode = 0 ∧
      (run env ["capabilities"]).output = printed effect.output := by
  have hrun : runProgram env ["capabilities"] = .ok (level, effect) := by
    rw [runProgram_capabilities, hlevel, h]
    rfl
  rw [run_of_ok hrun, Effect.result_of_plain _ (storage_runCapabilities h)]
  exact ⟨rfl, rfl⟩

theorem exitCode_capabilities {level : Nat} (hlevel : configThreshold env = .ok level) :
    (run env ["capabilities"]).exitCode = 0 ↔ ∃ effect, runCapabilities env = .ok effect := by
  refine ⟨fun h => ?_, fun ⟨effect, heffect⟩ => (run_capabilities hlevel heffect).1⟩
  cases hrun : runCapabilities env with
  | ok effect => exact ⟨effect, rfl⟩
  | error stop =>
      rw [run, runProgram_capabilities, hlevel, hrun] at h
      obtain ⟨scope, rfl⟩ := (exitCode_result _ _).mp h
      exact absurd hrun (earnest_runCapabilities env scope)

/-- Capabilities are printed if the two truth values are taken for such and the limit
is not too long. -/
theorem capabilities_prints_iff (hconfig : env.config = .ok config) :
    (run env ["capabilities"]).exitCode = 0 ↔
      (foldingSetting config "dynamic_registration").ReadsAsFlag ∧
        (foldingSetting config "complete_line_folding_only").ReadsAsFlag ∧
        (foldingSetting config "maximum_number_of_ranges").isShowable = true := by
  obtain ⟨contents, hload⟩ := config_eq_ok hconfig
  obtain ⟨⟨level, hlevel⟩, -⟩ := settings_of_config hconfig
  obtain ⟨folding, register, lines, limit, hoffers⟩ := Config.offers_of_load hload
  obtain ⟨hregister, hlines, hlimit⟩ := hoffers.foldingSetting_eq
  rw [exitCode_capabilities hlevel, hregister, hlines, hlimit, ← and_assoc, ← hoffers.ofConfig_iff]
  have hshown {advertised : ClientCapabilities}
      (h : ClientCapabilities.ofConfig (.obj config) = .ok advertised) :
      (advertised.encode .wire).isShowable = (Value.int limit).isShowable := by
    obtain ⟨c, htakes, rfl⟩ := (ofConfig_obj hoffers.hasFolding).mp h
    have hcount := htakes.limit
    rw [show Members.get? maximumNumberOfRangesField.name folding = some (.int limit) from
      hoffers.hasLimit] at hcount
    have hmaximum : some limit = c.maximumNumberOfRanges := Decoded.accepted.inj hcount
    rw [isShowable_advertised, ← hmaximum]
    rfl
  constructor
  · rintro ⟨effect, heffect⟩
    obtain ⟨advertised, hadvertised, hwire, -⟩ := (runCapabilities_eq_ok hconfig).mp heffect
    exact ⟨⟨advertised, hadvertised⟩, hshown hadvertised ▸ hwire⟩
  · rintro ⟨⟨advertised, hadvertised⟩, hlong⟩
    exact ⟨_, (runCapabilities_eq_ok hconfig).mpr
      ⟨advertised, hadvertised, (hshown hadvertised).trans hlong, rfl⟩⟩

/-- What is printed reads back to what the configuration's settings are taken for. -/
theorem read_printed_capabilities (hconfig : env.config = .ok config)
    (h : (run env ["capabilities"]).exitCode = 0) :
    ∃ v c, Json.readIn ⟨some Numeral.digitLimit, .plain⟩
        (run env ["capabilities"]).output.toList = .ok v ∧ ofValue v = .ok c ∧
      c.Takes fun f => foldingSetting config f.name := by
  obtain ⟨contents, hload⟩ := config_eq_ok hconfig
  obtain ⟨⟨level, hlevel⟩, -⟩ := settings_of_config hconfig
  obtain ⟨⟨folding, -, hfolding, -⟩, -⟩ := Config.sections_of_load hload
  obtain ⟨effect, heffect⟩ := (exitCode_capabilities hlevel).mp h
  obtain ⟨advertised, hadvertised, hshown, rfl⟩ := (runCapabilities_eq_ok hconfig).mp heffect
  obtain ⟨c, htakes, rfl⟩ := (ofConfig_obj hfolding).mp hadvertised
  have hreadable := readable_advertised hshown
  refine ⟨_, c, ?_, ofValue_advertised c, ?_⟩
  · have hprinted : printed (Json.pretty .plain _ ++ "\n") = _ :=
      Option.some.inj (printedIn_pretty hreadable)
    rw [(run_capabilities hlevel heffect).2, hprinted, Json.toList_pretty]
    exact Json.readIn_print hreadable _ (List.forall_mem_singleton.mpr rfl)
  · exact htakes.congr fun f _ => (foldingSetting_of_get? hfolding f.name).symm

/-! ## What the ranges command applies -/

variable {args : List String} {source : String × Utf8.Bytes} {v : Value}
  {result : Option FoldingRangeList}

theorem run_ranges_of_takes (json : Bool) (hconfig : env.config = .ok config)
    (htakes : c.Takes fun f => foldingSetting config f.name)
    (hargs : Asks env args .standard source) (hread : readJson source.1 source.2 = .ok v)
    (hresult : decodeAnswer v = .ok result) :
    let out := run env (formatSwitches json ++ "ranges" :: args)
    let fit := c.apply (offsetPolicy config .standard)
      (foldingSetting config "truncate").isTruthy result
    (∀ shown records, fit = .ok (shown, records) →
      let torn := json = false ∧ TornResult shown
      (torn → out.exitCode = 1 ∧ out.output = "" ∧ out.escaped = some .tornText) ∧
      ∃ text, (Output.ofRanges shown).render .marked (formatOf json) = some text ∧
        (¬ torn → out.exitCode = 0 ∧ printedIn .marked (text ++ "\n") = some out.output)) ∧
    ∀ refused, fit = .error refused →
      out = ⟨1, "", printed ("Error: " ++ refused.message ++ "\n"), none, env.files⟩ := by
  intro out fit
  obtain ⟨⟨level, hlevel⟩, -⟩ := settings_of_config hconfig
  have hcapabilities := clientCapabilities_of_takes htakes
  have hfit : { c with dynamicRegistration := none }.apply (offsetPolicy config .standard)
      (Settings.standard.truncate || (foldingSetting config "truncate").isTruthy) result = fit :=
    apply_without_register c _ _ result
  refine ⟨fun shown records hshown => ?_, fun refused hrefused => ?_⟩
  · have hcomes : ComesTo env .standard source shown records :=
      .intro hconfig hread hresult hcapabilities (hfit.trans hshown)
    obtain ⟨htears, hprints⟩ := run_prints_or_tears json hargs hlevel hcomes
    exact ⟨htears, _, hcomes.render (formatOf json), hprints⟩
  · exact run_of_failure (runProgram_of_stop json hargs hlevel
      (runRanges_of_refused json hconfig hread hresult hcapabilities (hfit.trans hrefused)))

end

/-- What a configuration makes a client advertise is read as what its settings are taken
for, whether they are looked up or given, with absent ones absent and the others alike.
So wherever the capabilities of an accepted configuration are printed, they read back to
capabilities under which the ranges command fits every result: it prints what fitting
leaves, unless it would do so plainly and a kind holds half a pair, or tells why fitting
refuses. They are printed unless a truth value is not taken for one or the limit has too
many digits. -/
theorem advertised_is_enforced :
    (∀ config advertised, ClientCapabilities.ofConfig config = .ok advertised →
      ∃ folding c, foldingSection config = .ok folding ∧ ofSettings (given folding) = .ok c ∧
        (c.Takes fun f => .ofOption (folding.get? f.name)) ∧
        ofValue (advertised.encode .wire) = .ok c) ∧
    ∀ env config, env.config = .ok config →
      ((run env ["capabilities"]).exitCode = 0 ↔
        (foldingSetting config "dynamic_registration").ReadsAsFlag ∧
          (foldingSetting config "complete_line_folding_only").ReadsAsFlag ∧
          (foldingSetting config "maximum_number_of_ranges").isShowable = true) ∧
      ((run env ["capabilities"]).exitCode = 0 →
        ∃ v c, Json.readIn ⟨some Numeral.digitLimit, .plain⟩
            (run env ["capabilities"]).output.toList = .ok v ∧ ofValue v = .ok c ∧
          (c.Takes fun f => foldingSetting config f.name) ∧
          ∀ json args source response result, Asks env args .standard source →
            readJson source.1 source.2 = .ok response → decodeAnswer response = .ok result →
              let out := run env (formatSwitches json ++ "ranges" :: args)
              let fit := c.apply (offsetPolicy config .standard)
                (foldingSetting config "truncate").isTruthy result
              (∀ shown records, fit = .ok (shown, records) →
                let torn := json = false ∧ TornResult shown
                (torn → out.exitCode = 1 ∧ out.output = "" ∧ out.escaped = some .tornText) ∧
                ∃ text, (Output.ofRanges shown).render .marked (formatOf json) = some text ∧
                  (¬ torn → out.exitCode = 0 ∧
                    printedIn .marked (text ++ "\n") = some out.output)) ∧
              ∀ refused, fit = .error refused →
                out = ⟨1, "", printed ("Error: " ++ refused.message ++ "\n"), none,
                  env.files⟩) := by
  refine ⟨fun config advertised h => ?_, fun env config hconfig =>
    ⟨capabilities_prints_iff hconfig, fun hprints => ?_⟩⟩
  · obtain ⟨folding, c, hfolding, htakes, rfl⟩ := ofConfig_eq_ok.mp h
    exact ⟨folding, c, hfolding, ofSettings_given.mpr htakes, htakes, ofValue_advertised c⟩
  · obtain ⟨v, c, hread, hvalue, htakes⟩ := read_printed_capabilities hconfig hprints
    exact ⟨v, c, hread, hvalue, htakes, fun json _ _ _ _ hargs hresponse hresult =>
      run_ranges_of_takes json hconfig htakes hargs hresponse hresult⟩

/-- A file with a number that is taken for true. -/
def oneFile : List Char :=
  ['f', 'o', 'l', 'd', 'i', 'n', 'g', '.', 'c', 'o', 'm', 'p', 'l', 'e', 't', 'e', '_', 'l', 'i',
    'n', 'e', '_', 'f', 'o', 'l', 'd', 'i', 'n', 'g', '_', 'o', 'n', 'l', 'y', ' ', '=', ' ', '1',
    '\n']

/-- What is loaded from it. -/
def oneConfig : Members :=
  Config.merge Config.defaults [("folding", .obj [("complete_line_folding_only", .int 1)])]

theorem config_oneFile (input : String) : (withConfig oneFile input).config = .ok oneConfig := by
  have hread : Config.spelled oneFile =
      .ok [("folding", .obj [("complete_line_folding_only", .int 1)])] := rfl
  have hload : Config.load (withConfig oneFile input).configPath (some (Utf8.encode oneFile)) =
      .ok oneConfig := by
    rw [Config.load_of_settings hread]
    rfl
  simp only [Environment.config, configFound_withConfig, hload, bind, Except.bind]

/-- A client that is configured with the number advertises that it folds whole lines, and
sees ranges without their offsets. -/
theorem oneFile_folds_whole_lines :
    let response := Json.pretty .marked (FoldingRequest.encodeResult (some lateOffset)) ++ "\n"
    let env := withConfig oneFile response
    env.config = .ok oneConfig ∧
      (∃ advertised c, ClientCapabilities.ofConfig (.obj oneConfig) = .ok advertised ∧
        ofValue (advertised.encode .wire) = .ok c ∧ c.completeLineFoldingOnly = some true) ∧
      (run env ["capabilities"]).exitCode = 0 ∧ (run env ["ranges", "-"]).exitCode = 0 ∧
      (run env ["ranges", "-"]).output = "0-1 comment\n2-4\n" := by
  intro response env
  have hconfig : env.config = .ok oneConfig := config_oneFile response
  have hread : readJson "<stdin>" (Utf8.encode response.toList) = _ :=
    readJson_pretty (FoldingRequest.readable_encodeResult
      fun l hl => Option.some.inj hl ▸ legible_lateOffset) "<stdin>"
  have hresult := decodeAnswer_encodeResult (some lateOffset)
  clear_value response
  have hargs : Asks env ["-"] .standard ("<stdin>", Utf8.encode response.toList) :=
    .intro rfl rfl rfl rfl rfl
  obtain ⟨hadvertised, hprinted⟩ := advertised_is_enforced
  obtain ⟨hprints, henforced⟩ := hprinted env oneConfig hconfig
  have hcode := hprints.mpr ⟨⟨false, rfl⟩, ⟨true, rfl⟩, by decide⟩
  obtain ⟨v, c, -, -, htakes, hranges⟩ := henforced hcode
  have hlimit : some 5000 = c.maximumNumberOfRanges := Decoded.accepted.inj htakes.limit
  have hlines : some true = c.completeLineFoldingOnly := Decoded.accepted.inj htakes.lines
  obtain ⟨hruns, -⟩ := hranges false ["-"] _ _ _ hargs hread hresult
  refine ⟨hconfig, ?_, hcode, ?_⟩
  · obtain ⟨folding, read, hfolding, -, hread, hvalue⟩ := hadvertised (.obj oneConfig) _ rfl
    cases hfolding
    exact ⟨_, read, rfl, hvalue, (Decoded.accepted.inj hread.lines).symm⟩
  · obtain ⟨register, limit, lines⟩ := c
    cases hlimit
    cases hlines
    have htext : printedIn .marked
        (renderRanges (some ⟨lateOffset.ranges.map (·.withoutOffsets)⟩) ++ "\n") =
          some "0-1 comment\n2-4\n" := printedIn_of_not_mem .marked (by decide) (by decide)
    obtain ⟨-, text, hrender, hshows⟩ :=
      hruns (some ⟨lateOffset.ranges.map (·.withoutOffsets)⟩) _ rfl
    obtain rfl : _ = text := Option.some.inj hrender
    have hwhole : ¬ TornResult ((some lateOffset).map fun l =>
        ⟨shownRanges true false none l.ranges⟩) := mt tornResult_of_shown not_torn_lateOffset
    obtain ⟨hzero, houtput⟩ := hshows fun htorn => hwhole htorn.2
    exact ⟨hzero, (Option.some.inj (htext.symm.trans houtput)).symm⟩

/-- A range with half a pair for its kind fits the advertised capabilities as it is, and the
capabilities are printed, but the range is not. -/
theorem tornRange_is_fitted_and_not_printed :
    let env := onInput tornResponse
    Decodes env (some tornRange) ∧ (run env ["capabilities"]).exitCode = 0 ∧
      (∃ advertised c records, ClientCapabilities.ofConfig (.obj Config.defaults) = .ok advertised ∧
        ofValue (advertised.encode .wire) = .ok c ∧
        c.apply (offsetPolicy Config.defaults .standard)
          (foldingSetting Config.defaults "truncate").isTruthy (some tornRange) =
            .ok (some tornRange, records)) ∧
      (run env ["ranges", "-"]).exitCode = 1 ∧ (run env ["ranges", "-"]).output = "" := by
  intro env
  obtain ⟨hdecodes, hrun⟩ := run_tornRange
  have hcode : (run env ["capabilities"]).exitCode = 0 :=
    (capabilities_prints_iff hdecodes.config).mpr ⟨⟨false, rfl⟩, ⟨false, rfl⟩, by decide⟩
  have hvalue := ofValue_advertised ⟨some false, some 5000, some false⟩
  exact ⟨hdecodes, hcode, ⟨_, _, _, rfl, hvalue, rfl⟩, congrArg Result.exitCode hrun,
    congrArg Result.output hrun⟩

end CommandLine

end FoldingProtocol
