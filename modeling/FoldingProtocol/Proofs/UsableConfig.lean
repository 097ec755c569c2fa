import FoldingProtocol.Proofs.LoadedConfig
import FoldingProtocol.Proofs.RangesOutput
import FoldingProtocol.Proofs.TakenSettings

/-!
# Which loaded configurations can be used

Loading checks three settings. Making capabilities reads another three, of which
only the limit was checked before, and a limit that passed the check is a count. The
other two are truth values for the reader of capabilities, who takes more for a truth
value than a truth value, but not everything. So what loads can be used exactly if
those that are asked for are taken.
-/

namespace FoldingProtocol

theorem CommandLine.foldingSetting_of_get? {config folding : Members}
    (h : config.get? "folding" = some (.obj folding)) (name : String) :
    foldingSetting config name = .ofOption (folding.get? name) := by
  rw [foldingSetting, h]

/-- The settings of a configuration that capabilities are made of. -/
structure Config.Offers (config folding : Members) (register lines : Value) (limit : Nat) :
    Prop where
  hasFolding : config.get? "folding" = some (.obj folding)
  hasRegister : folding.get? "dynamic_registration" = some register
  hasLines : folding.get? "complete_line_folding_only" = some lines
  hasLimit : folding.get? "maximum_number_of_ranges" = some (.int limit)
  registerGiven : register ≠ .null
  linesGiven : lines ≠ .null

namespace Config

/-- What was loaded offers the three settings, and the limit is a count. -/
theorem offers_of_load {path : FilePath} {contents : Option Utf8.Bytes} {config : Members}
    (h : load path contents = .ok config) :
    ∃ folding register lines limit, Offers config folding register lines limit := by
  obtain ⟨hcheck, settings, hsettings, rfl⟩ := load_eq_ok h
  obtain ⟨folding, logging, hfolding, -, hmaximum, -⟩ := check_eq_ok hcheck
  obtain ⟨hfolding, more, hmore⟩ := section?_merge hsettings.distinct rfl hfolding.symm
  have hsound := Toml.sound_of_get? (sound_merge_defaults hsettings) hfolding
  have hbound (key : String) (hkey : (Members.get? key [("dynamic_registration", .bool false),
      ("maximum_number_of_ranges", .int 5000), ("complete_line_folding_only", .bool false),
      ("on_character_offsets", .str "strip"), ("truncate", .bool false)]).isSome = true) :
      ∃ v, folding.get? key = some v ∧ v ≠ .null := by
    obtain ⟨v, hv⟩ := Option.isSome_iff_exists.mp (isSome_get?_merge hkey more)
    rw [← hmore] at hv
    refine ⟨v, hv, ?_⟩
    rintro rfl
    cases Toml.sound_of_get? hsound hv
  obtain ⟨register, hregister, hregisterGiven⟩ := hbound "dynamic_registration" rfl
  obtain ⟨lines, hlines, hlinesGiven⟩ := hbound "complete_line_folding_only" rfl
  obtain ⟨maximum, hlimit, hlimited⟩ := hbound "maximum_number_of_ranges" rfl
  rw [hlimit] at hmaximum
  obtain ⟨limit, rfl⟩ := (isMaximum_iff hlimited).mp hmaximum
  exact ⟨folding, register, lines, limit, hfolding, hregister, hlines, hlimit, hregisterGiven,
    hlinesGiven⟩

variable {config folding : Members} {register lines : Value} {limit : Nat}

open CommandLine in
theorem Offers.foldingSetting_eq (h : Offers config folding register lines limit) :
    foldingSetting config "dynamic_registration" = register ∧
      foldingSetting config "complete_line_folding_only" = lines ∧
      foldingSetting config "maximum_number_of_ranges" = .int limit := by
  simp only [foldingSetting_of_get? h.hasFolding, h.hasRegister, h.hasLines, h.hasLimit,
    Value.ofOption, and_self]

open Decoder FoldingClientCapabilities in
theorem Offers.ofConfig_iff (h : Offers config folding register lines limit) :
    (∃ c, ClientCapabilities.ofConfig (.obj config) = .ok c) ↔
      register.ReadsAsFlag ∧ lines.ReadsAsFlag := by
  have htakes : (∃ advertised, ClientCapabilities.ofConfig (.obj config) = .ok advertised) ↔
      ∃ c : FoldingClientCapabilities, c.Takes fun f => .ofOption (folding.get? f.name) := by
    simp only [ofConfig_obj h.hasFolding]
    exact ⟨fun ⟨_, c, hc, _⟩ => ⟨c, hc⟩, fun ⟨c, hc⟩ => ⟨_, c, hc, rfl⟩⟩
  rw [htakes, exists_takes_iff]
  show Decoded.Accepts (nullable flag (.ofOption (folding.get? "dynamic_registration"))) ∧
    Decoded.Accepts (nullable count (.ofOption (folding.get? "maximum_number_of_ranges"))) ∧
    Decoded.Accepts (nullable flag (.ofOption (folding.get? "complete_line_folding_only"))) ↔ _
  rw [h.hasRegister, h.hasLimit, h.hasLines, Value.ofOption, Value.ofOption, Value.ofOption,
    accepts_nullable h.registerGiven, accepts_nullable h.linesGiven, accepts_flag, accepts_flag]
  exact ⟨fun h => ⟨h.1, h.2.2⟩, fun h => ⟨h.1, ⟨some limit, rfl⟩, h.2⟩⟩

/-- The ranges command does not look at the setting for registrations, nor at one that is
given to it. -/
theorem Offers.exists_clientCapabilities_iff (h : Offers config folding register lines limit)
    (settings : CommandLine.Settings) :
    (∃ c, CommandLine.clientCapabilities config settings = .ok c) ↔
      (settings.completeLines = none → lines.ReadsAsFlag) := by
  obtain ⟨-, hlines, hlimit⟩ := h.foldingSetting_eq
  refine (exists_congr fun c => FoldingClientCapabilities.ofSettings_eq_ok).trans ?_
  rw [FoldingClientCapabilities.exists_takes_iff]
  have hconfigured : Decoded.Accepts (Decoder.nullable Decoder.flag
      (CommandLine.foldingSetting config "complete_line_folding_only")) ↔ lines.ReadsAsFlag := by
    rw [hlines, Decoder.accepts_nullable h.linesGiven, Decoder.accepts_flag]
  constructor
  · rintro ⟨-, -, hflag⟩ hnone
    rw [hnone] at hflag
    exact hconfigured.mp hflag
  · intro hflag
    refine ⟨⟨none, rfl⟩, ?_, ?_⟩
    · cases settings.maximum with
      | some n => exact ⟨some n, rfl⟩
      | none =>
          show Decoded.Accepts (Decoder.nullable Decoder.count
            (CommandLine.foldingSetting config "maximum_number_of_ranges"))
          rw [hlimit]
          exact ⟨some limit, rfl⟩
    · cases hgiven : settings.completeLines with
      | some b => exact ⟨some b, rfl⟩
      | none => exact hconfigured.mpr (hflag hgiven)

theorem Offers.clientCapabilities_iff (h : Offers config folding register lines limit) :
    (∃ c, CommandLine.clientCapabilities config .standard = .ok c) ↔ lines.ReadsAsFlag :=
  (h.exists_clientCapabilities_iff .standard).trans (forall_prop_of_true rfl)

end Config

namespace CommandLine

/-- Of what was loaded, the limit is a count and never keeps capabilities from being
made, and the two other settings do exactly if they are not taken for truth values. -/
theorem usable_iff_flags {path : FilePath} {contents : Option Utf8.Bytes} {config : Members}
    (h : Config.load path contents = .ok config) :
    (∃ n : Nat, foldingSetting config "maximum_number_of_ranges" = .int n) ∧
      ((∃ c, ClientCapabilities.ofConfig (.obj config) = .ok c) ↔
        (foldingSetting config "dynamic_registration").ReadsAsFlag ∧
          (foldingSetting config "complete_line_folding_only").ReadsAsFlag) ∧
      ((∃ c, clientCapabilities config .standard = .ok c) ↔
        (foldingSetting config "complete_line_folding_only").ReadsAsFlag) := by
  obtain ⟨folding, register, lines, limit, hoffers⟩ := Config.offers_of_load h
  obtain ⟨hregister, hlines, hlimit⟩ := hoffers.foldingSetting_eq
  rw [hregister, hlines]
  exact ⟨⟨limit, hlimit⟩, hoffers.ofConfig_iff, hoffers.clientCapabilities_iff⟩

/-- A file with a word that is no truth value for one of the settings. -/
def maybeFile : List Char :=
  ['[', 'f', 'o', 'l', 'd', 'i', 'n', 'g', ']', '\n', 'c', 'o', 'm', 'p', 'l', 'e', 't', 'e', '_',
    'l', 'i', 'n', 'e', '_', 'f', 'o', 'l', 'd', 'i', 'n', 'g', '_', 'o', 'n', 'l', 'y', ' ', '=',
    ' ', '"', 'm', 'a', 'y', 'b', 'e', '"', '\n']

/-- What is loaded from it. -/
def maybeConfig : Members :=
  Config.merge Config.defaults [("folding", .obj [("complete_line_folding_only", .str "maybe")])]

theorem load_maybeFile :
    Config.load ⟨.single, []⟩ (some (Utf8.encode maybeFile)) = .ok maybeConfig := by
  have hread : Config.spelled maybeFile =
      .ok [("folding", .obj [("complete_line_folding_only", .str "maybe")])] := rfl
  rw [Config.load_of_settings hread]
  rfl

theorem maybeConfig_is_not_usable :
    Config.load ⟨.single, []⟩ (some (Utf8.encode maybeFile)) = .ok maybeConfig ∧
      (¬ ∃ c, ClientCapabilities.ofConfig (.obj maybeConfig) = .ok c) ∧
      ¬ ∃ c, clientCapabilities maybeConfig .standard = .ok c := by
  obtain ⟨-, hadvertised, hranges⟩ := usable_iff_flags load_maybeFile
  have hlines : ¬ (foldingSetting maybeConfig "complete_line_folding_only").ReadsAsFlag := by
    have hflag : Decoder.toFlag (foldingSetting maybeConfig "complete_line_folding_only") =
        .error .unreadableFlag := rfl
    rintro ⟨b, hb⟩
    rw [hflag] at hb
    cases hb
  exact ⟨load_maybeFile, fun h => hlines (hadvertised.mp h).2, fun h => hlines (hranges.mp h)⟩

end CommandLine

end FoldingProtocol
