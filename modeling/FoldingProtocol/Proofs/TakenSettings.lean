import FoldingProtocol.Capabilities.Client
import FoldingProtocol.Proofs.NumberLimits

/-!
# What settings are taken for

Folding capabilities are made of three settings, wherever these are looked up: in the
section of a configuration, in members that a reader was given, or in members made from
both. `Takes` says of capabilities which values they are made of, setting by setting, and
every reader is characterised by it. That something is made at all is then a question
about three values.
-/

namespace FoldingProtocol

open Decoded FoldingProtocol.Field

/-! ## Values that are accepted -/

/-- A value that is taken for a truth value. -/
def Value.ReadsAsFlag (v : Value) : Prop := ∃ b, Decoder.toFlag v = .ok b

namespace Decoder

theorem accepts_flag {v : Value} : Accepts (flag v) ↔ v.ReadsAsFlag := by
  unfold flag
  cases h : toFlag v with
  | error kind => exact ⟨nofun, fun ⟨b, hb⟩ => by rw [h] at hb; cases hb⟩
  | ok b => exact ⟨fun _ => ⟨b, h⟩, fun _ => ⟨b, rfl⟩⟩

end Decoder

/-! ## Three settings -/

namespace FoldingClientCapabilities

/-- Capabilities are what the values of their settings are taken for, where null is
taken for nothing. -/
structure Takes (c : FoldingClientCapabilities) (value : Field → Value) : Prop where
  register : Decoder.nullable Decoder.flag (value dynamicRegistrationField) =
    .accepted c.dynamicRegistration
  limit : Decoder.nullable Decoder.count (value maximumNumberOfRangesField) =
    .accepted c.maximumNumberOfRanges
  lines : Decoder.nullable Decoder.flag (value completeLineFoldingOnlyField) =
    .accepted c.completeLineFoldingOnly

/-- The fields of the three settings. -/
def settingFields : List Field :=
  [dynamicRegistrationField, maximumNumberOfRangesField, completeLineFoldingOnlyField]

variable {c : FoldingClientCapabilities} {folding config ms : Members}

theorem forall_settingFields {P : Field → Prop} :
    (∀ f ∈ settingFields, P f) ↔ P dynamicRegistrationField ∧ P maximumNumberOfRangesField ∧
      P completeLineFoldingOnlyField := by
  simp [settingFields]

theorem Takes.congr {value other : Field → Value} (h : c.Takes value)
    (heq : ∀ f ∈ settingFields, value f = other f) : c.Takes other := by
  obtain ⟨hregister, hlimit, hlines⟩ := forall_settingFields.mp heq
  exact ⟨hregister ▸ h.register, hlimit ▸ h.limit, hlines ▸ h.lines⟩

/-- Capabilities can be made of values if each of them is accepted. -/
theorem exists_takes_iff {value : Field → Value} :
    (∃ c : FoldingClientCapabilities, c.Takes value) ↔
      Accepts (Decoder.nullable Decoder.flag (value dynamicRegistrationField)) ∧
        Accepts (Decoder.nullable Decoder.count (value maximumNumberOfRangesField)) ∧
        Accepts (Decoder.nullable Decoder.flag (value completeLineFoldingOnlyField)) := by
  constructor
  · rintro ⟨c, hregister, hlimit, hlines⟩
    exact ⟨⟨_, hregister⟩, ⟨_, hlimit⟩, ⟨_, hlines⟩⟩
  · rintro ⟨⟨register, hregister⟩, ⟨limit, hlimit⟩, ⟨lines, hlines⟩⟩
    exact ⟨⟨register, limit, lines⟩, hregister, hlimit, hlines⟩

/-! ## Readers -/

theorem ofMembers_eq_accepted :
    ofMembers ms = .accepted c ↔ c.Takes fun f => f.valueIn ms := by
  constructor
  · intro h
    obtain ⟨_, lines, htwo, hlines, rfl⟩ := seq_eq_accepted h
    obtain ⟨_, limit, hone, hlimit, rfl⟩ := seq_eq_accepted htwo
    obtain ⟨register, hregister, rfl⟩ := map_eq_accepted hone
    exact ⟨optional_iff.mp hregister, optional_iff.mp hlimit, optional_iff.mp hlines⟩
  · intro h
    exact seq_accepted (seq_accepted (map_accepted (optional_iff.mpr h.register))
      (optional_iff.mpr h.limit)) (optional_iff.mpr h.lines)

theorem ofSettings_eq_ok :
    ofSettings ms = .ok c ↔ c.Takes fun f => f.valueIn ms :=
  titled_eq_ok.trans ofMembers_eq_accepted

/-- Settings under the names of their fields are looked up by them. -/
theorem ofSettings_of_valueIn {value : Field → Value}
    (h : ∀ f ∈ settingFields, f.valueIn ms = value f) :
    ofSettings ms = .ok c ↔ c.Takes value :=
  ofSettings_eq_ok.trans ⟨fun ht => ht.congr h, fun ht => ht.congr fun f hf => (h f hf).symm⟩

theorem ofSettings_settings :
    ofSettings (settings folding) = .ok c ↔ c.Takes fun f => .ofOption (folding.get? f.name) :=
  ofSettings_of_valueIn (forall_settingFields.mpr ⟨rfl, rfl, rfl⟩)

theorem foldingSection_obj (h : config.get? "folding" = some (.obj folding)) :
    foldingSection (.obj config) = .ok folding := by
  have htruthy : (Value.obj config).isTruthy = true := by
    cases config with
    | nil => cases h
    | cons _ _ => rfl
  simp only [foldingSection, htruthy, h, Bool.not_true, Bool.false_eq_true, if_false]

theorem ofConfig_eq_ok {config : Value} {advertised : ClientCapabilities} :
    ClientCapabilities.ofConfig config = .ok advertised ↔
      ∃ (folding : Members) (c : FoldingClientCapabilities),
        foldingSection config = .ok folding ∧
        (c.Takes fun f => .ofOption (folding.get? f.name)) ∧ advertised = c.advertised := by
  rw [ClientCapabilities.ofConfig, map_eq_ok]
  constructor
  · rintro ⟨c, hc, rfl⟩
    obtain ⟨folding, hfolding, hsettings⟩ := bind_eq_ok.mp hc
    exact ⟨folding, c, hfolding, ofSettings_settings.mp (mapError_eq_ok.mp hsettings), rfl⟩
  · rintro ⟨folding, c, hfolding, htakes, rfl⟩
    have hsettings := ofSettings_settings.mpr htakes
    exact ⟨c, bind_eq_ok.mpr ⟨folding, hfolding, mapError_eq_ok.mpr hsettings⟩, rfl⟩

/-- What a configuration with a folding section advertises. -/
theorem ofConfig_obj (h : config.get? "folding" = some (.obj folding))
    {advertised : ClientCapabilities} :
    ClientCapabilities.ofConfig (.obj config) = .ok advertised ↔
      ∃ c : FoldingClientCapabilities,
        (c.Takes fun f => .ofOption (folding.get? f.name)) ∧ advertised = c.advertised := by
  rw [ofConfig_eq_ok, foldingSection_obj h]
  constructor
  · rintro ⟨_, c, ⟨⟩, htakes, heq⟩
    exact ⟨c, htakes, heq⟩
  · rintro ⟨c, htakes, heq⟩
    exact ⟨folding, c, rfl, htakes, heq⟩

end FoldingClientCapabilities

end FoldingProtocol
