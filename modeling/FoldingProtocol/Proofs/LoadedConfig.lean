import FoldingProtocol.Proofs.MergedTables
import FoldingProtocol.Proofs.TomlDocuments
import FoldingProtocol.Proofs.Utf8RoundTrip

/-!
# What loading a configuration comes to

A file is read, merged into the defaults, and checked. Where its two sections are
tables, the sections of the merged configuration are the defaults with the file over
them, so each setting that is checked is there, and loading is decided by three
settings in a fixed order: the first that is wrong is told of, and if none is wrong
there is a configuration.

One thing stands beside this. An integer of very many digits is neither read from
base ten nor shown in a message, and where that happens nothing is told about the
configuration; loading stops with a fault of the number.
-/

namespace FoldingProtocol.Config

open Value

/-! ## Merging keeps documents sound -/

theorem sound_merge_of {base more : Members} (hbase : Toml.Sound (.obj base))
    (hmore : ∀ m ∈ more, ∀ old, (∀ w ∈ old, Toml.Sound w) → Toml.Sound (settingOver old m.2)) :
    Toml.Sound (.obj (merge base more)) := by
  induction more generalizing base with
  | nil => rw [merge]; exact hbase
  | cons m more ih =>
      rw [List.forall_mem_cons] at hmore
      rw [merge]
      refine ih (Toml.sound_put hbase (hmore.1 _ fun w hw => ?_)) hmore.2
      exact Toml.sound_of_get? hbase hw

theorem sound_settingOver {v : Value} (hv : Toml.Sound v) {old : Option Value}
    (hold : ∀ w ∈ old, Toml.Sound w) : Toml.Sound (settingOver old v) := by
  induction hv generalizing old with
  | @obj ms hkeys hmembers ih =>
      unfold settingOver
      split
      · next base =>
          exact sound_merge_of (hold _ rfl) fun m hm _ hold => ih m hm hold
      · exact .obj hkeys hmembers
  | bool b => exact .bool b
  | int n => exact .int n
  | float hx => exact .float hx
  | str s => exact .str s
  | moment hm => exact .moment hm
  | arr hitems => exact .arr hitems

theorem sound_defaults : Toml.Sound (.obj defaults) := by
  refine .obj (by decide) ?_
  simp only [defaults, List.forall_mem_cons]
  refine ⟨.obj (by decide) ?_, .obj (by decide) ?_, nofun⟩
  · simp only [List.forall_mem_cons]
    exact ⟨.str _, nofun⟩
  · simp only [List.forall_mem_cons]
    exact ⟨.bool _, .int _, .bool _, .str _, .bool _, nofun⟩

theorem sound_merge_defaults {settings : Members} (h : Toml.Sound (.obj settings)) :
    Toml.Sound (.obj (merge defaults settings)) := by
  have hold : ∀ w ∈ some (Value.obj defaults), Toml.Sound w := by
    intro w hw
    cases hw
    exact sound_defaults
  exact sound_settingOver h hold

/-! ## The settings that are checked -/

/-- The two sections of a file are tables, if they are there. -/
def HasSections (settings : Members) : Prop :=
  ∀ name ∈ ["folding", "logging"], ∀ v, settings.get? name = some v → ∃ ms, v = .obj ms

/-- A configuration with both sections and the three settings that are checked. -/
structure Complete (config folding logging : Members) (policy maximum level : Value) : Prop where
  hasFolding : config.get? "folding" = some (.obj folding)
  hasLogging : config.get? "logging" = some (.obj logging)
  hasPolicy : folding.get? "on_character_offsets" = some policy
  hasMaximum : folding.get? "maximum_number_of_ranges" = some maximum
  limited : maximum ≠ .null
  hasLevel : logging.get? "level" = some level

/-- A section of a file is merged into its defaults, so all that they bind is bound. -/
theorem get?_merge_section {settings base : Members} {name : String}
    (hsettings : settings.Distinct) (hbase : defaults.get? name = some (.obj base))
    (htable : ∀ v, settings.get? name = some v → ∃ ms, v = .obj ms) :
    ∃ merged, (merge defaults settings).get? name = some (.obj merged) ∧
      ∀ key, (base.get? key).isSome = true → ∃ v, Members.get? key merged = some v := by
  have hbound (more : Members) (key : String) (hkey : (base.get? key).isSome = true) :
      ∃ v, (merge base more).get? key = some v :=
    Option.isSome_iff_exists.mp (isSome_get?_merge hkey more)
  rw [get?_merge hsettings, hbase]
  cases hget : settings.get? name with
  | none => exact ⟨base, rfl, fun key hkey => Option.isSome_iff_exists.mp hkey⟩
  | some v =>
      obtain ⟨more, rfl⟩ := htable v hget
      exact ⟨merge base more, rfl, hbound more⟩

theorem complete_merge {settings : Members} (hsound : Toml.Sound (.obj settings))
    (hsections : HasSections settings) :
    ∃ folding logging policy maximum level,
      Complete (merge defaults settings) folding logging policy maximum level := by
  have hdistinct := hsound.distinct
  obtain ⟨folding, hfolding, hbound⟩ :=
    get?_merge_section hdistinct rfl (hsections "folding" (by decide))
  obtain ⟨logging, hlogging, hlevelBound⟩ :=
    get?_merge_section hdistinct rfl (hsections "logging" (by decide))
  obtain ⟨policy, hpolicy⟩ := hbound "on_character_offsets" rfl
  obtain ⟨maximum, hmaximum⟩ := hbound "maximum_number_of_ranges" rfl
  obtain ⟨level, hlevel⟩ := hlevelBound "level" rfl
  have hlimited : maximum ≠ .null := by
    have hfoldingSound := Toml.sound_of_get? (sound_merge_defaults hsound) hfolding
    have hmaximumSound := Toml.sound_of_get? hfoldingSound hmaximum
    rintro rfl
    cases hmaximumSound
  exact ⟨_, _, policy, maximum, level, hfolding, hlogging, hpolicy, hmaximum, hlimited, hlevel⟩

/-- The first of the three settings that is wrong, with its fault and its value. -/
inductive FirstWrong (config : Members) : (Value → Fault) → Value → Prop where
  | policy {v : Value}
      (hv : at? ["folding", "on_character_offsets"] (.obj config) = some v)
      (hwrong : v ≠ .str "strip" ∧ v ≠ .str "reject") : FirstWrong config .policy v
  | maximum {p v : Value}
      (hp : at? ["folding", "on_character_offsets"] (.obj config) = some p)
      (hright : p = .str "strip" ∨ p = .str "reject")
      (hv : at? ["folding", "maximum_number_of_ranges"] (.obj config) = some v)
      (hwrong : ∀ n : Nat, v ≠ .int n) : FirstWrong config .maximum v
  | level {p v : Value} {n : Nat}
      (hp : at? ["folding", "on_character_offsets"] (.obj config) = some p)
      (hright : p = .str "strip" ∨ p = .str "reject")
      (hmaximum : at? ["folding", "maximum_number_of_ranges"] (.obj config) = some (.int n))
      (hv : at? ["logging", "level"] (.obj config) = some v)
      (hwrong : Log.threshold? v = none) : FirstWrong config .level v

theorem isPolicy_iff {v : Value} : isPolicy v = true ↔ v = .str "strip" ∨ v = .str "reject" := by
  cases v with
  | str s => simp [isPolicy, policies]
  | null | bool | int | float | moment | arr | obj => simp [isPolicy]

theorem isMaximum_iff {v : Value} (hv : v ≠ .null) :
    isMaximum v = true ↔ ∃ n : Nat, v = .int n := by
  constructor
  · intro h
    obtain ⟨limit, rfl⟩ := ofNat?_of_isMaximum h
    cases limit with
    | none => exact absurd rfl hv
    | some n => exact ⟨n, rfl⟩
  · rintro ⟨n, rfl⟩
    exact decide_eq_true (Int.natCast_nonneg n)

section

variable {config folding logging : Members} {policy maximum level : Value}

theorem Complete.at?_policy (h : Complete config folding logging policy maximum level) :
    at? ["folding", "on_character_offsets"] (.obj config) = some policy := by
  rw [at?_cons, h.hasFolding, Option.bind_some, at?_cons, h.hasPolicy, bind_at?_nil]

theorem Complete.at?_maximum (h : Complete config folding logging policy maximum level) :
    at? ["folding", "maximum_number_of_ranges"] (.obj config) = some maximum := by
  rw [at?_cons, h.hasFolding, Option.bind_some, at?_cons, h.hasMaximum, bind_at?_nil]

theorem Complete.at?_level (h : Complete config folding logging policy maximum level) :
    at? ["logging", "level"] (.obj config) = some level := by
  rw [at?_cons, h.hasLogging, Option.bind_some, at?_cons, h.hasLevel, bind_at?_nil]

/-- The checks of a complete configuration, one after the other. -/
theorem Complete.check_eq (h : Complete config folding logging policy maximum level) :
    check config =
      if isPolicy policy = false then .error (.showing .policy policy)
      else if isMaximum maximum = false then .error (.showing .maximum maximum)
      else if Log.threshold? level = none then .error (.showing .level level)
      else .ok () := by
  simp only [check, section?, h.hasFolding, h.hasLogging, h.hasPolicy, h.hasMaximum, h.hasLevel,
    Option.getD_some, ofOption, bind, Except.bind, Bool.not_eq_true', Option.isNone_iff_eq_none]
  split
  · rfl
  · split <;> rfl

theorem Complete.check_of_firstWrong (h : Complete config folding logging policy maximum level)
    {fault : Value → Fault} {v : Value} (hwrong : FirstWrong config fault v) :
    check config = .error (.showing fault v) := by
  rw [h.check_eq]
  cases hwrong with
  | policy hv hwrong =>
      cases h.at?_policy.symm.trans hv
      have hbad : isPolicy policy = false := by
        rw [Bool.eq_false_iff, ne_eq, isPolicy_iff]
        exact not_or.mpr hwrong
      rw [if_pos hbad]
  | maximum hp hright hv hwrong =>
      cases h.at?_policy.symm.trans hp
      cases h.at?_maximum.symm.trans hv
      have hbad : isMaximum maximum = false := by
        rw [Bool.eq_false_iff, ne_eq, isMaximum_iff h.limited]
        exact fun ⟨n, hn⟩ => hwrong n hn
      rw [if_neg (by rw [isPolicy_iff.mpr hright]; nofun), if_pos hbad]
  | level hp hright hmaximum hv hwrong =>
      cases h.at?_policy.symm.trans hp
      cases h.at?_maximum.symm.trans hmaximum
      cases h.at?_level.symm.trans hv
      rw [if_neg (by rw [isPolicy_iff.mpr hright]; nofun),
        if_neg (by rw [(isMaximum_iff h.limited).mpr ⟨_, rfl⟩]; nofun), if_pos hwrong]

theorem Complete.check_of_right (h : Complete config folding logging policy maximum level)
    (hright : ∀ fault v, ¬ FirstWrong config fault v) : check config = .ok () := by
  have hpolicy : policy = .str "strip" ∨ policy = .str "reject" := by
    by_contra hwrong
    exact hright _ _ (.policy h.at?_policy (not_or.mp hwrong))
  have hmaximum : ∃ n : Nat, maximum = .int n := by
    by_contra hwrong
    exact hright _ _ (.maximum h.at?_policy hpolicy h.at?_maximum fun n hn => hwrong ⟨n, hn⟩)
  obtain ⟨n, rfl⟩ := hmaximum
  have hlevel : Log.threshold? level ≠ none :=
    fun hwrong => hright _ _ (.level h.at?_policy hpolicy h.at?_maximum h.at?_level hwrong)
  rw [h.check_eq, if_neg (by rw [isPolicy_iff.mpr hpolicy]; nofun),
    if_neg (by rw [(isMaximum_iff h.limited).mpr ⟨n, rfl⟩]; nofun), if_neg hlevel]

end

/-! ## Loading a text -/

/-- A fault that is told of as one of the configuration. -/
inductive LoadFault.OfConfig : LoadFault → Prop where
  | unreadable {path : FilePath} {whole rest : List Char} {problem : Toml.Problem} :
      OfConfig (.unreadable path whole problem rest)
  | policy {v : Value} : OfConfig (.invalid (.policy v))
  | maximum {v : Value} : OfConfig (.invalid (.maximum v))
  | level {v : Value} : OfConfig (.invalid (.level v))

/-- A fault of a number: it has too many digits to be read, or to be shown. -/
inductive LoadFault.OfNumber : LoadFault → Prop where
  | digits {count : Nat} : OfNumber (.digits count)
  | notShowable : OfNumber (.invalid .notShowable)

theorem LoadFault.OfConfig.not_ofNumber {fault : LoadFault} (h : fault.OfConfig) :
    ¬ fault.OfNumber := by
  intro hnumber
  cases h <;> cases hnumber

theorem FirstWrong.ofConfig {config : Members} {fault : Value → Fault} {v : Value}
    (h : FirstWrong config fault v) :
    (LoadFault.invalid (.showing fault v)).OfConfig ↔ v.isShowable = true := by
  unfold Fault.showing
  cases hv : v.isShowable with
  | true => cases h <;> exact ⟨fun _ => rfl, fun _ => by constructor⟩
  | false => exact ⟨nofun, nofun⟩

theorem FirstWrong.ofNumber {config : Members} {fault : Value → Fault} {v : Value}
    (h : FirstWrong config fault v) :
    (LoadFault.invalid (.showing fault v)).OfNumber ↔ v.isShowable = false := by
  unfold Fault.showing
  cases hv : v.isShowable with
  | true => cases h <;> exact ⟨nofun, nofun⟩
  | false => exact ⟨fun _ => rfl, fun _ => .notShowable⟩

section

variable {path : FilePath} {text : List Char}

/-- What the text of a file spells. -/
def spelled (text : List Char) : Except Toml.Fault Members := Toml.read (Toml.joinLineEnds text)

theorem readFile_encode (path : FilePath) (text : List Char) :
    readFile path (Utf8.encode text) =
      match spelled text with
      | .ok settings => .ok settings
      | .error (.grammar problem rest) =>
        .error (.unreadable path (Toml.joinLineEnds text) problem rest)
      | .error (.digits count) => .error (.digits count) := by
  rw [readFile, Utf8.decode?_encode]
  rfl

theorem load_of_grammar {problem : Toml.Problem} {rest : List Char}
    (h : spelled text = .error (.grammar problem rest)) :
    load path (some (Utf8.encode text)) =
      .error (.unreadable path (Toml.joinLineEnds text) problem rest) := by
  simp only [load, readFile_encode, h, bind, Except.bind]

theorem load_of_digits {count : Nat} (h : spelled text = .error (.digits count)) :
    load path (some (Utf8.encode text)) = .error (.digits count) := by
  simp only [load, readFile_encode, h, bind, Except.bind]

theorem load_of_settings {settings : Members} (h : spelled text = .ok settings) :
    load path (some (Utf8.encode text)) =
      match check (merge defaults settings) with
      | .ok () => .ok (merge defaults settings)
      | .error fault => .error (.invalid fault) := by
  have hread : readFile path (Utf8.encode text) = .ok settings := by rw [readFile_encode, h]
  rw [load]
  dsimp only
  rw [hread]
  rfl

theorem load_none (path : FilePath) : load path none = .ok defaults := rfl

/-- How loading a text ends. -/
inductive Loads (path : FilePath) (text : List Char) : Except LoadFault Members → Prop where
  | grammar {problem : Toml.Problem} {rest : List Char}
      (h : spelled text = .error (.grammar problem rest)) :
      Loads path text (.error (.unreadable path (Toml.joinLineEnds text) problem rest))
  | digits {count : Nat} (h : spelled text = .error (.digits count)) :
      Loads path text (.error (.digits count))
  | wrong {settings : Members} {fault : Value → Fault} {v : Value}
      (h : spelled text = .ok settings) (hwrong : FirstWrong (merge defaults settings) fault v) :
      Loads path text (.error (.invalid (.showing fault v)))
  | right {settings : Members} (h : spelled text = .ok settings)
      (hright : ∀ fault v, ¬ FirstWrong (merge defaults settings) fault v) :
      Loads path text (.ok (merge defaults settings))

theorem load_of_firstWrong {settings : Members} (h : spelled text = .ok settings)
    (hsections : HasSections settings) {fault : Value → Fault} {v : Value}
    (hwrong : FirstWrong (merge defaults settings) fault v) :
    load path (some (Utf8.encode text)) = .error (.invalid (.showing fault v)) := by
  obtain ⟨_, _, _, _, _, hcomplete⟩ := complete_merge (Toml.sound_read h) hsections
  rw [load_of_settings h, hcomplete.check_of_firstWrong hwrong]

theorem load_of_right {settings : Members} (h : spelled text = .ok settings)
    (hsections : HasSections settings)
    (hright : ∀ fault v, ¬ FirstWrong (merge defaults settings) fault v) :
    load path (some (Utf8.encode text)) = .ok (merge defaults settings) := by
  obtain ⟨_, _, _, _, _, hcomplete⟩ := complete_merge (Toml.sound_read h) hsections
  rw [load_of_settings h, hcomplete.check_of_right hright]

theorem loads_load (path : FilePath)
    (hsections : ∀ settings, spelled text = .ok settings → HasSections settings) :
    Loads path text (load path (some (Utf8.encode text))) := by
  cases hread : spelled text with
  | error fault =>
      cases fault with
      | grammar problem rest => rw [load_of_grammar hread]; exact .grammar hread
      | digits count => rw [load_of_digits hread]; exact .digits hread
  | ok settings =>
      by_cases hwrong : ∃ fault v, FirstWrong (merge defaults settings) fault v
      · obtain ⟨fault, v, hwrong⟩ := hwrong
        rw [load_of_firstWrong hread (hsections settings hread) hwrong]
        exact .wrong hread hwrong
      · have hright : ∀ fault v, ¬ FirstWrong (merge defaults settings) fault v :=
          fun fault v h => hwrong ⟨fault, v, h⟩
        rw [load_of_right hread (hsections settings hread) hright]
        exact .right hread hright

end

/-! ## What a loaded configuration holds -/

/-- The defaults are two tables with nothing but leaves in them. -/
theorem path_of_defaults {path : List String} {v : Value}
    (h : at? path (.obj defaults) = some v) :
    path = [] ∨ (∃ name, path = [name]) ∨
      ∃ name ∈ ["folding", "logging"], ∃ key, path = [name, key] := by
  have hleaves : ∀ m ∈ defaults, ∃ ms, m.2 = .obj ms ∧ m.1 ∈ ["folding", "logging"] ∧
      ∀ leaf ∈ ms, ∀ inner, leaf.2 ≠ .obj inner := by
    simp only [defaults, List.forall_mem_cons]
    refine ⟨⟨_, rfl, by decide, ?_⟩, ⟨_, rfl, by decide, ?_⟩, nofun⟩
    · simp only [List.forall_mem_cons]
      exact ⟨nofun, nofun⟩
    · simp only [List.forall_mem_cons]
      exact ⟨nofun, nofun, nofun, nofun, nofun, nofun⟩
  cases path with
  | nil => exact .inl rfl
  | cons name path =>
      cases path with
      | nil => exact .inr (.inl ⟨name, rfl⟩)
      | cons key path =>
          rw [at?_cons] at h
          obtain ⟨w, hw, h⟩ := Option.bind_eq_some_iff.mp h
          obtain ⟨ms, rfl, hname, hms⟩ := hleaves _ (Members.mem_of_get? hw)
          rw [at?_cons] at h
          obtain ⟨leaf, hleaf, h⟩ := Option.bind_eq_some_iff.mp h
          cases path with
          | nil => exact .inr (.inr ⟨name, hname, key, rfl⟩)
          | cons next path =>
              rw [at?_of_leaf (hms _ (Members.mem_of_get? hleaf))] at h
              cases h

/-- What a file with tables for its sections does not bind is free in it, as far as
there is a default for it. -/
theorem free_of_default {settings : Members} (hsections : HasSections settings)
    {path : List String} {v : Value} (hdefault : at? path (.obj defaults) = some v)
    (hunbound : at? path (.obj settings) = none) : Free path (.obj settings) where
  unbound := hunbound
  tables way hway w hw := by
    have hne : way ≠ path := by
      rintro rfl
      rw [hunbound] at hw
      cases hw
    rcases path_of_defaults hdefault with rfl | ⟨name, rfl⟩ | ⟨name, hname, key, rfl⟩
    · cases hunbound
    · rcases List.prefix_cons_iff.mp hway with rfl | ⟨rest, rfl, hrest⟩
      · exact ⟨settings, (Option.some.inj hw).symm⟩
      · rw [List.prefix_nil.mp hrest] at hne
        exact absurd rfl hne
    · rcases List.prefix_cons_iff.mp hway with rfl | ⟨rest, rfl, hrest⟩
      · exact ⟨settings, (Option.some.inj hw).symm⟩
      · rcases List.prefix_cons_iff.mp hrest with rfl | ⟨more, rfl, hmore⟩
        · rw [at?_cons, bind_at?_nil] at hw
          exact hsections name hname w hw
        · rw [List.prefix_nil.mp hmore] at hne
          exact absurd rfl hne

/-- A default is bound in the result, by the file or as it was. -/
theorem isSome_at?_of_default {settings : Members} (hsound : Toml.Sound (.obj settings))
    (hsections : HasSections settings) {path : List String} {v : Value}
    (hdefault : at? path (.obj defaults) = some v) :
    (at? path (.obj (merge defaults settings))).isSome = true := by
  have hover := overlaid_merge defaults hsound.deeplyDistinct
  cases hbound : at? path (.obj settings) with
  | none =>
      rw [hover.kept path (free_of_default hsections hdefault hbound), hdefault]
      rfl
  | some w =>
      by_cases hw : ∃ ms, w = .obj ms
      · obtain ⟨ms, rfl⟩ := hw
        obtain ⟨merged, hmerged⟩ := hover.tables path ms hbound
        rw [hmerged]
        rfl
      · rw [hover.given path w hbound fun ms heq => hw ⟨ms, heq⟩]
        rfl

/-- How a text decides what loading it comes to. -/
structure Decides (text : List Char) (loaded : Except LoadFault Members) : Prop where
  refused : (∃ fault, loaded = .error fault ∧ fault.OfConfig) ↔
    (∃ problem rest, spelled text = .error (.grammar problem rest)) ∨
      ∃ settings fault v, spelled text = .ok settings ∧
        FirstWrong (merge defaults settings) fault v ∧ v.isShowable = true
  tooLong : (∃ fault, loaded = .error fault ∧ fault.OfNumber) ↔
    (∃ count, spelled text = .error (.digits count)) ∨
      ∃ settings fault v, spelled text = .ok settings ∧
        FirstWrong (merge defaults settings) fault v ∧ v.isShowable = false
  nothingElse : ∀ fault, loaded = .error fault → fault.OfConfig ∨ fault.OfNumber
  accepted : ∀ config, loaded = .ok config →
    ∃ settings, spelled text = .ok settings ∧ Overlaid defaults settings config ∧
      (∀ path v, at? path (.obj defaults) = some v →
        (at? path (.obj config)).isSome = true ∧
          (at? path (.obj settings) = none → at? path (.obj config) = some v))

section

variable {path : FilePath} {text : List Char}
  (hsections : ∀ settings, spelled text = .ok settings → HasSections settings)
include hsections

theorem refused_iff :
    (∃ fault, load path (some (Utf8.encode text)) = .error fault ∧ fault.OfConfig) ↔
      (∃ problem rest, spelled text = .error (.grammar problem rest)) ∨
        ∃ settings fault v, spelled text = .ok settings ∧
          FirstWrong (merge defaults settings) fault v ∧ v.isShowable = true := by
  constructor
  · rintro ⟨fault, hload, hfault⟩
    have hloads := loads_load path hsections
    rw [hload] at hloads
    cases hloads with
    | grammar h => exact .inl ⟨_, _, h⟩
    | digits h => cases hfault
    | wrong h hwrong => exact .inr ⟨_, _, _, h, hwrong, hwrong.ofConfig.mp hfault⟩
  · rintro (⟨problem, rest, h⟩ | ⟨settings, fault, v, h, hwrong, hshown⟩)
    · exact ⟨_, load_of_grammar h, .unreadable⟩
    · exact ⟨_, load_of_firstWrong h (hsections _ h) hwrong, hwrong.ofConfig.mpr hshown⟩

theorem tooLong_iff :
    (∃ fault, load path (some (Utf8.encode text)) = .error fault ∧ fault.OfNumber) ↔
      (∃ count, spelled text = .error (.digits count)) ∨
        ∃ settings fault v, spelled text = .ok settings ∧
          FirstWrong (merge defaults settings) fault v ∧ v.isShowable = false := by
  constructor
  · rintro ⟨fault, hload, hfault⟩
    have hloads := loads_load path hsections
    rw [hload] at hloads
    cases hloads with
    | grammar h => cases hfault
    | digits h => exact .inl ⟨_, h⟩
    | wrong h hwrong => exact .inr ⟨_, _, _, h, hwrong, hwrong.ofNumber.mp hfault⟩
  · rintro (⟨count, h⟩ | ⟨settings, fault, v, h, hwrong, hshown⟩)
    · exact ⟨_, load_of_digits h, .digits⟩
    · exact ⟨_, load_of_firstWrong h (hsections _ h) hwrong, hwrong.ofNumber.mpr hshown⟩

theorem ofConfig_or_ofNumber {fault : LoadFault}
    (h : load path (some (Utf8.encode text)) = .error fault) : fault.OfConfig ∨ fault.OfNumber := by
  have hloads := loads_load path hsections
  rw [h] at hloads
  cases hloads with
  | grammar => exact .inl .unreadable
  | digits => exact .inr .digits
  | @wrong settings fault v _ hwrong =>
      cases hv : v.isShowable with
      | true => exact .inl (hwrong.ofConfig.mpr hv)
      | false => exact .inr (hwrong.ofNumber.mpr hv)

theorem loaded_overlaid {config : Members}
    (h : load path (some (Utf8.encode text)) = .ok config) :
    ∃ settings, spelled text = .ok settings ∧ Overlaid defaults settings config ∧
      (∀ way v, at? way (.obj defaults) = some v →
        (at? way (.obj config)).isSome = true ∧
          (at? way (.obj settings) = none → at? way (.obj config) = some v)) := by
  have hloads := loads_load path hsections
  rw [h] at hloads
  cases hloads with
  | @right settings hread _ =>
      have hsound := Toml.sound_read hread
      have hover := overlaid_merge defaults hsound.deeplyDistinct
      refine ⟨settings, hread, hover, fun way v hdefault => ⟨?_, fun hunbound => ?_⟩⟩
      · exact isSome_at?_of_default hsound (hsections _ hread) hdefault
      · rw [hover.kept way (free_of_default (hsections _ hread) hdefault hunbound), hdefault]

end

/-- A text whose sections are tables, if they are there, is refused for its grammar or
for the first of three settings that is wrong, or for a number of too many digits that
would have to be read or shown; any other is merged into the defaults. Without a file
there are the defaults. -/
theorem load_decides (path : FilePath) (text : List Char)
    (hsections : ∀ settings, spelled text = .ok settings → HasSections settings) :
    Decides text (load path (some (Utf8.encode text))) ∧ load path none = .ok defaults :=
  ⟨⟨refused_iff hsections, tooLong_iff hsections, fun _ h => ofConfig_or_ofNumber hsections h,
    fun _ h => loaded_overlaid hsections h⟩, load_none path⟩

/-- A file that asks for another policy. -/
def keepPolicyFile : List Char :=
  ['[', 'f', 'o', 'l', 'd', 'i', 'n', 'g', ']', '\n', 'o', 'n', '_', 'c', 'h', 'a', 'r', 'a', 'c',
    't', 'e', 'r', '_', 'o', 'f', 'f', 's', 'e', 't', 's', ' ', '=', ' ', '"', 'k', 'e', 'e', 'p',
    '"', '\n']

theorem spelled_keepPolicyFile :
    spelled keepPolicyFile =
      .ok [("folding", .obj [("on_character_offsets", .str "keep")])] := rfl

theorem hasSections_singleton (ms : Members) : HasSections [("folding", .obj ms)] := by
  intro name _ v hv
  rw [Members.get?_cons] at hv
  split at hv
  · exact ⟨ms, (Option.some.inj hv).symm⟩
  · cases hv

theorem keepPolicyFile_has_sections (settings : Members)
    (h : spelled keepPolicyFile = .ok settings) : HasSections settings := by
  rw [spelled_keepPolicyFile] at h
  cases h
  exact hasSections_singleton _

theorem keepPolicyFile_is_decided :
    (∀ settings, spelled keepPolicyFile = .ok settings → HasSections settings) ∧
      Decides keepPolicyFile (load ⟨.single, []⟩ (some (Utf8.encode keepPolicyFile))) ∧
      load ⟨.single, []⟩ none = .ok defaults :=
  ⟨keepPolicyFile_has_sections,
    load_decides ⟨.single, []⟩ keepPolicyFile keepPolicyFile_has_sections⟩

/-! A policy that is an integer of very many digits is wrong, but there is no saying so. -/

/-- A file whose policy is a number of `count` digits, each an `f` of base sixteen. -/
def hexPolicyFile (count : Nat) : List Char :=
  ['[', 'f', 'o', 'l', 'd', 'i', 'n', 'g', ']', '\n', 'o', 'n', '_', 'c', 'h', 'a', 'r', 'a', 'c',
    't', 'e', 'r', '_', 'o', 'f', 'f', 's', 'e', 't', 's', ' ', '=', ' ', '0', 'x'] ++
    (List.replicate count 'f' ++ ['\n'])

theorem ofDigits_replicate_f (k : Nat) : Toml.ofDigits 16 (List.replicate k 'f') = 16 ^ k - 1 := by
  have hstep : Toml.ofDigits 16 (List.replicate k 'f') + 1 = 16 ^ k := by
    induction k with
    | zero => rfl
    | succ k ih =>
        rw [List.replicate_succ', Toml.ofDigits, List.foldl_append, Nat.pow_succ, ← ih]
        show 16 * Toml.ofDigits 16 (List.replicate k 'f') + 15 + 1 = _
        omega
  omega

theorem value_hexDigits (fuel k : Nat) :
    Toml.value (fuel + 1) ('0' :: 'x' :: (List.replicate (k + 1) 'f' ++ ['\n'])) =
      .ok (.int (16 ^ (k + 1) - 1 : Nat), ['\n']) := by
  have hdigits : Toml.someDigits? (fun c => (Hex.value? c).isSome)
      (List.replicate (k + 1) 'f' ++ ['\n']) = some (List.replicate (k + 1) 'f', ['\n']) := by
    refine Toml.someDigits?_append rfl (by simp) (fun c hc => ?_) fun c hc => ?_
    · rw [List.eq_of_mem_replicate hc]; rfl
    · cases hc; decide
  have hscalar : Toml.value (fuel + 1) ('0' :: 'x' :: (List.replicate (k + 1) 'f' ++ ['\n'])) =
      Toml.scalar ('0' :: 'x' :: (List.replicate (k + 1) 'f' ++ ['\n'])) := rfl
  have hnumber : Toml.number? ('0' :: 'x' :: (List.replicate (k + 1) 'f' ++ ['\n'])) =
      some (.ok (.int (16 ^ (k + 1) - 1 : Nat), ['\n'])) := by
    simp only [Toml.number?, Toml.radixInteger?, hdigits, Option.map_some, ofDigits_replicate_f]
  rw [hscalar, Toml.scalar, hnumber]
  rfl

theorem statement_folding (tail : List Char) :
    Toml.statement .empty (Toml.skipBlanks ('[' :: 'f' :: 'o' :: 'l' :: 'd' :: 'i' :: 'n' :: 'g' ::
        ']' :: '\n' :: tail)) =
      .ok (⟨[("folding", .obj [])], ⟨[["folding"]], []⟩, [], ["folding"]⟩, '\n' :: tail) := rfl

theorem key_policy (tail : List Char) :
    Toml.key ('o' :: 'n' :: '_' :: 'c' :: 'h' :: 'a' :: 'r' :: 'a' :: 'c' :: 't' :: 'e' :: 'r' ::
        '_' :: 'o' :: 'f' :: 'f' :: 's' :: 'e' :: 't' :: 's' :: ' ' :: '=' :: tail) =
      .ok (["on_character_offsets"], '=' :: tail) := rfl

theorem return_not_mem_hexLine {start : List Char} (h : '\r' ∉ start) (count : Nat) :
    '\r' ∉ start ++ (List.replicate count 'f' ++ ['\n']) := by
  intro hmem
  rcases List.mem_append.mp hmem with hmem | hmem
  · exact h hmem
  · rcases List.mem_append.mp hmem with hmem | hmem
    · cases List.eq_of_mem_replicate hmem
    · revert hmem; decide

theorem spelled_hexPolicyFile (k : Nat) :
    spelled (hexPolicyFile (k + 1)) =
      .ok [("folding", .obj [("on_character_offsets", .int (16 ^ (k + 1) - 1 : Nat))])] := by
  have hreturn : '\r' ∉ hexPolicyFile (k + 1) := return_not_mem_hexLine (by decide) (k + 1)
  obtain ⟨fuel, hfuel⟩ : ∃ fuel, (hexPolicyFile (k + 1)).length + 1 = fuel + 3 :=
    ⟨(hexPolicyFile (k + 1)).length - 2, by simp [hexPolicyFile]⟩
  rw [spelled, Toml.joinLineEnds_of_not_mem hreturn, Toml.read, hfuel, hexPolicyFile]
  simp only [List.cons_append, List.nil_append]
  rw [Toml.statements_line (statement_folding _) rfl]
  rw [Toml.statements_lastLine (Toml.statement_pair (by decide) _ _ |>.trans
    (Toml.pair_of_value (key_policy _) (value_hexDigits _ _) rfl))]
  rfl

theorem firstWrong_of_intPolicy (n : Int) :
    FirstWrong (merge defaults [("folding", .obj [("on_character_offsets", .int n)])])
      .policy (.int n) := .policy rfl ⟨nofun, nofun⟩

/-- A policy of base sixteen is not told of if it has too many digits in base ten. -/
theorem longPolicy_is_not_told_of (path : FilePath) {k : Nat}
    (hlong : 10 ^ Numeral.digitLimit ≤ 16 ^ (k + 1) - 1) :
    ¬ ∃ fault, load path (some (Utf8.encode (hexPolicyFile (k + 1)))) = .error fault ∧
      fault.OfConfig := by
  have hread := spelled_hexPolicyFile k
  generalize 16 ^ (k + 1) - 1 = n at hread hlong
  have hshown : Numeral.isShowable n = false := by
    rw [Bool.eq_false_iff, ne_eq, Numeral.isShowable_iff]
    exact Nat.not_lt.mpr hlong
  rintro ⟨fault, hload, hfault⟩
  rw [load_of_firstWrong hread (hasSections_singleton _) (firstWrong_of_intPolicy n)] at hload
  cases hload
  rw [(firstWrong_of_intPolicy n).ofConfig, isShowable, hshown] at hfault
  cases hfault

theorem hugePolicy_is_not_told_of :
    (∃ settings v, spelled (hexPolicyFile 3572) = .ok settings ∧ HasSections settings ∧
      at? ["folding", "on_character_offsets"] (.obj (merge defaults settings)) = some v ∧
      v ≠ .str "strip" ∧ v ≠ .str "reject") ∧
    ¬ ∃ fault, load ⟨.single, []⟩ (some (Utf8.encode (hexPolicyFile 3572))) = .error fault ∧
      fault.OfConfig := by
  have hwrong (n : Int) : ∃ v, at? ["folding", "on_character_offsets"]
      (.obj (merge defaults [("folding", .obj [("on_character_offsets", .int n)])])) = some v ∧
        v ≠ .str "strip" ∧ v ≠ .str "reject" := ⟨.int n, rfl, nofun, nofun⟩
  obtain ⟨v, hv⟩ := hwrong _
  exact ⟨⟨_, v, spelled_hexPolicyFile 3571, hasSections_singleton _, hv⟩,
    longPolicy_is_not_told_of _ (by decide +kernel)⟩

end FoldingProtocol.Config
