import FoldingProtocol.Proofs.LoadedConfig
import FoldingProtocol.Proofs.TomlTables

/-!
# A saved configuration loads again

A configuration that was loaded has all the defaults in it. So what is merged into
the defaults when it is loaded again takes the place of all of them, and it is checked
again as it was before, since the three settings that are checked are leaves and no
leaf is changed by an order of members.

An integer is written in base ten and only up to a number of digits, while it is read
from other bases with any number of them. A configuration with an integer that is too
long can be loaded but not saved.
-/

namespace FoldingProtocol

namespace Value

section

variable {ms ns : Members} {key : String} {v w : Value}

theorem Reordered.get? (h : Reordered (.obj ms) (.obj ns)) (hv : ms.get? key = some v) :
    ∃ w, ns.get? key = some w ∧ Reordered v w := by
  cases h with
  | leaf _ hobj => exact absurd rfl (hobj ms)
  | obj hbound hmembers =>
      obtain ⟨w, hw⟩ := Option.isSome_iff_exists.mp ((hbound key).symm.trans (by rw [hv]; rfl))
      exact ⟨w, hw, hmembers key v w hv hw⟩

theorem Reordered.table (h : Reordered (.obj ms) w) : ∃ ns, w = .obj ns := by
  cases h with
  | leaf => exact ⟨ms, rfl⟩
  | obj => exact ⟨_, rfl⟩

theorem Reordered.eq_of_leaf (h : Reordered v w) (harr : ∀ items, v ≠ .arr items)
    (hobj : ∀ ms, v ≠ .obj ms) : w = v := by
  cases h with
  | leaf => rfl
  | arr => exact absurd rfl (harr _)
  | obj => exact absurd rfl (hobj _)

end

end Value

namespace Config

open Value

/-! ## Merging into the defaults once more -/

/-- Every path that leads somewhere in one value leads somewhere in another. -/
def Covers (v base : Value) : Prop :=
  ∀ path, (at? path base).isSome = true → (at? path v).isSome = true

theorem Covers.get? {ms base : Members} (h : Covers (.obj ms) (.obj base)) {key : String} {b : Value}
    (hb : base.get? key = some b) : ∃ v, ms.get? key = some v ∧ Covers v b := by
  have hpath (path : List String) (hbase : (at? path b).isSome = true) :
      ((ms.get? key).bind (at? path)).isSome = true := by
    rw [← at?_cons]
    refine h (key :: path) ?_
    rw [at?_cons, hb]
    exact hbase
  cases hv : ms.get? key with
  | none =>
      have hbound := hpath [] (by rw [at?_nil]; rfl)
      rw [hv] at hbound
      cases hbound
  | some v =>
      refine ⟨v, rfl, fun path hbase => ?_⟩
      have hbound := hpath path hbase
      rw [hv] at hbound
      exact hbound

/-- What was read again takes the place of everything that the first value covers. -/
theorem reordered_settingOver {v w : Value} (h : Reordered v w) (hw : w.Distinct) {base : Value}
    (hbase : Covers v base) : Reordered v (settingOver (some base) w) := by
  induction h generalizing base with
  | leaf harr hobj =>
      rw [settingOver_of_leaf hobj]
      exact .leaf harr hobj
  | arr hlength hitems =>
      rw [settingOver_of_leaf fun _ => by nofun]
      exact .arr hlength hitems
  | @obj ms ns hbound hmembers ih =>
      cases base with
      | obj base =>
          show Reordered _ (.obj (merge base ns))
          have hmerge := get?_merge hw.keys base
          refine .obj (fun key => ?_) fun key v x hv hx => ?_
          · rw [hmerge, hbound]
            cases hns : ns.get? key with
            | some w => rfl
            | none =>
                -- What was not read again would come back from the base, but the base has
                -- no key that the first value has not.
                cases hb : Members.get? key base with
                | none => rfl
                | some b =>
                    obtain ⟨v, hv, -⟩ := hbase.get? hb
                    have hnone := hbound key
                    rw [hv, hns] at hnone
                    cases hnone
          · obtain ⟨w, hns, hsame⟩ := (Reordered.obj hbound hmembers).get? hv
            rw [hmerge, hns] at hx
            cases hx
            cases hb : Members.get? key base with
            | none =>
                rw [settingOver_none]
                exact hsame
            | some b =>
                obtain ⟨v', hv', hcovers⟩ := hbase.get? hb
                cases hv.symm.trans hv'
                exact ih key v w hv hns (hw.of_get? hns) hcovers
      | null | bool | int | float | str | moment | arr => exact .obj hbound hmembers

theorem hasSections_of_check {settings : Members} (hsettings : settings.Distinct)
    (h : check (merge defaults settings) = .ok ()) : HasSections settings := by
  obtain ⟨folding, logging, hfolding, hlogging, -, -⟩ := check_eq_ok h
  have htable {name : String} {base ms : Members} (hbase : defaults.get? name = some (.obj base))
      (hsection : .ok ms = section? (merge defaults settings) name) (v : Value)
      (hv : settings.get? name = some v) : ∃ ms, v = .obj ms := by
    obtain ⟨hget, -⟩ := section?_merge hsettings hbase hsection.symm
    rw [get?_merge hsettings, hv] at hget
    have hover := Option.some.inj hget
    by_contra hleaf
    rw [settingOver_of_leaf fun ms heq => hleaf ⟨ms, heq⟩] at hover
    exact hleaf ⟨ms, hover⟩
  intro name hname
  simp only [List.mem_cons, List.not_mem_nil, or_false] at hname
  rcases hname with rfl | rfl
  · exact htable rfl hfolding
  · exact htable rfl hlogging

/-! ## Checking again -/

section

variable {config again folding logging : Members} {policy maximum level : Value}

theorem Complete.right_of_check (h : Complete config folding logging policy maximum level)
    (hcheck : check config = .ok ()) :
    isPolicy policy = true ∧ isMaximum maximum = true ∧ Log.threshold? level ≠ none := by
  rw [h.check_eq] at hcheck
  split at hcheck
  · cases hcheck
  next hpolicy =>
  split at hcheck
  · cases hcheck
  next hmaximum =>
  split at hcheck
  · cases hcheck
  next hlevel =>
  exact ⟨eq_true_of_ne_false hpolicy, eq_true_of_ne_false hmaximum, hlevel⟩

theorem check_of_reordered (h : Complete config folding logging policy maximum level)
    (hcheck : check config = .ok ()) (hsame : Reordered (.obj config) (.obj again)) :
    check again = .ok () := by
  obtain ⟨hpolicy, hmaximum, hlevel⟩ := h.right_of_check hcheck
  -- What passed one of the three checks is no table and no array.
  have hleaf {v w : Value} (hvw : Reordered v w)
      (hv : isPolicy v = true ∨ isMaximum v = true ∨ Log.threshold? v ≠ none) : w = v := by
    refine hvw.eq_of_leaf ?_ ?_
    all_goals
      rintro _ rfl
      rcases hv with hv | hv | hv
      · cases hv
      · cases hv
      · exact hv rfl
  obtain ⟨_, hfolding, hfoldings⟩ := hsame.get? h.hasFolding
  obtain ⟨newFolding, rfl⟩ := hfoldings.table
  obtain ⟨_, hlogging, hloggings⟩ := hsame.get? h.hasLogging
  obtain ⟨newLogging, rfl⟩ := hloggings.table
  obtain ⟨_, hnewPolicy, hpolicies⟩ := hfoldings.get? h.hasPolicy
  cases hleaf hpolicies (.inl hpolicy)
  obtain ⟨_, hnewMaximum, hmaxima⟩ := hfoldings.get? h.hasMaximum
  cases hleaf hmaxima (.inr (.inl hmaximum))
  obtain ⟨_, hnewLevel, hlevels⟩ := hloggings.get? h.hasLevel
  cases hleaf hlevels (.inr (.inr hlevel))
  have hagain : Complete again newFolding newLogging policy maximum level :=
    ⟨hfolding, hlogging, hnewPolicy, hnewMaximum, h.limited, hnewLevel⟩
  rw [hagain.check_eq, ← h.check_eq, hcheck]

end

/-! ## Saving and loading -/

/-- A loaded configuration is one that a document can hold, with all the defaults. -/
theorem sound_of_load {path : FilePath} {contents : Option Utf8.Bytes} {config : Members}
    (h : load path contents = .ok config) :
    Toml.Sound (.obj config) ∧ Covers (.obj config) (.obj defaults) := by
  obtain ⟨hcheck, settings, hsettings, rfl⟩ := load_eq_ok h
  have hsections := hasSections_of_check hsettings.distinct hcheck
  refine ⟨sound_merge_defaults hsettings, fun way hway => ?_⟩
  obtain ⟨v, hv⟩ := Option.isSome_iff_exists.mp hway
  exact isSome_at?_of_default hsettings hsections hv

theorem spelled_write {config : Members} (h : Toml.Writable (.obj config)) :
    ∃ settings, spelled (Toml.write config).text = .ok settings ∧
      Reordered (.obj config) (.obj settings) := by
  obtain ⟨-, hunbroken, settings, hread, hsame⟩ := Toml.read_write h
  refine ⟨settings, ?_, hsame⟩
  rw [spelled, Toml.joinLineEnds_of_not_mem fun hmem => hunbroken _ hmem rfl, hread]

/-- A configuration that was loaded, and that has no integers of more digits than are
written, is saved, and loads again as the same configuration with the members of its
tables in some order. It is equal to the first one as values are compared, unless it
has a double that is not equal to itself. -/
theorem load_save {path : FilePath} {contents : Option Utf8.Bytes} {config : Members}
    (hload : load path contents = .ok config) (hshort : (Value.obj config).Short) :
    (save config).2 = none ∧
      ∃ again, load path (some (save config).1) = .ok again ∧
        Reordered (.obj config) (.obj again) ∧
        ((Value.obj config).NanFree → same (.obj config) (.obj again) = true) := by
  obtain ⟨hsound, hcovers⟩ := sound_of_load hload
  have hwritable := hsound.writable hshort
  obtain ⟨settings, hspelled, hsettings⟩ := spelled_write hwritable
  have hread := Toml.sound_read hspelled
  have hsame : Reordered (.obj config) (.obj (merge defaults settings)) :=
    reordered_settingOver hsettings hread.deeplyDistinct hcovers
  obtain ⟨hcheck, first, hfirst, heq⟩ := load_eq_ok hload
  have hcomplete : ∃ folding logging policy maximum level,
      Complete config folding logging policy maximum level := by
    rw [heq] at hcheck ⊢
    exact complete_merge hfirst (hasSections_of_check hfirst.distinct hcheck)
  obtain ⟨_, _, _, _, _, hcomplete⟩ := hcomplete
  have hagain : load path (some (save config).1) = .ok (merge defaults settings) := by
    rw [save, load_of_settings hspelled, check_of_reordered hcomplete hcheck hsame]
  exact ⟨(Toml.read_write hwritable).1, _, hagain, hsame,
    hsame.same hsound (sound_merge_defaults hread)⟩

/-- A file with an array of two tables, one of which has a table inside. -/
def tablesFile : List Char :=
  ['[', '[', 't', ']', ']', '\n', 'k', ' ', '=', ' ', '[', '1', ']', '\n', '[', 't', '.', 's', ']',
    '\n', '[', '[', 't', ']', ']', '\n', '"', 'a', ' ', 'b', '"', ' ', '=', ' ', '1', '.', '5', '\n']

/-- The configuration that the file makes. -/
def tablesConfig : Members :=
  merge defaults [("t", .arr [.obj [("k", .arr [.int 1]), ("s", .obj [])],
    .obj [("a b", .float (.ofDecimal false ⟨15, -1⟩))]])]

theorem load_tablesFile : load ⟨.single, []⟩ (some (Utf8.encode tablesFile)) = .ok tablesConfig := by
  have hspelled : spelled tablesFile = .ok [("t", .arr [.obj [("k", .arr [.int 1]), ("s", .obj [])],
      .obj [("a b", .float (.ofDecimal false ⟨15, -1⟩))]])] := rfl
  rw [load_of_settings hspelled]
  rfl

theorem tablesConfig_eq :
    tablesConfig = defaults ++ [("t", .arr [.obj [("k", .arr [.int 1]), ("s", .obj [])],
      .obj [("a b", .float (.ofDecimal false ⟨15, -1⟩))]])] := rfl

theorem short_defaults : ∀ m ∈ defaults, m.2.Short := by
  simp only [defaults, List.forall_mem_cons]
  refine ⟨.obj (List.forall_mem_singleton.mpr (.str _)), .obj ?_, List.forall_mem_nil _⟩
  simp only [List.forall_mem_cons]
  exact ⟨.bool _, .int (Numeral.short_of_lt (by decide)), .bool _, .str _, .bool _,
    List.forall_mem_nil _⟩

theorem short_tablesConfig : (Value.obj tablesConfig).Short := by
  rw [tablesConfig_eq]
  refine .obj (List.forall_mem_append.mpr ⟨short_defaults, ?_⟩)
  refine List.forall_mem_singleton.mpr (.arr ?_)
  simp only [List.forall_mem_cons]
  refine ⟨.obj ?_, .obj (List.forall_mem_singleton.mpr (.float _)), nofun⟩
  simp only [List.forall_mem_cons]
  exact ⟨.arr (List.forall_mem_singleton.mpr (.int (Numeral.short_of_lt (by decide)))), .obj nofun,
    nofun⟩

theorem nanFree_leaf {v : Value} (harr : ∀ items, v ≠ .arr items) (hobj : ∀ ms, v ≠ .obj ms)
    (h : ∀ x, v ≠ .float x) : v.NanFree := .leaf harr hobj fun x hx => absurd hx (h x)

theorem nanFree_bool (b : Bool) : (Value.bool b).NanFree := nanFree_leaf nofun nofun nofun

theorem nanFree_int (n : Int) : (Value.int n).NanFree := nanFree_leaf nofun nofun nofun

theorem nanFree_str (s : String) : (Value.str s).NanFree := nanFree_leaf nofun nofun nofun

theorem nanFree_defaults : ∀ m ∈ defaults, m.2.NanFree := by
  simp only [defaults, List.forall_mem_cons]
  refine ⟨.obj (List.forall_mem_singleton.mpr (nanFree_str _)), .obj ?_, List.forall_mem_nil _⟩
  simp only [List.forall_mem_cons]
  exact ⟨nanFree_bool _, nanFree_int _, nanFree_bool _, nanFree_str _, nanFree_bool _,
    List.forall_mem_nil _⟩

theorem nanFree_tablesConfig : (Value.obj tablesConfig).NanFree := by
  have hdouble : (Value.float (.ofDecimal false ⟨15, -1⟩)).NanFree := by
    refine .leaf nofun nofun fun x hx => ?_
    cases hx
    decide +kernel
  rw [tablesConfig_eq]
  refine .obj (List.forall_mem_append.mpr ⟨nanFree_defaults, ?_⟩)
  refine List.forall_mem_singleton.mpr (.arr ?_)
  simp only [List.forall_mem_cons]
  refine ⟨.obj ?_, .obj (List.forall_mem_singleton.mpr hdouble), nofun⟩
  simp only [List.forall_mem_cons]
  exact ⟨.arr (List.forall_mem_singleton.mpr (nanFree_int _)), .obj nofun, nofun⟩

theorem tablesConfig_loads_again :
    load ⟨.single, []⟩ (some (Utf8.encode tablesFile)) = .ok tablesConfig ∧
      (Value.obj tablesConfig).Short ∧ (Value.obj tablesConfig).NanFree ∧
      (save tablesConfig).2 = none ∧
      ∃ again, load ⟨.single, []⟩ (some (save tablesConfig).1) = .ok again ∧
        Reordered (.obj tablesConfig) (.obj again) ∧
        same (.obj tablesConfig) (.obj again) = true := by
  obtain ⟨hsaved, again, hagain, hreordered, hsame⟩ := load_save load_tablesFile short_tablesConfig
  exact ⟨load_tablesFile, short_tablesConfig, nanFree_tablesConfig, hsaved, again, hagain,
    hreordered, hsame nanFree_tablesConfig⟩

/-! An integer of base sixteen may have more digits in base ten than are written. -/

/-- A file that binds a number of `count` digits, each an `f` of base sixteen. -/
def numberFile (count : Nat) : List Char :=
  ['x', ' ', '=', ' ', '0', 'x'] ++ (List.replicate count 'f' ++ ['\n'])

theorem spelled_numberFile (k : Nat) :
    spelled (numberFile (k + 1)) = .ok [("x", .int (16 ^ (k + 1) - 1 : Nat))] := by
  have hreturn : '\r' ∉ numberFile (k + 1) := return_not_mem_hexLine (by decide) (k + 1)
  have hkey (tail : List Char) : Toml.key ('x' :: ' ' :: '=' :: tail) = .ok (["x"], '=' :: tail) := rfl
  obtain ⟨fuel, hfuel⟩ : ∃ fuel, (numberFile (k + 1)).length + 1 = fuel + 2 :=
    ⟨(numberFile (k + 1)).length - 1, by simp [numberFile]⟩
  rw [spelled, Toml.joinLineEnds_of_not_mem hreturn, Toml.read, hfuel, numberFile]
  simp only [List.cons_append, List.nil_append]
  rw [Toml.statements_lastLine (Toml.statement_pair (by decide) _ _ |>.trans
    (Toml.pair_of_value (hkey _) (value_hexDigits _ _) rfl))]
  rfl

theorem load_numberFile (path : FilePath) (k : Nat) :
    load path (some (Utf8.encode (numberFile (k + 1)))) =
      .ok (defaults ++ [("x", .int (16 ^ (k + 1) - 1 : Nat))]) := by
  rw [load_of_settings (spelled_numberFile k)]
  generalize 16 ^ (k + 1) - 1 = n
  rfl

theorem save_longNumber {n : Int} (hn : Numeral.isShowable n = false) :
    (save (defaults ++ [("x", .int n)])).2 = some .digits := by
  have hwritten : Toml.written 0 (.int n) = .error .digits := by
    rw [Toml.written, hn, if_neg Bool.false_ne_true]
  obtain ⟨tail, htail⟩ : ∃ tail, Toml.chunks (defaults ++ [("x", .int n)]) =
      Toml.pairLine "x" (.int n) :: tail := ⟨_, rfl⟩
  rw [save, Toml.write]
  simp only [htail, Toml.pairLine, hwritten]
  rfl

/-- A number of base sixteen is loaded but not saved if it has too many digits in
base ten. -/
theorem longNumber_is_not_saved (path : FilePath) {k : Nat}
    (hlong : 10 ^ Numeral.digitLimit ≤ 16 ^ (k + 1) - 1) :
    ∃ config, load path (some (Utf8.encode (numberFile (k + 1)))) = .ok config ∧
      (Value.obj config).NanFree ∧ (save config).2 = some .digits := by
  have hload := load_numberFile path k
  generalize 16 ^ (k + 1) - 1 = n at hload hlong
  have hshown : Numeral.isShowable n = false := by
    rw [Bool.eq_false_iff, ne_eq, Numeral.isShowable_iff]
    exact Nat.not_lt.mpr hlong
  refine ⟨_, hload, .obj ?_, save_longNumber hshown⟩
  rw [List.forall_mem_append, List.forall_mem_singleton]
  exact ⟨nanFree_defaults, nanFree_int _⟩

/-- A configuration that loads does not always load again after it was saved. -/
theorem hugeNumber_does_not_load_again :
    ∃ config, load ⟨.single, []⟩ (some (Utf8.encode (numberFile 3572))) = .ok config ∧
      (Value.obj config).NanFree ∧
      ¬ ((save config).2 = none ∧
        ∃ again, load ⟨.single, []⟩ (some (save config).1) = .ok again ∧
          same (.obj config) (.obj again) = true) := by
  obtain ⟨config, hload, hnan, hfault⟩ :=
    longNumber_is_not_saved ⟨.single, []⟩ (k := 3571) (by decide +kernel)
  refine ⟨config, hload, hnan, fun ⟨hsaved, _⟩ => ?_⟩
  rw [hfault] at hsaved
  cases hsaved

end Config

end FoldingProtocol
