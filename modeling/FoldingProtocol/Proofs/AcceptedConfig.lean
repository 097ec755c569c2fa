import FoldingProtocol.Config.File
import FoldingProtocol.Proofs.DocumentValues

/-!
# What an accepted configuration holds

Checking a configuration looks at some settings and passes over those that are
missing, so that something is checked does not yet mean that it is there. It is
there because a file is merged into the defaults. That argument needs a file to
bind a section once, as every document does: a second binding could put a table
where the first has put something else, and the defaults would be gone.
-/

namespace FoldingProtocol

/-! ## Merging and checking -/

namespace Config

theorem get?_merge_of_absent {key : String} {more : Members} (h : key ∉ more.map Prod.fst)
    (base : Members) : (merge base more).get? key = base.get? key := by
  induction more generalizing base with
  | nil => rw [merge]
  | cons m more ih =>
      rw [List.map_cons, List.mem_cons, not_or] at h
      rw [merge, ih h.2, Members.get?_put_of_ne h.1]

theorem get?_merge {more : Members} (hmore : more.Distinct) (base : Members) (key : String) :
    (merge base more).get? key =
      match more.get? key with
      | none => base.get? key
      | some v => some (settingOver (base.get? key) v) := by
  induction more generalizing base with
  | nil => rw [merge]; rfl
  | cons m more ih =>
      obtain ⟨k, v⟩ := m
      obtain ⟨hk, hmore⟩ := List.nodup_cons.mp hmore
      rw [merge, Members.get?_cons]
      by_cases hkey : k = key
      · subst hkey
        rw [get?_merge_of_absent hk, Members.get?_put_self, if_pos rfl]
      · rw [ih hmore, Members.get?_put_of_ne (Ne.symm hkey), if_neg hkey]

/-- What is in the defaults is in what is merged into them. -/
theorem isSome_get?_merge {base : Members} {key : String} (h : (base.get? key).isSome = true)
    (more : Members) : ((merge base more).get? key).isSome = true := by
  induction more generalizing base with
  | nil => rw [merge]; exact h
  | cons m more ih =>
      rw [merge]
      exact ih (Members.isSome_get?_put h _ _)

/-- A section that has defaults is made of them. -/
theorem section?_merge {settings base ms : Members} {name : String}
    (hsettings : settings.Distinct) (hbase : defaults.get? name = some (.obj base))
    (h : section? (merge defaults settings) name = .ok ms) :
    (merge defaults settings).get? name = some (.obj ms) ∧ ∃ more, ms = merge base more := by
  have hget := get?_merge hsettings defaults name
  unfold section? at h
  rw [hbase] at hget
  cases hv : settings.get? name with
  | none =>
      rw [hv] at hget
      rw [hget] at h ⊢
      cases h
      exact ⟨rfl, [], by rw [merge]⟩
  | some v =>
      rw [hv] at hget
      rw [hget] at h ⊢
      cases v with
      | obj more =>
          cases h
          exact ⟨rfl, more, rfl⟩
      | null | bool | int | float | str | moment | arr => cases h

theorem sound_readFile {path : FilePath} {bytes : Utf8.Bytes} {settings : Members}
    (h : readFile path bytes = .ok settings) : Toml.Sound (.obj settings) := by
  unfold readFile at h
  split at h
  · cases h
  · dsimp only at h
    split at h
    · next hread =>
        cases h
        exact Toml.sound_read hread
    · cases h
    · cases h

theorem load_eq_ok {path : FilePath} {contents : Option Utf8.Bytes} {config : Members}
    (h : load path contents = .ok config) :
    check config = .ok () ∧
      ∃ settings, Toml.Sound (.obj settings) ∧ config = merge defaults settings := by
  unfold load at h
  cases contents with
  | none =>
      dsimp only [bind, Except.bind] at h
      split at h
      · next hcheck =>
          cases h
          exact ⟨hcheck, [], Toml.sound_empty, rfl⟩
      · cases h
  | some bytes =>
      dsimp only at h
      obtain ⟨settings, hsettings, h⟩ := bind_eq_ok.mp h
      split at h
      · next hcheck =>
          cases h
          exact ⟨hcheck, settings, sound_readFile hsettings, rfl⟩
      · cases h

theorem check_eq_ok {config : Members} (h : check config = .ok ()) :
    ∃ folding logging,
      .ok folding = section? config "folding" ∧ .ok logging = section? config "logging" ∧
      isMaximum (.ofOption (Members.get? "maximum_number_of_ranges" folding)) = true ∧
      (Log.threshold? ((Members.get? "level" logging).getD (.str "warning"))).isSome = true := by
  unfold check at h
  obtain ⟨folding, hfolding, h⟩ := bind_eq_ok.mp h
  dsimp only at h
  split at h
  · cases h
  · split at h
    · cases h
    · next hmaximum =>
        obtain ⟨logging, hlogging, h⟩ := bind_eq_ok.mp h
        split at h
        · cases h
        · next hlevel =>
            rw [Bool.not_eq_true', Bool.not_eq_false] at hmaximum
            rw [Option.isNone_iff_eq_none, ← ne_eq, ← Option.isSome_iff_ne_none] at hlevel
            exact ⟨folding, logging, hfolding.symm, hlogging.symm, hmaximum, hlevel⟩

theorem ofNat?_of_isMaximum {v : Value} (h : isMaximum v = true) :
    ∃ limit, v = .ofNat? limit := by
  cases v with
  | null => exact ⟨none, rfl⟩
  | int n =>
      obtain ⟨k, rfl⟩ := Int.eq_ofNat_of_zero_le (of_decide_eq_true h)
      exact ⟨some k, rfl⟩
  | bool | float | str | moment | arr | obj => cases h

/-- What is there in a configuration that was loaded: both sections, a level that
is known, and a limit if the setting for it is there. -/
theorem sections_of_load {path : FilePath} {contents : Option Utf8.Bytes} {config : Members}
    (h : load path contents = .ok config) :
    (∃ folding limit, config.get? "folding" = some (.obj folding) ∧
      .ofOption (Members.get? "maximum_number_of_ranges" folding) = Value.ofNat? limit) ∧
    ∃ logging level n, config.get? "logging" = some (.obj logging) ∧
      Members.get? "level" logging = some level ∧ Log.threshold? level = some n := by
  obtain ⟨hcheck, settings, hsettings, rfl⟩ := load_eq_ok h
  obtain ⟨folding, logging, hfolding, hlogging, hmaximum, hlevel⟩ := check_eq_ok hcheck
  obtain ⟨limit, hlimit⟩ := ofNat?_of_isMaximum hmaximum
  obtain ⟨hfolding, -⟩ := section?_merge hsettings.distinct rfl hfolding.symm
  obtain ⟨hlogging, more, rfl⟩ := section?_merge hsettings.distinct rfl hlogging.symm
  have hthere : ((merge [("level", .str "warning")] more).get? "level").isSome = true :=
    isSome_get?_merge rfl more
  obtain ⟨level, hget⟩ := Option.isSome_iff_exists.mp hthere
  rw [hget] at hlevel
  obtain ⟨n, hn⟩ := Option.isSome_iff_exists.mp hlevel
  exact ⟨⟨folding, limit, hfolding, hlimit⟩, _, level, n, hlogging, hget, hn⟩

end Config

end FoldingProtocol
