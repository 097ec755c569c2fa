import FoldingProtocol.Proofs.MergedTables

/-!
# The keys of merged tables, and merging twice

A table with another one over it has its own keys where they stood, and the keys that
are new behind them, in their order in the second table. That holds at every path at
which both have tables.

Merging the same table once more changes nothing. What is put over a table is already
there, and putting what is there leaves the table as it is, so this is an induction on
the second table; inside it, what was put is a table merged into another one, or the
table itself where there was none to merge it into.
-/

namespace FoldingProtocol

namespace Members

theorem keys_put (key : String) (v : Value) (ms : Members) :
    (ms.put key v).map Prod.fst =
      ms.map Prod.fst ++ (if key ∈ ms.map Prod.fst then [] else [key]) := by
  induction ms with
  | nil => rfl
  | cons m ms ih =>
      rw [put]
      split
      · next hk => simp [hk]
      · next hk =>
          have hne : key ≠ m.1 := Ne.symm hk
          rw [List.map_cons, ih, List.map_cons, List.cons_append]
          simp only [List.mem_cons, hne, false_or]

/-- To put what is there changes nothing. -/
theorem put_of_get? {key : String} {v : Value} {ms : Members} (h : ms.get? key = some v) :
    ms.put key v = ms := by
  induction ms with
  | nil => cases h
  | cons m ms ih =>
      rw [get?_cons] at h
      rw [put]
      split
      · next hk =>
          rw [if_pos hk] at h
          cases h
          subst hk
          rfl
      · next hk =>
          rw [if_neg hk] at h
          rw [ih h]

end Members

theorem Value.Distinct.of_at? {path : List String} {v w : Value} (h : v.Distinct)
    (hat : at? path v = some w) : w.Distinct := by
  induction path generalizing v with
  | nil =>
      cases hat
      exact h
  | cons key path ih =>
      cases v with
      | obj ms =>
          rw [at?_cons] at hat
          obtain ⟨x, hget, hx⟩ := Option.bind_eq_some_iff.mp hat
          exact ih (h.of_get? hget) hx
      | null | bool | int | float | str | moment | arr => cases hat

namespace Config

open Value

/-! ## Keys -/

theorem keys_merge {more : Members} (hmore : more.Distinct) (base : Members) :
    (merge base more).map Prod.fst =
      base.map Prod.fst ++ (more.map Prod.fst).filter (· ∉ base.map Prod.fst) := by
  induction more generalizing base with
  | nil => rw [merge, List.map_nil, List.filter_nil, List.append_nil]
  | cons m more ih =>
      obtain ⟨key, v⟩ := m
      obtain ⟨hkey, hmore⟩ := List.nodup_cons.mp hmore
      rw [merge, ih hmore, Members.keys_put, List.map_cons, List.append_assoc]
      by_cases hbound : key ∈ base.map Prod.fst
      · rw [if_pos hbound, List.filter_cons_of_neg (by simpa using hbound), List.nil_append,
          List.append_nil]
      · rw [if_neg hbound, List.filter_cons_of_pos (by simpa using hbound), List.singleton_append]
        -- The key that was put last is none of those that are still to come.
        have hrest : (more.map Prod.fst).filter (· ∉ base.map Prod.fst ++ [key]) =
            (more.map Prod.fst).filter (· ∉ base.map Prod.fst) := by
          refine List.filter_congr fun other hother => ?_
          have hne : other ≠ key := fun heq => hkey (heq ▸ hother)
          simp [hne]
        rw [hrest]

/-! ## Merging again -/

/-- A table is left as it is by settings that are no news to it. -/
theorem merge_eq_self {config more : Members}
    (h : ∀ m ∈ more, ∃ w, config.get? m.1 = some w ∧ settingOver (some w) m.2 = w) :
    merge config more = config := by
  induction more with
  | nil => rw [merge]
  | cons m more ih =>
      rw [List.forall_mem_cons] at h
      obtain ⟨w, hget, hsame⟩ := h.1
      rw [merge, hget, hsame, Members.put_of_get? hget]
      exact ih h.2

/-- A table over something is merged into a table, or stands as it is. -/
theorem settingOver_obj (old : Option Value) (more : Members) :
    (∃ base, settingOver old (.obj more) = .obj (merge base more)) ∨
      settingOver old (.obj more) = .obj more := by
  unfold settingOver
  split
  · exact .inl ⟨_, rfl⟩
  · exact .inr rfl

/-- What was put over something is not changed by being put over it again. -/
theorem settingOver_settingOver {v : Value} (hv : v.Distinct) (old : Option Value) :
    settingOver (some (settingOver old v)) v = settingOver old v := by
  induction hv generalizing old with
  | leaf hleaf => rw [settingOver_of_leaf hleaf, settingOver_of_leaf hleaf]
  | @obj more hkeys hmembers ih =>
      have hmerged (base : Members) : merge (merge base more) more = merge base more := by
        refine merge_eq_self fun m hm => ⟨_, ?_, ih m hm (base.get? m.1)⟩
        rw [get?_merge hkeys, (Members.get?_eq_some hkeys).mpr hm]
      have hself : merge more more = more := by
        refine merge_eq_self fun m hm => ⟨m.2, (Members.get?_eq_some hkeys).mpr hm, ?_⟩
        have hm := ih m hm none
        rwa [settingOver_none] at hm
      rcases settingOver_obj old more with ⟨base, hover⟩ | hover
      · rw [hover]
        exact congrArg Value.obj (hmerged base)
      · rw [hover]
        exact congrArg Value.obj hself

theorem merge_merge {more : Members} (hmore : (Value.obj more).Distinct) (base : Members) :
    merge (merge base more) more = merge base more :=
  Value.obj.inj (settingOver_settingOver hmore (some (.obj base)))

/-! ## All of it -/

/-- Where both have tables, the result has the keys of the first one in order and then
those of the second that are new, in order. -/
def KeepsOrder (base more config : Members) : Prop :=
  ∀ path bs ms, at? path (.obj base) = some (.obj bs) → at? path (.obj more) = some (.obj ms) →
    ∃ merged, at? path (.obj config) = some (.obj merged) ∧
      merged.map Prod.fst = bs.map Prod.fst ++ (ms.map Prod.fst).filter (· ∉ bs.map Prod.fst)

theorem keepsOrder_merge (base : Members) {more : Members} (hmore : (Value.obj more).Distinct) :
    KeepsOrder base more (merge base more) := by
  intro path bs ms hbase hms
  have hat := at?_settingOver_of_some (some (.obj base)) hmore hms
  rw [Option.bind_some, hbase] at hat
  exact ⟨merge bs ms, hat, keys_merge (hmore.of_at? hms).keys bs⟩

/-- Two tables merged. What the second one binds to no table is bound in the result, what
it leaves alone is as the first one has it, tables of both keep their keys in order, and
nothing else is there. Merging the second table again changes nothing. -/
theorem merge_overlays_once (base : Members) {more : Members}
    (hmore : (Value.obj more).Distinct) :
    Overlaid base more (merge base more) ∧ KeepsOrder base more (merge base more) ∧
      merge (merge base more) more = merge base more :=
  ⟨overlaid_merge base hmore, keepsOrder_merge base hmore, merge_merge hmore base⟩

/-- A table with a number and two tables. -/
def clashingBase : Members := [
  ("a", .int 1), ("b", .obj [("x", .int 2), ("y", .int 3)]), ("c", .obj [("z", .int 4)])]

/-- A table with a table for the number, a number for one of the tables, a table for the
other one, and a key that is new. -/
def clashingMore : Members := [
  ("c", .int 5), ("d", .int 6), ("b", .obj [("w", .int 7), ("x", .int 8)]),
  ("a", .obj [("v", .int 9)])]

theorem distinct_clashingMore : (Value.obj clashingMore).Distinct := by
  refine .obj (by decide) ?_
  simp only [clashingMore, List.forall_mem_cons]
  refine ⟨.leaf nofun, .leaf nofun, .obj (by decide) ?_, .obj (by decide) ?_, nofun⟩
  · simp only [List.forall_mem_cons]
    exact ⟨.leaf nofun, .leaf nofun, nofun⟩
  · simp only [List.forall_mem_cons]
    exact ⟨.leaf nofun, nofun⟩

theorem clashingTables_are_merged :
    (Value.obj clashingMore).Distinct ∧
      merge clashingBase clashingMore = [("a", .obj [("v", .int 9)]),
        ("b", .obj [("x", .int 8), ("y", .int 3), ("w", .int 7)]), ("c", .int 5), ("d", .int 6)] ∧
      Overlaid clashingBase clashingMore (merge clashingBase clashingMore) ∧
      KeepsOrder clashingBase clashingMore (merge clashingBase clashingMore) ∧
      merge (merge clashingBase clashingMore) clashingMore = merge clashingBase clashingMore :=
  ⟨distinct_clashingMore, rfl, merge_overlays_once clashingBase distinct_clashingMore⟩

end Config

end FoldingProtocol
