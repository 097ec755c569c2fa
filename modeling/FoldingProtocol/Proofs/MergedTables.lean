import FoldingProtocol.Proofs.AcceptedConfig

/-!
# Tables merged, path by path

Merging is a recursion over the second table, but what it comes to is told by
paths of keys. A path that the second table binds leads, in the result, to what is
bound there, with a table merged into the table that stood there before. A path
that leads out of one of its tables leads to what the first table has. Any other
path runs into something that is no table and leads nowhere.

All of this needs tables that bind a key once. What stands in arrays is not merged
and may be anything.
-/

namespace FoldingProtocol

namespace Value

/-- What stands at a path of keys, from the outermost table inwards. -/
def at? : (path : List String) → Value → Option Value
  | [], v => some v
  | key :: path, .obj ms => (Members.get? key ms).bind (at? path)
  | _ :: _, _ => none

@[simp] theorem at?_nil (v : Value) : at? [] v = some v := by rw [at?]

@[simp] theorem bind_at?_nil (old : Option Value) : old.bind (at? []) = old := by
  cases old <;> rfl

@[simp] theorem at?_cons (key : String) (path : List String) (ms : Members) :
    at? (key :: path) (.obj ms) = (ms.get? key).bind (at? path) := by rw [at?]

theorem at?_of_leaf {v : Value} (h : ∀ ms, v ≠ .obj ms) (key : String) (path : List String) :
    at? (key :: path) v = none := by
  rw [at?]
  exact fun ms => h ms

/-- One key after the other. -/
theorem bind_at?_cons (old : Option Value) (key : String) (path : List String) :
    old.bind (at? (key :: path)) = (old.bind (at? [key])).bind (at? path) := by
  cases old with
  | none => rfl
  | some v =>
      cases v with
      | obj ms => simp
      | null | bool | int | float | str | moment | arr => rfl

/-- A table that binds each key once, as do the tables it leads to. -/
inductive Distinct : Value → Prop where
  | leaf {v : Value} (h : ∀ ms, v ≠ .obj ms) : Distinct v
  | obj {ms : Members} (hkeys : ms.Distinct) (hmembers : ∀ m ∈ ms, Distinct m.2) :
      Distinct (.obj ms)

theorem Distinct.keys {ms : Members} (h : Distinct (.obj ms)) : ms.Distinct := by
  cases h with
  | leaf h => exact absurd rfl (h ms)
  | obj hkeys _ => exact hkeys

theorem Distinct.of_get? {ms : Members} {key : String} {v : Value} (h : Distinct (.obj ms))
    (hget : ms.get? key = some v) : Distinct v := by
  cases h with
  | leaf h => exact absurd rfl (h ms)
  | obj _ hmembers => exact hmembers _ (Members.mem_of_get? hget)

/-- A path on which a table binds nothing, and nothing but tables on the way. -/
structure Free (path : List String) (v : Value) : Prop where
  unbound : at? path v = none
  tables : ∀ way, way <+: path → ∀ w, at? way v = some w → ∃ ms, w = .obj ms

theorem Free.step {key : String} {path : List String} {ms : Members} {v : Value}
    (h : Free (key :: path) (.obj ms)) (hget : ms.get? key = some v) : Free path v where
  unbound := by
    have hunbound := h.unbound
    rw [at?_cons, hget] at hunbound
    exact hunbound
  tables way hway w hw := by
    refine h.tables (key :: way) ((List.cons_prefix_cons).mpr ⟨rfl, hway⟩) w ?_
    rw [at?_cons, hget]
    exact hw

end Value

theorem Toml.Sound.deeplyDistinct {v : Value} (h : Sound v) : v.Distinct := by
  induction h with
  | obj hkeys _ ih => exact .obj hkeys ih
  | bool | int | float | str | moment | arr => exact .leaf nofun

namespace Config

open Value

variable {v w : Value} {path : List String}

@[simp] theorem settingOver_none (v : Value) : settingOver none v = v := by
  cases v <;> rfl

theorem settingOver_of_leaf (hv : ∀ ms, v ≠ .obj ms) (old : Option Value) :
    settingOver old v = v := by
  cases v with
  | obj ms => exact absurd rfl (hv ms)
  | null | bool | int | float | str | moment | arr => rfl

/-- A member of a table over something: merged into what had its key before. -/
theorem at?_settingOver_obj {more : Members} (hmore : more.Distinct) (old : Option Value)
    (key : String) (path : List String) :
    at? (key :: path) (settingOver old (.obj more)) =
      match more.get? key with
      | none => old.bind (at? (key :: path))
      | some v => at? path (settingOver (old.bind (at? [key])) v) := by
  have hbefore (v : Value) (hv : ∀ ms, v ≠ .obj ms) :
      at? (key :: path) (.obj more) = match more.get? key with
        | none => (some v).bind (at? (key :: path))
        | some w => at? path (settingOver ((some v).bind (at? [key])) w) := by
    rw [at?_cons, Option.bind_some, at?_of_leaf hv, Option.bind_some, at?_of_leaf hv]
    cases more.get? key <;> simp
  cases old with
  | none =>
      rw [settingOver_none, at?_cons]
      cases more.get? key <;> simp
  | some v =>
      cases v with
      | obj base =>
          show at? (key :: path) (.obj (merge base more)) = _
          rw [at?_cons, get?_merge hmore]
          cases more.get? key <;> simp
      | null | bool | int | float | str | moment | arr => exact hbefore _ nofun

/-- What is bound over something is bound in the result, and merged where both are
tables. -/
theorem at?_settingOver_of_some (old : Option Value) (hv : v.Distinct) (h : at? path v = some w) :
    at? path (settingOver old v) = some (settingOver (old.bind (at? path)) w) := by
  induction path generalizing old v with
  | nil =>
      cases h
      cases old <;> rfl
  | cons key path ih =>
      cases v with
      | obj ms =>
          rw [at?_cons] at h
          obtain ⟨x, hget, hx⟩ := Option.bind_eq_some_iff.mp h
          rw [at?_settingOver_obj hv.keys, hget]
          rw [bind_at?_cons]
          exact ih _ (hv.of_get? hget) hx
      | null | bool | int | float | str | moment | arr => cases h

/-- What a table does not bind stays as it was. -/
theorem at?_settingOver_of_free (old : Option Value) (hv : v.Distinct) (h : Free path v) :
    at? path (settingOver old v) = old.bind (at? path) := by
  induction path generalizing old v with
  | nil => cases h.unbound
  | cons key path ih =>
      obtain ⟨ms, rfl⟩ := h.tables [] List.nil_prefix v rfl
      rw [at?_settingOver_obj hv.keys]
      cases hget : Members.get? key ms with
      | none => rfl
      | some x =>
          rw [bind_at?_cons]
          exact ih _ (hv.of_get? hget) (h.step hget)

/-- Nothing is bound in the result that was not bound before. -/
theorem bound_of_at?_settingOver {old : Option Value} (hv : v.Distinct)
    (h : (at? path (settingOver old v)).isSome = true) :
    (at? path v).isSome = true ∨ (old.bind (at? path)).isSome = true := by
  induction path generalizing old v with
  | nil => exact .inl rfl
  | cons key path ih =>
      cases v with
      | obj ms =>
          rw [at?_settingOver_obj hv.keys] at h
          rw [at?_cons]
          cases hget : Members.get? key ms with
          | none =>
              rw [hget] at h
              exact .inr h
          | some x =>
              rw [hget] at h
              rw [bind_at?_cons]
              exact ih (hv.of_get? hget) h
      | null | bool | int | float | str | moment | arr => cases h

/-! ## A table over another -/

/-- A table is made of a first one with a second one over it: what the second binds
is there, what only the first binds is there, and nothing else is. -/
structure Overlaid (base more config : Members) : Prop where
  given : ∀ path v, at? path (.obj more) = some v → (∀ ms, v ≠ .obj ms) →
    at? path (.obj config) = some v
  tables : ∀ path ms, at? path (.obj more) = some (.obj ms) →
    ∃ merged, at? path (.obj config) = some (.obj merged)
  kept : ∀ path, Free path (.obj more) → at? path (.obj config) = at? path (.obj base)
  nothingElse : ∀ path, (at? path (.obj config)).isSome = true →
    (at? path (.obj more)).isSome = true ∨ (at? path (.obj base)).isSome = true

theorem overlaid_merge (base : Members) {more : Members} (hmore : (Value.obj more).Distinct) :
    Overlaid base more (merge base more) where
  given path v hv hleaf := by
    have hat := at?_settingOver_of_some (some (.obj base)) hmore hv
    rw [settingOver_of_leaf hleaf] at hat
    exact hat
  tables path ms hms := by
    have hat := at?_settingOver_of_some (some (.obj base)) hmore hms
    rw [show at? path (.obj (merge base more)) = _ from hat]
    unfold settingOver
    split
    · exact ⟨_, rfl⟩
    · exact ⟨_, rfl⟩
  kept path hpath := at?_settingOver_of_free (some (.obj base)) hmore hpath
  nothingElse path hpath := by
    have hbound : (at? path (settingOver (some (.obj base)) (.obj more))).isSome = true := hpath
    exact bound_of_at?_settingOver hmore hbound

end Config

end FoldingProtocol
