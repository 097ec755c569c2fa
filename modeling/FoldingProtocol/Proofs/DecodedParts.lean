import FoldingProtocol.Proofs.ShapeRoundTrip
import Mathlib.Data.List.Forall2

/-!
# What decoding comes to, part by part

A whole is decoded from its parts, and what it comes to is told by what they come to. An
accepted outcome goes back to accepted parts, and an accepted member to a value that
stands in the object. Any other outcome is rejected or malformed, and of these only the
rejected one collects: all parts add their issues to it.

A malformed range is the one thing that ends decoding early, and only ranges can be
malformed. `Orderly` says of an outcome that it is no malformed range. Where all parts are
orderly the whole is, and it is then accepted or rejected with the issues of its parts.
Arrays of ranges are the place where both kinds of failure meet, and there the malformed
range wins.
-/

namespace FoldingProtocol

namespace Decoded

variable {α β : Type}

theorem seq_eq_accepted {df : Decoded (α → β)} {d : Decoded α} {b : β}
    (h : df <*> d = .accepted b) : ∃ f a, df = .accepted f ∧ d = .accepted a ∧ f a = b := by
  cases df with
  | accepted f =>
      obtain ⟨a, ha, hb⟩ := map_eq_accepted h
      exact ⟨f, a, rfl, ha, hb⟩
  | rejected issues => cases d <;> cases h
  | malformed span => cases h

theorem under_eq_accepted {step : Step} {d : Decoded α} {a : α}
    (h : d.under step = .accepted a) : d = .accepted a := by
  cases d with
  | accepted b => exact h
  | rejected issues => cases h
  | malformed span => cases h

theorem check_eq_accepted {d : Decoded α} {next : α → Decoded β} {b : β}
    (h : d.check next = .accepted b) : ∃ a, d = .accepted a ∧ next a = .accepted b := by
  cases d with
  | accepted a => exact ⟨a, rfl, h⟩
  | rejected issues => cases h
  | malformed span => cases h

/-! ## Accepted or not -/

/-- Something is accepted. -/
def Accepts (d : Decoded α) : Prop := ∃ a, d = .accepted a

theorem accepts_map {f : α → β} {d : Decoded α} : Accepts (f <$> d) ↔ Accepts d := by
  refine ⟨fun ⟨b, hb⟩ => ?_, fun ⟨a, ha⟩ => ⟨f a, map_accepted ha⟩⟩
  obtain ⟨a, ha, -⟩ := map_eq_accepted hb
  exact ⟨a, ha⟩

theorem accepts_seq {df : Decoded (α → β)} {d : Decoded α} :
    Accepts (df <*> d) ↔ Accepts df ∧ Accepts d := by
  refine ⟨fun ⟨b, hb⟩ => ?_, fun ⟨⟨f, hf⟩, ⟨a, ha⟩⟩ => ⟨f a, seq_accepted hf ha⟩⟩
  obtain ⟨f, a, hf, ha, -⟩ := seq_eq_accepted hb
  exact ⟨⟨f, hf⟩, ⟨a, ha⟩⟩

theorem accepts_under {step : Step} {d : Decoded α} : Accepts (d.under step) ↔ Accepts d :=
  ⟨fun ⟨a, ha⟩ => ⟨a, under_eq_accepted ha⟩, fun ⟨a, ha⟩ => ⟨a, by rw [ha]; rfl⟩⟩

/-- Not a malformed range. -/
def Orderly (d : Decoded α) : Prop := ∀ s, d ≠ .malformed s

theorem orderly_accepted (a : α) : Orderly (.accepted a) := nofun

theorem orderly_rejected (issues : List Issue) : Orderly (.rejected issues : Decoded α) := nofun

theorem Orderly.map {f : α → β} {d : Decoded α} (h : d.Orderly) : Orderly (f <$> d) := by
  cases d with
  | accepted a => exact orderly_accepted (f a)
  | rejected issues => exact orderly_rejected issues
  | malformed s => exact absurd rfl (h s)

theorem Orderly.seq {df : Decoded (α → β)} {d : Decoded α} (hf : df.Orderly) (h : d.Orderly) :
    Orderly (df <*> d) := by
  cases df with
  | accepted f => exact h.map
  | malformed s => exact absurd rfl (hf s)
  | rejected issues =>
      cases d with
      | accepted a => exact orderly_rejected issues
      | rejected more => exact orderly_rejected (issues ++ more)
      | malformed s => exact absurd rfl (h s)

theorem Orderly.under {step : Step} {d : Decoded α} (h : d.Orderly) : Orderly (d.under step) := by
  cases d with
  | accepted a => exact orderly_accepted a
  | rejected issues => exact orderly_rejected _
  | malformed s => exact absurd rfl (h s)

/-- The issues of an outcome; there are none unless it is rejected. -/
def issues : Decoded α → List Issue
  | .rejected issues => issues
  | _ => []

theorem Orderly.eq_rejected {d : Decoded α} (h : d.Orderly) (hnot : ¬ d.Accepts) :
    d = .rejected d.issues := by
  cases d with
  | accepted a => exact absurd ⟨a, rfl⟩ hnot
  | rejected issues => rfl
  | malformed s => exact absurd rfl (h s)

theorem issues_map {f : α → β} {d : Decoded α} : (f <$> d).issues = d.issues := by
  cases d <;> rfl

theorem issues_under {step : Step} {d : Decoded α} :
    (d.under step).issues = d.issues.map (·.under step) := by
  cases d <;> rfl

theorem issues_seq {df : Decoded (α → β)} {d : Decoded α} (hf : df.Orderly) (h : d.Orderly) :
    (df <*> d).issues = df.issues ++ d.issues := by
  cases df with
  | accepted f => exact issues_map
  | malformed s => exact absurd rfl (hf s)
  | rejected issues =>
      cases d with
      | accepted a => exact (List.append_nil issues).symm
      | rejected more => rfl
      | malformed s => exact absurd rfl (h s)

end Decoded

open Decoded

namespace Decoder

variable {α : Type} {decode : Decoder α}

theorem object_eq_accepted {model : String} {decode : Members → Decoded α} {v : Value} {a : α}
    (h : object model decode v = .accepted a) : ∃ ms, v = .obj ms ∧ decode ms = .accepted a := by
  cases v with
  | obj ms => exact ⟨ms, rfl, h⟩
  | null | bool | int | float | str | moment | arr => cases h

theorem nullable_eq_none {v : Value} (h : nullable decode v = .accepted none) : v = .null := by
  unfold nullable at h
  split at h
  · rfl
  · obtain ⟨a, -, hsome⟩ := map_eq_accepted h
    cases hsome

theorem nullable_eq_some {v : Value} {a : α} (h : nullable decode v = .accepted (some a)) :
    decode v = .accepted a := by
  unfold nullable at h
  split at h
  · cases h
  · obtain ⟨b, hb, hsome⟩ := map_eq_accepted h
    cases hsome
    exact hb

theorem nullable_of_ne {v : Value} (hv : v ≠ .null) :
    nullable decode v = (decode v).map some := by
  rw [nullable]
  exact hv

theorem accepts_nullable {v : Value} (hv : v ≠ .null) :
    Accepts (nullable decode v) ↔ Accepts (decode v) := by
  rw [nullable_of_ne hv]
  exact accepts_map

theorem orderly_nullable {v : Value} (h : (decode v).Orderly) : (nullable decode v).Orderly := by
  unfold nullable
  split
  · exact orderly_accepted none
  · exact h.map

/-! ## Arrays -/

theorem itemsFrom_eq_accepted {vs : List Value} {place : Nat} {as : List α} :
    itemsFrom decode place vs = .accepted as ↔
      List.Forall₂ (fun v a => decode v = .accepted a) vs as := by
  induction vs generalizing place as with
  | nil =>
      rw [List.forall₂_nil_left_iff, itemsFrom]
      exact ⟨fun h => by cases h; rfl, fun h => by rw [h]⟩
  | cons v vs ih =>
      constructor
      · intro h
        obtain ⟨_, rest, hfirst, hrest, rfl⟩ := seq_eq_accepted h
        obtain ⟨a, ha, rfl⟩ := map_eq_accepted hfirst
        exact .cons (under_eq_accepted ha) (ih.mp hrest)
      · rintro ⟨⟩
        next a rest ha hrest =>
          refine seq_accepted (map_accepted ?_) (ih.mpr hrest)
          rw [ha]
          rfl

theorem list_eq_accepted {v : Value} {as : List α} (h : list decode v = .accepted as) :
    ∃ vs, v = .arr vs ∧ ∀ a ∈ as, ∃ w ∈ vs, decode w = .accepted a := by
  cases v with
  | arr vs =>
      refine ⟨vs, rfl, fun a ha => ?_⟩
      obtain ⟨i, hi, rfl⟩ := List.mem_iff_getElem.mp ha
      have hitems := List.forall₂_iff_get.mp (itemsFrom_eq_accepted.mp h)
      have hi' : i < vs.length := hitems.1.symm ▸ hi
      exact ⟨vs[i], List.getElem_mem hi', hitems.2 i hi' hi⟩
  | null | bool | int | float | str | moment | obj => cases h

/-- The first malformed range among the items is the outcome, whatever the issues of the
items before it. -/
theorem itemsFrom_of_malformed {item : Value} {s : Span} (hitem : decode item = .malformed s)
    (after : List Value) {before : List Value} (hbefore : ∀ v ∈ before, (decode v).Orderly) :
    ∀ place, itemsFrom decode place (before ++ item :: after) = .malformed s := by
  induction before with
  | nil =>
      intro place
      rw [List.nil_append, itemsFrom, hitem]
      rfl
  | cons v before ih =>
      intro place
      obtain ⟨hv, hrest⟩ := List.forall_mem_cons.mp hbefore
      rw [List.cons_append, itemsFrom, ih hrest]
      cases hdecode : decode v with
      | accepted a => rfl
      | rejected issues => rfl
      | malformed t => exact absurd hdecode (hv t)

section

variable {vs : List Value}

theorem accepts_itemsFrom {place : Nat} :
    Accepts (itemsFrom decode place vs) ↔ ∀ v ∈ vs, Accepts (decode v) := by
  induction vs generalizing place with
  | nil => exact ⟨fun _ => nofun, fun _ => ⟨[], rfl⟩⟩
  | cons v vs ih =>
      rw [itemsFrom, accepts_seq, accepts_map, accepts_under, ih, List.forall_mem_cons]

theorem orderly_itemsFrom (h : ∀ v ∈ vs, (decode v).Orderly) :
    ∀ place, (itemsFrom decode place vs).Orderly := by
  induction vs with
  | nil => exact fun _ => orderly_accepted []
  | cons v vs ih =>
      obtain ⟨hv, hrest⟩ := List.forall_mem_cons.mp h
      exact fun place => hv.under.map.seq (ih hrest (place + 1))

/-- The issues of all items in their order, each under the place of its item. -/
theorem issues_itemsFrom (h : ∀ v ∈ vs, (decode v).Orderly) :
    ∀ place, (itemsFrom decode place vs).issues =
      (vs.zipIdx place).flatMap fun item => (decode item.1).issues.map (·.under (.index item.2)) := by
  induction vs with
  | nil => exact fun _ => rfl
  | cons v vs ih =>
      intro place
      obtain ⟨hv, hrest⟩ := List.forall_mem_cons.mp h
      rw [itemsFrom, issues_seq hv.under.map (orderly_itemsFrom hrest (place + 1)), issues_map,
        issues_under, ih hrest, List.zipIdx_cons, List.flatMap_cons]

theorem accepts_list {v : Value} :
    Accepts (list decode v) ↔ ∃ items, v = .arr items ∧ ∀ item ∈ items, Accepts (decode item) := by
  cases v with
  | arr items =>
      refine ⟨fun h => ⟨items, rfl, accepts_itemsFrom.mp h⟩, ?_⟩
      rintro ⟨_, ⟨⟩, h⟩
      exact accepts_itemsFrom.mpr h
  | null | bool | int | float | str | moment | obj => exact ⟨nofun, nofun⟩

theorem orderly_list {v : Value} (h : ∀ item, (decode item).Orderly) : (list decode v).Orderly := by
  cases v with
  | arr items => exact orderly_itemsFrom (fun item _ => h item) 0
  | null | bool | int | float | str | moment | obj => exact orderly_rejected _

end

end Decoder

theorem Members.mem_of_get? {ms : Members} {key : String} {v : Value}
    (h : ms.get? key = some v) : (key, v) ∈ ms := by
  induction ms with
  | nil => cases h
  | cons m ms ih =>
      obtain ⟨k, w⟩ := m
      rw [get?_cons] at h
      split at h
      · next hk =>
          cases h
          rw [hk]
          exact List.mem_cons_self
      · exact List.mem_cons_of_mem _ (ih h)

namespace Field

variable {α : Type} {decode : Decoder α} {ms : Members} {f : Field}

theorem find?_eq_some {key : String} {v : Value} (h : f.find? ms = some (key, v)) :
    (key = f.wire ∧ ms.get? f.wire = some v) ∨
      (key = f.name ∧ ms.get? f.wire = none ∧ ms.get? f.name = some v) := by
  rw [find?] at h
  split at h
  · next hwire =>
      cases h
      exact .inl ⟨rfl, hwire⟩
  · next hwire =>
      obtain ⟨w, hname, hpair⟩ := Option.map_eq_some_iff.mp h
      cases hpair
      exact .inr ⟨rfl, hwire, hname⟩

theorem mem_of_find? {key : String} {v : Value} (h : f.find? ms = some (key, v)) :
    (key, v) ∈ ms := by
  rcases find?_eq_some h with ⟨rfl, hwire⟩ | ⟨rfl, -, hname⟩
  · exact Members.mem_of_get? hwire
  · exact Members.mem_of_get? hname

/-- The value of a member, null where it is left out. -/
def valueIn (f : Field) (ms : Members) : Value := .ofOption ((f.find? ms).map Prod.snd)

theorem required_iff {a : α} : f.required decode ms = .accepted a ↔
    ∃ key v, f.find? ms = some (key, v) ∧ decode v = .accepted a := by
  rw [required]
  cases f.find? ms with
  | none => simp
  | some m =>
      obtain ⟨key, v⟩ := m
      constructor
      · intro h
        exact ⟨key, v, rfl, under_eq_accepted h⟩
      · intro h
        obtain ⟨_, _, hfound, h⟩ := h
        cases hfound
        exact congrArg (Decoded.under _) h

/-- A required member is read as its value, if null is nothing that it can be. -/
theorem required_valueIn_iff (hnull : ¬ Accepts (decode .null)) {a : α} :
    f.required decode ms = .accepted a ↔ decode (f.valueIn ms) = .accepted a := by
  rw [required_iff, valueIn]
  cases f.find? ms with
  | none => exact ⟨nofun, fun h => absurd ⟨a, h⟩ hnull⟩
  | some m =>
      constructor
      · rintro ⟨_, _, ⟨⟩, h⟩
        exact h
      · exact fun h => ⟨m.1, m.2, rfl, h⟩

theorem required_eq_accepted {a : α} (h : f.required decode ms = .accepted a) :
    ∃ m ∈ ms, decode m.2 = .accepted a := by
  obtain ⟨key, v, hfound, ha⟩ := required_iff.mp h
  exact ⟨(key, v), mem_of_find? hfound, ha⟩

theorem orderly_required (h : ∀ v, (decode v).Orderly) : (f.required decode ms).Orderly := by
  rw [required]
  split
  · next v _ => exact (h v).under
  · exact orderly_rejected _

/-- An optional member is read as its value, or as null where it is left out. -/
theorem optional_iff {x : Option α} :
    Decoder.optional f decode ms = .accepted x ↔
      Decoder.nullable decode (f.valueIn ms) = .accepted x := by
  rw [Decoder.optional, defaulted, valueIn]
  cases f.find? ms with
  | none => exact Iff.rfl
  | some m => exact ⟨under_eq_accepted, fun h => congrArg (Decoded.under _) h⟩

theorem accepts_optional :
    Accepts (Decoder.optional f decode ms) ↔ Accepts (Decoder.nullable decode (f.valueIn ms)) :=
  exists_congr fun _ => optional_iff

theorem orderly_optional (h : ∀ v, (decode v).Orderly) : (Decoder.optional f decode ms).Orderly := by
  rw [Decoder.optional, defaulted]
  split
  · exact (Decoder.orderly_nullable (h _)).under
  · exact orderly_accepted none

end Field

end FoldingProtocol
