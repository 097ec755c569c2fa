import FoldingProtocol.Proofs.FittedRanges

/-!
# Fitting a result several times

A result can pass through several hands on its way to an editor, each of which fits it
to a client of its own. Where offsets are removed and not refused, nothing can go wrong
on the way, and what arrives is what a single client would have got: one that folds only
whole lines if any of them does, and whose limit is the smallest at which one of them
cuts.

Both halves of fitting make this work. Taking offsets away looks at one range at a time
and keeping the first ranges looks at none, so the two can change places; and each of
them, done twice, comes to doing it once. The single client is made of the calls by a
disjunction and a minimum, which is why neither their order nor their number matters.
-/

namespace FoldingProtocol

/-- One time that a result is fitted: to whom, and a value that asks to cut or not. -/
structure FittingCall where
  client : FoldingClientCapabilities
  truncate : Value

namespace FittingCall

/-- A result fitted by one call after the other, with the records of all of them. The
first refusal is the end. -/
def applyAll (policy : OffsetPolicy) : List FittingCall → Option FoldingRangeList →
    Except MalformedRange (Option FoldingRangeList × List Log.Record)
  | [], result => .ok (result, [])
  | call :: rest, result => do
    let (fit, records) ← call.client.apply policy call.truncate.isTruthy result
    let (last, more) ← applyAll policy rest fit
    .ok (last, records ++ more)

/-- The limit at which a call cuts, if it cuts. -/
def limit? (call : FittingCall) : Option Nat :=
  if call.truncate.isTruthy then call.client.maximumNumberOfRanges else none

/-- The smallest limit at which one of some calls cuts. -/
def leastLimit? (calls : List FittingCall) : Option Nat := (calls.filterMap limit?).min?

/-- Whether one of some calls is for a client that folds only whole lines. -/
def wholeLines (calls : List FittingCall) : Bool :=
  calls.any (·.client.completeLineFoldingOnly == some true)

/-- The single client that some calls come to. -/
def joined (calls : List FittingCall) : FoldingClientCapabilities :=
  ⟨none, leastLimit? calls, some (wholeLines calls)⟩

/-- What a call leaves of some ranges. -/
def fitted (call : FittingCall) (ranges : List FoldingRange) : List FoldingRange :=
  call.client.fitted call.truncate.isTruthy ranges

open FoldingClientCapabilities

variable {call : FittingCall} {calls others rest : List FittingCall}
  {c d : FoldingClientCapabilities} {truncate : Bool} {ranges : List FoldingRange}

/-! ## Two calls -/

theorem wholeLinesOnly_joined : (joined calls).wholeLinesOnly = wholeLines calls := by
  rw [wholeLinesOnly, joined]
  cases wholeLines calls <;> rfl

theorem leastLimit?_cons :
    leastLimit? (call :: rest) = Option.merge min call.limit? (leastLimit? rest) := by
  rw [leastLimit?, List.filterMap_cons]
  cases call.limit? with
  | none => exact (Option.merge_none_left).symm
  | some limit =>
      rw [List.min?_cons, ← leastLimit?]
      cases leastLimit? rest <;> rfl

theorem keptCount_eq_elim : c.keptCount truncate ranges =
    (if truncate then c.maximumNumberOfRanges else none).elim ranges ranges.take := by
  rw [keptCount]
  cases c.maximumNumberOfRanges <;> cases truncate <;> rfl

theorem keptCount_call : call.client.keptCount call.truncate.isTruthy ranges =
    call.limit?.elim ranges ranges.take := keptCount_eq_elim

theorem keptCount_single : (joined calls).keptCount true ranges =
    (leastLimit? calls).elim ranges ranges.take := keptCount_eq_elim

/-- Offsets are taken away from each range alone, so it does not matter whether some of
them go first. -/
theorem keptLines_keptCount :
    d.keptLines (c.keptCount truncate ranges) = c.keptCount truncate (d.keptLines ranges) := by
  rw [keptLines, keptLines]
  cases d.wholeLinesOnly with
  | false => rfl
  | true =>
      rw [if_pos rfl, if_pos rfl, keptCount, keptCount]
      cases c.maximumNumberOfRanges with
      | none => rfl
      | some limit =>
          cases truncate with
          | false => rfl
          | true => exact List.map_take

theorem keptLines_joined :
    (joined rest).keptLines (call.client.keptLines ranges) =
      (joined (call :: rest)).keptLines ranges := by
  have hcons : wholeLines (call :: rest) = (call.client.wholeLinesOnly || wholeLines rest) :=
    List.any_cons
  rw [keptLines, keptLines, keptLines, wholeLinesOnly_joined, wholeLinesOnly_joined, hcons]
  cases call.client.wholeLinesOnly with
  | false => rfl
  | true =>
      cases wholeLines rest with
      | false => rfl
      | true => exact List.map_map

theorem keptCount_joined :
    (joined rest).keptCount true (call.client.keptCount call.truncate.isTruthy ranges) =
      (joined (call :: rest)).keptCount true ranges := by
  rw [keptCount_call, keptCount_single, keptCount_single, leastLimit?_cons]
  cases call.limit? with
  | none => cases leastLimit? rest <;> rfl
  | some limit =>
      cases leastLimit? rest with
      | none => rfl
      | some least =>
          show (ranges.take limit).take least = ranges.take (min limit least)
          rw [List.take_take, Nat.min_comm]

theorem fitted_joined :
    (joined rest).fitted true (call.fitted ranges) = (joined (call :: rest)).fitted true ranges := by
  calc (joined rest).fitted true (call.fitted ranges)
      = (joined rest).keptCount true (call.client.keptCount call.truncate.isTruthy
          ((joined rest).keptLines (call.client.keptLines ranges))) := by
        rw [FoldingClientCapabilities.fitted, fitted, FoldingClientCapabilities.fitted,
          keptLines_keptCount]
    _ = (joined (call :: rest)).fitted true ranges := by
        rw [keptLines_joined, keptCount_joined, FoldingClientCapabilities.fitted]

/-! ## Any number of calls -/

theorem apply_strip (call : FittingCall) (result : Option FoldingRangeList) :
    ∃ records, call.client.apply .strip call.truncate.isTruthy result =
      .ok (result.map fun l => ⟨call.fitted l.ranges⟩, records) :=
  apply_of_none_refused fun _ _ => by rw [refuses]; simp

theorem applyAll_strip (calls : List FittingCall) (result : Option FoldingRangeList) :
    ∃ records, applyAll .strip calls result =
      .ok (result.map fun l => ⟨(joined calls).fitted true l.ranges⟩, records) := by
  induction calls generalizing result with
  | nil =>
      refine ⟨[], ?_⟩
      cases result <;> rfl
  | cons call rest ih =>
      obtain ⟨records, hfirst⟩ := apply_strip call result
      obtain ⟨more, hrest⟩ := ih (result.map fun l => ⟨call.fitted l.ranges⟩)
      refine ⟨records ++ more, ?_⟩
      rw [applyAll, hfirst]
      show (applyAll .strip rest (result.map fun l => ⟨call.fitted l.ranges⟩)).bind _ = _
      rw [hrest, Option.map_map]
      simp only [Function.comp_def, fitted_joined]
      rfl

/-- The single client is made of which calls there are, whatever their order and
however often each of them is made. -/
theorem joined_congr (h : ∀ call, call ∈ others ↔ call ∈ calls) : joined others = joined calls := by
  have hlimit : leastLimit? others = leastLimit? calls := by
    refine Option.ext fun limit => ?_
    simp only [leastLimit?, List.min?_eq_some_iff, List.mem_filterMap, h]
  have hlines : wholeLines others = wholeLines calls := by
    rw [Bool.eq_iff_iff, wholeLines, wholeLines, List.any_eq_true, List.any_eq_true]
    simp only [h]
  rw [joined, hlimit, hlines, joined]

/-- Fitting a result by any number of calls, one after the other, succeeds and comes to
a single cut. All offsets are gone if one of the calls is for a client that folds only
whole lines, and no others are; then as many ranges are left as the smallest limit
allows at which one of the calls cuts. So calls that are the same up to their order and
to repetition give the same result. After each call on the way every range still has the
lines in order, and these and its kind are those of the range that was sent at its
place. -/
theorem applyAll_fits_once (calls : List FittingCall) (result : Option FoldingRangeList) :
    (applyAll .strip calls result).map Prod.fst = .ok (result.map fun l =>
      let lines := if ∃ call ∈ calls, call.client.completeLineFoldingOnly = some true
        then l.ranges.map (·.withoutOffsets) else l.ranges
      ⟨(calls.filterMap limit?).min?.elim lines lines.take⟩) ∧
    (∀ others : List FittingCall, (∀ call, call ∈ others ↔ call ∈ calls) →
      (applyAll .strip others result).map Prod.fst =
        (applyAll .strip calls result).map Prod.fst) ∧
    ∀ made coming : List FittingCall, calls = made ++ coming → ∀ sent, result = some ⟨sent⟩ →
      ∃ (seen : List FoldingRange) (records : List Log.Record),
        applyAll .strip made result = .ok (some ⟨seen⟩, records) ∧
        ∀ (i : Nat) (r : FoldingRange), seen[i]? = some r → r.startLine ≤ r.endLine ∧
          ∃ s, sent[i]? = some s ∧ FoldingRange.SeenAs (wholeLines made) s r := by
  have hfst : ∀ made : List FittingCall, (applyAll .strip made result).map Prod.fst =
      .ok (result.map fun l => ⟨(joined made).fitted true l.ranges⟩) := fun made => by
    obtain ⟨records, hmade⟩ := applyAll_strip made result
    rw [hmade]
    rfl
  refine ⟨?_, fun others h => ?_, ?_⟩
  · rw [hfst]
    congr 2
    funext l
    have hlines : (wholeLines calls = true) =
        ∃ call ∈ calls, call.client.completeLineFoldingOnly = some true := by
      simp only [wholeLines, List.any_eq_true, beq_iff_eq]
    rw [FoldingClientCapabilities.fitted, keptLines, wholeLinesOnly_joined, keptCount_single]
    simp only [hlines]
    rfl
  · rw [hfst, hfst, joined_congr h]
  · rintro made - - sent rfl
    obtain ⟨records, hmade⟩ := applyAll_strip made (some ⟨sent⟩)
    refine ⟨_, records, hmade, fun i r hr => ⟨r.ordered, ?_⟩⟩
    rw [← wholeLinesOnly_joined]
    exact getElem?_fitted hr

-- The first call takes the offset, the second one would cut but is not asked to, and the
-- last one cuts.
example :
    (applyAll .strip [⟨⟨none, none, some true⟩, .null⟩, ⟨⟨none, some 0, none⟩, .str ""⟩,
      ⟨⟨none, some 1, some false⟩, .int 2⟩]
      (some ⟨[⟨⟨0, some 7, 1, none, some ⟨"region"⟩⟩, by decide⟩,
        ⟨⟨2, none, 4, none, none⟩, by decide⟩]⟩)).map Prod.fst =
      .ok (some ⟨[⟨⟨0, none, 1, none, some ⟨"region"⟩⟩, by decide⟩]⟩) := rfl

end FittingCall

end FoldingProtocol
