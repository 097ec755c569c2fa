import FoldingProtocol.Capabilities.Apply

/-!
# What fitting a result comes to

Offsets are looked at before ranges are counted, so a client that refuses them
refuses a result even for a range that would have been cut off. Otherwise the
result is determined by two maps over the list, one that takes offsets away and
one that keeps the first ranges, and both leave alone what they gave. Hence
fitting what was already fitted changes nothing.
-/

namespace FoldingProtocol

namespace FoldingRange

theorem withoutOffsets_of_none {r : FoldingRange} (h : r.hasOffsets = false) :
    r.withoutOffsets = r := by
  obtain ⟨⟨startLine, startCharacter, endLine, endCharacter, kind⟩, ordered⟩ := r
  rw [Span.hasOffsets, Bool.or_eq_false_iff] at h
  cases startCharacter <;> cases endCharacter <;> simp_all [withoutOffsets, Span.withoutOffsets]

theorem map_withoutOffsets_of_none {ranges : List FoldingRange}
    (h : ∀ r ∈ ranges, r.hasOffsets = false) : ranges.map (·.withoutOffsets) = ranges := by
  rw [List.map_congr_left fun r hr => withoutOffsets_of_none (h r hr)]
  exact List.map_id ranges

end FoldingRange

namespace FoldingClientCapabilities

/-- Whether a client refuses some ranges for their offsets. -/
def refuses (c : FoldingClientCapabilities) (policy : OffsetPolicy)
    (ranges : List FoldingRange) : Bool :=
  c.wholeLinesOnly && policy == .reject && ranges.any (·.hasOffsets)

/-- Whether a client takes offsets away from some of the ranges, where it does not refuse
them. -/
def strips (c : FoldingClientCapabilities) (ranges : List FoldingRange) : Bool :=
  c.wholeLinesOnly && ranges.any (·.hasOffsets)

/-- The warning that offsets were taken away from some ranges. -/
def strippingWarning (count : Nat) : Log.Record :=
  ⟨.warning, "Stripping character offsets from " ++ toString count ++ " folding range(s)"⟩

/-- Some ranges as far as whole lines go. -/
def keptLines (c : FoldingClientCapabilities) (ranges : List FoldingRange) : List FoldingRange :=
  if c.wholeLinesOnly then ranges.map (·.withoutOffsets) else ranges

/-- Some ranges as far as the hint goes. -/
def keptCount (c : FoldingClientCapabilities) (truncate : Bool) (ranges : List FoldingRange) :
    List FoldingRange :=
  match c.maximumNumberOfRanges with
  | none => ranges
  | some limit => if truncate then ranges.take limit else ranges

/-- What is left of some ranges. -/
def fitted (c : FoldingClientCapabilities) (truncate : Bool) (ranges : List FoldingRange) :
    List FoldingRange :=
  c.keptCount truncate (c.keptLines ranges)

section

variable {c : FoldingClientCapabilities} {policy : OffsetPolicy} {truncate : Bool}
  {ranges : List FoldingRange}

theorem refuses_iff :
    c.refuses policy ranges = true ↔
      c.wholeLinesOnly = true ∧ policy = .reject ∧ ∃ r ∈ ranges, r.hasOffsets = true := by
  rw [refuses, Bool.and_eq_true, Bool.and_eq_true, beq_iff_eq, List.any_eq_true, and_assoc]

/-- Ranges are refused for the first one with an offset, and all of them are counted. -/
theorem fitLines_of_refuses (h : c.refuses policy ranges = true) :
    ∃ first, ranges.find? (·.hasOffsets) = some first ∧
      c.fitLines policy ranges =
        .error (.carriesOffsets (ranges.countP (·.hasOffsets)) first) := by
  obtain ⟨hwhole, rfl, r, hmem, hoffsets⟩ := refuses_iff.mp h
  unfold fitLines
  rw [hwhole, Bool.not_true, if_neg Bool.false_ne_true]
  split
  · next hnone => exact absurd hoffsets (List.filter_eq_nil_iff.mp hnone r hmem)
  · next first rest hsome =>
      refine ⟨first, ?_, ?_⟩
      · rw [← List.head?_filter, hsome, List.head?_cons]
      · rw [List.countP_eq_length_filter, hsome, List.length_cons]

theorem fitLines_of_not_refuses (h : c.refuses policy ranges = false) :
    c.fitLines policy ranges = .ok (c.keptLines ranges,
      if c.strips ranges then [strippingWarning (ranges.countP (·.hasOffsets))] else []) := by
  unfold fitLines keptLines
  cases hwhole : c.wholeLinesOnly with
  | false => rw [strips, hwhole]; rfl
  | true =>
      rw [Bool.not_true, if_neg Bool.false_ne_true, if_pos rfl, strips, hwhole, Bool.true_and]
      split
      · next hnone =>
          have hplain : ∀ r ∈ ranges, r.hasOffsets = false := fun r hr =>
            Bool.not_eq_true _ ▸ List.filter_eq_nil_iff.mp hnone r hr
          have hany : ranges.any (·.hasOffsets) = false :=
            List.any_eq_false.mpr fun r hr => Bool.eq_false_iff.mp (hplain r hr)
          rw [FoldingRange.map_withoutOffsets_of_none hplain, hany]
          rfl
      · next first rest hsome =>
          have hmem : first ∈ ranges.filter (·.hasOffsets) := hsome ▸ List.mem_cons_self
          have hany : ranges.any (·.hasOffsets) = true :=
            List.any_eq_true.mpr ⟨first, (List.mem_filter.mp hmem).1, (List.mem_filter.mp hmem).2⟩
          cases policy with
          | strip =>
              rw [hany, if_pos rfl, List.countP_eq_length_filter, hsome]
              rfl
          | reject =>
              rw [refuses, hwhole, hany] at h
              cases h

theorem fitCount_fst : (c.fitCount truncate ranges).1 = c.keptCount truncate ranges := by
  unfold fitCount keptCount
  cases c.maximumNumberOfRanges with
  | none => rfl
  | some limit =>
      by_cases hle : ranges.length ≤ limit
      · simp only [if_pos hle, List.take_of_length_le hle, ite_self]
      · simp only [if_neg hle]
        cases truncate <;> rfl

theorem apply_of_first (h : c.refuses policy ranges = true) :
    ∃ first, ranges.find? (·.hasOffsets) = some first ∧
      c.apply policy truncate (some ⟨ranges⟩) =
        .error (.carriesOffsets (ranges.countP (·.hasOffsets)) first) := by
  obtain ⟨first, hfirst, hlines⟩ := fitLines_of_refuses h
  refine ⟨first, hfirst, ?_⟩
  rw [apply, hlines]
  rfl

theorem apply_of_refuses (h : c.refuses policy ranges = true) :
    ∃ count first,
      c.apply policy truncate (some ⟨ranges⟩) = .error (.carriesOffsets count first) := by
  obtain ⟨first, -, happly⟩ := apply_of_first h
  exact ⟨_, first, happly⟩

theorem apply_eq_of_not_refuses (h : c.refuses policy ranges = false) :
    c.apply policy truncate (some ⟨ranges⟩) = .ok (some ⟨c.fitted truncate ranges⟩,
      (if c.strips ranges then [strippingWarning (ranges.countP (·.hasOffsets))] else []) ++
        (c.fitCount truncate (c.keptLines ranges)).2) := by
  rw [apply, fitLines_of_not_refuses h, fitted, ← fitCount_fst]
  rfl

theorem apply_of_not_refuses (h : c.refuses policy ranges = false) :
    ∃ records, c.apply policy truncate (some ⟨ranges⟩) =
      .ok (some ⟨c.fitted truncate ranges⟩, records) :=
  ⟨_, apply_eq_of_not_refuses h⟩

theorem apply_of_none_refused {result : Option FoldingRangeList}
    (h : ∀ l, result = some l → c.refuses policy l.ranges = false) :
    ∃ records, c.apply policy truncate result =
      .ok (result.map fun l => ⟨c.fitted truncate l.ranges⟩, records) := by
  cases result with
  | none => exact ⟨[], rfl⟩
  | some l => exact apply_of_not_refuses (h l rfl)

theorem mem_of_mem_keptCount {r : FoldingRange} (h : r ∈ c.keptCount truncate ranges) :
    r ∈ ranges := by
  unfold keptCount at h
  split at h
  · exact h
  · split at h
    · exact List.mem_of_mem_take h
    · exact h

theorem keptLines_of_none (h : ∀ r ∈ ranges, r.hasOffsets = false) :
    c.keptLines ranges = ranges := by
  unfold keptLines
  rw [FoldingRange.map_withoutOffsets_of_none h, ite_self]

/-- A range of the fitted list is one of the list, with or without its offsets. -/
theorem mem_fitted {r : FoldingRange} (h : r ∈ c.fitted truncate ranges) :
    ∃ s ∈ ranges, r = s ∨ r = s.withoutOffsets := by
  have hlines := mem_of_mem_keptCount h
  unfold keptLines at hlines
  split at hlines
  · obtain ⟨s, hs, rfl⟩ := List.mem_map.mp hlines
    exact ⟨s, hs, .inr rfl⟩
  · exact ⟨r, hlines, .inl rfl⟩

theorem hasOffsets_of_mem_fitted (hwhole : c.wholeLinesOnly = true) {r : FoldingRange}
    (h : r ∈ c.fitted truncate ranges) : r.hasOffsets = false := by
  have hlines := mem_of_mem_keptCount h
  rw [keptLines, if_pos hwhole] at hlines
  obtain ⟨s, -, rfl⟩ := List.mem_map.mp hlines
  rfl

theorem keptCount_keptCount :
    c.keptCount truncate (c.keptCount truncate ranges) = c.keptCount truncate ranges := by
  unfold keptCount
  split
  · rfl
  · split
    · rw [List.take_take, Nat.min_self]
    · rfl

/-- Fitting is done once. -/
theorem fitted_fitted :
    c.fitted truncate (c.fitted truncate ranges) = c.fitted truncate ranges := by
  have hlines : c.keptLines (c.fitted truncate ranges) = c.fitted truncate ranges := by
    cases hwhole : c.wholeLinesOnly with
    | true => exact keptLines_of_none fun r hr => hasOffsets_of_mem_fitted hwhole hr
    | false => rw [keptLines, hwhole, if_neg Bool.false_ne_true]
  rw [fitted, hlines, fitted, keptCount_keptCount]

theorem refuses_fitted : c.refuses policy (c.fitted truncate ranges) = false := by
  cases hwhole : c.wholeLinesOnly with
  | false => rw [refuses, hwhole, Bool.false_and, Bool.false_and]
  | true =>
      have hnone : (c.fitted truncate ranges).any (·.hasOffsets) = false :=
        List.any_eq_false.mpr fun r hr => by rw [hasOffsets_of_mem_fitted hwhole hr]; decide
      rw [refuses, hnone, Bool.and_false]

theorem apply_eq_ok {result fit : Option FoldingRangeList} {records : List Log.Record}
    (h : c.apply policy truncate result = .ok (fit, records)) :
    fit = result.map fun l => ⟨c.fitted truncate l.ranges⟩ := by
  cases result with
  | none => cases h; rfl
  | some l =>
      obtain ⟨ranges⟩ := l
      cases hrefuses : c.refuses policy ranges with
      | true =>
          obtain ⟨count, first, herror⟩ := apply_of_refuses hrefuses
          rw [herror] at h
          cases h
      | false =>
          obtain ⟨written, hok⟩ := apply_of_not_refuses hrefuses
          rw [hok] at h
          cases h
          rfl

/-- A result that was fitted is not refused, and fits as it is. -/
theorem apply_apply {result fit : Option FoldingRangeList} {records : List Log.Record}
    (h : c.apply policy truncate result = .ok (fit, records)) :
    ∃ more, c.apply policy truncate fit = .ok (fit, more) := by
  rw [apply_eq_ok h]
  cases result with
  | none => exact ⟨[], rfl⟩
  | some l =>
      have hrefuses : c.refuses policy (c.fitted truncate l.ranges) = false := refuses_fitted
      have hagain : ∃ more, c.apply policy truncate (some ⟨c.fitted truncate l.ranges⟩) = _ :=
        apply_of_not_refuses hrefuses
      rw [fitted_fitted] at hagain
      exact hagain

end

end FoldingClientCapabilities

end FoldingProtocol
