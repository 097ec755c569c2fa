import FoldingProtocol.Proofs.FittedRanges

/-!
# Nothing is changed without a warning

Whoever looks for a range that has gone missing, or for an offset, looks into the log.
There is a warning in it for each of the two things that fitting can do to a result, and
for nothing else: each half of fitting changes its list exactly if it warns, and a list
that was both stripped and cut differs from the one that was sent, since cutting alone
makes it shorter.

Cases in which a half has nothing to do are the ones to look at. A client that folds only
whole lines gets a result without offsets as it is, a limit that is just reached cuts
nothing, and a limit that is exceeded without being enforced leaves a remark, which is no
warning.
-/

namespace FoldingProtocol

namespace FoldingClientCapabilities

open FoldingRange

/-- The warning that ranges were cut off. -/
def truncatingWarning (full kept : Nat) : Log.Record :=
  ⟨.warning, "Truncating " ++ toString full ++ " folding ranges to " ++ toString kept⟩

/-- The warnings among some records. -/
def warnings (records : List Log.Record) : List Log.Record :=
  records.filter (·.level == .warning)

variable {c : FoldingClientCapabilities} {policy : OffsetPolicy} {truncate : Bool}
  {ranges : List FoldingRange}

theorem warnings_append (records more : List Log.Record) :
    warnings (records ++ more) = warnings records ++ warnings more := List.filter_append ..

theorem warnings_ne_nil {records : List Log.Record} :
    warnings records ≠ [] ↔ ∃ record ∈ records, record.level = .warning := by
  simp [warnings]

/-! ## Offsets -/

theorem strips_iff : c.strips ranges = true ↔ c.completeLineFoldingOnly = some true ∧
    ∃ r ∈ ranges, r.startCharacter ≠ none ∨ r.endCharacter ≠ none := by
  simp only [strips, Bool.and_eq_true, wholeLinesOnly, beq_iff_eq, List.any_eq_true, hasOffsets_iff]

theorem keptLines_eq_self : c.keptLines ranges = ranges ↔ c.strips ranges = false := by
  rw [keptLines, strips]
  cases c.wholeLinesOnly with
  | false => simp
  | true =>
      rw [if_pos rfl, Bool.true_and, List.any_eq_false]
      refine ⟨fun h r hr hoffsets => ?_, fun h => ?_⟩
      · rw [← h] at hr
        obtain ⟨s, -, rfl⟩ := List.mem_map.mp hr
        cases hoffsets
      · exact map_withoutOffsets_of_none fun r hr => Bool.not_eq_true _ ▸ h r hr

/-! ## Numbers of ranges -/

theorem keptCount_eq_self :
    c.keptCount truncate ranges = ranges ↔
      ¬ (c.keptCount truncate ranges).length < ranges.length := by
  refine ⟨fun h => by rw [h]; exact Nat.lt_irrefl _, ?_⟩
  rw [keptCount]
  cases c.maximumNumberOfRanges with
  | none => exact fun _ => rfl
  | some limit =>
      cases truncate with
      | false => exact fun _ => rfl
      | true =>
          intro h
          have htake : ¬ (ranges.take limit).length < ranges.length := h
          rw [List.length_take] at htake
          exact List.take_of_length_le (by omega)

theorem warnings_fitCount :
    warnings (c.fitCount truncate ranges).2 =
      if (c.keptCount truncate ranges).length < ranges.length then
        [truncatingWarning ranges.length (c.keptCount truncate ranges).length]
      else [] := by
  rw [fitCount, keptCount]
  cases c.maximumNumberOfRanges with
  | none => exact (if_neg (Nat.lt_irrefl _)).symm
  | some limit =>
      by_cases hle : ranges.length ≤ limit
      · simp only [if_pos hle, List.take_of_length_le hle, ite_self, Nat.lt_irrefl, if_false]
        rfl
      · simp only [if_neg hle]
        cases truncate with
        | false => exact (if_neg (Nat.lt_irrefl _)).symm
        | true =>
            have hlength : (ranges.take limit).length = limit := by
              rw [List.length_take]
              omega
            simp only [if_true, hlength, if_pos (Nat.lt_of_not_le hle)]
            rfl

/-! ## Both -/

theorem apply_some_eq_ok {fit : Option FoldingRangeList} {records : List Log.Record}
    (h : c.apply policy truncate (some ⟨ranges⟩) = .ok (fit, records)) :
    fit = some ⟨c.fitted truncate ranges⟩ ∧ warnings records =
      (if c.strips ranges then [strippingWarning (ranges.countP (·.hasOffsets))] else []) ++
      (if (c.fitted truncate ranges).length < ranges.length then
        [truncatingWarning ranges.length (c.fitted truncate ranges).length] else []) := by
  cases hrefuses : c.refuses policy ranges with
  | true =>
      obtain ⟨count, first, herror⟩ := apply_of_refuses hrefuses
      rw [herror] at h
      cases h
  | false =>
      rw [apply_eq_of_not_refuses hrefuses] at h
      obtain ⟨rfl, rfl⟩ := Prod.mk.inj (Except.ok.inj h)
      refine ⟨rfl, ?_⟩
      rw [warnings_append, warnings_fitCount, length_keptLines, fitted]
      cases c.strips ranges <;> rfl

theorem fitted_eq_self : c.fitted truncate ranges = ranges ↔
    c.strips ranges = false ∧ ¬ (c.fitted truncate ranges).length < ranges.length := by
  constructor
  · intro h
    have hlength : ¬ (c.fitted truncate ranges).length < ranges.length := by
      rw [h]
      exact Nat.lt_irrefl _
    have hcount : ¬ (c.keptCount truncate (c.keptLines ranges)).length <
        (c.keptLines ranges).length := by
      rw [length_keptLines]
      exact hlength
    rw [fitted, keptCount_eq_self.mpr hcount] at h
    exact ⟨keptLines_eq_self.mp h, hlength⟩
  · rintro ⟨hstrips, hlength⟩
    rw [fitted, keptLines_eq_self.mpr hstrips] at hlength ⊢
    exact keptCount_eq_self.mpr hlength

/-- Where fitting gives a result, that differs from the one that was sent exactly if there
is a warning among the records. There are no warnings but these, and each of them at most
once: that offsets were taken away, if only whole lines are folded and some range had an
offset, with the number of those ranges; and then that ranges were cut off, if fewer are
left, with the number of all and of those that are left. -/
theorem apply_warns_iff_changes {c : FoldingClientCapabilities} {policy : String}
    {truncate : Value} {result fit : Option FoldingRangeList} {records : List Log.Record}
    (h : c.apply (.ofName policy) truncate.isTruthy result = .ok (fit, records)) :
    let sent := (result.map (·.ranges)).getD []
    let seen := (fit.map (·.ranges)).getD []
    (fit ≠ result ↔ ∃ record ∈ records, record.level = .warning) ∧
    records.filter (·.level == .warning) =
      (if c.completeLineFoldingOnly = some true ∧
          ∃ r ∈ sent, r.startCharacter ≠ none ∨ r.endCharacter ≠ none
        then [strippingWarning (sent.countP (·.hasOffsets))] else []) ++
      (if seen.length < sent.length then [truncatingWarning sent.length seen.length] else []) := by
  cases result with
  | none =>
      cases h
      simp
  | some l =>
      obtain ⟨ranges⟩ := l
      obtain ⟨rfl, hwarned⟩ := apply_some_eq_ok h
      have hchanged : some (FoldingRangeList.mk (c.fitted truncate.isTruthy ranges)) ≠
          some ⟨ranges⟩ ↔ c.fitted truncate.isTruthy ranges ≠ ranges := by simp
      refine ⟨?_, ?_⟩
      · rw [← warnings_ne_nil, hwarned, hchanged, Ne, fitted_eq_self]
        cases c.strips ranges <;> simp
      · simp only [strips_iff] at hwarned
        exact hwarned

/-- Two ranges, of which the second one has an offset at its end. -/
def lateEnd : List FoldingRange :=
  [⟨⟨0, none, 1, none, none⟩, by decide⟩, ⟨⟨2, none, 4, some 3, none⟩, by decide⟩]

/-- The offset is taken away and told of, though the range that had it is cut off. And
where the limit is just reached nothing is done and nothing is told. -/
theorem lateEnd_is_told_of :
    (∃ fit records, (mk none (some 1) (some true)).apply (.ofName "strip")
        (Value.isTruthy (.bool true)) (some ⟨lateEnd⟩) = .ok (fit, records) ∧
      fit ≠ some ⟨lateEnd⟩ ∧
      records.filter (·.level == .warning) = [strippingWarning 1, truncatingWarning 2 1]) ∧
    ∃ fit records, (mk none (some 2) (some false)).apply (.ofName "reject")
        (Value.isTruthy (.bool true)) (some ⟨lateEnd⟩) = .ok (fit, records) ∧
      fit = some ⟨lateEnd⟩ ∧ records.filter (·.level == .warning) = [] := by
  have hcut : (mk none (some 1) (some true)).apply (.ofName "strip")
      (Value.isTruthy (.bool true)) (some ⟨lateEnd⟩) =
        .ok (some ⟨lateEnd.take 1⟩, [strippingWarning 1, truncatingWarning 2 1]) := rfl
  have hkept : (mk none (some 2) (some false)).apply (.ofName "reject")
      (Value.isTruthy (.bool true)) (some ⟨lateEnd⟩) = .ok (some ⟨lateEnd⟩, []) := rfl
  refine ⟨⟨_, _, hcut, ?_, (apply_warns_iff_changes hcut).2⟩, _, _, hkept, rfl,
    (apply_warns_iff_changes hkept).2⟩
  exact (apply_warns_iff_changes hcut).1.mpr ⟨strippingWarning 1, List.mem_cons_self, rfl⟩

end FoldingClientCapabilities

end FoldingProtocol
