import FoldingProtocol.Proofs.Fitting

/-!
# A fitted result, range by range

`Fitting.lean` says that fitting is a refusal or two maps over the list. A server
that sent the list wants to know what became of each range, and a user who reads the
refusal wants to know which range it is about. Both are told here place by place:
whatever is in the list, the policy's name and the value that asks to cut.

Refusing comes before counting. The range that is named is therefore the first one
with an offset in the whole list, and it is named even if cutting would have removed
it. Nothing is reordered on the way, so the range at a place is the one that was sent
at that place.
-/

namespace FoldingProtocol

/-- A range as a client sees it: lines and kind are those that were sent, and so are
the offsets, unless only whole lines are folded. -/
structure FoldingRange.SeenAs (wholeLines : Bool) (sent seen : FoldingRange) : Prop where
  startLine : seen.startLine = sent.startLine
  endLine : seen.endLine = sent.endLine
  kind : seen.kind = sent.kind
  startCharacter : seen.startCharacter = if wholeLines then none else sent.startCharacter
  endCharacter : seen.endCharacter = if wholeLines then none else sent.endCharacter

/-- The first of some ranges that has an offset at its start or at its end. -/
structure FoldingRange.FirstWithOffset (ranges : List FoldingRange) (first : FoldingRange) :
    Prop where
  hasOffset : first.startCharacter ≠ none ∨ first.endCharacter ≠ none
  isFirst : ∃ before after, ranges = before ++ first :: after ∧
    ∀ r ∈ before, r.startCharacter = none ∧ r.endCharacter = none

namespace FoldingRange

theorem hasOffsets_iff {r : FoldingRange} :
    r.hasOffsets = true ↔ r.startCharacter ≠ none ∨ r.endCharacter ≠ none := by
  rw [Span.hasOffsets, Bool.or_eq_true, Option.isSome_iff_ne_none, Option.isSome_iff_ne_none]

theorem hasOffsets_eq_false_iff {r : FoldingRange} :
    r.hasOffsets = false ↔ r.startCharacter = none ∧ r.endCharacter = none := by
  rw [← Bool.not_eq_true, hasOffsets_iff, not_or, Decidable.not_not, Decidable.not_not]

theorem firstWithOffset_of_find? {ranges : List FoldingRange} {first : FoldingRange}
    (h : ranges.find? (·.hasOffsets) = some first) : FirstWithOffset ranges first := by
  obtain ⟨hfirst, before, after, hranges, hbefore⟩ := List.find?_eq_some_iff_append.mp h
  refine ⟨hasOffsets_iff.mp hfirst, before, after, hranges, fun r hr => ?_⟩
  have hnone := hbefore r hr
  rw [Bool.not_eq_true'] at hnone
  exact hasOffsets_eq_false_iff.mp hnone

theorem seenAs_self (r : FoldingRange) : SeenAs false r r := ⟨rfl, rfl, rfl, rfl, rfl⟩

theorem seenAs_withoutOffsets (r : FoldingRange) : SeenAs true r r.withoutOffsets :=
  ⟨rfl, rfl, rfl, rfl, rfl⟩

end FoldingRange

namespace FoldingClientCapabilities

open FoldingRange

variable {c : FoldingClientCapabilities} {truncate : Bool} {ranges : List FoldingRange}

/-! ## Places and lengths -/

theorem length_keptLines : (c.keptLines ranges).length = ranges.length := by
  rw [keptLines]
  split
  · exact List.length_map _
  · rfl

theorem getElem?_keptLines {i : Nat} {seen : FoldingRange}
    (h : (c.keptLines ranges)[i]? = some seen) :
    ∃ sent, ranges[i]? = some sent ∧ SeenAs c.wholeLinesOnly sent seen := by
  rw [keptLines] at h
  cases hwhole : c.wholeLinesOnly with
  | true =>
      rw [hwhole, if_pos rfl, List.getElem?_map] at h
      obtain ⟨sent, hsent, rfl⟩ := Option.map_eq_some_iff.mp h
      exact ⟨sent, hsent, seenAs_withoutOffsets sent⟩
  | false =>
      rw [hwhole, if_neg Bool.false_ne_true] at h
      exact ⟨seen, h, seenAs_self seen⟩

theorem length_keptCount :
    (c.keptCount truncate ranges).length =
      match c.maximumNumberOfRanges with
      | some limit => if truncate then min limit ranges.length else ranges.length
      | none => ranges.length := by
  rw [keptCount]
  cases c.maximumNumberOfRanges with
  | none => rfl
  | some limit =>
      cases truncate with
      | true => exact List.length_take
      | false => rfl

/-- What is left stands where it stood. -/
theorem getElem?_keptCount {i : Nat} {r : FoldingRange}
    (h : (c.keptCount truncate ranges)[i]? = some r) : ranges[i]? = some r := by
  rw [keptCount] at h
  split at h
  · exact h
  · split at h
    · rw [List.getElem?_take] at h
      split at h
      · exact h
      · cases h
    · exact h

theorem length_fitted :
    (c.fitted truncate ranges).length =
      match c.maximumNumberOfRanges with
      | some limit => if truncate then min limit ranges.length else ranges.length
      | none => ranges.length := by
  rw [fitted, length_keptCount, length_keptLines]

theorem getElem?_fitted {i : Nat} {seen : FoldingRange}
    (h : (c.fitted truncate ranges)[i]? = some seen) :
    ∃ sent, ranges[i]? = some sent ∧ SeenAs c.wholeLinesOnly sent seen :=
  getElem?_keptLines (getElem?_keptCount h)

end FoldingClientCapabilities

theorem MalformedRange.message_carriesOffsets (count : Nat) (first : FoldingRange) :
    (carriesOffsets count first).message = toString count ++
      " folding range(s) carry character offsets but the client only folds complete lines" := by
  have htext : " folding range(s) carry character offsets " ++
      "but the client only folds complete lines" =
        " folding range(s) carry character offsets but the client only folds complete lines" := by
    decide
  show toString count ++ " folding range(s) carry character offsets " ++
    "but the client only folds complete lines" = _
  rw [String.append_assoc, htext]

theorem OffsetPolicy.ofName_eq_reject {name : String} : ofName name = .reject ↔ name = "reject" := by
  rw [ofName]
  split
  · next h => exact ⟨fun _ => h, fun _ => rfl⟩
  · next h => exact ⟨nofun, fun heq => absurd heq h⟩

namespace FoldingClientCapabilities

open FoldingRange

/-- Fitting either refuses the result or gives it back place by place. It refuses if
only whole lines are folded, the policy says so by its name and some range has an
offset, whatever the limit; the refusal is about the first such range and counts all of
them. Otherwise each range is seen as the client sees ranges, and as many are left as
the limit allows where cutting is asked for. No result stays no result. -/
theorem apply_refuses_or_fits (c : FoldingClientCapabilities) (policy : String) (truncate : Value)
    (ranges : List FoldingRange) :
    let fit := c.apply (.ofName policy) truncate.isTruthy
    let refused := c.completeLineFoldingOnly = some true ∧ policy = "reject" ∧
      ∃ r ∈ ranges, r.startCharacter ≠ none ∨ r.endCharacter ≠ none
    (refused → ∃ first refusal, FirstWithOffset ranges first ∧
      fit (some ⟨ranges⟩) = .error refusal ∧
      refusal = .carriesOffsets (ranges.countP (·.hasOffsets)) first ∧
      refusal.span = first.toSpan ∧
      refusal.message = toString (ranges.countP (·.hasOffsets)) ++
        " folding range(s) carry character offsets but the client only folds complete lines") ∧
    (¬ refused → ∃ (seen : List FoldingRange) (records : List Log.Record),
      fit (some ⟨ranges⟩) = .ok (some ⟨seen⟩, records) ∧
      (seen.length = match c.maximumNumberOfRanges with
        | some limit => if truncate.isTruthy then min limit ranges.length else ranges.length
        | none => ranges.length) ∧
      ∀ (i : Nat) (r : FoldingRange), seen[i]? = some r → ∃ sent, ranges[i]? = some sent ∧
        SeenAs (c.completeLineFoldingOnly == some true) sent r) ∧
    fit none = .ok (none, []) := by
  intro fit refused
  have hrefused : c.refuses (.ofName policy) ranges = true ↔ refused := by
    rw [refuses_iff, wholeLinesOnly, beq_iff_eq, OffsetPolicy.ofName_eq_reject]
    simp only [hasOffsets_iff]
    rfl
  refine ⟨fun h => ?_, fun h => ?_, rfl⟩
  · obtain ⟨first, hfirst, happly⟩ := apply_of_first (hrefused.mpr h)
    exact ⟨first, _, firstWithOffset_of_find? hfirst, happly, rfl, rfl,
      MalformedRange.message_carriesOffsets _ _⟩
  · obtain ⟨records, happly⟩ := apply_of_not_refuses (Bool.eq_false_iff.mpr (mt hrefused.mp h))
    exact ⟨c.fitted truncate.isTruthy ranges, records, happly, length_fitted,
      fun i r => getElem?_fitted⟩

-- The range that is named would have been cut off, and it has one of its two offsets.
example :
    (FoldingClientCapabilities.mk none (some 0) (some true)).apply (.ofName "reject") true
      (some ⟨[⟨⟨0, none, 1, none, none⟩, by decide⟩, ⟨⟨2, none, 4, some 3, none⟩, by decide⟩]⟩) =
        .error (.carriesOffsets 1 ⟨⟨2, none, 4, some 3, none⟩, by decide⟩) := rfl

end FoldingClientCapabilities

end FoldingProtocol
