import FoldingProtocol.Proofs.DecodedParts
import FoldingProtocol.Proofs.ShownNumbers

/-!
# A list of ranges, item by item

A server's answer holds ranges that were never looked at together, so that one of them may
be ill-formed and another one start after it ends. These are failures of two kinds. An
ill-formed item has issues, and the issues of all items are reported side by side. An
inverted item is well-formed, and yet no range; it is reported alone, and at once, so that
issues found before it are forgotten and items after it are not looked at. Only an inverted
item with a line that cannot be shown has an issue instead, because its report would have
to show the line.

What an item is, is said by the values of its members: the two lines are counts, an offset
is a count or null, and the kind is a text or null. Whether the lines are in order is asked
only where all of this holds, which is why an item is never both ill-formed and inverted.
-/

namespace FoldingProtocol

open Decoded Decoder

/-! ## Counts and kinds -/

/-- What a value is taken for where a count may be left out: null for none, and an integer
that is not negative, in any of its spellings, for itself. -/
def Value.CountsAs (v : Value) : Option Nat → Prop
  | none => v = .null
  | some n => toInteger v = .ok n

namespace Decoder

theorem count_iff {v : Value} {n : Nat} : count v = .accepted n ↔ v.CountsAs (some n) := by
  rw [count, Value.CountsAs]
  cases toInteger v with
  | error kind => exact ⟨nofun, nofun⟩
  | ok m =>
      cases m with
      | ofNat k => rw [Except.ok.injEq, accepted.injEq, Int.ofNat_eq_natCast, Int.ofNat_inj]
      | negSucc k => exact ⟨nofun, nofun⟩

theorem orderly_count (v : Value) : (count v).Orderly := by
  rw [count]
  split
  · exact orderly_rejected _
  · exact orderly_accepted _
  · exact orderly_rejected _

theorem nullable_count_iff {v : Value} {n : Option Nat} :
    nullable count v = .accepted n ↔ v.CountsAs n := by
  cases n with
  | none => exact ⟨nullable_eq_none, fun h => by rw [h]; rfl⟩
  | some n =>
      refine ⟨fun h => count_iff.mp (nullable_eq_some h), fun h => ?_⟩
      have hv : v ≠ .null := by
        intro hnull
        rw [hnull] at h
        cases h
      rw [nullable_of_ne hv, count_iff.mpr h]
      rfl

end Decoder

theorem Field.required_count_iff {f : Field} {ms : Members} {n : Nat} :
    f.required count ms = .accepted n ↔ (f.valueIn ms).CountsAs (some n) :=
  (required_valueIn_iff fun ⟨_, h⟩ => by cases h).trans count_iff

namespace RangeKind

theorem nullable_decode_iff {v : Value} {kind : Option RangeKind} :
    nullable decode v = .accepted kind ↔ v = .ofText? (kind.map name) := by
  constructor
  · intro h
    cases kind with
    | none => exact nullable_eq_none h
    | some kind =>
        have hdecode := nullable_eq_some h
        cases v with
        | str s =>
            cases hdecode
            rfl
        | null | bool | int | float | moment | arr | obj => cases hdecode
  · intro h
    subst h
    cases kind <;> rfl

theorem orderly_decode (v : Value) : (decode v).Orderly := by
  cases v <;> nofun

end RangeKind

/-! ## One item -/

namespace Span

/-- Members that spell a span, be its lines in order or not. -/
structure SpelledBy (s : Span) (ms : Members) : Prop where
  startLine : (startLineField.valueIn ms).CountsAs (some s.startLine)
  startCharacter : (startCharacterField.valueIn ms).CountsAs s.startCharacter
  endLine : (endLineField.valueIn ms).CountsAs (some s.endLine)
  endCharacter : (endCharacterField.valueIn ms).CountsAs s.endCharacter
  kind : kindField.valueIn ms = .ofText? (s.kind.map RangeKind.name)

variable {ms : Members} {s : Span}

theorem ofMembers_eq_accepted : ofMembers ms = .accepted s ↔ s.SpelledBy ms := by
  constructor
  · intro h
    obtain ⟨_, kind, hfour, hkind, rfl⟩ := seq_eq_accepted h
    obtain ⟨_, endCharacter, hthree, hendCharacter, rfl⟩ := seq_eq_accepted hfour
    obtain ⟨_, endLine, htwo, hendLine, rfl⟩ := seq_eq_accepted hthree
    obtain ⟨_, startCharacter, hone, hstartCharacter, rfl⟩ := seq_eq_accepted htwo
    obtain ⟨startLine, hstartLine, rfl⟩ := map_eq_accepted hone
    exact ⟨Field.required_count_iff.mp hstartLine,
      nullable_count_iff.mp (Field.optional_iff.mp hstartCharacter),
      Field.required_count_iff.mp hendLine,
      nullable_count_iff.mp (Field.optional_iff.mp hendCharacter),
      RangeKind.nullable_decode_iff.mp (Field.optional_iff.mp hkind)⟩
  · intro h
    have hstartCharacter := Field.optional_iff.mpr (nullable_count_iff.mpr h.startCharacter)
    have hendCharacter := Field.optional_iff.mpr (nullable_count_iff.mpr h.endCharacter)
    have hkind := Field.optional_iff.mpr (RangeKind.nullable_decode_iff.mpr h.kind)
    exact seq_accepted (seq_accepted (seq_accepted (seq_accepted
      (map_accepted (Field.required_count_iff.mpr h.startLine)) hstartCharacter)
      (Field.required_count_iff.mpr h.endLine)) hendCharacter) hkind

theorem orderly_ofMembers (ms : Members) : (ofMembers ms).Orderly :=
  ((((Field.orderly_required orderly_count).map.seq (Field.orderly_optional orderly_count)).seq
    (Field.orderly_required orderly_count)).seq (Field.orderly_optional orderly_count)).seq
    (Field.orderly_optional RangeKind.orderly_decode)

/-- An item that spells a span. -/
def IsSpelled (s : Span) (item : Value) : Prop := ∃ ms, item = .obj ms ∧ s.SpelledBy ms

/-- An item that spells a span which starts after it ends. -/
def IsInverted (s : Span) (item : Value) : Prop := s.IsSpelled item ∧ s.endLine < s.startLine

/-- Such an item whose lines can be shown. -/
def IsReported (s : Span) (item : Value) : Prop :=
  s.IsInverted item ∧ Numeral.isShowable s.startLine = true

theorem SpelledBy.unique {t : Span} (h : s.SpelledBy ms) (ht : t.SpelledBy ms) : s = t := by
  have hs := ofMembers_eq_accepted.mpr h
  rw [ofMembers_eq_accepted.mpr ht] at hs
  exact (accepted.inj hs).symm

end Span

namespace FoldingRange

open FoldingProtocol.Span

variable {item : Value} {s : Span} {r : FoldingRange}

theorem ofSpan_of_lt (ms : Members) (hlt : s.endLine < s.startLine) :
    ofSpan ms s = if Numeral.isShowable s.startLine then .malformed s
      else .refuse .notShowable (.obj ms) := by
  rw [ofSpan, ofSpan?, dif_neg (Nat.not_le_of_lt hlt)]

theorem ofSpan_eq_accepted {ms : Members} : ofSpan ms s = .accepted r ↔ s = r.toSpan := by
  constructor
  · intro h
    by_cases hle : s.startLine ≤ s.endLine
    · rw [ofSpan, ofSpan?, dif_pos hle] at h
      cases h
      rfl
    · rw [ofSpan_of_lt ms (Nat.lt_of_not_le hle)] at h
      split at h <;> cases h
  · rintro rfl
    exact ofSpan_toSpan ms r

theorem ofSpan_eq_malformed {ms : Members} {t : Span} :
    ofSpan ms s = .malformed t ↔
      s = t ∧ s.endLine < s.startLine ∧ Numeral.isShowable s.startLine = true := by
  constructor
  · intro h
    by_cases hle : s.startLine ≤ s.endLine
    · rw [ofSpan, ofSpan?, dif_pos hle] at h
      cases h
    · have hlt := Nat.lt_of_not_le hle
      rw [ofSpan_of_lt ms hlt] at h
      split at h
      · next hshown =>
          cases h
          exact ⟨rfl, hlt, hshown⟩
      · cases h
  · rintro ⟨rfl, hlt, hshown⟩
    rw [ofSpan_of_lt ms hlt, if_pos hshown]

theorem decode_eq_accepted : decode item = .accepted r ↔ r.toSpan.IsSpelled item := by
  constructor
  · intro h
    obtain ⟨ms, rfl, hms⟩ := object_eq_accepted h
    obtain ⟨s, hs, hr⟩ := check_eq_accepted hms
    obtain rfl := ofSpan_eq_accepted.mp hr
    exact ⟨ms, rfl, ofMembers_eq_accepted.mp hs⟩
  · rintro ⟨ms, rfl, h⟩
    show (ofMembers ms).check (ofSpan ms) = _
    rw [ofMembers_eq_accepted.mpr h]
    exact ofSpan_eq_accepted.mpr rfl

theorem decode_eq_malformed : decode item = .malformed s ↔ s.IsReported item := by
  constructor
  · intro h
    cases item with
    | obj ms =>
        change (ofMembers ms).check (ofSpan ms) = .malformed s at h
        cases hmembers : ofMembers ms with
        | accepted t =>
            rw [hmembers] at h
            obtain ⟨rfl, hlt, hshown⟩ := ofSpan_eq_malformed.mp h
            exact ⟨⟨⟨ms, rfl, ofMembers_eq_accepted.mp hmembers⟩, hlt⟩, hshown⟩
        | rejected issues =>
            rw [hmembers] at h
            cases h
        | malformed t => exact absurd hmembers (orderly_ofMembers ms t)
    | null | bool | int | float | str | moment | arr => cases h
  · rintro ⟨⟨⟨ms, rfl, h⟩, hlt⟩, hshown⟩
    show (ofMembers ms).check (ofSpan ms) = _
    rw [ofMembers_eq_accepted.mpr h]
    exact ofSpan_eq_malformed.mpr ⟨rfl, hlt, hshown⟩

/-- An inverted item whose lines cannot be shown has one issue. -/
theorem decode_of_hidden (h : s.IsInverted item)
    (hhidden : Numeral.isShowable s.startLine = false) :
    decode item = .refuse .notShowable item := by
  obtain ⟨⟨ms, rfl, hspelled⟩, hlt⟩ := h
  show (ofMembers ms).check (ofSpan ms) = _
  rw [ofMembers_eq_accepted.mpr hspelled]
  show ofSpan ms s = _
  rw [ofSpan_of_lt ms hlt, hhidden]
  rfl

theorem orderly_decode_iff : (decode item).Orderly ↔ ∀ s, ¬ IsReported s item :=
  forall_congr' fun _ => not_congr decode_eq_malformed

/-- The items that are accepted spell spans with their lines in order. -/
theorem accepts_decode_iff :
    Accepts (decode item) ↔ (∃ s, IsSpelled s item) ∧ ∀ s, ¬ IsInverted s item := by
  constructor
  · rintro ⟨r, hr⟩
    have hspelled := decode_eq_accepted.mp hr
    refine ⟨⟨r.toSpan, hspelled⟩, fun s hs => ?_⟩
    obtain ⟨ms, rfl, hms⟩ := hspelled
    obtain ⟨⟨_, ⟨⟩, hms'⟩, hlt⟩ := hs
    obtain rfl := hms'.unique hms
    exact absurd r.ordered (Nat.not_le_of_lt hlt)
  · rintro ⟨⟨s, hs⟩, hnone⟩
    have hle : s.startLine ≤ s.endLine := Nat.le_of_not_lt fun hlt => hnone s ⟨hs, hlt⟩
    exact ⟨⟨s, hle⟩, decode_eq_accepted.mpr hs⟩

end FoldingRange

/-! ## All items -/

namespace FoldingRangeList

open FoldingProtocol.Span

/-- What is wrong with an item that is decoded alone. -/
def ownIssues (item : Value) : List Issue :=
  match Shape.foldingRange.decode item with
  | .error (.rejected report) => report.issues
  | _ => []

/-- The span of the first inverted item whose lines can be shown. -/
def FirstReported (items : List Value) (s : Span) : Prop :=
  ∃ before item after, items = before ++ item :: after ∧ s.IsReported item ∧
    ∀ v ∈ before, ∀ t : Span, ¬ t.IsReported v

/-- An object that holds a list of ranges and nothing else. -/
def sent (items : List Value) : Value := .obj [("ranges", .arr items)]

variable {items : List Value}

theorem ownIssues_eq (item : Value) : ownIssues item = (FoldingRange.decode item).issues := by
  have hdecode : Shape.foldingRange.decode item =
      ((FoldingRange.decode item).map Model.foldingRange).titled "FoldingRange" := rfl
  rw [ownIssues, hdecode]
  cases FoldingRange.decode item <;> rfl

theorem exists_firstReported (h : ∃ item ∈ items, ∃ s : Span, s.IsReported item) :
    ∃ s, FirstReported items s := by
  induction items with
  | nil =>
      obtain ⟨item, hmem, -⟩ := h
      cases hmem
  | cons item rest ih =>
      by_cases hitem : ∃ s : Span, s.IsReported item
      · obtain ⟨s, hs⟩ := hitem
        exact ⟨s, [], item, rest, rfl, hs, nofun⟩
      · obtain ⟨v, hv, hreported⟩ := h
        have hrest : v ∈ rest :=
          (List.mem_cons.mp hv).resolve_left fun heq => hitem (heq ▸ hreported)
        obtain ⟨s, before, w, after, hitems, hs, hbefore⟩ := ih ⟨v, hrest, hreported⟩
        refine ⟨s, item :: before, w, after, by rw [hitems]; rfl, hs, ?_⟩
        exact List.forall_mem_cons.mpr ⟨not_exists.mp hitem, hbefore⟩

theorem decode_sent : Shape.foldingRangeList.decode (sent items) =
    (((itemsFrom FoldingRange.decode 0 items).under (.member "ranges")).map
      fun ranges => Model.foldingRangeList ⟨ranges⟩).titled "FoldingRangeList" := by
  show Decoded.titled _ ((((itemsFrom FoldingRange.decode 0 items).under _).map _).map _) = _
  cases itemsFrom FoldingRange.decode 0 items <;> rfl

theorem decode_sent_of_issues
    (h : itemsFrom FoldingRange.decode 0 items = .rejected (items.zipIdx.flatMap fun item =>
      (FoldingRange.decode item.1).issues.map (·.under (.index item.2)))) :
    Shape.foldingRangeList.decode (sent items) =
      .error (.rejected ⟨"FoldingRangeList", items.zipIdx.flatMap fun item =>
        (ownIssues item.1).map fun issue =>
          { issue with path := .member "ranges" :: .index item.2 :: issue.path }⟩) := by
  rw [decode_sent, h]
  show Except.error (Refusal.rejected ⟨_, List.map _ (List.flatMap _ _)⟩) = _
  simp only [List.map_flatMap, List.map_map, ownIssues_eq]
  rfl

theorem ownIssues_of_hidden {item : Value} {s : Span} (h : s.IsInverted item)
    (hhidden : Numeral.isShowable s.startLine = false) :
    ownIssues item = [⟨.notShowable, [], item⟩] := by
  rw [ownIssues_eq, FoldingRange.decode_of_hidden h hhidden]
  rfl

/-- A list of ranges is decoded in one of three ways. If some item is inverted and its lines
can be shown, the outcome is a malformed range, that of the first such item, whatever stands
before it and behind it. Otherwise, if some item does not spell a span with its lines in
order, the outcome is a report of the items' own issues, in order, each one from the list
inwards; an inverted item has one issue then. Otherwise every item is decoded, in its place. -/
theorem decode_list_decides (items : List Value) :
    let outcome := Shape.foldingRangeList.decode (sent items)
    ((∃ item ∈ items, ∃ s : Span, s.IsReported item) →
      ∃ s, FirstReported items s ∧ outcome = .error (.malformed (.startsAfterEnd s))) ∧
    ((∀ item ∈ items, ∀ s : Span, ¬ s.IsReported item) →
      ((∃ item ∈ items, (∀ s : Span, ¬ s.IsSpelled item) ∨ ∃ s : Span, s.IsInverted item) →
        outcome = .error (.rejected ⟨"FoldingRangeList", items.zipIdx.flatMap fun item =>
          (ownIssues item.1).map fun issue =>
            { issue with path := .member "ranges" :: .index item.2 :: issue.path }⟩) ∧
        ∀ item ∈ items, (∃ s : Span, s.IsInverted item) →
          ownIssues item = [⟨.notShowable, [], item⟩]) ∧
      ((∀ item ∈ items, (∃ s : Span, s.IsSpelled item) ∧ ∀ s : Span, ¬ s.IsInverted item) →
        ∃ ranges, outcome = .ok (.foldingRangeList ⟨ranges⟩) ∧
          List.Forall₂ (fun item r => r.toSpan.IsSpelled item) items ranges)) := by
  intro outcome
  refine ⟨fun h => ?_, fun h => ?_⟩
  · obtain ⟨s, before, item, after, rfl, hs, hbefore⟩ := exists_firstReported h
    refine ⟨s, ⟨before, item, after, rfl, hs, hbefore⟩, ?_⟩
    have hitems := itemsFrom_of_malformed (FoldingRange.decode_eq_malformed.mpr hs) after
      (fun v hv => FoldingRange.orderly_decode_iff.mpr (hbefore v hv)) 0
    show Shape.foldingRangeList.decode (sent (before ++ item :: after)) = _
    rw [decode_sent, hitems]
    rfl
  · have horderly : ∀ item ∈ items, (FoldingRange.decode item).Orderly := fun item hitem =>
      FoldingRange.orderly_decode_iff.mpr (h item hitem)
    have haccepts : Accepts (itemsFrom FoldingRange.decode 0 items) ↔
        ∀ item ∈ items, (∃ s : Span, s.IsSpelled item) ∧ ∀ s : Span, ¬ s.IsInverted item :=
      accepts_itemsFrom.trans (forall₂_congr fun _ _ => FoldingRange.accepts_decode_iff)
    refine ⟨fun hbad => ⟨?_, ?_⟩, fun hgood => ?_⟩
    · obtain ⟨item, hitem, hitemBad⟩ := hbad
      have hnot : ¬ Accepts (itemsFrom FoldingRange.decode 0 items) := by
        intro hall
        obtain ⟨⟨s, hs⟩, hnone⟩ := haccepts.mp hall item hitem
        exact hitemBad.elim (fun hunspelled => hunspelled s hs) fun ⟨t, ht⟩ => hnone t ht
      refine decode_sent_of_issues ?_
      rw [(orderly_itemsFrom horderly 0).eq_rejected hnot, issues_itemsFrom horderly]
    · rintro item hitem ⟨s, hs⟩
      exact ownIssues_of_hidden hs (Bool.eq_false_iff.mpr fun hshown => h item hitem s ⟨hs, hshown⟩)
    · obtain ⟨ranges, hranges⟩ := haccepts.mpr hgood
      refine ⟨ranges, ?_, (itemsFrom_eq_accepted.mp hranges).imp fun item r =>
        FoldingRange.decode_eq_accepted.mp⟩
      show Shape.foldingRangeList.decode (sent items) = _
      rw [decode_sent, hranges]
      rfl

/-- An item that starts at a line with too many digits and ends at the first one. -/
def endlessItem : Value := .obj [("startLine", .tooLong), ("endLine", .int 0)]

theorem isInverted_endlessItem :
    Span.IsInverted ⟨10 ^ Numeral.digitLimit, none, 0, none, none⟩ endlessItem :=
  ⟨⟨_, rfl, ⟨rfl, rfl, rfl, rfl, rfl⟩⟩, Nat.pow_pos (by decide)⟩

/-- The item is inverted, and no malformed range is reported. -/
theorem endlessItem_is_an_issue :
    (∃ s : Span, s.IsInverted endlessItem) ∧
      Shape.foldingRangeList.decode (sent [endlessItem]) =
        .error (.rejected ⟨"FoldingRangeList",
          [⟨.notShowable, [.member "ranges", .index 0], endlessItem⟩]⟩) := by
  refine ⟨⟨_, isInverted_endlessItem⟩, ?_⟩
  have hdecode : FoldingRange.decode endlessItem = .refuse .notShowable endlessItem :=
    FoldingRange.decode_of_hidden isInverted_endlessItem Value.not_isShowable_tooLong
  have hitems : itemsFrom FoldingRange.decode 0 [endlessItem] =
      .rejected [⟨.notShowable, [.index 0], endlessItem⟩] := by
    rw [itemsFrom, hdecode]
    rfl
  rw [decode_sent, hitems]
  rfl

-- The second item is inverted. The text before it and the object behind it are no ranges.
example :
    Shape.foldingRangeList.decode (sent [.str "1-2",
      .obj [("startLine", .str "0_5"), ("end_line", .bool true)], .obj []]) =
        .error (.malformed (.startsAfterEnd ⟨5, none, 1, none, none⟩)) := rfl

end FoldingRangeList

end FoldingProtocol
