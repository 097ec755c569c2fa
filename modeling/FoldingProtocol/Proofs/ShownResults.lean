import FoldingProtocol.Proofs.PrintedRanges

/-!
# A shown result spells itself

A result that is shown as JSON is written by the encoding of its shape, and answers are
written by the encoding of the request. The text of the one spells the value of the other,
and the value decodes to the result again. A result has a text if its numbers can be shown.
Kinds may be any text; where texts have place for halves of pairs, the halves in a kind must
not make a pair, for which the reader would take them.
-/

namespace FoldingProtocol

section

variable {storage : Text.Storage}

/-- A result whose kinds can have been read where texts are stored in some way. -/
def HeldResult (storage : Text.Storage) (result : Option FoldingRangeList) : Prop :=
  ∀ l, result = some l → ∀ r ∈ l.ranges, ∀ kind, r.kind = some kind → storage.Holds kind.name

/-- Any kinds can have been read where texts are plain. -/
theorem heldResult_plain (result : Option FoldingRangeList) : HeldResult .plain result :=
  fun _ _ _ _ kind _ => Text.Storage.holds_plain kind.name

theorem FoldingRequest.readable_unlimited {result : Option FoldingRangeList}
    (h : HeldResult storage result) : Json.ReadableIn ⟨none, storage⟩ (encodeResult result) :=
  readableIn_encodeResult fun l hl r hr =>
    ⟨Numeral.within_none _, fun _ _ => Numeral.within_none _, Numeral.within_none _,
      fun _ _ => Numeral.within_none _, h l hl r hr⟩

/-- What reads back without a limit also does under the one for files, if it can be shown. -/
theorem Json.ReadableIn.limited {v : Value} (h : ReadableIn ⟨none, storage⟩ v)
    (hshown : v.isShowable = true) : ReadableIn ⟨some Numeral.digitLimit, storage⟩ v := by
  induction h with
  | null => exact .null
  | bool b => exact .bool b
  | int => exact .int (Numeral.isShowable_iff.mp hshown).within
  | str hs => exact .str hs
  | arr _ ih => exact .arr fun v hv => ih v hv (Value.areShowable_iff.mp hshown v hv)
  | obj hnames hkeys _ ih =>
      exact .obj hnames hkeys fun m hm => ih m hm (Value.haveShowable_iff.mp hshown m hm)

theorem Json.readIn_pretty {d : Dialect} {v : Value} (hv : ReadableIn d v) :
    readIn d (pretty d.storage v).toList = .ok v := by
  have hread := readIn_print hv (.indented 0) (List.forall_mem_nil _)
  rw [List.append_nil] at hread
  rw [pretty, String.toList_ofList, hread]

theorem render_json (storage : Text.Storage) (result : Option FoldingRangeList) :
    (Output.ofRanges result).render storage .json =
      Json.pretty? storage (FoldingRequest.encodeResult result) := by
  cases result <;> rfl

theorem readIn_of_render {result : Option FoldingRangeList} {text : String}
    (hheld : HeldResult storage result)
    (h : (Output.ofRanges result).render storage .json = some text) :
    Json.readIn ⟨some Numeral.digitLimit, storage⟩ text.toList =
      .ok (FoldingRequest.encodeResult result) := by
  rw [render_json, Json.pretty?] at h
  split at h
  · next hshown =>
      cases h
      exact Json.readIn_pretty ((FoldingRequest.readable_unlimited hheld).limited hshown)
  · cases h

end

/-- A result has a text just if all of its numbers can be shown. The text spells the value that
answers carry for the result, which decodes to the result again: for all kinds where texts are
plain, and for those without a pair in halves where texts are as files are read. -/
theorem shown_result_spells_itself (result : Option FoldingRangeList) :
    (∀ storage, (∃ text, (Output.ofRanges result).render storage .json = some text) ↔
      (FoldingRequest.encodeResult result).isShowable = true) ∧
    (∀ text, (Output.ofRanges result).render .plain .json = some text →
      Json.readIn ⟨some Numeral.digitLimit, .plain⟩ text.toList =
        .ok (FoldingRequest.encodeResult result)) ∧
    (HeldResult .marked result →
      ∀ text, (Output.ofRanges result).render .marked .json = some text →
        Json.read text.toList = .ok (FoldingRequest.encodeResult result)) ∧
    FoldingRequest.decodeResult (FoldingRequest.encodeResult result) = .ok result := by
  refine ⟨fun storage => ?_, fun text => readIn_of_render (heldResult_plain result),
    fun hheld text => readIn_of_render hheld, FoldingRequest.decodeResult_encodeResult result⟩
  rw [render_json, Json.pretty?]
  split
  · next hshown => exact iff_of_true ⟨_, rfl⟩ hshown
  · next hshown => exact iff_of_false (fun ⟨_, h⟩ => by cases h) hshown

/-- A range of a kind that needs every sort of escape, at a line of some number. -/
def quaintRange (line : Nat) : FoldingRange :=
  ⟨⟨line, none, line, some 0, some ⟨"\"\t\x1bé🙂"⟩⟩, Nat.le_refl _⟩

theorem quaintRange_spells_itself :
    ∃ text, (Output.ofRanges (some ⟨[quaintRange 7]⟩)).render .marked .json = some text ∧
      Json.read text.toList = .ok (FoldingRequest.encodeResult (some ⟨[quaintRange 7]⟩)) := by
  obtain ⟨htext, -, hread, -⟩ := shown_result_spells_itself (some ⟨[quaintRange 7]⟩)
  obtain ⟨text, hrender⟩ := (htext .marked).mpr (by decide)
  refine ⟨text, hrender, hread ?_ text hrender⟩
  rintro l ⟨⟩ r hr kind hkind
  obtain rfl := List.mem_singleton.mp hr
  cases hkind
  exact Text.Storage.holds_of_not_mem _ (by decide)

theorem isShowable_quaintRange (line : Nat) :
    (FoldingRequest.encodeResult (some ⟨[quaintRange line]⟩)).isShowable =
      Numeral.isShowable line := by
  have hmore (rest : Bool) (hrest : rest = true) :
      ((Numeral.isShowable line && (Numeral.isShowable line && rest) && true) && true) =
        Numeral.isShowable line := by
    rw [hrest]
    cases Numeral.isShowable line <;> rfl
  exact hmore _ rfl

theorem not_shown_of_le {line : Nat} (h : 10 ^ Numeral.digitLimit ≤ line) :
    (Output.ofRanges (some ⟨[quaintRange line]⟩)).render .plain .json = none := by
  have hlong : Numeral.isShowable line = false :=
    Numeral.not_isShowable_of_le (by rwa [Int.natAbs_natCast])
  have hshown := isShowable_quaintRange line
  rw [hlong] at hshown
  rw [render_json, Json.pretty?, hshown]
  rfl

/-- At a line whose number is too long, the range has no text. -/
theorem distantRange_has_no_text :
    ¬ ∃ text, (Output.ofRanges (some ⟨[quaintRange (10 ^ Numeral.digitLimit)]⟩)).render .plain
      .json = some text := by
  rw [not_shown_of_le (Nat.le_refl _)]
  rintro ⟨_, ⟨⟩⟩

end FoldingProtocol
