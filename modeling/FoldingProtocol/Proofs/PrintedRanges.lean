import FoldingProtocol.Proofs.RangesCommand

/-!
# Printed results are responses

What the ranges command prints as JSON can be read by it. Printed JSON consists of
visible characters, so neither the terminal nor the reader of texts takes anything
away from it, and it reads back to the value that was printed; and a result decodes
from its own members as a bare result.

Printing and reading undo each other only for integers of not too many digits, and for
texts whose halves make no pairs. A result has no others, because the response it was
decoded from was read under the same limit and its halves were joined, and fitting the
result makes no new ones.
-/

namespace FoldingProtocol

/-! ## Texts that nothing is taken from -/

theorem Text.withoutControls_append {cs : List Char} (h : '\x1b' ∉ cs) (rest : List Char) :
    withoutControls (cs ++ rest) = cs ++ withoutControls rest := by
  induction cs with
  | nil => rfl
  | cons c cs ih =>
      rw [List.mem_cons, not_or] at h
      rw [List.cons_append, withoutControls, ih h.2]
      · rfl
      · rintro inside rfl
        exact absurd rfl h.1

theorem Text.withoutControls_of_not_mem {cs : List Char} (h : '\x1b' ∉ cs) :
    withoutControls cs = cs := by
  have hempty : withoutControls [] = [] := by rw [withoutControls]
  rw [← List.append_nil cs, withoutControls_append h, hempty]

theorem CommandLine.unifyLineEnds_of_not_mem {cs : List Char} (h : '\r' ∉ cs) :
    unifyLineEnds cs = cs := by
  induction cs with
  | nil => rfl
  | cons c cs ih =>
      rw [List.mem_cons, not_or] at h
      rw [unifyLineEnds, ih h.2]
      · rintro rest rfl
        exact absurd rfl h.1
      · rintro rfl
        exact absurd rfl h.1

namespace Json

theorem not_mem_of_printed {cs : List Char} (h : ∀ c ∈ cs, Printed c) {c : Char}
    (hc : ¬ Printed c) : c ∉ cs := fun hmem => hc (h c hmem)

theorem toList_pretty (storage : Text.Storage) (v : Value) :
    (pretty storage v ++ "\n").toList = print storage (.indented 0) v ++ ['\n'] := by
  rw [pretty, String.toList_append, String.toList_ofList]
  rfl

theorem printed_line {d : Dialect} {v : Value} (hv : ReadableIn d v) :
    ∀ c ∈ (pretty d.storage v ++ "\n").toList, Printed c := by
  rw [toList_pretty, List.forall_mem_append, List.forall_mem_singleton]
  exact ⟨printed_print hv _, by decide⟩

theorem Readable.isShowable {v : Value} (h : Readable v) : v.isShowable = true := by
  induction h with
  | null | bool | str => rfl
  | int hn =>
      have hlimit : ¬ Numeral.digitLimit < _ :=
        mt Numeral.exceeds_some.mpr (Bool.eq_false_iff.mp hn)
      exact decide_eq_true (Nat.not_lt.mp hlimit)
  | arr _ ih => exact Value.areShowable_iff.mpr ih
  | obj _ _ _ ih => exact Value.haveShowable_iff.mpr ih

end Json

namespace CommandLine

/-- A text without marks and escape characters is printed as it is, however it is stored. -/
theorem printedIn_of_not_mem (storage : Text.Storage) {text : String} (hesc : '\x1b' ∉ text.toList)
    (hmark : Text.mark ∉ text.toList) : printedIn storage text = some text := by
  rw [printedIn, Text.withoutControls_of_not_mem hesc, storage.plainly?_of_not_mem hmark,
    Option.map_some, String.ofList_toList]

theorem printedIn_pretty {d : Json.Dialect} {v : Value} (hv : Json.ReadableIn d v) :
    printedIn d.storage (Json.pretty d.storage v ++ "\n") =
      some (Json.pretty d.storage v ++ "\n") :=
  printedIn_of_not_mem d.storage (Json.not_mem_of_printed (Json.printed_line hv) (by decide))
    (Json.not_mem_of_printed (Json.printed_line hv) (by decide))

/-- A printed value is read from the file that it was written to. -/
theorem readJson_pretty {v : Value} (hv : Json.Readable v) (name : String) :
    readJson name (Utf8.encode (Json.pretty .marked v ++ "\n").toList) = .ok v := by
  have htext : readText (Utf8.encode (Json.pretty .marked v ++ "\n").toList) =
      .ok (Json.pretty .marked v ++ "\n").toList := by
    rw [readText, Utf8.decode?_encode]
    exact congrArg _ (unifyLineEnds_of_not_mem
      (Json.not_mem_of_printed (Json.printed_line hv) (by decide)))
  unfold readJson
  rw [htext, Json.toList_pretty]
  simp only [bind, Except.bind, Json.read_print hv]

end CommandLine

/-! ## Results that can be read back -/

open FoldingProtocol.Field

theorem Field.mem_wireMembers {entries : List (Field × Value)} {m : String × Value}
    (h : m ∈ wireMembers entries) : ∃ e ∈ entries, m = (e.1.wire, e.2) := by
  obtain ⟨e, he, rfl⟩ := List.mem_map.mp (List.mem_filter.mp h).1
  exact ⟨e, he, rfl⟩

theorem Field.nodup_wireMembers {entries : List (Field × Value)}
    (hapart : Apart (entries.map Prod.fst)) : ((wireMembers entries).map Prod.fst).Nodup := by
  have hnames : ((entries.map fun e => e.1.entry .wire e.2).map Prod.fst).Nodup := by
    rw [Apart, List.pairwise_map] at hapart
    rw [List.map_map, List.Nodup, List.pairwise_map]
    exact hapart.imp fun h => h.1
  exact (List.filter_sublist.map Prod.fst).nodup hnames

section

variable {d : Json.Dialect}

theorem Field.readable_wireMembers {entries : List (Field × Value)}
    (hapart : Apart (entries.map Prod.fst))
    (hnames : ∀ f ∈ entries.map Prod.fst, Text.mark ∉ f.wire.toList)
    (h : ∀ e ∈ entries, Json.ReadableIn d e.2) :
    Json.ReadableIn d (.obj (wireMembers entries)) := by
  refine .obj (nodup_wireMembers hapart) (fun m hm => ?_) fun m hm => ?_
  · obtain ⟨e, he, rfl⟩ := mem_wireMembers hm
    exact d.storage.holds_of_not_mem (hnames e.1 (List.mem_map_of_mem he))
  · obtain ⟨e, he, rfl⟩ := mem_wireMembers hm
    exact h e he

theorem Value.readable_ofNat? {n : Option Nat} (h : ∀ k, n = some k → Numeral.Within d.limit k) :
    Json.ReadableIn d (.ofNat? n) := by
  cases n with
  | none => exact .null
  | some k => exact .int (h k rfl)

theorem Value.readable_ofText? {s : Option String} (h : ∀ t, s = some t → d.storage.Holds t) :
    Json.ReadableIn d (.ofText? s) := by
  cases s with
  | none => exact .null
  | some t => exact .str (h t rfl)

/-- A span that is printed for good, if it is read in a dialect. -/
structure Span.ReadableIn (d : Json.Dialect) (s : Span) : Prop where
  startLine : Numeral.Within d.limit s.startLine
  startCharacter : ∀ n, s.startCharacter = some n → Numeral.Within d.limit n
  endLine : Numeral.Within d.limit s.endLine
  endCharacter : ∀ n, s.endCharacter = some n → Numeral.Within d.limit n
  kind : ∀ kind, s.kind = some kind → d.storage.Holds kind.name

theorem Span.ReadableIn.encode {s : Span} (h : s.ReadableIn d) :
    Json.ReadableIn d (s.encode .wire) := by
  have hapart : Apart [startLineField, startCharacterField, endLineField, endCharacterField,
    kindField] := by decide
  have hnames : ∀ f ∈ [startLineField, startCharacterField, endLineField, endCharacterField,
    kindField], Text.mark ∉ f.wire.toList := by decide
  have hkind : ∀ name, s.kind.map RangeKind.name = some name → d.storage.Holds name := by
    intro name hname
    obtain ⟨kind, hkind, rfl⟩ := Option.map_eq_some_iff.mp hname
    exact h.kind kind hkind
  show Json.ReadableIn d (.obj (wireMembers [
    (startLineField, .ofNat s.startLine), (startCharacterField, .ofNat? s.startCharacter),
    (endLineField, .ofNat s.endLine), (endCharacterField, .ofNat? s.endCharacter),
    (kindField, .ofText? (s.kind.map RangeKind.name))]))
  refine readable_wireMembers hapart hnames ?_
  simp only [List.forall_mem_cons]
  exact ⟨.int h.startLine, Value.readable_ofNat? h.startCharacter, .int h.endLine,
    Value.readable_ofNat? h.endCharacter, Value.readable_ofText? hkind, nofun⟩

theorem FoldingRangeList.readableIn_encode {l : FoldingRangeList}
    (h : ∀ r ∈ l.ranges, r.toSpan.ReadableIn d) : Json.ReadableIn d (l.encode .wire) := by
  have hapart : Apart [rangesField] := by decide
  have hnames : ∀ f ∈ [rangesField], Text.mark ∉ f.wire.toList := by decide
  show Json.ReadableIn d (.obj (wireMembers [
    (rangesField, .arr (l.ranges.map (FoldingRange.encode .wire)))]))
  refine readable_wireMembers hapart hnames ?_
  rw [List.forall_mem_singleton]
  refine .arr fun v hv => ?_
  obtain ⟨r, hr, rfl⟩ := List.mem_map.mp hv
  exact (h r hr).encode

theorem FoldingRequest.readableIn_encodeResult {result : Option FoldingRangeList}
    (h : ∀ l, result = some l → ∀ r ∈ l.ranges, r.toSpan.ReadableIn d) :
    Json.ReadableIn d (encodeResult result) := by
  cases result with
  | none => exact .null
  | some l => exact FoldingRangeList.readableIn_encode (h l rfl)

end

theorem Span.Legible.readableIn {s : Span} (h : s.Legible) : s.ReadableIn .files where
  startLine := h.startLine.within
  startCharacter n hn := (h.startCharacter n hn).within
  endLine := h.endLine.within
  endCharacter n hn := (h.endCharacter n hn).within
  kind := h.kind

theorem FoldingRequest.readable_encodeResult {result : Option FoldingRangeList}
    (h : ∀ l, result = some l → l.Legible) : Json.Readable (encodeResult result) :=
  readableIn_encodeResult fun l hl r hr => (h l hl r hr).readableIn

theorem Span.Legible.withoutOffsets {s : Span} (h : s.Legible) : s.withoutOffsets.Legible :=
  ⟨h.startLine, nofun, h.endLine, nofun, h.kind⟩

theorem FoldingClientCapabilities.legible_of_apply {c : FoldingClientCapabilities}
    {policy : OffsetPolicy} {truncate : Bool} {result fit : Option FoldingRangeList}
    {records : List Log.Record} (happly : c.apply policy truncate result = .ok (fit, records))
    (h : ∀ l, result = some l → l.Legible) : ∀ l, fit = some l → l.Legible := by
  intro l hl
  rw [apply_eq_ok happly] at hl
  obtain ⟨k, hk, rfl⟩ := Option.map_eq_some_iff.mp hl
  intro r hr
  obtain ⟨s, hs, rfl | rfl⟩ := mem_fitted hr
  · exact h k hk r hs
  · exact (h k hk s hs).withoutOffsets

namespace CommandLine

theorem legible_of_decodeResult {v : Value} (hv : v.Legible) {result : Option FoldingRangeList}
    (h : FoldingRequest.decodeResult v = .ok result) : ∀ l, result = some l → l.Legible := by
  rintro l rfl
  exact FoldingRangeList.legible_of_decode hv
    (Decoder.nullable_eq_some (Decoded.titled_eq_ok.mp h))

theorem legible_get? {ms : Members} (hms : ∀ m ∈ ms, m.2.Legible) (key : String) :
    (Value.ofOption (Members.get? key ms)).Legible := by
  cases hget : Members.get? key ms with
  | none => exact .null
  | some w => exact hms _ (Members.mem_of_get? hget)

theorem legible_of_decodeResponse {v : Value} (hv : v.Legible) {result : Option FoldingRangeList}
    (h : FoldingRequest.decodeResponse v = .ok result) : ∀ l, result = some l → l.Legible := by
  cases hv with
  | @obj ms hms =>
      rw [FoldingRequest.decodeResponse] at h
      split at h
      · cases h
      · split at h
        · exact legible_of_decodeResult (legible_get? hms "result") (mapError_eq_ok.mp h)
        · cases h
  | null | bool | int | float | str | arr => cases h

theorem legible_of_decodeAnswer {v : Value} (hv : v.Legible) {result : Option FoldingRangeList}
    (h : decodeAnswer v = .ok result) : ∀ l, result = some l → l.Legible := by
  unfold decodeAnswer at h
  split at h
  · split at h
    · exact legible_of_decodeResponse hv h
    · exact legible_of_decodeResult hv (mapError_eq_ok.mp h)
  · exact legible_of_decodeResult hv (mapError_eq_ok.mp h)

theorem legible_of_readJson {name : String} {contents : Utf8.Bytes} {v : Value}
    (h : readJson name contents = .ok v) : v.Legible := by
  unfold readJson at h
  obtain ⟨cs, -, h⟩ := bind_eq_ok.mp h
  split at h
  · next w hread =>
      cases h
      exact Json.legible_read hread
  · cases h
  · cases h

theorem decodeAnswer_encodeResult (result : Option FoldingRangeList) :
    decodeAnswer (FoldingRequest.encodeResult result) = .ok result := by
  have hdecode := FoldingRequest.decodeResult_encodeResult result
  cases result with
  | none => rfl
  | some l =>
      show (FoldingRequest.decodeResult (l.encode .wire)).mapError _ = _
      rw [FoldingRequest.encodeResult] at hdecode
      rw [hdecode]
      rfl

/-! ## Results of a run -/

theorem ComesTo.legible {env : Environment} {settings : Settings}
    {source : String × Utf8.Bytes} {fit : Option FoldingRangeList} {records : List Log.Record}
    (h : ComesTo env settings source fit records) : ∀ l, fit = some l → l.Legible := by
  cases h with
  | intro _ hread hresult _ hfit =>
      exact FoldingClientCapabilities.legible_of_apply hfit
        (legible_of_decodeAnswer (legible_of_readJson hread) hresult)

theorem ComesTo.readable {env : Environment} {settings : Settings}
    {source : String × Utf8.Bytes} {fit : Option FoldingRangeList} {records : List Log.Record}
    (h : ComesTo env settings source fit records) :
    Json.Readable (FoldingRequest.encodeResult fit) :=
  FoldingRequest.readable_encodeResult h.legible

/-- The text of a result in a format. -/
def resultText (format : OutputFormat) (result : Option FoldingRangeList) : String :=
  match format with
  | .json => Json.pretty .marked (FoldingRequest.encodeResult result)
  | .plain => renderRanges result

/-- A result is rendered as its text, if its numbers can be shown. -/
theorem render_ofRanges (format : OutputFormat) (result : Option FoldingRangeList) :
    (Output.ofRanges result).render .marked format =
      if (FoldingRequest.encodeResult result).isShowable then some (resultText format result)
      else none := by
  cases format <;> cases result <;> rfl

section

variable {env : Environment} {args : List String} {settings : Settings}
  {source : String × Utf8.Bytes} {fit : Option FoldingRangeList} {records : List Log.Record}
  {level : Nat}

theorem ComesTo.render (h : ComesTo env settings source fit records) (format : OutputFormat) :
    (Output.ofRanges fit).render .marked format = some (resultText format fit) := by
  rw [render_ofRanges, if_pos h.readable.isShowable]

/-- A run prints the text of the result that it comes to, or it has characters for half a
pair, and nothing is printed. -/
theorem run_of_comesTo (json : Bool) (hargs : Asks env args settings source)
    (hlevel : configThreshold env = .ok level) (h : ComesTo env settings source fit records) :
    run env (formatSwitches json ++ "ranges" :: args) =
      Effect.result (String.join ((Log.atLeast level records).map (recordLine env.timestamp)))
        ⟨resultText (formatOf json) fit ++ "\n", records, env.files, .marked⟩ := by
  have hrun : runProgram env (formatSwitches json ++ "ranges" :: args) = .ok (level,
      ⟨resultText (formatOf json) fit ++ "\n", records, env.files, .marked⟩) := by
    rw [runProgram_ranges, hlevel, runCommand_of_asks json hargs, runRanges_of_comesTo json h,
      h.render]
    rfl
  exact run_of_ok hrun

/-- JSON has escapes for halves, so it is always printed. -/
theorem run_json_of_comesTo (hargs : Asks env args settings source)
    (hlevel : configThreshold env = .ok level) (h : ComesTo env settings source fit records) :
    (run env ("--json" :: "ranges" :: args)).exitCode = 0 ∧
      (run env ("--json" :: "ranges" :: args)).output =
        Json.pretty .marked (FoldingRequest.encodeResult fit) ++ "\n" := by
  have hrun := run_of_comesTo true hargs hlevel h
  rw [Effect.result_of_printed _ (printedIn_pretty h.readable)] at hrun
  rw [show formatSwitches true ++ "ranges" :: args = "--json" :: "ranges" :: args from rfl] at hrun
  rw [hrun]
  exact ⟨rfl, rfl⟩

end

/-- A run with a response at its input and without a configuration file. -/
def onInput (response : String) : Environment where
  directory := []
  configPath := ⟨.single, ["config.toml".toList]⟩
  files := ⟨[], []⟩
  input := Utf8.encode response.toList
  timestamp := ""

theorem config_onInput (response : String) :
    (onInput response).config = .ok Config.defaults := rfl

theorem configThreshold_onInput (response : String) :
    configThreshold (onInput response) = .ok 30 := rfl

theorem asks_onInput (response : String) :
    Asks (onInput response) ["-"] .standard ("<stdin>", Utf8.encode response.toList) :=
  .intro rfl rfl rfl rfl rfl

/-- A printed result as the response. -/
theorem comesTo_onInput {result fit : Option FoldingRangeList} {settings : Settings}
    {capabilities : FoldingClientCapabilities} {records : List Log.Record}
    (hlegible : ∀ l, result = some l → l.Legible)
    (hcapabilities : clientCapabilities Config.defaults settings = .ok capabilities)
    (hfit : capabilities.apply (offsetPolicy Config.defaults settings) settings.truncate result =
      .ok (fit, records)) :
    let response := Json.pretty .marked (FoldingRequest.encodeResult result) ++ "\n"
    ComesTo (onInput response) settings ("<stdin>", Utf8.encode response.toList) fit records := by
  have hread := readJson_pretty (FoldingRequest.readable_encodeResult hlegible) "<stdin>"
  refine .intro (config_onInput _) hread (decodeAnswer_encodeResult result) hcapabilities ?_
  have htruncate : (foldingSetting Config.defaults "truncate").isTruthy = false := rfl
  rw [htruncate, Bool.or_false]
  exact hfit

end CommandLine

end FoldingProtocol
