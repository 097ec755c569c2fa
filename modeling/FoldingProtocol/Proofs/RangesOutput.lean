import FoldingProtocol.Proofs.TornTexts

/-!
# What the ranges command prints

Four settings of the command meet four of the configuration, under three rules: a
value that is given takes the place of the configured one, also where it is false or
zero; cutting down is asked for by either; and refusing offsets can be asked for but
not taken back. What they make of a result is told here as a whole, for every
accepted configuration and all arguments.

The text that is printed is the rendered result without its control sequences. Only
the kind of a range can bring such a sequence into a text, and JSON escapes it. So it is
with half a pair, for which the printer has no characters.
-/

namespace FoldingProtocol

/-! ## Texts without an escape character -/

/-- A range whose kind, if it has one, holds no escape character. -/
def FoldingRange.PlainKind (r : FoldingRange) : Prop :=
  ∀ kind, r.kind = some kind → '\x1b' ∉ kind.name.toList

theorem esc_not_mem_renderRanges {result : Option FoldingRangeList}
    (h : ∀ l, result = some l → ∀ r ∈ l.ranges, r.PlainKind) :
    '\x1b' ∉ (renderRanges result).toList := by
  cases result with
  | none => decide
  | some l =>
      have hforeign : IsForeignToLines '\x1b' := ⟨rfl, by decide⟩
      rw [toList_renderRanges]
      exact not_mem_intercalate (by decide)
        (FoldingRangeList.not_mem_lines hforeign (by decide) (h l rfl))

/-! ## The settings of a run -/

namespace CommandLine

theorem esc_not_mem_resultText {result : Option FoldingRangeList} (json : Bool)
    (hlegible : ∀ l, result = some l → l.Legible)
    (hplain : json = true ∨ ∀ l, result = some l → ∀ r ∈ l.ranges, r.PlainKind) :
    '\x1b' ∉ (resultText (formatOf json) result ++ "\n").toList := by
  cases json with
  | true =>
      exact Json.not_mem_of_printed
        (Json.printed_line (FoldingRequest.readable_encodeResult hlegible)) (by decide)
  | false =>
      rw [String.toList_append, List.mem_append, not_or]
      exact ⟨esc_not_mem_renderRanges (hplain.resolve_left Bool.false_ne_true), by decide⟩

theorem config_eq_ok {env : Environment} {config : Members} (h : env.config = .ok config) :
    ∃ contents, Config.load env.configPath contents = .ok config := by
  unfold Environment.config at h
  dsimp only at h
  split at h
  · next contents _ =>
      dsimp only [bind, Except.bind] at h
      split at h
      · next hload => cases h; exact ⟨_, hload⟩
      all_goals cases h
  · cases h
  · dsimp only [bind, Except.bind] at h
    split at h
    · next hload => cases h; exact ⟨_, hload⟩
    all_goals cases h

theorem configThreshold_of_level {env : Environment} {config logging : Members} {level : Value}
    {n : Nat} (hconfig : env.config = .ok config)
    (hlogging : config.get? "logging" = some (.obj logging))
    (hlevel : Members.get? "level" logging = some level) (hn : Log.threshold? level = some n) :
    configThreshold env = .ok n := by
  simp only [configThreshold, threshold, Sorted.value?, List.reverse_nil, List.find?_nil,
    Option.map_none, hconfig, hlogging, hlevel, Value.ofOption, hn, bind, Except.bind]

/-- What an accepted configuration sets: a level, and a limit if any. -/
theorem settings_of_config {env : Environment} {config : Members} (h : env.config = .ok config) :
    (∃ level, configThreshold env = .ok level) ∧
      ∃ limit, foldingSetting config "maximum_number_of_ranges" = .ofNat? limit := by
  obtain ⟨contents, hload⟩ := config_eq_ok h
  obtain ⟨⟨folding, limit, hfolding, hlimit⟩, logging, level, n, hlogging, hlevel, hn⟩ :=
    Config.sections_of_load hload
  refine ⟨⟨n, ?_⟩, limit, ?_⟩
  · exact configThreshold_of_level h hlogging hlevel hn
  · rw [foldingSetting, hfolding]
    exact hlimit

theorem offsetPolicy_eq_reject {config : Members} {settings : Settings} :
    offsetPolicy config settings = .reject ↔ settings.rejectOffsets = true ∨
      foldingSetting config "on_character_offsets" = .str "reject" := by
  unfold offsetPolicy
  split
  · next h => exact ⟨fun _ => .inl h, fun _ => rfl⟩
  · next hswitch =>
      rw [Bool.not_eq_true] at hswitch
      rw [hswitch]
      split
      · next name hname =>
          rw [hname, OffsetPolicy.ofName]
          split
          · next heq => exact ⟨fun _ => .inr (by rw [heq]), fun _ => rfl⟩
          · next hne =>
              refine ⟨nofun, ?_⟩
              rintro (h | h)
              · cases h
              · exact absurd (Value.str.inj h) hne
      · next hother =>
          refine ⟨nofun, ?_⟩
          rintro (h | h)
          · cases h
          · exact absurd h (hother _)

/-- A client that says whether it folds only whole lines. -/
def statedClient (maximum : Option Nat) (wholeLines : Bool) : FoldingClientCapabilities :=
  ⟨none, maximum, some wholeLines⟩

theorem clientCapabilities_eq {config : Members} {wholeLines : Bool} {limit : Option Nat}
    (settings : Settings)
    (hlines : foldingSetting config "complete_line_folding_only" = .bool wholeLines)
    (hlimit : foldingSetting config "maximum_number_of_ranges" = .ofNat? limit) :
    clientCapabilities config settings =
      .ok (statedClient (settings.maximum.or limit) (settings.completeLines.getD wholeLines)) := by
  unfold clientCapabilities
  rw [hlines, hlimit]
  cases settings.completeLines <;> cases settings.maximum <;> cases limit <;> rfl

/-- Ranges as a client sees them: without offsets if it folds only whole lines, and
the first ones if they are cut down to a maximum. -/
def shownRanges (wholeLines truncate : Bool) (maximum : Option Nat) (ranges : List FoldingRange) :
    List FoldingRange :=
  let lines := if wholeLines then ranges.map (·.withoutOffsets) else ranges
  match maximum with
  | some n => if truncate then lines.take n else lines
  | none => lines

section

variable {maximum : Option Nat} {wholeLines truncate : Bool} {policy : OffsetPolicy}

theorem wholeLinesOnly_statedClient :
    (statedClient maximum wholeLines).wholeLinesOnly = wholeLines := by
  cases wholeLines <;> rfl

theorem refuses_statedClient {ranges : List FoldingRange} :
    (statedClient maximum wholeLines).refuses policy ranges = true ↔
      wholeLines = true ∧ policy = .reject ∧ ∃ r ∈ ranges, r.hasOffsets = true := by
  rw [FoldingClientCapabilities.refuses_iff, wholeLinesOnly_statedClient]

theorem fitted_statedClient (ranges : List FoldingRange) :
    (statedClient maximum wholeLines).fitted truncate ranges =
      shownRanges wholeLines truncate maximum ranges := by
  rw [FoldingClientCapabilities.fitted, FoldingClientCapabilities.keptLines,
    wholeLinesOnly_statedClient]
  cases maximum <;> rfl

theorem apply_statedClient {result : Option FoldingRangeList} (truncate : Bool)
    (h : ∀ l, result = some l →
      (statedClient maximum wholeLines).refuses policy l.ranges = false) :
    ∃ records, (statedClient maximum wholeLines).apply policy truncate result =
      .ok (result.map fun l => ⟨shownRanges wholeLines truncate maximum l.ranges⟩, records) := by
  simp only [← fitted_statedClient]
  exact FoldingClientCapabilities.apply_of_none_refused h

theorem mem_shownRanges {ranges : List FoldingRange} {r : FoldingRange}
    (h : r ∈ shownRanges wholeLines truncate maximum ranges) : ∃ s ∈ ranges, r.kind = s.kind := by
  rw [← fitted_statedClient] at h
  obtain ⟨s, hs, rfl | rfl⟩ := FoldingClientCapabilities.mem_fitted h
  · exact ⟨r, hs, rfl⟩
  · exact ⟨s, hs, rfl⟩

theorem legible_shown {result : Option FoldingRangeList}
    (h : ∀ l, result = some l → l.Legible) :
    ∀ l, (result.map fun l => (⟨shownRanges wholeLines truncate maximum l.ranges⟩ :
      FoldingRangeList)) = some l → l.Legible := by
  intro l hl r hr
  obtain ⟨given, hgiven, rfl⟩ := Option.map_eq_some_iff.mp hl
  have hr : r ∈ (statedClient maximum wholeLines).fitted truncate given.ranges := by
    rwa [fitted_statedClient]
  obtain ⟨s, hs, rfl | rfl⟩ := FoldingClientCapabilities.mem_fitted hr
  · exact h given hgiven r hs
  · exact (h given hgiven s hs).withoutOffsets

theorem tornResult_of_shown {result : Option FoldingRangeList}
    (h : TornResult (result.map fun l => ⟨shownRanges wholeLines truncate maximum l.ranges⟩)) :
    TornResult result := by
  obtain ⟨l, hl, r, hr, kind, hkind, htorn⟩ := h
  obtain ⟨given, hgiven, rfl⟩ := Option.map_eq_some_iff.mp hl
  obtain ⟨s, hs, hsame⟩ := mem_shownRanges hr
  exact ⟨given, hgiven, s, hs, kind, hsame.symm.trans hkind, htorn⟩

theorem plainKind_shown {result : Option FoldingRangeList}
    (h : ∀ l, result = some l → ∀ r ∈ l.ranges, r.PlainKind) :
    ∀ l, (result.map fun l => (⟨shownRanges wholeLines truncate maximum l.ranges⟩ :
      FoldingRangeList)) = some l → ∀ r ∈ l.ranges, r.PlainKind := by
  intro l hl r hr kind hkind
  obtain ⟨given, hgiven, rfl⟩ := Option.map_eq_some_iff.mp hl
  obtain ⟨s, hs, hsame⟩ := mem_shownRanges hr
  exact h given hgiven s hs kind (hsame.symm.trans hkind)

end

/-! ## The output -/

section

variable {env : Environment} {args : List String} {settings : Settings}
  {source : String × Utf8.Bytes}

theorem runProgram_of_stop {level : Nat} {stop : Stop} (json : Bool)
    (hargs : Asks env args settings source) (hlevel : configThreshold env = .ok level)
    (h : runRanges env json settings source = .error stop) :
    runProgram env (formatSwitches json ++ "ranges" :: args) = .error stop := by
  rw [runProgram_ranges, hlevel, runCommand_of_asks json hargs, h]
  rfl

theorem runRanges_of_refused {config : Members} {v : Value} {result : Option FoldingRangeList}
    {capabilities : FoldingClientCapabilities} {refused : MalformedRange} (json : Bool)
    (hconfig : env.config = .ok config) (hread : readJson source.1 source.2 = .ok v)
    (hresult : decodeAnswer v = .ok result)
    (hcapabilities : clientCapabilities config settings = .ok capabilities)
    (hfit : capabilities.apply (offsetPolicy config settings)
      (settings.truncate || (foldingSetting config "truncate").isTruthy) result = .error refused) :
    runRanges env json settings source = .error (.failure refused.message) := by
  simp only [runRanges, hconfig, hread, hresult, hcapabilities, hfit, Except.mapError, bind,
    Except.bind]

theorem printed_error (message : String) :
    printed ("Error: " ++ message) = "Error: " ++ printed message := by
  rw [printed, String.toList_append, Text.withoutControls_append (by decide), String.ofList_append,
    String.ofList_toList, printed]

/-- A printed text from which no control sequence is taken is the text in characters. -/
theorem plainly?_of_printedIn {text output : String} (hesc : '\x1b' ∉ text.toList)
    (h : printedIn .marked text = some output) :
    Text.Storage.marked.plainly? text.toList = some output.toList := by
  rw [printedIn, Text.withoutControls_of_not_mem hesc] at h
  obtain ⟨cs, hcs, rfl⟩ := Option.map_eq_some_iff.mp h
  rw [hcs, String.toList_ofList]

end

/-- Two ranges, of which only the second has an offset. -/
def lateOffset : FoldingRangeList :=
  ⟨[⟨⟨0, none, 1, none, some ⟨"comment"⟩⟩, by decide⟩, ⟨⟨2, some 3, 4, none, none⟩, by decide⟩]⟩

/-- Arguments that ask for the first range, and may ask to refuse offsets. -/
def firstRange (reject : Bool) : List String :=
  ["-", "--complete-lines=yes", "--truncate", "--max", "1"] ++
    if reject then ["--reject-offsets"] else []

/-- What they ask for. -/
def firstRangeSettings (reject : Bool) : Settings where
  id := 1
  completeLines := some true
  maximum := some 1
  truncate := true
  rejectOffsets := reject
  init := false

theorem asks_firstRange (reject : Bool) (response : String) :
    Asks (onInput response) (firstRange reject) (firstRangeSettings reject)
      ("<stdin>", Utf8.encode response.toList) := by
  cases reject <;> exact .intro rfl rfl rfl rfl rfl

theorem legible_lateOffset : lateOffset.Legible := by
  intro r hr
  simp only [lateOffset, List.mem_cons, List.not_mem_nil, or_false] at hr
  rcases hr with rfl | rfl
  · refine Span.legible_of_lt (by decide) (by decide) (by decide) (by decide) ?_
    rintro kind ⟨⟩
    exact Text.Storage.holds_of_not_mem _ (by decide)
  · exact Span.legible_of_lt (by decide) (by decide) (by decide) (by decide) (by rintro kind ⟨⟩)

theorem not_torn_lateOffset : ¬ TornResult (some lateOffset) := by
  rintro ⟨l, ⟨⟩, r, hr, kind, hkind, htorn⟩
  simp only [lateOffset, List.mem_cons, List.not_mem_nil, or_false] at hr
  rcases hr with rfl | rfl
  · cases hkind
    exact (Text.tornIff_of_not_mem (by decide)).torn.mp htorn
  · cases hkind

/-- A run of the command on a response that decodes to a result. It fails if only whole
lines are folded, offsets are refused, and some range has one, even one that would be
cut off. It fails as well, and prints nothing, if half a pair is in the kind of a range
that is left and would be printed plainly. Else it succeeds and prints the ranges that
are left, without control sequences, of which there are none in JSON nor where no kind
holds an escape character. -/
theorem ranges_prints_shownRanges (json : Bool) {env : Environment} {args : List String}
    {settings : Settings} {source : String × Utf8.Bytes} (hargs : Asks env args settings source)
    {config : Members} (hconfig : env.config = .ok config) {configured : Bool}
    (hlines : foldingSetting config "complete_line_folding_only" = .bool configured) {v : Value}
    (hread : readJson source.1 source.2 = .ok v) {result : Option FoldingRangeList}
    (hresult : decodeAnswer v = .ok result) :
    ∃ limit, foldingSetting config "maximum_number_of_ranges" = .ofNat? limit ∧
      let wholeLines := settings.completeLines.getD configured
      let maximum := settings.maximum.or limit
      let truncate := settings.truncate || (foldingSetting config "truncate").isTruthy
      let rejects := settings.rejectOffsets = true ∨
        foldingSetting config "on_character_offsets" = .str "reject"
      let refused := ∃ l, result = some l ∧ wholeLines = true ∧ rejects ∧
        ∃ r ∈ l.ranges, r.hasOffsets = true
      let shown := result.map fun l => ⟨shownRanges wholeLines truncate maximum l.ranges⟩
      let torn := json = false ∧ TornResult shown
      let out := run env (formatSwitches json ++ "ranges" :: args)
      ∃ text, (Output.ofRanges shown).render .marked (formatOf json) = some text ∧
        (out.exitCode = 1 ↔ refused ∨ torn) ∧
        (¬ refused → torn → out.output = "" ∧ out.escaped = some .tornText) ∧
        (¬ refused → ¬ torn → out.exitCode = 0 ∧
          printedIn .marked (text ++ "\n") = some out.output ∧
          ((json = true ∨ ∀ l, result = some l → ∀ r ∈ l.ranges, r.PlainKind) →
            Text.Storage.marked.plainly? (text ++ "\n").toList = some out.output.toList)) := by
  obtain ⟨⟨level, hlevel⟩, limit, hlimit⟩ := settings_of_config hconfig
  refine ⟨limit, hlimit, ?_⟩
  intro wholeLines maximum truncate rejects refused shown torn out
  have hcapabilities : clientCapabilities config settings =
      .ok (statedClient maximum wholeLines) := clientCapabilities_eq settings hlines hlimit
  have hrefused : refused ↔ ∃ l, result = some l ∧
      (statedClient maximum wholeLines).refuses (offsetPolicy config settings) l.ranges = true := by
    simp only [refuses_statedClient, offsetPolicy_eq_reject]
    rfl
  have hlegible : ∀ l, shown = some l → l.Legible :=
    legible_shown (legible_of_decodeAnswer (legible_of_readJson hread) hresult)
  have hrender : (Output.ofRanges shown).render .marked (formatOf json) = _ :=
    (render_ofRanges _ _).trans (if_pos (FoldingRequest.readable_encodeResult hlegible).isShowable)
  refine ⟨resultText (formatOf json) shown, hrender, ?_⟩
  by_cases h : refused
  · obtain ⟨l, rfl, hrefuses⟩ := hrefused.mp h
    obtain ⟨count, first, happly⟩ := FoldingClientCapabilities.apply_of_refuses hrefuses
    have hstop := runProgram_of_stop json hargs hlevel
      (runRanges_of_refused json hconfig hread hresult hcapabilities happly)
    have hone : out.exitCode = 1 := congrArg Result.exitCode (run_of_failure hstop)
    exact ⟨iff_of_true hone (.inl h), fun hnot => absurd h hnot, fun hnot => absurd h hnot⟩
  · obtain ⟨records, hfit⟩ := apply_statedClient truncate fun l hl =>
      Bool.eq_false_iff.mpr fun hrefuses => h (hrefused.mpr ⟨l, hl, hrefuses⟩)
    have hcomes : ComesTo env settings source shown records :=
      .intro hconfig hread hresult hcapabilities hfit
    obtain ⟨htears, hprints⟩ := run_prints_or_tears json hargs hlevel hcomes
    refine ⟨?_, fun _ htorn => (htears htorn).2, fun _ htorn => ?_⟩
    · by_cases htorn : torn
      · exact iff_of_true (htears htorn).1 (.inr htorn)
      · refine iff_of_false (fun hone => ?_) (not_or.mpr ⟨h, htorn⟩)
        exact Nat.zero_ne_one ((hprints htorn).1.symm.trans hone)
    · obtain ⟨hcode, hprinted⟩ := hprints htorn
      exact ⟨hcode, hprinted, fun hplain => plainly?_of_printedIn
        (esc_not_mem_resultText json hcomes.legible (hplain.imp_right plainKind_shown)) hprinted⟩

/-- The offset that refuses the result is in a range that would be cut off. -/
theorem firstRange_prints_or_refuses :
    let response := Json.pretty .marked (FoldingRequest.encodeResult (some lateOffset)) ++ "\n"
    (run (onInput response) ("ranges" :: firstRange true)).exitCode = 1 ∧
      (run (onInput response) ("ranges" :: firstRange false)).exitCode = 0 ∧
      (run (onInput response) ("ranges" :: firstRange false)).output = "0-1 comment\n" := by
  intro response
  have hread : readJson "<stdin>" (Utf8.encode response.toList) = _ :=
    readJson_pretty (FoldingRequest.readable_encodeResult
      fun l hl => Option.some.inj hl ▸ legible_lateOffset) "<stdin>"
  have hresult := decodeAnswer_encodeResult (some lateOffset)
  clear_value response
  have htext : printedIn .marked
      (renderRanges (some ⟨shownRanges true true (some 1) lateOffset.ranges⟩) ++ "\n") =
        some "0-1 comment\n" := printedIn_of_not_mem .marked (by decide) (by decide)
  have hstrips : offsetPolicy Config.defaults (firstRangeSettings false) ≠ .reject := by decide
  obtain ⟨_, _, _, _, hrefused, _⟩ := ranges_prints_shownRanges false
    (asks_firstRange true response) (config_onInput response) rfl hread hresult
  obtain ⟨_, _, text, hrender, _, _, hprints⟩ := ranges_prints_shownRanges false
    (asks_firstRange false response) (config_onInput response) rfl hread hresult
  obtain rfl : _ = text := Option.some.inj hrender
  obtain ⟨hcode, houtput, -⟩ := hprints (by
    rintro ⟨_, _, _, hrejects, _⟩
    exact hstrips (offsetPolicy_eq_reject.mpr hrejects)) fun htorn =>
      not_torn_lateOffset (tornResult_of_shown htorn.2)
  refine ⟨hrefused.mpr (.inl ?_), hcode, (Option.some.inj (htext.symm.trans houtput)).symm⟩
  exact ⟨lateOffset, rfl, rfl, .inl rfl, _, List.mem_cons_of_mem _ List.mem_cons_self, rfl⟩

/-- One range, with an order to the terminal in its kind. -/
def boldRange : FoldingRangeList := ⟨[⟨⟨0, none, 1, none, some ⟨"\x1b[1mx"⟩⟩, by decide⟩]⟩

/-- A response with that range. -/
def boldResponse : String :=
  "\x7b\n  \"ranges\": [\n    \x7b\n      \"startLine\": 0,\n      \"endLine\": 1,\n" ++
  "      \"type\": \"\\u001b[1mx\"\n    \x7d\n  ]\n\x7d\n"

theorem boldResponse_eq :
    Json.pretty .marked (FoldingRequest.encodeResult (some boldRange)) ++ "\n" = boldResponse := by
  decide

theorem legible_boldRange : boldRange.Legible := by
  intro r hr
  obtain rfl := List.mem_singleton.mp hr
  refine Span.legible_of_lt (by decide) (by decide) (by decide) (by decide) ?_
  rintro kind ⟨⟩
  exact Text.Storage.holds_of_not_mem _ (by decide)

/-- One range, with half a pair for its kind. -/
def tornRange : FoldingRangeList := ⟨[⟨⟨0, none, 1, none, some ⟨"\uFFFF\uE000"⟩⟩, by decide⟩]⟩

/-- A response with that range. -/
def tornResponse : String :=
  "\x7b\n  \"ranges\": [\n    \x7b\n      \"startLine\": 0,\n      \"endLine\": 1,\n" ++
  "      \"type\": \"\\ud800\"\n    \x7d\n  ]\n\x7d\n"

theorem tornResponse_eq :
    Json.pretty .marked (FoldingRequest.encodeResult (some tornRange)) ++ "\n" = tornResponse := by
  decide

theorem legible_tornRange : tornRange.Legible := by
  intro r hr
  obtain rfl := List.mem_singleton.mp hr
  refine Span.legible_of_lt (by decide) (by decide) (by decide) (by decide) ?_
  rintro kind ⟨⟩
  exact ⟨[.half 0], by decide, by decide⟩

theorem tornResult_tornRange : TornResult (some tornRange) :=
  ⟨tornRange, rfl, _, List.mem_cons_self, _, rfl, 0, by decide⟩

/-- The response at the input decodes to a result, under the default configuration and
without options. -/
structure Decodes (env : Environment) (result : Option FoldingRangeList) : Prop where
  asks : Asks env ["-"] .standard ("<stdin>", env.input)
  config : env.config = .ok Config.defaults
  lines : foldingSetting Config.defaults "complete_line_folding_only" = .bool false
  response : ∃ v, readJson "<stdin>" env.input = .ok v ∧ decodeAnswer v = .ok result

theorem decodes_of_read {response : String} {v : Value} {result : Option FoldingRangeList}
    (hread : readJson "<stdin>" (Utf8.encode response.toList) = .ok v)
    (hresult : decodeAnswer v = .ok result) : Decodes (onInput response) result where
  asks := asks_onInput response
  config := config_onInput response
  lines := rfl
  response := ⟨v, hread, hresult⟩

theorem decodes_pretty {l : FoldingRangeList} (h : l.Legible) :
    Decodes (onInput (Json.pretty .marked (FoldingRequest.encodeResult (some l)) ++ "\n"))
      (some l) :=
  decodes_of_read (readJson_pretty (FoldingRequest.readable_encodeResult
    fun _ hl => Option.some.inj hl ▸ h) "<stdin>") (decodeAnswer_encodeResult _)

theorem run_pretty {l : FoldingRangeList} {records : List Log.Record} (h : l.Legible)
    (hfit : (statedClient (some 5000) false).apply (offsetPolicy Config.defaults .standard)
      Settings.standard.truncate (some l) = .ok (some l, records)) :
    let env := onInput (Json.pretty .marked (FoldingRequest.encodeResult (some l)) ++ "\n")
    run env ["ranges", "-"] =
      Effect.result (String.join ((Log.atLeast 30 records).map (recordLine env.timestamp)))
        ⟨renderRanges (some l) ++ "\n", records, env.files, .marked⟩ := by
  intro env
  have hcomes := comesTo_onInput (fun k hk => Option.some.inj hk ▸ h) rfl hfit
  exact run_of_comesTo false (asks_onInput _) (configThreshold_onInput _) hcomes

theorem printed_boldRange :
    printedIn .marked (renderRanges (some boldRange) ++ "\n") = some "0-1 x (custom)\n" := by
  have htext : (renderRanges (some boldRange) ++ "\n").toList =
      "0-1 ".toList ++ '\x1b' :: '[' :: "1mx (custom)\n".toList := by decide
  have hafter : Text.afterControl? "1mx (custom)\n".toList = some "x (custom)\n".toList := by decide
  rw [printedIn, htext, Text.withoutControls_append (by decide),
    Text.withoutControls_of_after hafter, Text.withoutControls_of_not_mem (by decide)]
  decide

theorem run_boldRange :
    let env := onInput boldResponse
    Decodes env (some boldRange) ∧
      run env ["ranges", "-"] = ⟨0, "0-1 x (custom)\n", "", none, env.files⟩ := by
  have hdecodes := decodes_pretty legible_boldRange
  have hrun := run_pretty legible_boldRange (by rfl)
  rw [boldResponse_eq] at hdecodes
  simp only [boldResponse_eq] at hrun
  exact ⟨hdecodes, hrun.trans (Effect.result_of_printed _ printed_boldRange)⟩

theorem run_tornRange :
    let env := onInput tornResponse
    Decodes env (some tornRange) ∧
      run env ["ranges", "-"] = ⟨1, "", "", some .tornText, env.files⟩ := by
  have hdecodes := decodes_pretty legible_tornRange
  have hrun := run_pretty legible_tornRange (by rfl)
  have htorn := (printedIn_resultText_eq_none false fun l hl =>
    Option.some.inj hl ▸ legible_tornRange).mpr ⟨rfl, tornResult_tornRange⟩
  rw [tornResponse_eq] at hdecodes
  simp only [tornResponse_eq] at hrun
  exact ⟨hdecodes, hrun.trans (Effect.result_of_torn _ htorn)⟩

/-- Not every rendered text is printed: an order to the terminal is part of the one, and is left
out; half a pair is part of the other, and nothing is printed though nothing is refused. -/
theorem rendered_kinds_are_not_always_printed :
    (Decodes (onInput boldResponse) (some boldRange) ∧
      (run (onInput boldResponse) ["ranges", "-"]).exitCode = 0 ∧
      (run (onInput boldResponse) ["ranges", "-"]).output = "0-1 x (custom)\n" ∧
      (Output.ofRanges (some boldRange)).render .marked .plain =
        some "0-1 \x1b[1mx (custom)") ∧
    Decodes (onInput tornResponse) (some tornRange) ∧
      (∀ r ∈ tornRange.ranges, r.hasOffsets = false) ∧
      (run (onInput tornResponse) ["ranges", "-"]).exitCode = 1 := by
  obtain ⟨hbold, hboldRun⟩ := run_boldRange
  obtain ⟨htorn, htornRun⟩ := run_tornRange
  exact ⟨⟨hbold, congrArg Result.exitCode hboldRun, congrArg Result.output hboldRun, by decide⟩,
    htorn, by decide, congrArg Result.exitCode htornRun⟩

end CommandLine

end FoldingProtocol
