import FoldingProtocol.Proofs.UnlimitedReading
import FoldingProtocol.Proofs.UsableConfig

/-!
# How runs of the ranges command end

A run of the command shows a result or tells of one failure. Little else can happen once
the options are valid and the configuration can be used: every stage that is left stops with
a failure if it stops. The command is not prepared for two things. A response may hold a
number of too many digits, and a kind may hold half a pair, which is not printed plainly.
Which way a run ends depends on the response, the offsets in it and the policy.

A response may be a result or an answer that carries one. Both lead to the same decoding of
the result, whatever else it holds, and no stage after that looks at the response again. So
the two end alike, unless one of them is not read for a number in it.
-/

namespace FoldingProtocol.CommandLine

/-! ## Calls -/

/-- What the options of a call ask for: a format, a level for records, and settings. -/
structure Options where
  json : Bool
  level? : Option String
  settings : Settings

/-- The arguments of the program call the ranges command with options and a response. -/
inductive CallsRanges (env : Environment) (args : List String) (options : Options)
    (source : String × Utf8.Bytes) : Prop where
  | intro {sorted : Sorted} {rest : List String} (hsort : sortProgram args = .ok sorted)
      (hcommand : findCommand sorted.rest = .ok (.ranges, rest))
      (hjson : sorted.has .json = options.json)
      (hlevel : sorted.value? .logLevel = options.level?)
      (hasks : Asks env rest options.settings source) : CallsRanges env args options source

theorem threshold_congr {env again : Environment} {sorted other : Sorted}
    (hconfig : again.config = env.config)
    (hlevel : other.value? .logLevel = sorted.value? .logLevel) :
    threshold again other = threshold env sorted := by
  simp only [threshold, hconfig, hlevel]

theorem CallsRanges.runProgram_eq {env : Environment} {args : List String} {options : Options}
    {source : String × Utf8.Bytes} (h : CallsRanges env args options source) :
    ∃ sorted : Sorted, sorted.value? .logLevel = options.level? ∧
      runProgram env args = (threshold env sorted).bind fun level =>
        (runRanges env options.json options.settings source).bind fun effect =>
          .ok (level, effect) := by
  cases h with
  | @intro sorted rest hsort hcommand hjson hlevel hasks =>
      refine ⟨sorted, hlevel, ?_⟩
      rw [runProgram_of_command hsort hcommand, runCommand_of_asks _ hasks, hjson]

/-! ## A result and an answer that carries it -/

/-- A message, for which the version of the protocol is said. -/
def IsMessage (v : Value) : Prop := ∃ ms, v = .obj ms ∧ Members.has "jsonrpc" ms = true

theorem decodeAnswer_of_bare {v : Value} (h : ¬ IsMessage v) :
    decodeAnswer v = (FoldingRequest.decodeResult v).mapError .refused := by
  unfold decodeAnswer
  split
  · next ms =>
      split
      · next hversion => exact absurd ⟨ms, rfl, hversion⟩ h
      · rfl
  · rfl

/-- Two runs end alike, whatever files they leave. -/
structure Result.EndsAs (out other : Result) : Prop where
  exitCode : out.exitCode = other.exitCode
  output : out.output = other.output
  errors : out.errors = other.errors
  escaped : out.escaped = other.escaped

def Effect.withFiles (files : FileTree) (effect : Effect) : Effect := { effect with files }

theorem Stop.endsAs (stop : Stop) (files other : FileTree) :
    (stop.result files).EndsAs (stop.result other) := by
  cases stop <;> exact ⟨rfl, rfl, rfl, rfl⟩

theorem Effect.endsAs (effect : Effect) (files : FileTree) (errors : String) :
    ((effect.withFiles files).result errors).EndsAs (effect.result errors) := by
  cases hprinted : printedIn effect.storage effect.output with
  | some output =>
      have hagain : (effect.withFiles files).result errors = _ := result_of_printed errors hprinted
      rw [hagain, result_of_printed errors hprinted]
      exact ⟨rfl, rfl, rfl, rfl⟩
  | none =>
      have hagain : (effect.withFiles files).result errors = _ := result_of_torn errors hprinted
      rw [hagain, result_of_torn errors hprinted]
      exact ⟨rfl, rfl, rfl, rfl⟩

section

variable {env again : Environment} {args more : List String} {options : Options}
  {source sent : String × Utf8.Bytes}

theorem runRanges_congr (json : Bool) (settings : Settings)
    (hconfig : again.config = env.config) {v w : Value}
    (hread : readJson source.1 source.2 = .ok v) (hsent : readJson sent.1 sent.2 = .ok w)
    (hanswer : decodeAnswer w = decodeAnswer v) :
    runRanges again json settings sent =
      (runRanges env json settings source).map (Effect.withFiles again.files) := by
  simp only [runRanges, hconfig, hread, hsent, hanswer, bind, Except.bind]
  -- The stages that are left do not look at the response, nor at the files they pass on.
  cases env.config with
  | error stop => rfl
  | ok config =>
      dsimp only
      cases decodeAnswer v with
      | error failure => rfl
      | ok result =>
          dsimp only [Except.mapError]
          cases clientCapabilities config settings with
          | error refusal => rfl
          | ok c =>
              dsimp only
              generalize (settings.truncate ||
                (foldingSetting config "truncate").isTruthy) = truncate
              cases c.apply (offsetPolicy config settings) truncate result with
              | error refused => rfl
              | ok fit =>
                  dsimp only
                  cases (Output.ofRanges fit.1).render .marked (if json then .json else .plain)
                  all_goals rfl

theorem run_endsAs (htime : again.timestamp = env.timestamp)
    (h : runProgram again more = (runProgram env args).map
      (Prod.map id (Effect.withFiles again.files))) :
    (run again more).EndsAs (run env args) := by
  rw [run, run, h, htime]
  cases runProgram env args with
  | ok shown => exact shown.2.endsAs _ _
  | error stop => exact stop.endsAs _ _

theorem endsAs_of_read (hcalls : CallsRanges env args options source)
    (hmore : CallsRanges again more options sent) (hconfig : again.config = env.config)
    (htime : again.timestamp = env.timestamp) {v w : Value}
    (hread : readJson source.1 source.2 = .ok v) (hsent : readJson sent.1 sent.2 = .ok w)
    (hanswer : decodeAnswer w = decodeAnswer v) : (run again more).EndsAs (run env args) := by
  obtain ⟨sorted, hlevel, hrun⟩ := hcalls.runProgram_eq
  obtain ⟨other, hother, hrunAgain⟩ := hmore.runProgram_eq
  have hthreshold := threshold_congr hconfig (hother.trans hlevel.symm)
  have hranges :=
    runRanges_congr options.json options.settings hconfig hread hsent hanswer
  refine run_endsAs htime ?_
  rw [hrun, hrunAgain, hthreshold, hranges]
  cases threshold env sorted with
  | error stop => rfl
  | ok level => cases runRanges env options.json options.settings source <;> rfl

/-- Neither the level nor the configuration stops a run. -/
def Usable (env : Environment) (options : Options) : Prop :=
  ∃ (sorted : Sorted) (level : Nat) (config : Members),
    sorted.value? .logLevel = options.level? ∧ threshold env sorted = .ok level ∧
      env.config = .ok config

/-- Where one of them does, the response is not looked at. -/
theorem endsAs_of_unusable (hcalls : CallsRanges env args options source)
    (hmore : CallsRanges again more options sent) (hconfig : again.config = env.config)
    (h : ¬ Usable env options) : (run again more).EndsAs (run env args) := by
  obtain ⟨sorted, hlevel, hrun⟩ := hcalls.runProgram_eq
  obtain ⟨other, hother, hrunAgain⟩ := hmore.runProgram_eq
  rw [threshold_congr hconfig (hother.trans hlevel.symm)] at hrunAgain
  cases hthreshold : threshold env sorted with
  | error stop =>
      rw [hthreshold] at hrun hrunAgain
      rw [run, run, hrun, hrunAgain]
      exact stop.endsAs _ _
  | ok level =>
      cases hload : env.config with
      | ok config => exact absurd ⟨sorted, level, config, hlevel, hthreshold, hload⟩ h
      | error stop =>
          have hstops {e : Environment} (he : e.config = .error stop)
              (response : String × Utf8.Bytes) :
              runRanges e options.json options.settings response = .error stop := by
            simp only [runRanges, he, bind, Except.bind]
          rw [hthreshold, hstops hload] at hrun
          rw [hthreshold, hstops (hconfig.trans hload)] at hrunAgain
          rw [run, run, hrun, hrunAgain]
          exact stop.endsAs _ _

/-- A text with a number that the reader of files does not take for its digits. -/
def TooLong (text : List Char) : Prop :=
  ∃ count, Json.read (unifyLineEnds text) = .error (.digits count)

/-- A run ends without a word, for a number of too many digits. -/
structure Escapes (out : Result) : Prop where
  exitCode : out.exitCode = 1
  output : out.output = ""
  errors : out.errors = ""
  escaped : ∃ count, out.escaped = some (.badValue (Numeral.tooManyDigits count))

theorem readText_encode (text : List Char) :
    readText (Utf8.encode text) = .ok (unifyLineEnds text) := by
  rw [readText, Utf8.decode?_encode]

theorem readJson_encode_iff {text : List Char} (name : String) {v : Value} :
    readJson name (Utf8.encode text) = .ok v ↔ Json.read (unifyLineEnds text) = .ok v := by
  cases hread : Json.read (unifyLineEnds text) with
  | ok w => simp [readJson, readText_encode, hread, bind, Except.bind]
  | error fault => cases fault <;> simp [readJson, readText_encode, hread, bind, Except.bind]

theorem escapes_of_tooLong {text : List Char} {config : Members} {level : Nat} {sorted : Sorted}
    (hrun : runProgram env args = (threshold env sorted).bind fun level =>
      (runRanges env options.json options.settings source).bind fun effect => .ok (level, effect))
    (hlevel : threshold env sorted = .ok level) (hconfig : env.config = .ok config)
    (htext : source.2 = Utf8.encode text) (h : TooLong text) : Escapes (run env args) := by
  obtain ⟨count, hcount⟩ := h
  have hstop : runRanges env options.json options.settings source =
      .error (.escape (.badValue (Numeral.tooManyDigits count))) := by
    simp only [runRanges, hconfig, readJson, htext, readText_encode, hcount, bind, Except.bind]
    rfl
  rw [hlevel, hstop] at hrun
  rw [run, hrun]
  exact ⟨rfl, rfl, rfl, count, rfl⟩

/-- What a text spells is read from it, unless the text is too long. -/
theorem read_or_tooLong {text : List Char} {v : Value}
    (h : Json.readIn ⟨none, .marked⟩ (unifyLineEnds text) = .ok v) :
    Json.read (unifyLineEnds text) = .ok v ∨ TooLong text :=
  (Json.limits_readIn (some Numeral.digitLimit) .marked (unifyLineEnds text)).imp_left (·.trans h)

theorem not_tooLong_of_read {text : List Char} {v : Value}
    (h : Json.read (unifyLineEnds text) = .ok v) : ¬ TooLong text := by
  rintro ⟨count, hcount⟩
  rw [h] at hcount
  cases hcount

/-- An answer that carries a result under an identifier. -/
def carrying (id result : Value) : Value :=
  .obj [("jsonrpc", .str "2.0"), ("id", id), ("result", result)]

theorem decodeAnswer_carrying (id : Value) {result : Value} (h : ¬ IsMessage result) :
    decodeAnswer (carrying id result) = decodeAnswer result := (decodeAnswer_of_bare h).symm

/-- A bare result and the answer that carries it under some identifier end alike: under
every configuration, usable or not, and with all options, whether the result decodes, is no
result, holds a malformed range, or is refused for its offsets. The one exception is a text
with a number of too many digits, as the identifier may be: a run on it ends without a word. -/
theorem answer_ends_as_its_result (hcalls : CallsRanges env args options source)
    (hmore : CallsRanges again more options sent) (hconfig : again.config = env.config)
    (htime : again.timestamp = env.timestamp) {result id : Value} (hbare : ¬ IsMessage result)
    {text answer : List Char} (htext : source.2 = Utf8.encode text)
    (hanswer : sent.2 = Utf8.encode answer)
    (hread : Json.readIn ⟨none, .marked⟩ (unifyLineEnds text) = .ok result)
    (hsent : Json.readIn ⟨none, .marked⟩ (unifyLineEnds answer) = .ok (carrying id result)) :
    (run again more).EndsAs (run env args) ∨
      (TooLong text ∨ TooLong answer) ∧ (TooLong text → Escapes (run env args)) ∧
        (TooLong answer → Escapes (run again more)) := by
  by_cases hlong : TooLong text ∨ TooLong answer
  · by_cases husable : Usable env options
    · obtain ⟨given, level, config, hgiven, hlevel, hload⟩ := husable
      obtain ⟨sorted, hsorted, hrun⟩ := hcalls.runProgram_eq
      obtain ⟨other, hother, hrunAgain⟩ := hmore.runProgram_eq
      have hsame := (threshold_congr rfl (hsorted.trans hgiven.symm)).trans hlevel
      have hagain := (threshold_congr hconfig (hother.trans hgiven.symm)).trans hlevel
      exact .inr ⟨hlong, escapes_of_tooLong hrun hsame hload htext,
        escapes_of_tooLong hrunAgain hagain (hconfig.trans hload) hanswer⟩
    -- Both runs are stopped before a text is read.
    · exact .inl (endsAs_of_unusable hcalls hmore hconfig husable)
  · obtain ⟨htextShort, hanswerShort⟩ := not_or.mp hlong
    have hv := (read_or_tooLong hread).resolve_right htextShort
    have hw := (read_or_tooLong hsent).resolve_right hanswerShort
    refine .inl (endsAs_of_read hcalls hmore hconfig htime ?_ ?_ (decodeAnswer_carrying id hbare))
    · rw [htext]
      exact (readJson_encode_iff _).mpr hv
    · rw [hanswer]
      exact (readJson_encode_iff _).mpr hw

end

/-- A result of its own kind: it has an error as one of its members, and a malformed range. -/
def brokenResult : Value :=
  .obj [("error", .obj [("code", .int 7)]),
    ("ranges", .arr [.obj [("startLine", .int 3), ("endLine", .int 1)]])]

/-- Two members that read back are an object that does. -/
theorem readable_pair {d : Json.Dialect} {key other : String} {v w : Value} (hne : key ≠ other)
    (hkey : Text.mark ∉ key.toList) (hother : Text.mark ∉ other.toList)
    (hv : Json.ReadableIn d v) (hw : Json.ReadableIn d w) :
    Json.ReadableIn d (.obj [(key, v), (other, w)]) :=
  .obj (by simpa using hne) (List.forall_mem_cons.mpr ⟨d.storage.holds_of_not_mem hkey,
      List.forall_mem_singleton.mpr (d.storage.holds_of_not_mem hother)⟩)
    (List.forall_mem_cons.mpr ⟨hv, List.forall_mem_singleton.mpr hw⟩)

theorem readable_brokenResult : Json.Readable brokenResult := by
  have hint (n : Int) (hn : n.natAbs < 10 ^ 19) : Json.Readable (.int n) :=
    .int (Numeral.short_of_lt hn)
  have hranges : Json.Readable (.arr [.obj [("startLine", .int 3), ("endLine", .int 1)]]) :=
    .arr (List.forall_mem_singleton.mpr (readable_pair (by decide) (by decide) (by decide)
      (hint 3 (by decide)) (hint 1 (by decide))))
  have herror : Json.Readable (.obj [("code", .int 7)]) :=
    .obj (by decide) (List.forall_mem_singleton.mpr (Text.Storage.holds_of_not_mem _ (by decide)))
      (List.forall_mem_singleton.mpr (hint 7 (by decide)))
  exact readable_pair (by decide) (by decide) (by decide) herror hranges

theorem readable_carrying {d : Json.Dialect} {id result : Value} (hid : Json.ReadableIn d id)
    (hresult : Json.ReadableIn d result) : Json.ReadableIn d (carrying id result) := by
  have hnames : ∀ name ∈ ["jsonrpc", "id", "result"], Text.mark ∉ name.toList := by decide
  have hversion : Json.ReadableIn d (.str "2.0") :=
    .str (d.storage.holds_of_not_mem (by decide))
  refine .obj (by decide : ["jsonrpc", "id", "result"].Nodup) ?_ ?_
  · simp only [List.forall_mem_cons] at hnames ⊢
    exact ⟨d.storage.holds_of_not_mem hnames.1, d.storage.holds_of_not_mem hnames.2.1,
      d.storage.holds_of_not_mem hnames.2.2.1, nofun⟩
  · simp only [List.forall_mem_cons]
    exact ⟨hversion, hid, hresult, nofun⟩

/-- The text that a value is printed as spells the value. -/
theorem spelled_pretty {limit : Option Nat} {v : Value} (hv : Json.ReadableIn ⟨limit, .marked⟩ v) :
    Json.readIn ⟨limit, .marked⟩ (unifyLineEnds (Json.pretty .marked v ++ "\n").toList) =
      .ok v := by
  rw [unifyLineEnds_of_not_mem (Json.not_mem_of_printed (Json.printed_line hv) (by decide)),
    Json.toList_pretty]
  exact Json.readIn_print hv _ (List.forall_mem_singleton.mpr rfl)

/-- Options for JSON in which offsets are refused. -/
def strictOptions : Options := ⟨true, none, { Settings.standard with rejectOffsets := true }⟩

theorem calls_strict (response : String) :
    CallsRanges (onInput response) ["--json", "ranges", "-", "--reject-offsets"] strictOptions
      ("<stdin>", Utf8.encode response.toList) :=
  .intro rfl rfl rfl rfl (.intro rfl rfl rfl rfl rfl)

theorem brokenAnswer_ends_as_brokenResult :
    let args := ["--json", "ranges", "-", "--reject-offsets"]
    (run (onInput (Json.pretty .marked (carrying .null brokenResult) ++ "\n")) args).EndsAs
      (run (onInput (Json.pretty .marked brokenResult ++ "\n")) args) := by
  intro args
  have hread : Json.read _ = _ := spelled_pretty readable_brokenResult
  have hsent : Json.read _ = _ := spelled_pretty (readable_carrying .null readable_brokenResult)
  generalize Json.pretty .marked brokenResult ++ "\n" = first at hread ⊢
  generalize Json.pretty .marked (carrying .null brokenResult) ++ "\n" = second at hsent ⊢
  have hbare : ¬ IsMessage brokenResult := by
    rintro ⟨ms, hms, hversion⟩
    cases hms
    cases hversion
  have hspelled {text : List Char} {v : Value} (h : Json.read (unifyLineEnds text) = .ok v) :
      Json.readIn ⟨none, .marked⟩ (unifyLineEnds text) = .ok v :=
    (Json.limits_readIn _ _ _).unlimited_eq_ok h
  have hconfig : (onInput second).config = (onInput first).config :=
    (config_onInput second).trans (config_onInput first).symm
  refine (answer_ends_as_its_result (calls_strict first) (calls_strict second) hconfig rfl hbare
    rfl rfl (hspelled hread) (hspelled hsent)).resolve_right ?_
  rintro ⟨hlong | hlong, -⟩
  · exact not_tooLong_of_read hread hlong
  · exact not_tooLong_of_read hsent hlong

theorem tooLong_of_not_showable {v : Value} (hv : Json.ReadableIn ⟨none, .marked⟩ v)
    (h : v.isShowable = false) : TooLong (Json.pretty .marked v ++ "\n").toList := by
  refine (read_or_tooLong (spelled_pretty hv)).resolve_left fun hread => ?_
  rw [(Json.legible_read hread).short.isShowable] at h
  cases h

theorem calls_bare (response : String) :
    CallsRanges (onInput response) ["ranges", "-"] ⟨false, none, .standard⟩
      ("<stdin>", Utf8.encode response.toList) :=
  .intro rfl rfl rfl rfl (asks_onInput response)

theorem run_no_ranges :
    (run (onInput (Json.pretty .marked .null ++ "\n")) ["ranges", "-"]).exitCode = 0 := by
  have hlegible : ∀ l, (none : Option FoldingRangeList) = some l → l.Legible := by rintro _ ⟨⟩
  have hcapabilities : clientCapabilities Config.defaults .standard =
      .ok (statedClient (some 5000) false) := rfl
  have hcomes := comesTo_onInput hlegible hcapabilities rfl
  exact ((run_prints_or_tears false (asks_onInput _) (configThreshold_onInput _) hcomes).2 (by
    rintro ⟨-, _, ⟨⟩, -⟩)).1

theorem not_endsAs_of_not_showable {id : Value} (hid : Json.ReadableIn ⟨none, .marked⟩ id)
    (h : id.isShowable = false) :
    ¬ (run (onInput (Json.pretty .marked (carrying id .null) ++ "\n")) ["ranges", "-"]).EndsAs
      (run (onInput (Json.pretty .marked .null ++ "\n")) ["ranges", "-"]) := by
  have hlong : TooLong (Json.pretty .marked (carrying id .null) ++ "\n").toList := by
    refine tooLong_of_not_showable (readable_carrying hid .null) ?_
    show (true && (id.isShowable && _)) = false
    rw [h]
    rfl
  generalize Json.pretty .marked (carrying id .null) ++ "\n" = response at hlong ⊢
  obtain ⟨sorted, hlevel, hrun⟩ := (calls_bare response).runProgram_eq
  have hthreshold : threshold (onInput response) sorted = .ok 30 :=
    (threshold_congr rfl hlevel).trans (configThreshold_onInput response)
  have hescapes := escapes_of_tooLong hrun hthreshold (config_onInput _) rfl hlong
  intro hends
  have hcode := hends.exitCode
  rw [hescapes.exitCode, run_no_ranges] at hcode
  cases hcode

/-- No ranges are shown, but the answer that carries none under a number of too many digits is
not read. -/
theorem endless_identifier_escapes :
    let text := Json.pretty .marked .null ++ "\n"
    let answer := Json.pretty .marked (carrying .tooLong .null) ++ "\n"
    Json.readIn ⟨none, .marked⟩ (unifyLineEnds text.toList) = .ok .null ∧
      Json.readIn ⟨none, .marked⟩ (unifyLineEnds answer.toList) = .ok (carrying .tooLong .null) ∧
      ¬ (run (onInput answer) ["ranges", "-"]).EndsAs (run (onInput text) ["ranges", "-"]) := by
  have hid : Json.ReadableIn ⟨none, .marked⟩ .tooLong := .int (Numeral.within_none _)
  exact ⟨spelled_pretty .null, spelled_pretty (readable_carrying hid .null),
    not_endsAs_of_not_showable hid Value.not_isShowable_tooLong⟩

/-! ## The endings -/

/-- A value that holds a result: it is one, or it is an answer with an identifier and
without an error other than null, whose result is one. -/
inductive Holds : Value → Option FoldingRangeList → Prop where
  | bare {v : Value} {result : Option FoldingRangeList} (hbare : ¬ IsMessage v)
      (hresult : FoldingRequest.decodeResult v = .ok result) : Holds v result
  | answer {ms : Members} {result : Option FoldingRangeList}
      (hversion : Members.has "jsonrpc" ms = true) (hid : Members.has "id" ms = true)
      (herror : ∀ e, ms.get? "error" = some e → e = .null)
      (hresult : FoldingRequest.decodeResult (.ofOption (ms.get? "result")) = .ok result) :
      Holds (.obj ms) result

theorem decodeResponse_eq_ok {ms : Members} {result : Option FoldingRangeList} :
    FoldingRequest.decodeResponse (.obj ms) = .ok result ↔
      Members.has "id" ms = true ∧ (∀ e, ms.get? "error" = some e → e = .null) ∧
        FoldingRequest.decodeResult (.ofOption (ms.get? "result")) = .ok result := by
  rw [FoldingRequest.decodeResponse, ← Rpc.ofOption_eq_null]
  cases hid : Members.has "id" ms with
  | false => simp
  | true =>
      rw [Bool.not_true, if_neg Bool.false_ne_true, and_iff_right rfl]
      cases Value.ofOption (ms.get? "error") with
      | null => rw [mapError_eq_ok, and_iff_right rfl]
      | bool | int | float | str | moment | arr | obj => simp

theorem decodeAnswer_eq_ok {v : Value} {result : Option FoldingRangeList} :
    decodeAnswer v = .ok result ↔ Holds v result := by
  by_cases hmessage : IsMessage v
  · obtain ⟨ms, rfl, hversion⟩ := hmessage
    have hdecode : decodeAnswer (.obj ms) = FoldingRequest.decodeResponse (.obj ms) := by
      rw [decodeAnswer, if_pos hversion]
    rw [hdecode, decodeResponse_eq_ok]
    constructor
    · rintro ⟨hid, herror, hresult⟩
      exact .answer hversion hid herror hresult
    · intro h
      cases h with
      | bare hbare => exact absurd ⟨ms, rfl, hversion⟩ hbare
      | answer _ hid herror hresult => exact ⟨hid, herror, hresult⟩
  · rw [decodeAnswer_of_bare hmessage, mapError_eq_ok]
    constructor
    · exact .bare hmessage
    · intro h
      cases h with
      | bare _ hresult => exact hresult
      | answer hversion => exact absurd ⟨_, rfl, hversion⟩ hmessage

/-- A text is the JSON of a value that holds a result, and the client does not refuse the
result for its offsets. -/
def Gives (c : FoldingClientCapabilities) (policy : OffsetPolicy) (text : List Char)
    (result : Option FoldingRangeList) : Prop :=
  ∃ v, Json.read (unifyLineEnds text) = .ok v ∧ Holds v result ∧
    ¬ (c.wholeLinesOnly = true ∧ policy = .reject ∧
      ∃ l, result = some l ∧ ∃ r ∈ l.ranges, r.hasOffsets = true)

section

variable {env : Environment} {args : List String} {options : Options} {settings : Settings}
  {source : String × Utf8.Bytes} {config : Members} {c : FoldingClientCapabilities}
  {text : List Char}

/-- What is left of a result that is fitted to a client. -/
def leftOf (c : FoldingClientCapabilities) (config : Members) (settings : Settings)
    (result : Option FoldingRangeList) : Option FoldingRangeList :=
  result.map fun l =>
    ⟨c.fitted (settings.truncate || (foldingSetting config "truncate").isTruthy) l.ranges⟩

theorem Gives.comesTo {result : Option FoldingRangeList}
    (h : Gives c (offsetPolicy config settings) text result) (hconfig : env.config = .ok config)
    (hclient : clientCapabilities config settings = .ok c) (htext : source.2 = Utf8.encode text) :
    ∃ records, ComesTo env settings source (leftOf c config settings result) records := by
  obtain ⟨v, hread, hholds, hpasses⟩ := h
  have hvalue : readJson source.1 source.2 = .ok v := htext ▸ (readJson_encode_iff _).mpr hread
  have hnone : ∀ l, result = some l →
      c.refuses (offsetPolicy config settings) l.ranges = false := by
    intro l hl
    refine Bool.eq_false_iff.mpr fun hrefuses => hpasses ?_
    obtain ⟨hwhole, hpolicy, hoffsets⟩ := FoldingClientCapabilities.refuses_iff.mp hrefuses
    exact ⟨hwhole, hpolicy, l, hl, hoffsets⟩
  obtain ⟨records, hfit⟩ := FoldingClientCapabilities.apply_of_none_refused hnone
  exact ⟨records, .intro hconfig hvalue (decodeAnswer_eq_ok.mpr hholds) hclient hfit⟩

theorem ComesTo.gives {fit : Option FoldingRangeList} {records : List Log.Record}
    (h : ComesTo env settings source fit records) (hconfig : env.config = .ok config)
    (hclient : clientCapabilities config settings = .ok c) (htext : source.2 = Utf8.encode text) :
    ∃ result, Gives c (offsetPolicy config settings) text result ∧
      fit = leftOf c config settings result := by
  cases h with
  | @intro found v result _ used _ hfound hvalue hresult hused hfit =>
      obtain rfl : config = found := Except.ok.inj (hconfig.symm.trans hfound)
      obtain rfl : c = used := Except.ok.inj (hclient.symm.trans hused)
      rw [htext, readJson_encode_iff] at hvalue
      refine ⟨result, ⟨v, hvalue, decodeAnswer_eq_ok.mp hresult, ?_⟩,
        FoldingClientCapabilities.apply_eq_ok hfit⟩
      rintro ⟨hwhole, hpolicy, l, rfl, hoffsets⟩
      have hrefuses := FoldingClientCapabilities.refuses_iff.mpr ⟨hwhole, hpolicy, hoffsets⟩
      obtain ⟨count, first, happly⟩ := FoldingClientCapabilities.apply_of_refuses hrefuses
      rw [happly] at hfit
      cases hfit

theorem Gives.unique {policy : OffsetPolicy} {result other : Option FoldingRangeList}
    (h : Gives c policy text result) (hother : Gives c policy text other) : result = other := by
  obtain ⟨v, hread, hholds, -⟩ := h
  obtain ⟨w, hreadOther, hholdsOther, -⟩ := hother
  obtain rfl : v = w := Except.ok.inj (hread.symm.trans hreadOther)
  exact Except.ok.inj
    ((decodeAnswer_eq_ok.mpr hholds).symm.trans (decodeAnswer_eq_ok.mpr hholdsOther))

/-! ### What is told -/

/-- A stop that is told of as a failure. -/
inductive Stop.IsTold : Stop → Prop where
  | failure (message : String) : IsTold (.failure message)
  | rejection (message : String) : IsTold (.rejection message)

/-- What stops with nothing but a failure. -/
def OnlyFails {α : Type} (x : Except Stop α) : Prop := ∀ stop, x = .error stop → stop.IsTold

theorem onlyFails_ok {α : Type} (a : α) : OnlyFails (.ok a) := nofun

theorem onlyFails_error {α : Type} {stop : Stop} (h : stop.IsTold) :
    OnlyFails (.error stop : Except Stop α) := by
  rintro _ ⟨⟩
  exact h

theorem onlyFails_bind {α β : Type} {x : Except Stop α} {f : α → Except Stop β}
    (hx : OnlyFails x) (hf : ∀ a, x = .ok a → OnlyFails (f a)) : OnlyFails (x >>= f) := by
  cases x with
  | ok a => exact hf a rfl
  | error stop => exact onlyFails_error (hx stop rfl)

theorem onlyFails_mapError {ε α : Type} {x : Except ε α} {f : ε → Stop}
    (h : ∀ e, x = .error e → (f e).IsTold) : OnlyFails (x.mapError f) := by
  cases x with
  | ok a => exact onlyFails_ok a
  | error e => exact onlyFails_error (h e rfl)

theorem onlyFails_readJson (name : String) (hnumbers : ¬ TooLong text) :
    OnlyFails (readJson name (Utf8.encode text)) := by
  cases hread : Json.read (unifyLineEnds text) with
  | ok v =>
      rw [(readJson_encode_iff name).mpr hread]
      exact onlyFails_ok v
  | error fault =>
      cases fault with
      | digits count => exact absurd ⟨count, hread⟩ hnumbers
      | grammar | half =>
          simp only [readJson, readText_encode, hread, bind, Except.bind]
          exact onlyFails_error (.failure _)

/-- An error that was read can be shown. -/
theorem failureOf_ne_notShowable {e : Value} (h : e.Legible) :
    FoldingRequest.failureOf e ≠ .notShowable := by
  have hshown := h.short.isShowable
  cases h with
  | @obj ms hms =>
      have hmember (key : String) {v : Value} (hv : v.isShowable = true) :
          ((ms.get? key).getD v).isShowable = true := by
        cases hget : ms.get? key with
        | none => exact hv
        | some w => exact (hms _ (Members.mem_of_get? hget)).short.isShowable
      have hmade : ∃ error, Rpc.ResponseError.ofMembers? ms = some error :=
        ⟨_, dif_pos ⟨hmember "code" (by decide), hmember "message" rfl⟩⟩
      obtain ⟨error, herror⟩ := hmade
      rw [FoldingRequest.failureOf, herror]
      rintro ⟨⟩
  | null | bool | int | float | str | arr =>
      rw [FoldingRequest.failureOf, if_pos hshown]
      · rintro ⟨⟩
      · rintro ms ⟨⟩

theorem decodeAnswer_ne_notShowable {v : Value} (h : v.Legible) :
    decodeAnswer v ≠ .error .notShowable := by
  have hbare (w : Value) :
      (FoldingRequest.decodeResult w).mapError FoldingRequest.Failure.refused ≠
        .error .notShowable := by
    cases FoldingRequest.decodeResult w <;> rintro ⟨⟩
  unfold decodeAnswer
  split
  · next ms =>
      split
      · rw [FoldingRequest.decodeResponse]
        split
        · rintro ⟨⟩
        · split
          · exact hbare _
          · next e _ =>
              cases h with
              | obj hms =>
                  intro heq
                  exact failureOf_ne_notShowable (legible_get? hms "error") (Except.error.inj heq)
      · exact hbare _
  · exact hbare _

theorem isTold_failureStop {failure : FoldingRequest.Failure} (h : failure ≠ .notShowable) :
    (failureStop failure).IsTold := by
  cases failure with
  | notShowable => exact absurd rfl h
  | refused refusal => cases refusal <;> exact .rejection _
  | notResponse | malformedError | error => exact .rejection _

theorem onlyFails_runRanges (json : Bool) (hconfig : env.config = .ok config)
    (hclient : clientCapabilities config settings = .ok c) (htext : source.2 = Utf8.encode text)
    (hnumbers : ¬ TooLong text) : OnlyFails (runRanges env json settings source) := by
  unfold runRanges
  refine onlyFails_bind (hconfig ▸ onlyFails_ok config) fun found hfound => ?_
  obtain rfl : config = found := Except.ok.inj (hconfig.symm.trans hfound)
  refine onlyFails_bind (htext ▸ onlyFails_readJson _ hnumbers) fun v hread => ?_
  refine onlyFails_bind (onlyFails_mapError fun failure hfailure => isTold_failureStop ?_)
    fun result hresult => ?_
  · rintro rfl
    exact decodeAnswer_ne_notShowable (legible_of_readJson hread) hfailure
  refine onlyFails_bind (hclient ▸ onlyFails_ok c) fun used hused => ?_
  refine onlyFails_bind (onlyFails_mapError fun _ _ => .failure _) fun fit hfit => ?_
  obtain rfl : c = used := Except.ok.inj (hclient ▸ hused : (Except.ok c).mapError _ = .ok used)
  obtain ⟨shown, records⟩ := fit
  have hcomes : ComesTo env settings source shown records :=
    .intro hconfig hread (mapError_eq_ok.mp hresult) hclient (mapError_eq_ok.mp hfit)
  have hrender := hcomes.render (formatOf json)
  dsimp only
  rw [formatOf] at hrender
  rw [hrender]
  exact onlyFails_ok _

/-! ### From stages to runs -/

/-- A run shows the text of what it came to, and tells nothing beside it but records. Text in
JSON spells the result. -/
structure Shows (env : Environment) (options : Options) (source : String × Utf8.Bytes)
    (out : Result) : Prop where
  exitCode : out.exitCode = 0
  escaped : out.escaped = none
  shown : ∃ level fit records, ComesTo env options.settings source fit records ∧
    printedIn .marked (resultText (formatOf options.json) fit ++ "\n") = some out.output ∧
    (options.json = true → Json.read out.output.toList = .ok (FoldingRequest.encodeResult fit)) ∧
    out.errors = String.join ((Log.atLeast level records).map (recordLine env.timestamp))

/-- A run tells of a failure and prints nothing. -/
structure Tells (out : Result) : Prop where
  exitCode : out.exitCode = 1
  escaped : out.escaped = none
  output : out.output = ""
  errors : ∃ told, out.errors = "Error: " ++ told

/-- A run would show plainly what it came to, but a kind holds half a pair, and it prints
nothing. -/
structure Tears (env : Environment) (options : Options) (source : String × Utf8.Bytes)
    (out : Result) : Prop where
  exitCode : out.exitCode = 1
  escaped : out.escaped = some .tornText
  output : out.output = ""
  plain : options.json = false
  torn : ∃ level fit records, ComesTo env options.settings source fit records ∧ TornResult fit ∧
    out.errors = String.join ((Log.atLeast level records).map (recordLine env.timestamp))

theorem exists_threshold {sorted : Sorted} (hconfig : env.config = .ok config)
    (hlevel : ∀ name, sorted.value? .logLevel = some name →
      ∃ n, Log.threshold? (.str name) = some n) : ∃ n, threshold env sorted = .ok n := by
  cases hgiven : sorted.value? .logLevel with
  | none =>
      rw [threshold_congr rfl (hgiven.trans rfl : _ = Sorted.value? ⟨[], []⟩ .logLevel)]
      exact (settings_of_config hconfig).1
  | some name =>
      obtain ⟨n, hn⟩ := hlevel name hgiven
      refine ⟨n, ?_⟩
      simp only [threshold, hgiven, hn, bind, Except.bind]

theorem shows_or_tears {level : Nat} {fit : Option FoldingRangeList} {records : List Log.Record}
    (h : ComesTo env options.settings source fit records)
    (hrun : runProgram env args = .ok (level,
      ⟨resultText (formatOf options.json) fit ++ "\n", records, env.files, .marked⟩)) :
    (options.json = false ∧ TornResult fit → Tears env options source (run env args)) ∧
      (¬ (options.json = false ∧ TornResult fit) → Shows env options source (run env args)) := by
  have htorn := printedIn_resultText_eq_none options.json h.legible
  rw [run_of_ok hrun]
  cases hprinted : printedIn .marked (resultText (formatOf options.json) fit ++ "\n") with
  | none =>
      rw [Effect.result_of_torn _ hprinted]
      exact ⟨fun htears => ⟨rfl, rfl, rfl, htears.1, level, fit, records, h, htears.2, rfl⟩,
        fun hnot => absurd (htorn.mp hprinted) hnot⟩
  | some output =>
      rw [Effect.result_of_printed _ hprinted]
      refine ⟨fun htears => ?_, fun _ => ⟨rfl, rfl, level, fit, records, h, hprinted, ?_, rfl⟩⟩
      · rw [htorn.mpr htears] at hprinted
        cases hprinted
      · intro hjson
        have htext : printedIn .marked (resultText .json fit ++ "\n") = _ :=
          printedIn_pretty h.readable
        rw [hjson] at hprinted
        obtain rfl := Option.some.inj (htext.symm.trans hprinted)
        show Json.read (Json.pretty .marked _ ++ "\n").toList = _
        rw [Json.toList_pretty]
        exact Json.read_print h.readable _

theorem told_error (message : String) :
    toldIn .marked ("Error: " ++ message) = "Error: " ++ toldIn .marked message := by
  rw [toldIn, String.toList_append, Text.withoutControls_append (by decide),
    Text.Storage.told_append_of_not_mem (by decide), String.ofList_append, String.ofList_toList,
    toldIn]

theorem tells_of_told {stop : Stop} (hstop : stop.IsTold)
    (h : runProgram env args = .error stop) : Tells (run env args) := by
  rw [run_of_stop h]
  cases hstop with
  | failure message =>
      have herrors : printed ("Error: " ++ message ++ "\n") =
          "Error: " ++ printed (message ++ "\n") := by rw [String.append_assoc, printed_error]
      exact ⟨rfl, rfl, rfl, _, herrors⟩
  | rejection message =>
      have herrors : toldIn .marked ("Error: " ++ message ++ "\n") =
          "Error: " ++ toldIn .marked (message ++ "\n") := by rw [String.append_assoc, told_error]
      exact ⟨rfl, rfl, rfl, _, herrors⟩

/-- The settings of a call never make capabilities fail that the configuration makes. -/
theorem exists_clientCapabilities (hconfig : env.config = .ok config)
    (htaken : ∃ advertised, ClientCapabilities.ofConfig (.obj config) = .ok advertised)
    (settings : Settings) : ∃ c, clientCapabilities config settings = .ok c := by
  obtain ⟨contents, hload⟩ := config_eq_ok hconfig
  obtain ⟨folding, register, lines, limit, hoffers⟩ := Config.offers_of_load hload
  have hflag := (hoffers.ofConfig_iff.mp htaken).2
  exact (hoffers.exists_clientCapabilities_iff settings).mpr fun _ => hflag

/-- Under a configuration that loads and makes capabilities, with options that are valid, a run
of the command on any text whose numbers are short enough shows the text of a result, or tells
of a failure and prints nothing. One thing else can happen: it would show plainly a kind that
holds half a pair, and prints nothing. It shows a result exactly if the text is JSON, is a
result or an answer with an identifier and without an error, the result decodes, the offsets in
it are not refused, and what is left of it has no such kind or is shown as JSON. -/
theorem ranges_shows_or_tells (hcalls : CallsRanges env args options source)
    (hlevel : ∀ name, options.level? = some name → ∃ n, Log.threshold? (.str name) = some n)
    (hconfig : env.config = .ok config)
    (htaken : ∃ advertised, ClientCapabilities.ofConfig (.obj config) = .ok advertised)
    (htext : source.2 = Utf8.encode text) (hnumbers : ¬ TooLong text) :
    ∃ c, clientCapabilities config options.settings = .ok c ∧
      (Shows env options source (run env args) ∨ Tells (run env args) ∨
        Tears env options source (run env args)) ∧
      ((run env args).exitCode = 0 ↔ ∃ result,
        Gives c (offsetPolicy config options.settings) text result ∧
          (options.json = true ∨ ¬ TornResult (leftOf c config options.settings result))) := by
  obtain ⟨c, hclient⟩ := exists_clientCapabilities hconfig htaken options.settings
  obtain ⟨sorted, hgiven, hrun⟩ := hcalls.runProgram_eq
  obtain ⟨level, hthreshold⟩ := exists_threshold hconfig (hgiven ▸ hlevel)
  refine ⟨c, hclient, ?_⟩
  rw [hthreshold] at hrun
  cases hranges : runRanges env options.json options.settings source with
  | ok effect =>
      obtain ⟨fit, records, hcomes⟩ := comesTo_of_runRanges hranges
      obtain ⟨result, hgives, rfl⟩ := hcomes.gives hconfig hclient htext
      rw [runRanges_of_comesTo options.json hcomes, hcomes.render] at hrun
      obtain ⟨htears, hshows⟩ := shows_or_tears hcomes hrun
      by_cases htorn : options.json = false ∧ TornResult (leftOf c config options.settings result)
      · have htears := htears htorn
        refine ⟨.inr (.inr htears), iff_of_false ?_ ?_⟩
        · rw [htears.exitCode]
          exact Nat.one_ne_zero
        · rintro ⟨other, hother, hwhole⟩
          obtain rfl := hgives.unique hother
          rcases hwhole with hjson | hwhole
          · rw [hjson] at htorn
            cases htorn.1
          · exact hwhole htorn.2
      · have hshows := hshows htorn
        refine ⟨.inl hshows, iff_of_true hshows.exitCode ⟨result, hgives, ?_⟩⟩
        cases hjson : options.json with
        | true => exact .inl rfl
        | false => exact .inr fun hresult => htorn ⟨hjson, hresult⟩
  | error stop =>
      have hstop := onlyFails_runRanges options.json hconfig hclient htext hnumbers stop hranges
      rw [hranges] at hrun
      have htells := tells_of_told hstop hrun
      refine ⟨.inr (.inl htells), iff_of_false ?_ ?_⟩
      · rw [htells.exitCode]
        exact Nat.one_ne_zero
      -- If the text gave a result, the stages would have come to one.
      · rintro ⟨result, hgives, -⟩
        obtain ⟨records, hcomes⟩ := hgives.comesTo hconfig hclient htext
        rw [runRanges_of_comesTo options.json hcomes, hcomes.render] at hranges
        cases hranges

end

/-- An answer without an identifier. -/
def anonymousAnswer : Value := .obj [("jsonrpc", .int 2)]

theorem readable_anonymousAnswer : Json.Readable anonymousAnswer := by
  have hversion : Json.Readable (.int 2) := .int (Numeral.short_of_lt (by decide))
  exact .obj (by decide)
    (List.forall_mem_singleton.mpr (Text.Storage.holds_of_not_mem _ (by decide)))
    (List.forall_mem_singleton.mpr hversion)

theorem anonymousAnswer_is_told_of :
    let args := ["--json", "ranges", "-", "--reject-offsets"]
    (run (onInput (Json.pretty .marked .null ++ "\n")) args).exitCode = 0 ∧
      Tells (run (onInput (Json.pretty .marked anonymousAnswer ++ "\n")) args) := by
  intro args
  have hdefaults : ∃ advertised, ClientCapabilities.ofConfig (.obj Config.defaults) =
      .ok advertised := ⟨_, rfl⟩
  constructor
  · have hread : Json.read _ = .ok .null := spelled_pretty .null
    generalize Json.pretty .marked .null ++ "\n" = response at hread ⊢
    obtain ⟨c, -, -, hgives⟩ := ranges_shows_or_tells (calls_strict response) nofun
      (config_onInput _) hdefaults rfl (not_tooLong_of_read hread)
    refine hgives.mpr ⟨none, ⟨.null, hread, .bare (by rintro ⟨_, ⟨⟩, -⟩) rfl, ?_⟩, .inl rfl⟩
    rintro ⟨-, -, l, ⟨⟩, -⟩
  · have hread : Json.read _ = .ok anonymousAnswer := spelled_pretty readable_anonymousAnswer
    generalize Json.pretty .marked anonymousAnswer ++ "\n" = response at hread ⊢
    obtain ⟨c, -, hends, hgives⟩ := ranges_shows_or_tells (calls_strict response) nofun
      (config_onInput _) hdefaults rfl (not_tooLong_of_read hread)
    rcases hends with hshows | htells | htears
    · obtain ⟨result, ⟨v, hv, hholds, -⟩, -⟩ := hgives.mp hshows.exitCode
      obtain rfl : anonymousAnswer = v := Except.ok.inj (hread.symm.trans hv)
      cases hholds with
      | bare hbare => exact absurd ⟨_, rfl, rfl⟩ hbare
      | answer _ hid => cases hid
    · exact htells
    · cases htears.plain

/-- Half a pair escapes from a call whose response is valid and short. -/
theorem tornRange_escapes :
    let env := onInput tornResponse
    CallsRanges env ["ranges", "-"] ⟨false, none, .standard⟩ ("<stdin>", env.input) ∧
      env.config = .ok Config.defaults ∧
      (∃ advertised, ClientCapabilities.ofConfig (.obj Config.defaults) = .ok advertised) ∧
      ¬ TooLong tornResponse.toList ∧
      (run env ["ranges", "-"]).escaped = some .tornText := by
  intro env
  obtain ⟨hdecodes, hrun⟩ := run_tornRange
  obtain ⟨v, hread, -⟩ := hdecodes.response
  have hshort : ¬ TooLong tornResponse.toList :=
    not_tooLong_of_read ((readJson_encode_iff "<stdin>").mp hread)
  exact ⟨calls_bare _, hdecodes.config, ⟨_, rfl⟩, hshort, congrArg Result.escaped hrun⟩

end FoldingProtocol.CommandLine
