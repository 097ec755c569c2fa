import FoldingProtocol.Proofs.PrintedRanges

/-!
# Ranges that were printed print the same way

What the ranges command prints as JSON is itself a response, and giving it to the
command again changes nothing: it is read as the result it was printed from, and a
result that was fitted to a client fits that client as it is.
-/

namespace FoldingProtocol.CommandLine

/-- What was printed comes to what it was printed from. -/
theorem ComesTo.again {env : Environment} {settings : Settings} {source : String × Utf8.Bytes}
    {fit : Option FoldingRangeList} {records : List Log.Record}
    (h : ComesTo env settings source fit records) {again : Environment}
    (hconfig : again.config = env.config) (name : String) :
    let text := Json.pretty .marked (FoldingRequest.encodeResult fit) ++ "\n"
    ∃ more, ComesTo again settings (name, Utf8.encode text.toList) fit more := by
  have hreadable := h.readable
  cases h with
  | intro hloaded hread hresult hcapabilities hfit =>
      obtain ⟨more, hagain⟩ := FoldingClientCapabilities.apply_apply hfit
      exact ⟨more, .intro (hconfig.trans hloaded) (readJson_pretty hreadable name)
        (decodeAnswer_encodeResult fit) hcapabilities hagain⟩

theorem configThreshold_congr {env again : Environment} (h : again.config = env.config) :
    configThreshold again = configThreshold env := by
  unfold configThreshold threshold
  rw [h]

/-- The output of the command is a fixpoint of it. Whatever response is given and
whatever is asked for: if the command succeeds and prints some JSON, then, where the
same configuration is found, with the same settings, and with what was printed for
the response, it succeeds and prints the same. -/
theorem ranges_prints_its_output {env again : Environment} {args others : List String}
    {settings : Settings} {source : String × Utf8.Bytes} {name s : String}
    (hargs : Asks env args settings source)
    (hcode : (run env ("--json" :: "ranges" :: args)).exitCode = 0)
    (houtput : (run env ("--json" :: "ranges" :: args)).output = s)
    (hconfig : again.config = env.config)
    (hagain : Asks again others settings (name, Utf8.encode s.toList)) :
    (run again ("--json" :: "ranges" :: others)).exitCode = 0 ∧
      (run again ("--json" :: "ranges" :: others)).output = s := by
  obtain ⟨level, fit, records, hlevel, hcomes⟩ := comesTo_of_exitCode true hargs hcode
  obtain rfl := (run_json_of_comesTo hargs hlevel hcomes).2.symm.trans houtput
  obtain ⟨more, hcomes⟩ := hcomes.again hconfig name
  rw [← configThreshold_congr hconfig] at hlevel
  exact run_json_of_comesTo hagain hlevel hcomes

/-- Arguments that ask for whole lines, and for one range at most. -/
def oneWholeRange : List String := ["-", "--complete-lines", "yes", "--truncate", "--max=1"]

/-- What they ask for. -/
def oneWholeRangeSettings : Settings :=
  { Settings.standard with completeLines := some true, maximum := some 1, truncate := true }

theorem asks_oneWholeRange (response : String) :
    Asks (onInput response) oneWholeRange oneWholeRangeSettings
      ("<stdin>", Utf8.encode response.toList) :=
  .intro rfl rfl rfl rfl rfl

/-- A kind with characters that are escaped in different ways, and with half a pair. -/
def escapedKind : RangeKind := ⟨"a\"\té🙂\uFFFF\uE000"⟩

theorem holds_escapedKind : Text.Storage.marked.Holds escapedKind.name :=
  ⟨"a\"\té🙂".toList.map .char ++ [.half 0], by decide, by decide⟩

/-- Two ranges, of which the first has an offset and that kind. -/
def twoRanges : FoldingRangeList :=
  ⟨[⟨⟨1, some 4, 2, none, some escapedKind⟩, by decide⟩, ⟨⟨3, none, 4, none, none⟩, by decide⟩]⟩

/-- The text of what is left of them. -/
def oneRangeText : String :=
  "\x7b\n  \"ranges\": [\n    \x7b\n      \"startLine\": 1,\n      \"endLine\": 2,\n" ++
  "      \"type\": \"a\\\"\\t\\u00e9\\ud83d\\ude42\\ud800\"\n    \x7d\n  ]\n\x7d\n"

/-- What is left of them. -/
def oneRange : FoldingRangeList := ⟨[⟨⟨1, none, 2, none, some escapedKind⟩, by decide⟩]⟩

theorem pretty_oneRange :
    Json.pretty .marked (FoldingRequest.encodeResult (some oneRange)) ++ "\n" = oneRangeText := by
  decide

theorem legible_twoRanges : twoRanges.Legible := by
  intro r hr
  simp only [twoRanges, List.mem_cons, List.not_mem_nil, or_false] at hr
  rcases hr with rfl | rfl
  · refine Span.legible_of_lt (by decide) (by decide) (by decide) (by decide) ?_
    rintro kind ⟨⟩
    exact holds_escapedKind
  · exact Span.legible_of_lt (by decide) (by decide) (by decide) (by decide) (by rintro kind ⟨⟩)

theorem oneRange_prints_itself :
    let first := onInput (Json.pretty .marked (FoldingRequest.encodeResult (some twoRanges)) ++ "\n")
    (run first ("--json" :: "ranges" :: oneWholeRange)).exitCode = 0 ∧
      (run first ("--json" :: "ranges" :: oneWholeRange)).output = oneRangeText ∧
      (run (onInput oneRangeText) ("--json" :: "ranges" :: oneWholeRange)).exitCode = 0 ∧
      (run (onInput oneRangeText) ("--json" :: "ranges" :: oneWholeRange)).output =
        oneRangeText := by
  intro first
  have hlegible : ∀ l, some twoRanges = some l → l.Legible :=
    fun l hl => Option.some.inj hl ▸ legible_twoRanges
  have hcapabilities : clientCapabilities Config.defaults oneWholeRangeSettings =
      .ok ⟨none, some 1, some true⟩ := rfl
  have hcomes := comesTo_onInput hlegible hcapabilities (by rfl)
  obtain ⟨hcode, hprinted⟩ :=
    run_json_of_comesTo (asks_oneWholeRange _) (configThreshold_onInput _) hcomes
  have houtput : (run first ("--json" :: "ranges" :: oneWholeRange)).output = oneRangeText :=
    hprinted.trans pretty_oneRange
  exact ⟨hcode, houtput, ranges_prints_its_output (asks_oneWholeRange _) hcode houtput
    ((config_onInput _).trans (config_onInput _).symm) (asks_oneWholeRange oneRangeText)⟩

end FoldingProtocol.CommandLine
