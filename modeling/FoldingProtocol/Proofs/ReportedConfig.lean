import FoldingProtocol.Proofs.LoadedConfig
import FoldingProtocol.Proofs.RangesOutput
import FoldingProtocol.Proofs.ShortestDecimal

/-!
# Bad configurations are told of in one line

A command that needs the configuration and cannot have it stops, and prints one
line about it. That the line is one rests on how messages are made: whatever comes
from the file stands between quotes, with its line ends escaped, or is a number.
Only the path of the file is shown as it is.

A file that has something else where a section should be a table is not prepared
for, and neither is a number of too many digits. These are the conditions here, and
the first of them is needed.
-/

namespace FoldingProtocol

/-! ## Texts of one line -/

/-- A text without a line end. -/
def OneLine (s : String) : Prop := '\n' ∉ s.toList

theorem oneLine_ofList {cs : List Char} (h : '\n' ∉ cs) : OneLine (.ofList cs) := by
  rw [OneLine, String.toList_ofList]
  exact h

theorem OneLine.append {s t : String} (hs : OneLine s) (ht : OneLine t) : OneLine (s ++ t) := by
  rw [OneLine, String.toList_append]
  exact List.not_mem_append hs ht

theorem oneLine_toString (n : Nat) : OneLine (toString n) := not_mem_toList_toString rfl n

namespace Text

theorem newline_not_mem_hexFixed (width n : Nat) : '\n' ∉ Hex.fixed Hex.lower width n := by
  have hdigit : ∀ n < 16, '\n' ≠ Hex.lower n := by decide
  induction width generalizing n with
  | zero => exact List.not_mem_nil
  | succ width ih =>
      rw [Hex.fixed, List.mem_append, List.mem_singleton, not_or]
      exact ⟨ih _, hdigit _ (Nat.mod_lt _ (by decide))⟩

theorem newline_not_mem_quotedChar {quote : Char} (hquote : quote ≠ '\n') (c : Char) :
    '\n' ∉ quotedChar quote c := by
  unfold quotedChar
  split
  · next h =>
      rcases h with rfl | rfl
      · simp [hquote.symm]
      · decide
  split
  · decide
  split
  · decide
  split
  · decide
  split
  · next h _ _ _ => simpa using Ne.symm h
  all_goals
    repeat' split
    all_goals simp [newline_not_mem_hexFixed]

theorem newline_not_mem_quotedPoint {quote : Char} (hquote : quote ≠ '\n') (p : Point) :
    '\n' ∉ quotedPoint quote p := by
  cases p with
  | char c => exact newline_not_mem_quotedChar hquote c
  | half n =>
      rw [quotedPoint, halfEscape, List.mem_cons, List.mem_cons, not_or, not_or]
      exact ⟨by decide, by decide, newline_not_mem_hexFixed 4 _⟩

theorem newline_not_mem_quotedIn (storage : Storage) (cs : List Char) :
    '\n' ∉ quotedIn storage cs := by
  have hquote : quoteFor cs ≠ '\n' := by
    unfold quoteFor
    split <;> decide
  simp only [quotedIn, List.mem_append, List.mem_cons, List.mem_flatMap, List.not_mem_nil, or_false,
    not_or, not_exists, not_and]
  exact ⟨⟨hquote.symm, fun p _ => newline_not_mem_quotedPoint hquote p⟩, hquote.symm⟩

theorem newline_not_mem_quoted (cs : List Char) : '\n' ∉ quoted cs :=
  newline_not_mem_quotedIn .plain cs

end Text

theorem Numeral.newline_not_mem_ofInt (n : Int) : '\n' ∉ ofInt n := by
  cases n with
  | ofNat n => exact not_mem_ofNat rfl n
  | negSucc n =>
      rw [ofInt, List.mem_cons, not_or]
      exact ⟨by decide, not_mem_ofNat rfl _⟩

theorem Moment.newline_not_mem_literal (m : Moment) : '\n' ∉ m.literal := by
  have hword (cs : List Char) (h : '\n' ∉ cs) : '\n' ∉ (String.ofList cs).toList := oneLine_ofList h
  have hlisted (ns : List Nat) : '\n' ∉ listed ns := by
    refine not_mem_intercalate (by decide) fun part hpart => ?_
    obtain ⟨n, -, rfl⟩ := List.mem_map.mp hpart
    exact Numeral.not_mem_ofNat rfl n
  have hoffset (minutes : Int) : '\n' ∉ offsetLiteral minutes := by
    unfold offsetLiteral
    split
    · exact hword _ (by decide)
    · refine List.not_mem_append (List.not_mem_append (hword _ (by decide)) ?_)
        (hword _ (by decide))
      split
      · exact List.not_mem_append (hword _ (by decide)) (Numeral.newline_not_mem_ofInt _)
      · exact List.not_mem_append (hword _ (by decide)) (Numeral.newline_not_mem_ofInt _)
  cases m with
  | date d =>
      exact List.not_mem_append (List.not_mem_append (hword _ (by decide)) (hlisted _)) (by decide)
  | time t =>
      exact List.not_mem_append (List.not_mem_append (hword _ (by decide)) (hlisted _)) (by decide)
  | dateTime d t east =>
      refine List.not_mem_append (List.not_mem_append
        (List.not_mem_append (hword _ (by decide)) (hlisted _)) ?_) (by decide)
      cases east with
      | none => exact List.not_mem_nil
      | some minutes => exact List.not_mem_append (hword _ (by decide)) (hoffset minutes)

theorem Binary64.newline_not_mem_render (x : Binary64) :
    '\n' ∉ x.render Value.messageSpelling := by
  have hnumeric : ∀ c, IsNumeric c → c ≠ '\n' := by
    rintro c hc rfl
    rcases hc with h | h
    · cases h
    · revert h; decide
  exact fun h => forall_mem_render hnumeric (by simp [Value.messageSpelling])
    (by simp [Value.messageSpelling]) x _ h rfl

namespace Value

variable (storage : Text.Storage)

mutual

theorem newline_not_mem_literal (v : Value) : '\n' ∉ v.literalIn storage := by
  cases v with
  | null => exact oneLine_ofList (by decide)
  | bool b =>
      cases b with
      | false => exact oneLine_ofList (by decide)
      | true => exact oneLine_ofList (by decide)
  | int n => exact Numeral.newline_not_mem_ofInt n
  | float x => exact x.newline_not_mem_render
  | str s => exact Text.newline_not_mem_quotedIn storage _
  | moment m => exact m.newline_not_mem_literal
  | arr items =>
      show '\n' ∉ '[' :: (literalItems storage items ++ [']'])
      rw [List.mem_cons, not_or]
      exact ⟨by decide, List.not_mem_append (newline_not_mem_literalItems items) (by decide)⟩
  | obj members =>
      show '\n' ∉ '{' :: (literalMembers storage members ++ ['}'])
      rw [List.mem_cons, not_or]
      exact ⟨by decide, List.not_mem_append (newline_not_mem_literalMembers members) (by decide)⟩

theorem newline_not_mem_literalItems (vs : List Value) : '\n' ∉ literalItems storage vs := by
  cases vs with
  | nil => exact List.not_mem_nil
  | cons v rest =>
      refine List.not_mem_append (newline_not_mem_literal v) ?_
      split
      · exact List.not_mem_nil
      · exact List.not_mem_append (by decide) (newline_not_mem_literalItems rest)

theorem newline_not_mem_literalMembers (ms : List (String × Value)) :
    '\n' ∉ literalMembers storage ms := by
  cases ms with
  | nil => exact List.not_mem_nil
  | cons m rest =>
      obtain ⟨k, v⟩ := m
      have hpair : '\n' ∉ ':' :: ' ' :: v.literalIn storage := by
        rw [List.mem_cons, List.mem_cons, not_or, not_or]
        exact ⟨by decide, by decide, newline_not_mem_literal v⟩
      refine List.not_mem_append
        (List.not_mem_append (Text.newline_not_mem_quotedIn storage _) hpair) ?_
      split
      · exact List.not_mem_nil
      · exact List.not_mem_append (by decide) (newline_not_mem_literalMembers rest)

end

end Value

/-! ## Messages of one line -/

namespace Toml

theorem oneLine_pathText (path : Path) : OneLine (pathText path) := by
  have hpart (key : String) : OneLine (.ofList (Text.quoted key.toList)) :=
    oneLine_ofList (Text.newline_not_mem_quoted _)
  have hopen : OneLine "(" := oneLine_ofList (by decide)
  unfold pathText
  split
  · exact (hopen.append (hpart _)).append (oneLine_ofList (by decide))
  · refine (hopen.append ?_).append (oneLine_ofList (by decide))
    rw [OneLine, String.toList_intercalate]
    refine not_mem_intercalate (oneLine_ofList (by decide)) fun part hmem => ?_
    rw [List.map_map] at hmem
    obtain ⟨key, -, rfl⟩ := List.mem_map.mp hmem
    exact hpart key

theorem Problem.oneLine_message (problem : Problem) : OneLine problem.message := by
  have hquoted (cs : List Char) : OneLine (.ofList (Text.quoted cs)) :=
    oneLine_ofList (Text.newline_not_mem_quoted cs)
  have hword (cs : List Char) (h : '\n' ∉ cs) {s : String} (hs : OneLine s) :
      OneLine (.ofList cs ++ s) := (oneLine_ofList h).append hs
  cases problem with
  | duplicateKey key => exact hword _ (by decide) (hquoted _)
  | declaredTwice path =>
      exact (hword _ (by decide) (oneLine_pathText path)).append (oneLine_ofList (by decide))
  | fixed path => exact hword _ (by decide) (oneLine_pathText path)
  | redefined path => exact hword _ (by decide) (oneLine_pathText path)
  | illegalChar c => exact hword _ (by decide) (hquoted _)
  | invalidChar c => exact hword _ (by decide) (hquoted _)
  | _ => exact oneLine_ofList (by decide)

theorem oneLine_placeText (whole rest : List Char) : OneLine (placeText whole rest) := by
  unfold placeText
  split
  · exact oneLine_ofList (by decide)
  · have hline : OneLine "line " := oneLine_ofList (by decide)
    have hcolumn : OneLine ", column " := oneLine_ofList (by decide)
    exact ((hline.append (oneLine_toString _)).append hcolumn).append (oneLine_toString _)

end Toml

namespace Config

/-- What is said about a configuration takes one line, if its path does. -/
theorem LoadFault.OfConfig.oneLine_message {fault : LoadFault} (h : fault.OfConfig)
    (hpath : ∀ path whole problem rest, fault = .unreadable path whole problem rest →
      '\n' ∉ path.text) : OneLine fault.message := by
  have hword (cs : List Char) (h : '\n' ∉ cs) {s : String} (hs : OneLine s) :
      OneLine (.ofList cs ++ s) := (oneLine_ofList h).append hs
  have hvalue (v : Value) : OneLine v.literalText :=
    oneLine_ofList (v.newline_not_mem_literal .plain)
  cases h with
  | @unreadable path whole rest problem =>
      have hat : OneLine " (at " := oneLine_ofList (by decide)
      have hproblem : OneLine ((Toml.Fault.grammar problem rest).message whole) :=
        ((problem.oneLine_message.append hat).append
          (Toml.oneLine_placeText whole rest)).append (oneLine_ofList (by decide))
      exact ((hword _ (by decide) (oneLine_ofList (hpath _ _ _ _ rfl))).append
        (oneLine_ofList (by decide))).append hproblem
  | policy =>
      have hnames : OneLine (", ".intercalate policies) := by
        rw [OneLine, String.toList_intercalate]
        refine not_mem_intercalate (oneLine_ofList (by decide)) ?_
        exact List.forall_mem_cons.mpr ⟨oneLine_ofList (by decide),
          List.forall_mem_singleton.mpr (oneLine_ofList (by decide))⟩
      exact ((hword _ (by decide) hnames).append (oneLine_ofList (by decide))).append (hvalue _)
  | maximum => exact hword _ (by decide) (hvalue _)
  | level => exact hword _ (by decide) (hvalue _)

end Config

/-! ## What is printed of a line -/

namespace Text

theorem afterControl?_suffix {cs rest : List Char} (h : afterControl? cs = some rest) :
    rest <:+ cs := by
  unfold afterControl? at h
  split at h
  · next c tail heq =>
      split at h
      · obtain rfl := Option.some.inj h
        refine (List.suffix_cons c tail).trans ?_
        rw [← heq]
        exact (List.dropWhile_suffix _).trans (List.dropWhile_suffix _)
      · cases h
  · cases h

theorem mem_of_mem_withoutControls {c : Char} {cs : List Char} (h : c ∈ withoutControls cs) :
    c ∈ cs := by
  fun_induction withoutControls cs with
  | case1 inside after hafter ih =>
      have hmem := (afterControl?_suffix hafter).subset (ih h)
      exact List.mem_cons_of_mem _ (List.mem_cons_of_mem _ hmem)
  | case2 inside hnone ih =>
      simp only [List.mem_cons] at h ⊢
      exact h.imp_right fun h => h.imp_right ih
  | case3 d rest hplain ih =>
      rw [List.mem_cons] at h ⊢
      exact h.imp_right ih
  | case4 => exact h

theorem dropWhile_append_line {class_ : Char → Bool} (hline : class_ '\n' = false)
    (cs : List Char) : (cs ++ ['\n']).dropWhile class_ = cs.dropWhile class_ ++ ['\n'] := by
  induction cs with
  | nil => simp [hline]
  | cons c cs ih =>
      rw [List.cons_append, List.dropWhile_cons, List.dropWhile_cons]
      split
      · exact ih
      · rfl

theorem afterControl?_line (cs : List Char) :
    afterControl? (cs ++ ['\n']) = (afterControl? cs).map (· ++ ['\n']) := by
  rw [afterControl?, dropWhile_append_line rfl, dropWhile_append_line rfl, afterControl?]
  cases (cs.dropWhile isParameter).dropWhile isIntermediate with
  | nil => rfl
  | cons c rest =>
      rw [List.cons_append]
      dsimp only
      split <;> rfl

/-- The end of a line completes no control sequence. -/
theorem withoutControls_line (cs : List Char) :
    withoutControls (cs ++ ['\n']) = withoutControls cs ++ ['\n'] := by
  fun_induction withoutControls cs with
  | case1 inside after hafter ih =>
      have hline : afterControl? (inside ++ ['\n']) = some (after ++ ['\n']) := by
        rw [afterControl?_line, hafter]
        rfl
      rw [List.cons_append, List.cons_append, withoutControls_of_after hline, ih]
  | case2 inside hnone ih =>
      have hline : afterControl? (inside ++ ['\n']) = none := by rw [afterControl?_line, hnone]; rfl
      rw [List.cons_append, List.cons_append, withoutControls_open hline, ih, List.cons_append,
        List.cons_append]
  | case3 c rest hplain ih =>
      rw [List.cons_append, withoutControls, ih, List.cons_append]
      intro inside hc hrest
      cases rest with
      | nil => cases hrest
      | cons d rest => exact hplain rest hc (by rw [(List.cons.inj hrest).1])
  | case4 => exact withoutControls_of_not_mem (by decide)

end Text

namespace CommandLine

/-- The arguments of a run need the configuration: for the level from which on records
are shown, which every command asks for, or for the settings of one of two commands. -/
inductive NeedsConfig (env : Environment) (args : List String) : Prop where
  | level {sorted : Sorted} {command : Command} {rest : List String}
      (hsort : sortProgram args = .ok sorted) (hlevel : sorted.value? .logLevel = none)
      (hcommand : findCommand sorted.rest = .ok (command, rest))
  | ranges {sorted : Sorted} {rest : List String} {settings : Settings}
      {source : String × Utf8.Bytes} {level : Nat} (hsort : sortProgram args = .ok sorted)
      (hlevel : threshold env sorted = .ok level)
      (hcommand : findCommand sorted.rest = .ok (.ranges, rest))
      (hargs : Asks env rest settings source)
  | capabilities {sorted given : Sorted} {rest : List String} {settings : Settings} {level : Nat}
      (hsort : sortProgram args = .ok sorted) (hlevel : threshold env sorted = .ok level)
      (hcommand : findCommand sorted.rest = .ok (.capabilities, rest))
      (hgiven : sort Command.capabilities.switches true rest = .ok given)
      (hhelp : given.has .help = false) (hsettings : given.settings = .ok settings)
      (hrest : given.rest = [])

section

variable {env : Environment} {args : List String} {stop : Stop}

theorem runProgram_of_needsConfig (hargs : NeedsConfig env args) (hstop : env.config = .error stop) :
    runProgram env args = .error stop := by
  cases hargs with
  | @level sorted command rest hsort hlevel hcommand =>
      have hthreshold : threshold env sorted = .error stop := by
        simp only [threshold, hlevel, hstop, bind, Except.bind]
      rw [runProgram_of_command hsort hcommand, hthreshold]
      rfl
  | @ranges sorted rest settings source level hsort hlevel hcommand hargs =>
      have hranges : runRanges env (sorted.has .json) settings source = .error stop := by
        simp only [runRanges, hstop, bind, Except.bind]
      rw [runProgram_of_command hsort hcommand, hlevel, runCommand_of_asks _ hargs, hranges]
      rfl
  | @capabilities sorted given rest settings level hsort hlevel hcommand hgiven hhelp hsettings hrest =>
      have hcapabilities : runCommand env (sorted.has .json) .capabilities rest = .error stop := by
        simp only [runCommand, hgiven, hhelp, hsettings, hrest, noExtras, runCapabilities, hstop,
          Except.mapError, bind, Except.bind, Bool.false_eq_true, if_false]
      rw [runProgram_of_command hsort hcommand, hlevel, hcapabilities]
      rfl

end

/-- A line about a failure. -/
theorem printed_failure {message : String} (h : OneLine message) :
    ∃ told, printed ("Error: " ++ message ++ "\n") = "Error: " ++ told ++ "\n" ∧ OneLine told := by
  refine ⟨printed message, ?_, ?_⟩
  · have hline : printed (message ++ "\n") = printed message ++ "\n" := by
      have htext : (message ++ "\n").toList = message.toList ++ ['\n'] := by
        rw [String.toList_append]
        rfl
      rw [printed, htext, Text.withoutControls_line, String.ofList_append]
      rfl
    rw [String.append_assoc, printed_error, hline, String.append_assoc]
  · rw [OneLine, printed, String.toList_ofList]
    exact fun hmem => h (Text.mem_of_mem_withoutControls hmem)

section

variable {env : Environment} {text : List Char}

theorem config_of_file (hfile : env.configFound = .file (Utf8.encode text))
    {fault : Config.LoadFault} (hfault : fault.OfConfig)
    (hload : Config.load env.configPath (some (Utf8.encode text)) = .error fault) :
    env.config = .error (.failure fault.message) := by
  simp only [Environment.config, hfile, hload, bind, Except.bind]
  cases hfault <;> rfl

/-- A text without a number of too many digits where it would have to be read or shown. -/
structure Tellable (text : List Char) : Prop where
  read : ∀ count, Config.spelled text ≠ .error (.digits count)
  shown : ∀ settings fault v, Config.spelled text = .ok settings →
    Config.FirstWrong (Config.merge Config.defaults settings) fault v → v.isShowable = true

theorem Tellable.not_ofNumber {path : FilePath} {fault : Config.LoadFault} (h : Tellable text)
    (hsections : ∀ settings, Config.spelled text = .ok settings → Config.HasSections settings)
    (hload : Config.load path (some (Utf8.encode text)) = .error fault) : ¬ fault.OfNumber := by
  intro hfault
  rcases (Config.tooLong_iff hsections).mp ⟨fault, hload, hfault⟩ with
    ⟨count, hread⟩ | ⟨settings, wrong, v, hread, hwrong, hshown⟩
  · exact h.read count hread
  · rw [h.shown settings wrong v hread hwrong] at hshown
    cases hshown

open Config in
/-- A file whose sections are tables, and whose numbers are short enough, either makes a
configuration or is told of in one line by every run that needs the configuration. -/
theorem badConfig_is_reported {env : Environment} {text : List Char}
    (hfile : env.configFound = .file (Utf8.encode text))
    (hsections : ∀ settings, spelled text = .ok settings → HasSections settings)
    (hnumbers : Tellable text) (hpath : '\n' ∉ env.configPath.text) :
    (∃ config, env.config = .ok config) ∨
      ∃ fault, load env.configPath (some (Utf8.encode text)) = .error fault ∧ fault.OfConfig ∧
        ∃ told, OneLine told ∧ ∀ args, NeedsConfig env args →
          run env args = ⟨1, "", "Error: " ++ told ++ "\n", none, env.files⟩ := by
  cases hload : load env.configPath (some (Utf8.encode text)) with
  | ok config =>
      refine .inl ⟨config, ?_⟩
      simp only [Environment.config, hfile, hload, bind, Except.bind]
  | error fault =>
      have hfault := (ofConfig_or_ofNumber hsections hload).resolve_right
        (hnumbers.not_ofNumber hsections hload)
      have hloads := loads_load env.configPath hsections
      rw [hload] at hloads
      have hmessage := hfault.oneLine_message fun path whole problem rest heq => by
        cases hloads with
        | grammar => cases heq; exact hpath
        | digits => cases heq
        | wrong _ hwrong => cases heq
      obtain ⟨told, hprinted, htold⟩ := printed_failure hmessage
      refine .inr ⟨fault, rfl, hfault, told, htold, fun args hargs => ?_⟩
      rw [run_of_failure (runProgram_of_needsConfig hargs (config_of_file hfile hfault hload)),
        hprinted]

/-- A run with a text as its configuration and another at its input. -/
def withConfig (text : List Char) (input : String) : Environment where
  directory := []
  configPath := ⟨.single, [['c']]⟩
  files := ⟨[([['c']], Utf8.encode text)], []⟩
  input := Utf8.encode input.toList
  timestamp := ""

theorem configFound_withConfig (text : List Char) (input : String) :
    (withConfig text input).configFound = .file (Utf8.encode text) := rfl

theorem tellable_keepPolicyFile : Tellable Config.keepPolicyFile where
  read count h := by
    rw [Config.spelled_keepPolicyFile] at h
    cases h
  shown settings fault v h hwrong := by
    rw [Config.spelled_keepPolicyFile] at h
    cases h
    cases hwrong with
    | policy hv => cases hv; rfl
    | maximum hp hright =>
        cases hp
        rcases hright with h | h <;> exact absurd (Value.str.inj h) (by decide)
    | level hp hright =>
        cases hp
        rcases hright with h | h <;> exact absurd (Value.str.inj h) (by decide)

theorem keepPolicyFile_is_reported :
    let env := withConfig Config.keepPolicyFile ""
    env.configFound = .file (Utf8.encode Config.keepPolicyFile) ∧
      (∀ settings, Config.spelled Config.keepPolicyFile = .ok settings →
        Config.HasSections settings) ∧
      Tellable Config.keepPolicyFile ∧ '\n' ∉ env.configPath.text ∧
      ((∃ config, env.config = .ok config) ∨ ∃ told, OneLine told ∧
        run env ["capabilities"] = ⟨1, "", "Error: " ++ told ++ "\n", none, env.files⟩) := by
  have hfile := configFound_withConfig Config.keepPolicyFile ""
  refine ⟨hfile, Config.keepPolicyFile_has_sections, tellable_keepPolicyFile, by decide, ?_⟩
  refine (badConfig_is_reported hfile Config.keepPolicyFile_has_sections tellable_keepPolicyFile
    (by decide)).imp_right ?_
  rintro ⟨fault, -, -, told, htold, hrun⟩
  have hsort : sortProgram ["capabilities"] = .ok ⟨[], ["capabilities"]⟩ := rfl
  exact ⟨told, htold, hrun _ (.level hsort rfl rfl)⟩

/-! ## What is not prepared for -/

section

variable {settings : Members} {v : Value}

/-- The folding section has to be a table. -/
theorem load_of_plainFolding {path : FilePath} (hread : Config.spelled text = .ok settings)
    (hget : settings.get? "folding" = some v) (hplain : ∀ ms, v ≠ .obj ms) :
    Config.load path (some (Utf8.encode text)) = .error (.invalid .noSection) := by
  have hmerged : (Config.merge Config.defaults settings).get? "folding" = some v := by
    rw [Config.get?_merge (Toml.sound_read hread).distinct, hget]
    exact congrArg some (Config.settingOver_of_leaf hplain _)
  have hsection : Config.section? (Config.merge Config.defaults settings) "folding" =
      .error .noSection := by
    rw [Config.section?, hmerged]
    cases v with
    | obj ms => exact absurd rfl (hplain ms)
    | null | bool | int | float | str | moment | arr => rfl
  have hcheck : Config.check (Config.merge Config.defaults settings) = .error .noSection := by
    rw [Config.check, hsection]
    rfl
  rw [Config.load_of_settings hread, hcheck]

/-- Where it is not, every run that needs the configuration ends without a word. -/
theorem plainFolding_escapes (hfile : env.configFound = .file (Utf8.encode text))
    (hread : Config.spelled text = .ok settings) (hget : settings.get? "folding" = some v)
    (hplain : ∀ ms, v ≠ .obj ms) {args : List String} (hargs : NeedsConfig env args) :
    run env args = ⟨1, "", "", some .noMembers, env.files⟩ := by
  have hconfig : env.config = .error (.escape .noMembers) := by
    simp only [Environment.config, hfile, load_of_plainFolding hread hget hplain, bind,
      Except.bind]
  rw [run, runProgram_of_needsConfig hargs hconfig]
  rfl

end

end

end CommandLine

end FoldingProtocol
