import FoldingProtocol.Proofs.DispatcherRuns
import FoldingProtocol.Proofs.KeptMembers

/-!
# A notification beside the request that it could have been

Take a message that is a request and leave out its identifier, or give it one. The two
messages name the same method and have the same parameters, so they are served alike: by the
same handler, on the same decoded parameters, with the same records. `serve` does not look
at the identifier, and this is all there is to say about a handler.

What differs comes after. Whoever waits for an answer is given the verdict, and nobody else
is, but an error that nobody is given is at least logged: a notification leaves a warning
with the code and the message of the error that the request would have been answered with.
Nothing else writes a warning, so there is one exactly if the request fails.

An exception that says nothing escapes from both runs alike. An identifier that cannot be
shown sets the two apart, since it escapes before anything is served.
-/

namespace FoldingProtocol

/-- The members but one. -/
def Members.without (key : String) (ms : Members) : Members := ms.filter fun m => m.1 != key

theorem Members.get?_without_self (key : String) (ms : Members) :
    (ms.without key).get? key = none := by
  have h := get?_filter_key (fun k => k != key) key ms
  simpa [without] using h

theorem Members.get?_without_of_ne {key other : String} (h : other ≠ key) (ms : Members) :
    (ms.without key).get? other = ms.get? other := by
  have hfilter := get?_filter_key (fun k => k != key) other ms
  simpa [without, h] using hfilter

namespace Rpc

namespace Request

variable {ms : Members} {r : Request}

/-- Members that differ in the identifier alone are read as the same request but for its
identifier. -/
theorem ofMessage_congr (h : ofMessage (.obj ms) = .ok r) {more : Members}
    (hsame : ∀ key, key ≠ "id" → more.get? key = ms.get? key) :
    ofMessage (.obj more) = .ok ⟨r.method, r.params, .ofOption (more.get? "id")⟩ := by
  obtain ⟨_, ⟨⟩, hmethod, hisParams, hparams, -⟩ := ofMessage_eq_ok.mp h
  refine ofMessage_eq_ok.mpr ⟨more, rfl, ?_, ?_, ?_, rfl⟩
  · rw [hsame "method" (by decide)]
    exact hmethod
  · rw [hsame "params" (by decide)]
    exact hisParams
  · rw [hsame "params" (by decide)]
    exact hparams

theorem ofMessage_without_id (h : ofMessage (.obj ms) = .ok r) :
    ofMessage (.obj (ms.without "id")) = .ok ⟨r.method, r.params, .null⟩ := by
  have hread := ofMessage_congr h fun _ hkey => Members.get?_without_of_ne hkey ms
  rwa [Members.get?_without_self] at hread

theorem ofMessage_put_id (h : ofMessage (.obj ms) = .ok r) (id : Value) :
    ofMessage (.obj (ms.put "id" id)) = .ok ⟨r.method, r.params, id⟩ := by
  have hread := ofMessage_congr h fun _ hkey => Members.get?_put_of_ne hkey id ms
  rwa [Members.get?_put_self] at hread

end Request

/-! ## What both runs share -/

/-- A handler whose errors for the peer have integers for their codes. -/
def Handler.HasPlainCodes (h : Handler) : Prop :=
  ∀ params e, h params = .failed e → ∃ n, e.code = .int n

namespace Dispatcher

variable {d : Dispatcher} {r : Request}

/-- The identifier has no part in serving. -/
theorem serve_congr {other : Request} (hmethod : r.method = other.method)
    (hparams : r.params = other.params) : d.serve r = d.serve other := by
  rw [serve, serve, hmethod, hparams]

/-- A request is refused before any handler is called, or a handler is called once and its
outcome is all that counts. -/
theorem serve_cases (d : Dispatcher) (r : Request) :
    (∃ code message, d.serve r = ⟨.error (.error (.ofCode code message)), [], []⟩) ∨
      ∃ route params, route ∈ d.routes ∧
        d.serve r = ⟨(route.conclude (route.handler params)).1, [⟨route.request.method, params⟩],
          (route.conclude (route.handler params)).2⟩ := by
  cases hroute : d.route? r.method with
  | none => exact .inl ⟨_, _, serve_of_unknown hroute⟩
  | some route =>
      cases hparams : route.request.params.decode r.params with
      | error refusal => exact .inl ⟨_, _, serve_of_refused hroute hparams⟩
      | ok params =>
          exact .inr ⟨route, params, List.mem_of_find?_eq_some hroute,
            serve_of_decoded hroute hparams⟩

theorem level_of_serve {record : Log.Record} (h : record ∈ (d.serve r).records) :
    record.level = .error := by
  rcases serve_cases d r with ⟨code, message, hserve⟩ | ⟨route, params, -, hserve⟩
  · rw [hserve] at h
    cases h
  · rw [hserve] at h
    cases hout : route.handler params <;> simp_all [Route.conclude]

theorem code_of_serve (hcodes : ∀ route ∈ d.routes, route.handler.HasPlainCodes)
    {e : ResponseError} (h : (d.serve r).result = .error (.error e)) : ∃ n, e.code = .int n := by
  rcases serve_cases d r with ⟨code, message, hserve⟩ | ⟨route, params, hmem, hserve⟩
  · rw [hserve] at h
    cases h
    exact ⟨_, rfl⟩
  · rw [hserve] at h
    cases hout : route.handler params with
    | failed failure =>
        rw [hout] at h
        cases h
        exact hcodes route hmem params e hout
    | returned => rw [hout] at h; cases h
    | unwritable message? | crashed message? =>
        rw [hout] at h
        cases message? <;> cases h
        exact ⟨_, rfl⟩
    | notSupported | malformed =>
        rw [hout] at h
        cases h
        exact ⟨_, rfl⟩

end Dispatcher

/-! ## What is told, and to whom -/

/-- The warnings about a notification that came to a verdict. -/
def Verdict.warnings (method : String) : Verdict → List Log.Record
  | .result _ => []
  | .error code message _ =>
    [⟨.warning, "Notification " ++ method ++ " failed: " ++
      ("LSP Error " ++ (Value.int code).shownText ++ ": " ++ message.shownText)⟩]

theorem Verdict.warned_iff {verdict : Verdict} {method : String} {others : List Log.Record}
    (h : ∀ record ∈ others, record.level ≠ .warning) :
    (∃ record ∈ others ++ verdict.warnings method, record.level = .warning) ↔
      ∃ code text data, verdict = .error code text data := by
  constructor
  · rintro ⟨record, hmem, hlevel⟩
    rcases List.mem_append.mp hmem with hother | hwarning
    · exact absurd hlevel (h record hother)
    · cases verdict with
      | result v => cases hwarning
      | error code text data => exact ⟨code, text, data, rfl⟩
  · rintro ⟨code, text, data, rfl⟩
    exact ⟨_, List.mem_append_right _ (List.mem_singleton.mpr rfl), rfl⟩

theorem Request.unlessNull_injective {name : String} {v w : Value}
    (h : unlessNull name v = unlessNull name w) : v = w := by
  cases v <;> cases w <;> simp_all [unlessNull]

/-- An answer tells its verdict. -/
theorem Verdict.toMessage_inj {verdict other : Verdict} {id : Value} :
    verdict.toMessage id = other.toMessage id ↔ verdict = other := by
  refine ⟨fun h => ?_, fun h => by rw [h]⟩
  simp only [toMessage, Value.obj.injEq, List.cons.injEq, and_true, true_and] at h
  cases verdict with
  | result v =>
      cases other with
      | result w => simpa [member] using h
      | error => simp [member] at h
  | error code text data =>
      cases other with
      | result => simp [member] at h
      | error code' text' data' =>
          simp only [member, Prod.mk.injEq, true_and, Value.obj.injEq, List.cons_append,
            List.nil_append, List.cons.injEq, Value.int.injEq] at h
          obtain ⟨rfl, rfl, hdata⟩ := h
          rw [Request.unlessNull_injective hdata]

namespace Dispatcher

variable {d : Dispatcher} {message : Value} {r : Request}

theorem records_of_told (h : Told message r) :
    (d.dispatch message).records =
      dispatchRecord r :: (d.serve r).records ++ (conclude r (d.serve r).result).2 := by
  rw [dispatch_of_told h]

theorem told_of_request {result : Except Unserved Value} (hid : r.id ≠ .null) :
    (conclude r result).2 = [] := by
  have hasking := Request.not_isNotification hid
  rcases result with (e | _) | v
  · rw [conclude, if_neg hasking]
  · rfl
  · rw [conclude, if_neg hasking]

theorem told_of_notification {method : String} {params : Value}
    {result : Except Unserved Value} {verdict : Verdict}
    (hcode : ∀ e, result = .error (.error e) → ∃ n, e.code = .int n) (h : ComesTo result verdict) :
    (conclude ⟨method, params, .null⟩ result).2 = verdict.warnings method := by
  cases h with
  | result v => rfl
  | error h =>
      rename_i e n
      obtain ⟨m, hm⟩ := hcode e rfl
      rw [hm] at h
      cases h
      show [failureRecord _ e] = _
      rw [failureRecord, ResponseError.text, hm]
      rfl

theorem comesTo_or_untold {result : Except Unserved Value}
    (hcode : ∀ e, result = .error (.error e) → ∃ n, e.code = .int n) :
    (∃ verdict, ComesTo result verdict) ∨ result = .error .untold := by
  rcases result with (e | _) | v
  · obtain ⟨n, hn⟩ := hcode e rfl
    exact .inl ⟨_, .error (by rw [hn]; rfl)⟩
  · exact .inr rfl
  · exact .inl ⟨_, .result v⟩

/-- A message that is a request, sent once without an identifier and once with one. If the
identifier cannot be shown, nothing is done about the second. If it can, both call the same
handler on the same parameters, if any, and write the same records after the line that tells
of the message. If the exception of the handler says nothing, it escapes from both.
Otherwise the first is not answered, and what it writes besides is a warning with the code
and the message of the error if the answer to the second is one, and nothing if it is a
result. So there is a warning exactly if the request is answered with an error. -/
theorem notification_runs_like_request
    (hcodes : ∀ route ∈ d.routes, route.handler.HasPlainCodes) {ms : Members}
    (hr : Request.ofMessage (.obj ms) = .ok r) {id : Value} (hid : id ≠ .null) :
    let silent := d.dispatch (.obj (ms.without "id"))
    let asking := d.dispatch (.obj (ms.put "id" id))
    (id.isShowable = false → asking = ⟨.error .hiddenId, [], []⟩) ∧
      (id.isShowable = true → silent.calls = asking.calls ∧ ∃ shared : List Log.Record,
        asking.records = dispatchRecord ⟨r.method, r.params, id⟩ :: shared ∧
        ((silent.reply = .error .untold ∧ asking.reply = .error .untold ∧
            silent.records = dispatchRecord ⟨r.method, r.params, .null⟩ :: shared ∧
            ∃ route ∈ d.routes, ∃ params, silent.calls = [⟨route.request.method, params⟩] ∧
              (route.handler params).Untold) ∨
          ∃ verdict : Verdict, silent.reply = .ok none ∧
            asking.reply = .ok (some (verdict.toMessage id)) ∧
            silent.records =
              dispatchRecord ⟨r.method, r.params, .null⟩ :: shared ++ verdict.warnings r.method ∧
            ((∃ record ∈ silent.records, record.level = .warning) ↔
              ∃ code text data,
                asking.reply = .ok (some ((Verdict.error code text data).toMessage id))))) := by
  intro silent asking
  refine ⟨dispatch_of_hidden (Request.ofMessage_put_id hr id), fun hshown => ?_⟩
  have hsilent : Told (.obj (ms.without "id")) ⟨r.method, r.params, .null⟩ :=
    .of_null (Request.ofMessage_without_id hr) rfl
  have hasking : Told (.obj (ms.put "id" id)) ⟨r.method, r.params, id⟩ :=
    ⟨Request.ofMessage_put_id hr id, hshown⟩
  have hserve : d.serve ⟨r.method, r.params, .null⟩ = d.serve ⟨r.method, r.params, id⟩ :=
    serve_congr rfl rfl
  have hcalls : silent.calls = asking.calls := by
    rw [calls_of_told hsilent, calls_of_told hasking, hserve]
  have hrecords : asking.records = dispatchRecord ⟨r.method, r.params, id⟩ ::
      (d.serve ⟨r.method, r.params, id⟩).records := by
    rw [records_of_told hasking, told_of_request hid, List.append_nil]
  refine ⟨hcalls, (d.serve ⟨r.method, r.params, id⟩).records, hrecords, ?_⟩
  have hcode : ∀ e, (d.serve ⟨r.method, r.params, id⟩).result = .error (.error e) →
      ∃ n, e.code = .int n := fun _ => code_of_serve hcodes
  rcases comesTo_or_untold hcode with ⟨verdict, hcomes⟩ | huntold
  · have hreply : asking.reply = .ok (some (verdict.toMessage id)) :=
      reply_of_comesTo hasking hid hcomes
    have hwarned : silent.records = dispatchRecord ⟨r.method, r.params, .null⟩ ::
        (d.serve ⟨r.method, r.params, id⟩).records ++ verdict.warnings r.method := by
      rw [records_of_told hsilent, hserve, told_of_notification hcode hcomes]
    have hnoReply : silent.reply = .ok none := by
      refine reply_of_notification hsilent.request rfl ?_
      rw [hserve]
      exact fun huntold => nomatch huntold ▸ hcomes
    refine .inr ⟨verdict, hnoReply, hreply, hwarned, ?_⟩
    have hothers : ∀ record ∈ dispatchRecord ⟨r.method, r.params, .null⟩ ::
        (d.serve ⟨r.method, r.params, id⟩).records, record.level ≠ .warning := by
      intro record hmem
      rcases List.mem_cons.mp hmem with rfl | hserved
      · exact nofun
      · rw [level_of_serve hserved]
        exact nofun
    rw [hwarned, hreply, Verdict.warned_iff hothers]
    simp only [Except.ok.injEq, Option.some.injEq, Verdict.toMessage_inj]
  · refine .inl ⟨reply_of_untold hsilent (hserve ▸ huntold), reply_of_untold hasking huntold,
      ?_, ?_⟩
    · rw [records_of_told hsilent, hserve, huntold]
      exact List.append_nil _
    · obtain ⟨route, params, hroute, hparams, hout⟩ := serve_untold_iff.mp huntold
      refine ⟨route, List.mem_of_find?_eq_some hroute, params, ?_, hout⟩
      rw [hcalls, calls_of_told hasking, serve_of_decoded hroute hparams]

/-- The document is unknown to the handler, and nobody waits to be told. -/
theorem unknownDocument_is_warned_of :
    let d : Dispatcher := ⟨[refusingRoute]⟩
    let ms : Members := [("id", .bool false), ("method", .str FoldingRequest.method),
      ("params", .obj [("textDocument", .obj [("uri", .str "file:///a.ts")])])]
    (∀ route ∈ d.routes, route.handler.HasPlainCodes) ∧
      (∃ r, Request.ofMessage (.obj ms) = .ok r) ∧ Value.int 7 ≠ .null ∧
      (d.dispatch (.obj (ms.without "id"))).reply = .ok none ∧
      (d.dispatch (.obj (ms.without "id"))).records =
        [⟨.debug, "Dispatching textDocument/foldingRanges (id=None)"⟩,
          ⟨.warning, "Notification textDocument/foldingRanges failed: " ++
            "LSP Error -32001: Unknown document"⟩] ∧
      (d.dispatch (.obj (ms.put "id" (.int 7)))).records =
        [⟨.debug, "Dispatching textDocument/foldingRanges (id=7)"⟩] := by
  intro d ms
  have hcodes : ∀ route ∈ d.routes, route.handler.HasPlainCodes := by
    intro route hmem params e hout
    rw [List.mem_singleton.mp hmem] at hout
    cases hout
    exact ⟨-32001, rfl⟩
  have hr : Request.ofMessage (.obj ms) = .ok ⟨FoldingRequest.method,
      .obj [("textDocument", .obj [("uri", .str "file:///a.ts")])], .bool false⟩ := rfl
  have hid : Value.int 7 ≠ .null := nofun
  obtain ⟨-, hshown⟩ := notification_runs_like_request hcodes hr hid
  obtain ⟨-, shared, hasking, ⟨-, hescaped, -⟩ | ⟨verdict, hreply, hasked, hsilent, -⟩⟩ :=
    hshown rfl
  · cases hescaped
  have hverdict : verdict = .error (-32001) (.str "Unknown document") .null := by
    have hanswer : (Verdict.error (-32001) (.str "Unknown document") .null).toMessage (.int 7) =
        verdict.toMessage (.int 7) := Option.some.inj (Except.ok.inj hasked)
    exact (Verdict.toMessage_inj.mp hanswer).symm
  have hshared : shared = [] := (List.cons.inj hasking).2.symm
  refine ⟨hcodes, ⟨_, hr⟩, hid, hreply, ?_, ?_⟩
  · rw [hsilent, hverdict, hshared]
    rfl
  · rw [hasking, hshared]
    rfl

/-- Nobody waits for an answer about the document, and its handler is asked; somebody waits
who has too many digits for an identifier, and it is not. -/
theorem endless_identifier_keeps_from_handler :
    let d : Dispatcher := ⟨[refusingRoute]⟩
    let ms : Members := [("method", .str FoldingRequest.method),
      ("params", .obj [("textDocument", .obj [("uri", .str "file:///a.ts")])])]
    (d.dispatch (.obj (ms.without "id"))).calls =
        [⟨FoldingRequest.method, .foldingRangeParams ⟨⟨"file:///a.ts"⟩⟩⟩] ∧
      (d.dispatch (.obj (ms.put "id" .tooLong))).calls = [] := by
  intro d ms
  have hr : Request.ofMessage (.obj ms) = .ok ⟨FoldingRequest.method,
      .obj [("textDocument", .obj [("uri", .str "file:///a.ts")])], .null⟩ := rfl
  exact ⟨rfl, congrArg Dispatched.calls
    (dispatch_of_hidden (Request.ofMessage_put_id hr .tooLong) Value.not_isShowable_tooLong)⟩

end Dispatcher

end Rpc

end FoldingProtocol
