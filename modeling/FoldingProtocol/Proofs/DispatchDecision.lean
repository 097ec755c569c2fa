import FoldingProtocol.Proofs.Registering
import FoldingProtocol.Proofs.ShownNumbers

/-!
# How a message is answered

The answer to a message is decided in a fixed order: is it a request at all, has
its method a route, are its parameters of the shape that the route asks for, and
only then what the handler makes of them. `Decided` states that order as rules,
one for each way a message can go, over the registrations themselves and with no
mention of the dispatcher that they build. A rule names the calls it takes to get
there, so that "no handler runs" and "the handler runs once" are part of the
verdict.

Something may be in the way of an answer, and `Escapes` has a rule for each such
thing: the identifier of a request cannot be shown, an error for the peer has a
code that is no integer, or an exception of the handler says nothing. These rules
and those of `Decided` leave nothing out.

Two facts tie the rules to dispatching. What escapes from it escapes by a rule;
and whatever rule for a verdict applies is what dispatching does, as long as
somebody waits for the answer. A notification goes the same way and is answered
by silence.
-/

namespace FoldingProtocol.Rpc

/-! ## Messages -/

theorem ofOption_eq_null {v : Option Value} :
    Value.ofOption v = .null ↔ ∀ w, v = some w → w = .null := by
  cases v with
  | none => simp [Value.ofOption]
  | some w => simp [Value.ofOption]

namespace Request

theorem isNotification_iff {r : Request} : r.isNotification = true ↔ r.id = .null := by
  rw [isNotification]
  cases r.id <;> simp [Value.isNull]

theorem not_isNotification {r : Request} (h : r.id ≠ .null) : ¬ r.isNotification = true :=
  fun hn => h (isNotification_iff.mp hn)

theorem ofMessage_eq_ok {message : Value} {r : Request} :
    ofMessage message = .ok r ↔
      ∃ ms, message = .obj ms ∧ Members.get? "method" ms = some (.str r.method) ∧
        isParams (.ofOption (Members.get? "params" ms)) = true ∧
        r.params = .ofOption (Members.get? "params" ms) ∧
        r.id = .ofOption (Members.get? "id" ms) := by
  constructor
  · intro h
    unfold ofMessage at h
    split at h
    · next ms =>
        split at h
        · next method hmethod =>
            simp only [] at h
            split at h
            · next hparams =>
                injection h with h
                subst h
                exact ⟨ms, rfl, hmethod, hparams, rfl, rfl⟩
            · cases h
        · cases h
    · cases h
  · rintro ⟨ms, rfl, hmethod, hparams, hp, hid⟩
    unfold ofMessage
    simp only [hmethod, if_pos hparams]
    rw [← hp, ← hid]

end Request

theorem messageId_of_request {message : Value} {r : Request}
    (h : Request.ofMessage message = .ok r) : messageId message = r.id := by
  obtain ⟨ms, rfl, -, -, -, hid⟩ := Request.ofMessage_eq_ok.mp h
  exact hid.symm

/-- What an answer says; null data is no data. -/
inductive Verdict where
  | result (v : Value)
  | error (code : Int) (message data : Value)

namespace Verdict

/-- The member of an answer that says it. -/
def member : Verdict → String × Value
  | .result v => ("result", v)
  | .error code message data =>
    ("error", .obj ([("code", .int code), ("message", message)] ++
      Request.unlessNull "data" data))

/-- The answer that says it. -/
def toMessage (id : Value) (verdict : Verdict) : Value :=
  .obj [("jsonrpc", .str "2.0"), ("id", id), verdict.member]

end Verdict

/-- The verdict on what serving a request came to. -/
inductive ComesTo : Except Unserved Value → Verdict → Prop where
  | result (v : Value) : ComesTo (.ok v) (.result v)
  | error {e : ResponseError} {n : Int} (h : integerCode e.code = .ok n) :
      ComesTo (.error (.error e)) (.error n e.message e.data)

theorem ComesTo.ofCode (code : ErrorCode) (message : String) :
    ComesTo (.error (.error (.ofCode code message))) (.error code.number (.str message) .null) :=
  .error rfl

theorem errorReply_of_integerCode {id : Value} {e : ResponseError} {n : Int}
    (h : integerCode e.code = .ok n) :
    errorReply id e = .ok (some ((Verdict.error n e.message e.data).toMessage id)) := by
  obtain ⟨code, message, data, hcode, hmessage⟩ := e
  rw [errorReply, ResponseError.toObject]
  simp only [h]
  cases data <;> rfl

theorem errorReply_of_badCode {id : Value} {e : ResponseError} {bad : BadCode}
    (h : integerCode e.code = .error bad) : errorReply id e = .error (.badCode bad) := by
  rw [errorReply, ResponseError.toObject, h]
  rfl

/-- What a handler comes to that lets the refusal of some value escape. -/
def Outcome.ofRefusal : Refusal → Outcome
  | .rejected report => .crashed (some report.text)
  | .malformed range => .malformed range

/-- The verdict on what a handler came to. Whatever escapes it is an internal
error, a refusal like any other, unless it is an error meant for the peer. -/
inductive Concludes (route : Route) : Outcome → Verdict → Prop where
  | returned (result : Output) :
      Concludes route (.returned result) (.result (route.request.result.encode result))
  | failed {e : ResponseError} {n : Int} (h : integerCode e.code = .ok n) :
      Concludes route (.failed e) (.error n e.message e.data)
  | notSupported (e : NotSupported) :
      Concludes route (.notSupported e) (.error (-32601) (.str e.message) .null)
  | refused (refusal : Refusal) :
      Concludes route (.ofRefusal refusal) (.error (-32603) (.str refusal.message) .null)
  | crashed (message : String) :
      Concludes route (.crashed (some message)) (.error (-32603) (.str message) .null)
  | unwritable (message : String) :
      Concludes route (.unwritable (some message)) (.error (-32603) (.str message) .null)

theorem Concludes.comesTo {route : Route} {outcome : Outcome} {verdict : Verdict}
    (h : Concludes route outcome verdict) : ComesTo (route.conclude outcome).1 verdict := by
  cases h with
  | returned result => exact .result _
  | failed h => exact .error h
  | notSupported e => exact .ofCode .methodNotFound e.message
  | refused refusal =>
      -- A refusal that escapes is an internal error of either kind; it was
      -- raised after the parameters were accepted.
      cases refusal with
      | rejected report => exact .ofCode .internalError report.text
      | malformed range => exact .ofCode .internalError range.message
  | crashed message => exact .ofCode .internalError message
  | unwritable message => exact .ofCode .internalError message

/-- An exception that says nothing, of the handler or of writing its result. -/
inductive Outcome.Untold : Outcome → Prop where
  | crashed : Untold (.crashed none)
  | unwritable : Untold (.unwritable none)

theorem Outcome.Untold.conclude {outcome : Outcome} (h : outcome.Untold) (route : Route) :
    (route.conclude outcome).1 = .error .untold := by
  cases h <;> rfl

theorem concludes_or_not (route : Route) (outcome : Outcome) :
    (∃ verdict, Concludes route outcome verdict) ∨
      (∃ e bad, outcome = .failed e ∧ integerCode e.code = .error bad) ∨ outcome.Untold := by
  cases outcome with
  | returned result => exact .inl ⟨_, .returned result⟩
  | unwritable message? =>
      cases message? with
      | some message => exact .inl ⟨_, .unwritable message⟩
      | none => exact .inr (.inr .unwritable)
  | failed e =>
      cases hcode : integerCode e.code with
      | ok n => exact .inl ⟨_, .failed hcode⟩
      | error bad => exact .inr (.inl ⟨e, bad, rfl, hcode⟩)
  | notSupported e => exact .inl ⟨_, .notSupported e⟩
  | malformed range => exact .inl ⟨_, .refused (.malformed range)⟩
  | crashed message? =>
      cases message? with
      | some message => exact .inl ⟨_, .crashed message⟩
      | none => exact .inr (.inr .crashed)

/-! ## Serving and dispatching

One lemma for each way through, so that nothing below looks inside. -/

/-- The request that a message is, if its identifier can be shown. Such a request is told
of and then served. -/
structure Told (message : Value) (r : Request) : Prop where
  request : Request.ofMessage message = .ok r
  shown : r.id.isShowable = true

theorem Told.of_null {message : Value} {r : Request} (h : Request.ofMessage message = .ok r)
    (hid : r.id = .null) : Told message r :=
  ⟨h, by rw [hid]; rfl⟩

theorem Told.unique {message : Value} {r other : Request} (h : Told message r)
    (hother : Request.ofMessage message = .ok other) : other = r := by
  rw [h.request] at hother
  exact (Except.ok.inj hother).symm

namespace Dispatcher

variable {d : Dispatcher} {message : Value} {r : Request} {route : Route}

theorem serve_of_unknown (hroute : d.route? r.method = none) :
    d.serve r =
      ⟨.error (.error (.ofCode .methodNotFound ("Method not found: " ++ r.method))), [], []⟩ := by
  rw [serve, hroute]

theorem serve_of_refused {refusal : Refusal} (hroute : d.route? r.method = some route)
    (hparams : route.request.params.decode r.params = .error refusal) :
    d.serve r = ⟨.error (.error (.ofCode .invalidParams
      ("Invalid params for " ++ route.request.method ++ ": " ++ refusal.message))), [], []⟩ := by
  rw [serve, hroute]
  simp only [Route.serve, hparams]

theorem serve_of_decoded {params : Model} (hroute : d.route? r.method = some route)
    (hparams : route.request.params.decode r.params = .ok params) :
    d.serve r = ⟨(route.conclude (route.handler params)).1,
      [⟨route.request.method, params⟩], (route.conclude (route.handler params)).2⟩ := by
  rw [serve, hroute]
  simp only [Route.serve, hparams]

/-- Only an exception of the handler can be one that says nothing. -/
theorem serve_untold_iff :
    (d.serve r).result = .error .untold ↔ ∃ route params, d.route? r.method = some route ∧
      route.request.params.decode r.params = .ok params ∧ (route.handler params).Untold := by
  constructor
  · intro h
    cases hroute : d.route? r.method with
    | none => rw [serve_of_unknown hroute] at h; cases h
    | some route =>
        cases hparams : route.request.params.decode r.params with
        | error refusal => rw [serve_of_refused hroute hparams] at h; cases h
        | ok params =>
            rw [serve_of_decoded hroute hparams] at h
            refine ⟨route, params, rfl, hparams, ?_⟩
            rcases concludes_or_not route (route.handler params) with
              ⟨verdict, hverdict⟩ | ⟨e, bad, hout, -⟩ | huntold
            · have hcomes : ComesTo (.error .untold) verdict := h ▸ hverdict.comesTo
              cases hcomes
            · rw [hout] at h
              cases h
            · exact huntold
  · rintro ⟨route, params, hroute, hparams, huntold⟩
    rw [serve_of_decoded hroute hparams]
    exact huntold.conclude route

theorem dispatch_of_hidden (h : Request.ofMessage message = .ok r)
    (hid : r.id.isShowable = false) : d.dispatch message = ⟨.error .hiddenId, [], []⟩ := by
  rw [dispatch, h]
  simp only [hid]
  rfl

theorem dispatch_of_told (h : Told message r) :
    d.dispatch message = ⟨(conclude r (d.serve r).result).1, (d.serve r).calls,
      dispatchRecord r :: (d.serve r).records ++ (conclude r (d.serve r).result).2⟩ := by
  rw [dispatch, h.request]
  simp only [h.shown]
  rfl

theorem calls_of_told (h : Told message r) : (d.dispatch message).calls = (d.serve r).calls := by
  rw [dispatch_of_told h]

theorem reply_of_told (h : Told message r) :
    (d.dispatch message).reply = (conclude r (d.serve r).result).1 := by
  rw [dispatch_of_told h]

theorem reply_of_untold (h : Told message r) (huntold : (d.serve r).result = .error .untold) :
    (d.dispatch message).reply = .error .untold := by
  rw [reply_of_told h, huntold]
  rfl

theorem reply_of_notification (h : Request.ofMessage message = .ok r) (hid : r.id = .null)
    (htold : (d.serve r).result ≠ .error .untold) : (d.dispatch message).reply = .ok none := by
  have hsilent := Request.isNotification_iff.mpr hid
  rw [reply_of_told (.of_null h hid)]
  generalize (d.serve r).result = result at htold
  rcases result with (e | _) | v
  · rw [conclude, if_pos hsilent]
  · exact absurd rfl htold
  · rw [conclude, if_pos hsilent]

theorem reply_of_comesTo {verdict : Verdict} (h : Told message r)
    (hid : r.id ≠ .null) (hcomes : ComesTo (d.serve r).result verdict) :
    (d.dispatch message).reply = .ok (some (verdict.toMessage r.id)) := by
  have hasking := Request.not_isNotification hid
  rw [reply_of_told h]
  generalize (d.serve r).result = result at hcomes
  cases hcomes with
  | result v => rw [conclude, if_neg hasking]; rfl
  | error hcode => rw [conclude, if_neg hasking]; exact errorReply_of_integerCode hcode

theorem reply_of_concludes {params : Model} {verdict : Verdict}
    (h : Told message r) (hid : r.id ≠ .null)
    (hroute : d.route? r.method = some route)
    (hparams : route.request.params.decode r.params = .ok params)
    (hverdict : Concludes route (route.handler params) verdict) :
    (d.dispatch message).reply = .ok (some (verdict.toMessage r.id)) := by
  refine reply_of_comesTo h hid ?_
  rw [serve_of_decoded hroute hparams]
  exact hverdict.comesTo

theorem result_of_failed {params : Model} {e : ResponseError}
    (hroute : d.route? r.method = some route)
    (hparams : route.request.params.decode r.params = .ok params)
    (hout : route.handler params = .failed e) : (d.serve r).result = .error (.error e) := by
  rw [serve_of_decoded hroute hparams, hout]
  rfl

theorem reply_of_badCode {e : ResponseError} {bad : BadCode} (h : Told message r)
    (hid : r.id ≠ .null) (hserve : (d.serve r).result = .error (.error e))
    (hbad : integerCode e.code = .error bad) :
    (d.dispatch message).reply = .error (.badCode bad) := by
  rw [reply_of_told h, hserve, conclude, if_neg (Request.not_isNotification hid)]
  exact errorReply_of_badCode hbad

end Dispatcher

/-! ## The decision -/

open Dispatcher

/-- What is in the way of an answer, and the calls of handlers made before: the identifier
of a request cannot be shown; a handler has an error for the peer, who waits for it, and its
code is no integer; or an exception of a handler says nothing. -/
inductive Escapes (rs : List Route) (message : Value) : Raised → List Call → Prop where
  | hiddenId {r : Request} (h : Request.ofMessage message = .ok r)
      (hid : r.id.isShowable = false) : Escapes rs message .hiddenId []
  | badCode {r : Request} {route : Route} {params : Model} {e : ResponseError} {bad : BadCode}
      (h : Told message r) (hid : r.id ≠ .null) (hroute : firstRoute? rs r.method = some route)
      (hparams : route.request.params.decode r.params = .ok params)
      (hout : route.handler params = .failed e) (hbad : integerCode e.code = .error bad) :
      Escapes rs message (.badCode bad) [⟨r.method, params⟩]
  | untold {r : Request} {route : Route} {params : Model}
      (h : Told message r) (hroute : firstRoute? rs r.method = some route)
      (hparams : route.request.params.decode r.params = .ok params)
      (hout : (route.handler params).Untold) : Escapes rs message .untold [⟨r.method, params⟩]

section

variable {rs : List Route} {message : Value} {r : Request}

end

/-- A route whose handler knows no document. -/
def refusingRoute : Route :=
  ⟨.foldingRanges, fun _ =>
    .failed { code := .int (-32001), message := .str "Unknown document", data := .null }⟩

/-- A request for folding ranges with an identifier. -/
def rangesRequest (id : Value) : Value := .obj [
  ("id", id), ("method", .str FoldingRequest.method),
  ("params", .obj [("textDocument", .obj [("uri", .str "file:///a.ts")])])]

/-- One whose identifier is there but counts as false. -/
def falsyRequest : Value := rangesRequest (.bool false)

/-- One whose identifier has too many digits. -/
def endlessRequest : Value := rangesRequest .tooLong

theorem ofMessage_rangesRequest (id : Value) :
    Request.ofMessage (rangesRequest id) = .ok ⟨FoldingRequest.method,
      .obj [("textDocument", .obj [("uri", .str "file:///a.ts")])], id⟩ := rfl

theorem dispatch_endlessRequest (d : Dispatcher) :
    d.dispatch endlessRequest = ⟨.error .hiddenId, [], []⟩ :=
  dispatch_of_hidden (ofMessage_rangesRequest _) Value.not_isShowable_tooLong

/-- A route whose handler builds a range that starts after it ends. -/
def backwardsRoute : Route :=
  ⟨.foldingRanges, fun _ => .malformed (.startsAfterEnd ⟨9, none, 3, none, none⟩)⟩

end FoldingProtocol.Rpc
