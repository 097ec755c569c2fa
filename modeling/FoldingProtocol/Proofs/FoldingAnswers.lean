import FoldingProtocol.Proofs.RequestRoundTrip

/-!
# What answers to the folding request hold

A handler of the folding request returns ranges, or no ranges, or any bare value. Each
of them is answered, so an answer with a result goes back to what the handler returned,
and whether the other side can decode it is a question about that alone. Ranges it can
always decode, because a range cannot be built with its lines the wrong way round: a
handler that tries to fails, and that is an internal error.

A bare value is answered as it is sent, and nobody looks into it on the way but for doubles
that are not finite. So it is decoded exactly if what is sent of it was a result in the first
place, and a value with a range that starts after it ends leaves the dispatcher as a result.
-/

namespace FoldingProtocol

open Rpc Rpc.Dispatcher

namespace Rpc

/-! ## Answers with a result -/

theorem Verdict.eq_result {verdict : Verdict} {id v : Value} {ms : Members}
    (hmessage : verdict.toMessage id = .obj ms) (hresult : ms.get? "result" = some v) :
    verdict = .result v := by
  cases hmessage
  cases verdict with
  | result w => cases hresult; rfl
  | error code message data => cases hresult

theorem Concludes.eq_returned {route : Route} {outcome : Outcome} {v : Value}
    (h : Concludes route outcome (.result v)) :
    ∃ o, outcome = .returned o ∧ v = route.request.result.encode o := by
  cases h with
  | returned o => exact ⟨o, rfl, rfl⟩

namespace Dispatcher

variable {d : Dispatcher} {message : Value} {r : Request} {route : Route}

/-- An answer with a result goes back to a handler that was called and returned it. -/
theorem returned_of_result (h : Request.ofMessage message = .ok r) (hid : r.id ≠ .null)
    (hroute : d.route? r.method = some route) {ms : Members} {v : Value}
    (hreply : (d.dispatch message).reply = .ok (some (.obj ms)))
    (hresult : ms.get? "result" = some v) :
    ∃ params o, route.request.params.decode r.params = .ok params ∧
      route.handler params = .returned o ∧ v = route.request.result.encode o := by
  have hverdict {verdict : Verdict}
      (hsent : (d.dispatch message).reply = .ok (some (verdict.toMessage r.id))) :
      verdict = .result v := by
    rw [hreply] at hsent
    exact Verdict.eq_result (Option.some.inj (Except.ok.inj hsent)).symm hresult
  have htold : Told message r := by
    refine ⟨h, eq_true_of_ne_false fun hhidden => ?_⟩
    rw [dispatch_of_hidden h hhidden] at hreply
    cases hreply
  cases hparams : route.request.params.decode r.params with
  | error refusal =>
      have hserve := serve_of_refused hroute hparams
      have hcomes := ComesTo.ofCode .invalidParams
        ("Invalid params for " ++ route.request.method ++ ": " ++ refusal.message)
      cases hverdict (reply_of_comesTo htold hid (by rw [hserve]; exact hcomes))
  | ok params =>
      rcases concludes_or_not route (route.handler params) with
        ⟨verdict, hconcludes⟩ | ⟨e, bad, hout, hbad⟩ | huntold
      · obtain rfl := hverdict (reply_of_concludes htold hid hroute hparams hconcludes)
        obtain ⟨o, ho, hv⟩ := hconcludes.eq_returned
        exact ⟨params, o, rfl, ho, hv⟩
      · have hserve := result_of_failed hroute hparams hout
        rw [reply_of_badCode htold hid hserve hbad] at hreply
        cases hreply
      · have hserve := serve_untold_iff.mpr ⟨route, params, hroute, hparams, huntold⟩
        rw [reply_of_untold htold hserve] at hreply
        cases hreply

end Dispatcher

end Rpc

/-! ## Results of the folding request -/

namespace FoldingRequest

/-- What a handler can return that is a result: ranges, or a bare value that is sent as
ranges or as none, as null is. -/
inductive IsResult : Output → Prop where
  | ranges (l : FoldingRangeList) : IsResult (.model (.foldingRangeList l))
  | value {v : Value} {result : Option FoldingRangeList}
      (h : decodeResult v.dumped = .ok result) : IsResult (.value v)

theorem decodes_iff_isResult {o : Output} :
    (∃ result, decodeResult (ResultType.folding.encode o) = .ok result) ↔ IsResult o := by
  constructor
  · rintro ⟨result, h⟩
    cases o with
    | value v => exact .value h
    | model m =>
        cases m with
        | foldingRangeList l => exact .ranges l
        -- A value of another shape is written without members, and a list of ranges
        -- has to have one.
        | _ => cases h
  · intro h
    cases h with
    | ranges l => exact ⟨some l, decodeResult_encodeResult (some l)⟩
    | value h => exact ⟨_, h⟩

theorem decodeParams_eq_ok {v : Value} {p : FoldingRangeParams} :
    decodeParams v = .ok p ↔ FoldingRangeParams.decode v = .accepted p := Decoded.titled_eq_ok

theorem decode_of_decodeParams {v : Value} {p : FoldingRangeParams} (h : decodeParams v = .ok p) :
    Shape.foldingRangeParams.decode v = .ok (.foldingRangeParams p) :=
  Shape.decode_eq_ok.mpr (Decoded.map_accepted (decodeParams_eq_ok.mp h))

theorem decodeParams_of_decode {v : Value} {m : Model}
    (h : Shape.foldingRangeParams.decode v = .ok m) :
    ∃ p, decodeParams v = .ok p ∧ m = .foldingRangeParams p := by
  obtain ⟨p, hp, rfl⟩ := Decoded.map_eq_accepted (Shape.decode_eq_ok.mp h)
  exact ⟨p, decodeParams_eq_ok.mpr hp, rfl⟩

/-- Whatever the handler of the folding request does: an answer with a result holds
what the handler returned, and it is decoded exactly if that was a result. A request whose
identifier cannot be shown has no answer. For any other, ranges and no ranges are answered
and decoded as they were returned; a bare value is answered as it is sent; and a range that
cannot be built is an internal error. -/
theorem answered_result_decodes_iff {rs : List Route} {h : Handler} {message : Value}
    {r : Request} (hroute : firstRoute? rs method = some ⟨.foldingRanges, h⟩)
    (hr : Request.ofMessage message = .ok r) (hmethod : r.method = method)
    (hid : r.id ≠ .null) :
    let reply := ((empty.registerAll rs).dispatch message).reply
    let answers := fun verdict : Verdict => reply = .ok (some (verdict.toMessage r.id))
    (∀ ms v, reply = .ok (some (.obj ms)) → Members.get? "result" ms = some v →
      ∃ p o, decodeParams r.params = .ok p ∧ h (.foldingRangeParams p) = .returned o ∧
        ((∃ result, decodeResult v = .ok result) ↔ IsResult o)) ∧
    (r.id.isShowable = false → reply = .error .hiddenId) ∧
    (r.id.isShowable = true → ∀ p, decodeParams r.params = .ok p →
      (∀ result, h (.foldingRangeParams p) = .returned (.ofRanges result) →
        ∃ v, answers (.result v) ∧ decodeResult v = .ok result) ∧
      (∀ v, h (.foldingRangeParams p) = .returned (.value v) → answers (.result v.dumped)) ∧
      ∀ range, h (.foldingRangeParams p) = .malformed range →
        answers (.error (-32603) (.str range.message) .null)) := by
  intro reply answers
  have hlookup : (empty.registerAll rs).route? r.method = some ⟨.foldingRanges, h⟩ := by
    rw [hmethod, route?_empty_registerAll, hroute]
  refine ⟨fun ms v hreply hresult => ?_,
    fun hhidden => congrArg Dispatched.reply (dispatch_of_hidden hr hhidden),
    fun hshown p hp => ?_⟩
  · obtain ⟨params, o, hparams, ho, rfl⟩ := returned_of_result hr hid hlookup hreply hresult
    obtain ⟨p, hp, rfl⟩ := decodeParams_of_decode hparams
    exact ⟨p, o, hp, ho, decodes_iff_isResult⟩
  · have hanswers {verdict : Verdict} {outcome : Outcome}
        (hout : h (.foldingRangeParams p) = outcome)
        (hverdict : Concludes ⟨.foldingRanges, h⟩ outcome verdict) : answers verdict := by
      rw [← hout] at hverdict
      exact reply_of_concludes ⟨hr, hshown⟩ hid hlookup (decode_of_decodeParams hp) hverdict
    refine ⟨fun result hout => ⟨_, hanswers hout (.returned _), ?_⟩,
      fun v hout => hanswers hout (.returned _),
      fun range hout => hanswers hout (.refused (.malformed range))⟩
    show decodeResult (ResultType.folding.encode (.ofRanges result)) = _
    rw [encode_ofRanges]
    exact decodeResult_encodeResult result

/-- A list with a range that starts after it ends, as a bare value. -/
def backwardsList : Value :=
  .obj [("ranges", .arr [.obj [("startLine", .int 5), ("endLine", .int 1)]])]

/-- A range that starts after it ends is answered if it is a part of a bare value, and
it cannot be decoded then. -/
theorem backwardsList_is_answered :
    let rs := [hoverRoute, ⟨.foldingRanges, fun _ => .returned (.value backwardsList)⟩]
    firstRoute? rs method = some ⟨.foldingRanges, fun _ => .returned (.value backwardsList)⟩ ∧
      ((empty.registerAll rs).dispatch (toMessage ⟨⟨"file:///a.ts"⟩⟩ (.int 1))).reply =
        .ok (some (.obj [("jsonrpc", .str "2.0"), ("id", .int 1), ("result", backwardsList)])) ∧
      ¬ ∃ result, decodeResult backwardsList = .ok result := by
  intro rs
  have hroute : firstRoute? rs method =
      some ⟨.foldingRanges, fun _ => .returned (.value backwardsList)⟩ := rfl
  have hid : Value.int 1 ≠ .null := nofun
  have hr := ofMessage_toMessage ⟨⟨"file:///a.ts"⟩⟩ hid
  have hp : decodeParams (FoldingRangeParams.encode .wire ⟨⟨"file:///a.ts"⟩⟩) =
      .ok ⟨⟨"file:///a.ts"⟩⟩ := rfl
  obtain ⟨-, -, hshown⟩ := answered_result_decodes_iff hroute hr rfl hid
  have hanswered := hshown rfl _ hp
  refine ⟨hroute, hanswered.2.1 _ rfl, ?_⟩
  rintro ⟨result, h⟩
  cases h

end FoldingRequest

end FoldingProtocol
