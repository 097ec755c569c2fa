import FoldingProtocol.Proofs.DispatchDecision
import FoldingProtocol.Proofs.ShapeRoundTrip

/-!
# Both sides of the folding request agree

One side writes parameters, wraps them into a request, and later unwraps an
answer and reads a result; the other side undoes the first two and does the
last two. Every step has its inverse on the other side, and each pair is one
lemma here: the request that a message was made of, the parameters it carries,
the verdict that an answer spells, the result it carries. The four compose to
the statement that a handler sees the very parameters and that its result, or
its error, arrives as it left.

Null is where the steps differ. A null result is written and stands for no
ranges, a null error is no error, null data is left out, and a null identifier
would make the request a notification; none of these is mistaken for another.
-/

namespace FoldingProtocol

open Rpc Decoder

namespace FoldingRequest

/-! ## Parameters and results -/

theorem decode_params (p : FoldingRangeParams) :
    Shape.foldingRangeParams.decode (p.encode .wire) = .ok (.foldingRangeParams p) :=
  Shape.decode_eq_ok.mpr (Decoded.map_accepted (FoldingRangeParams.readsBack.accepted p))

theorem encodeResult_eq (r : Option FoldingRangeList) :
    encodeResult r = .ofOption (r.map (FoldingRangeList.encode .wire)) := by
  cases r <;> rfl

theorem decodeResult_encodeResult (r : Option FoldingRangeList) :
    decodeResult (encodeResult r) = .ok r := by
  rw [decodeResult, encodeResult_eq, nullable_ofOption FoldingRangeList.readsBack]
  rfl

theorem encode_ofRanges (r : Option FoldingRangeList) :
    ResultType.folding.encode (.ofRanges r) = encodeResult r := by
  cases r <;> rfl

/-! ## Requests -/

theorem ofMessage_toMessage (p : FoldingRangeParams) {id : Value} (hid : id ≠ .null) :
    Request.ofMessage (toMessage p id) = .ok ⟨method, p.encode .wire, id⟩ := by
  cases id with
  | null => exact absurd rfl hid
  | _ => rfl

/-! ## Answers -/

theorem decodeResponse_result (id v : Value) :
    decodeResponse ((Verdict.result v).toMessage id) = (decodeResult v).mapError .refused := rfl

/-- An error arrives with the code that it was sent with. -/
theorem decodeResponse_error (id : Value) {e : ResponseError} {n : Int}
    (hn : (Value.int n).isShowable = true) :
    decodeResponse ((Verdict.error n e.message e.data).toMessage id) =
      .error (.error { e with code := .int n, codeShown := hn }) := by
  obtain ⟨code, message, data, hcode, hmessage⟩ := e
  have hshown : (Value.int n).isShowable = true ∧ message.isShowable = true := ⟨hn, hmessage⟩
  cases data <;>
    simp [decodeResponse, failureOf, ResponseError.ofMembers?, Verdict.toMessage, Verdict.member,
      Request.unlessNull, Members.has, Members.get?, Value.ofOption, hshown]

/-! ## Out and back

The route of the folding request, wherever it stands among others, and a
request for some parameters with an identifier. -/

section

variable {d : Dispatcher} {h : Handler} {p : FoldingRangeParams} {id : Value}

theorem told_toMessage (p : FoldingRangeParams) (hid : id ≠ .null)
    (hshown : id.isShowable = true) : Told (toMessage p id) ⟨method, p.encode .wire, id⟩ :=
  ⟨ofMessage_toMessage p hid, hshown⟩

theorem serve_params (hroute : d.route? method = some ⟨.foldingRanges, h⟩) :
    d.serve ⟨method, p.encode .wire, id⟩ =
      ⟨(Route.conclude ⟨.foldingRanges, h⟩ (h (.foldingRangeParams p))).1,
        [⟨method, .foldingRangeParams p⟩],
        (Route.conclude ⟨.foldingRanges, h⟩ (h (.foldingRangeParams p))).2⟩ :=
  Dispatcher.serve_of_decoded hroute (decode_params p)

theorem calls_toMessage (hroute : d.route? method = some ⟨.foldingRanges, h⟩)
    (hid : id ≠ .null) (hshown : id.isShowable = true) :
    (d.dispatch (toMessage p id)).calls = [⟨method, .foldingRangeParams p⟩] := by
  rw [Dispatcher.calls_of_told (told_toMessage p hid hshown), serve_params hroute]

theorem reply_toMessage (hroute : d.route? method = some ⟨.foldingRanges, h⟩)
    (hid : id ≠ .null) (hshown : id.isShowable = true) {verdict : Verdict}
    (hverdict : Concludes ⟨.foldingRanges, h⟩ (h (.foldingRangeParams p)) verdict) :
    (d.dispatch (toMessage p id)).reply = .ok (some (verdict.toMessage id)) :=
  Dispatcher.reply_of_concludes (told_toMessage p hid hshown) hid hroute (decode_params p) hverdict

end

/-- A request for the ranges of a document, sent through the dispatcher that has
a handler for it. If its identifier cannot be shown, the handler is not called and
no answer comes back. Otherwise the handler is called once, with the parameters
that were sent; an answer with the identifier comes back, unless the handler has
an error that cannot be sent or an exception that says nothing; a result arrives
as it was returned, with no result, no ranges and some ranges kept apart; and an
error arrives with its code, its message and its data. -/
theorem decodeResponse_dispatch_toMessage {before after : List Route} {h : Handler}
    (hfirst : ∀ route ∈ before, route.request.method ≠ method) (p : FoldingRangeParams)
    {id : Value} (hid : id ≠ .null) :
    let out := (Dispatcher.empty.registerAll
      (before ++ ⟨.foldingRanges, h⟩ :: after)).dispatch (toMessage p id)
    (id.isShowable = false → out = ⟨.error .hiddenId, [], []⟩) ∧
      (id.isShowable = true → out.calls = [⟨method, .foldingRangeParams p⟩] ∧
        ((∃ m, out.reply = .ok (some m) ∧ messageId m = id) ∨
          (∃ e bad, h (.foldingRangeParams p) = .failed e ∧ integerCode e.code = .error bad) ∨
            (h (.foldingRangeParams p)).Untold) ∧
        (∀ r, h (.foldingRangeParams p) = .returned (.ofRanges r) →
          ∃ m, out.reply = .ok (some m) ∧ decodeResponse m = .ok r) ∧
        ∀ e code, h (.foldingRangeParams p) = .failed e → e.code = .int code →
          ∃ m, out.reply = .ok (some m) ∧ decodeResponse m = .error (.error e)) := by
  intro out
  have hroute : (Dispatcher.empty.registerAll
      (before ++ ⟨.foldingRanges, h⟩ :: after)).route? method = some ⟨.foldingRanges, h⟩ :=
    (Dispatcher.route?_empty_registerAll _ _).trans (Dispatcher.firstRoute?_middle hfirst)
  refine ⟨fun hhidden => Dispatcher.dispatch_of_hidden (ofMessage_toMessage p hid) hhidden,
    fun hshown => ⟨calls_toMessage hroute hid hshown, ?_, ?_, ?_⟩⟩
  · rcases concludes_or_not ⟨.foldingRanges, h⟩ (h (.foldingRangeParams p)) with
      ⟨verdict, hverdict⟩ | hnone
    · exact .inl ⟨_, reply_toMessage hroute hid hshown hverdict, rfl⟩
    · exact .inr hnone
  · intro r hout
    have hverdict : Concludes ⟨.foldingRanges, h⟩ (h (.foldingRangeParams p))
        (.result (encodeResult r)) := by
      rw [hout, ← encode_ofRanges]
      exact .returned _
    refine ⟨_, reply_toMessage hroute hid hshown hverdict, ?_⟩
    rw [decodeResponse_result, decodeResult_encodeResult]
    rfl
  · intro e code hout hcode
    have hverdict : Concludes ⟨.foldingRanges, h⟩ (h (.foldingRangeParams p))
        (.error code e.message e.data) := by
      rw [hout]
      exact .failed (by rw [hcode]; rfl)
    refine ⟨_, reply_toMessage hroute hid hshown hverdict, ?_⟩
    rw [decodeResponse_error id (hcode ▸ e.codeShown)]
    cases e
    cases hcode
    rfl

/-- A route for another method. -/
def hoverRoute : Route :=
  ⟨⟨"textDocument/hover", .documentIdentifier, .any⟩, fun _ => .crashed (some "no hover")⟩

theorem no_ranges_arrive :
    (∀ route ∈ [hoverRoute], route.request.method ≠ method) ∧ Value.str "" ≠ .null ∧
      ∃ m, ((Dispatcher.empty.registerAll ([hoverRoute] ++
          ⟨.foldingRanges, fun _ => .returned (.ofRanges (some ⟨[]⟩))⟩ :: [hoverRoute])).dispatch
            (toMessage ⟨⟨"file:///a.ts"⟩⟩ (.str ""))).reply = .ok (some m) ∧
        decodeResponse m = .ok (some ⟨[]⟩) := by
  have hfirst : ∀ route ∈ [hoverRoute], route.request.method ≠ method := by
    intro route hmem
    rw [List.mem_singleton.mp hmem]
    decide
  have hid : Value.str "" ≠ .null := nofun
  obtain ⟨-, hanswered⟩ := decodeResponse_dispatch_toMessage hfirst ⟨⟨"file:///a.ts"⟩⟩ hid
  obtain ⟨-, -, harrives, -⟩ := hanswered rfl
  exact ⟨hfirst, hid, harrives _ rfl⟩

/-- The identifier of a request has too many digits, and its handler would have a result. -/
theorem no_ranges_stay_away :
    let route : Route := ⟨.foldingRanges, fun _ => .returned (.ofRanges (some ⟨[]⟩))⟩
    let out := (Dispatcher.empty.registerAll [route]).dispatch
      (toMessage ⟨⟨"file:///a.ts"⟩⟩ .tooLong)
    Value.tooLong ≠ .null ∧ out.calls = [] ∧ ¬ ∃ m, out.reply = .ok (some m) := by
  intro route out
  have hid : Value.tooLong ≠ .null := nofun
  have hout : out = ⟨.error .hiddenId, [], []⟩ :=
    Dispatcher.dispatch_of_hidden (ofMessage_toMessage _ hid) Value.not_isShowable_tooLong
  rw [hout]
  exact ⟨hid, rfl, nofun⟩

end FoldingRequest

end FoldingProtocol
