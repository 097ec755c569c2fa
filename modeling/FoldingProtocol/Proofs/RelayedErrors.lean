import FoldingProtocol.Proofs.FoldingAnswers
import FoldingProtocol.Proofs.NumberLimits
import Mathlib.Logic.Relation

/-!
# Errors that are passed on

A server that asks another one passes on the error it is answered with: the error is read
from the answer as it came, and the handler fails with it. On the way out its code is made
an integer, which it need not have been, and everything else goes on unchanged. So an error
has one way to get lost and one to be misread. It gets lost if its code stands for no
integer, because then there is no answer. And it is misread if its code stands for the
number of an unknown method without being equal to it, as a text with that number in it
does: the sender did not say that the method is unknown, and the receiver is told so.

Every other error arrives, and one that has arrived is passed on from then on without any
change, through as many servers as there are.
-/

namespace FoldingProtocol.Rpc

open Dispatcher FoldingRequest

/-! ## Codes -/

/-- The integer that a code is sent on as. -/
inductive StandsFor : Value → Int → Prop where
  | bool (b : Bool) : StandsFor (.bool b) b.toInt
  | int (n : Int) : StandsFor (.int n) n
  | float {x : Binary64} (h : x.isFinite = true) : StandsFor (.float x) x.truncate
  | str {s : String} {n : Int} (h : Numeral.readWritten s.toList = .ok n) :
      StandsFor (.str s) n

/-- A code that means the same after it was sent on: it stands for an integer, and for the
number of an unknown method only if it equals it. -/
def KeepsMeaning (code : Value) : Prop :=
  ∃ n, StandsFor code n ∧
    (n = ErrorCode.methodNotFound.number → code.same (.int n) = true)

theorem readCode_eq_ok {s : String} {n : Int} :
    readCode s = .ok n ↔ Numeral.readWritten s.toList = .ok n := by
  rw [readCode]
  split <;> simp_all

theorem integerCode_eq_ok {code : Value} {n : Int} :
    integerCode code = .ok n ↔ StandsFor code n := by
  constructor
  · intro h
    cases code with
    | bool b => cases h; exact .bool b
    | int m => cases h; exact .int n
    | str s => exact .str (readCode_eq_ok.mp h)
    | float x =>
        rw [integerCode] at h
        split at h
        · cases h
        · split at h <;> rename_i hfinite
          · cases h
          · cases h
            exact .float (by simpa using hfinite)
    | null | moment | arr | obj => cases h
  · intro h
    cases h with
    | bool b => rfl
    | int => rfl
    | str h => exact readCode_eq_ok.mpr h
    | float h =>
        rename_i x
        have hnumber : x.isNaN = false := by
          simp only [Binary64.isNaN, Binary64.isFinite, decide_eq_true_eq,
            decide_eq_false_iff_not] at h ⊢
          omega
        simp [integerCode, h, hnumber]

theorem integerCode_eq_error {code : Value} :
    (∃ bad, integerCode code = .error bad) ↔ ¬ ∃ n, StandsFor code n := by
  simp only [← integerCode_eq_ok]
  cases integerCode code <;> simp

theorem StandsFor.eq_of_same {code : Value} {n m : Int} (h : StandsFor code n)
    (hsame : code.same (.int m) = true) : n = m := by
  cases h with
  | bool b => simpa [Value.same, Value.sameScalar] using hsame
  | int => simpa [Value.same, Value.sameScalar] using hsame
  | float h =>
      simp only [Value.same, Value.sameScalar, Binary64.sameInt, Bool.and_eq_true] at hsame
      simpa using hsame.2
  | str h => simp [Value.same, Value.sameScalar] at hsame

/-- Whatever a code that can be shown stands for can be shown, so that the error is one on the
other side as well. -/
theorem StandsFor.isShowable {code : Value} {n : Int} (h : StandsFor code n)
    (hcode : code.isShowable = true) : (Value.int n).isShowable = true := by
  cases h with
  | bool b => cases b <;> rfl
  | int => exact hcode
  | float hfinite => exact Numeral.isShowable_iff.mpr (Binary64.short_truncate hfinite)
  | str hread => exact Numeral.isShowable_iff.mpr (Numeral.short_readWritten hread)

namespace ResponseError

/-- What stands in an error object for its code: a missing one has a number of its own. -/
def codeIn (err : Members) : Value := (err.get? "code").getD (.int (-1))

theorem code_of_ofMembers? {err : Members} {e : ResponseError} (h : ofMembers? err = some e) :
    e.code = codeIn err := by
  unfold ofMembers? at h
  dsimp only at h
  split at h
  · cases h; rfl
  · cases h

theorem ofMembers?_ofCode_and_text {code : Value} (hcode : code.isShowable = true) (text : String) :
    ofMembers? [("code", code), ("message", .str text)] =
      some { code, message := .str text, data := .null, codeShown := hcode } :=
  dif_pos ⟨hcode, rfl⟩

/-- The error that is read where an error was sent on as an integer. -/
def SentOn (e : ResponseError) (n : Int) (received : ResponseError) : Prop :=
  received.code = .int n ∧ received.message = e.message ∧ received.data = e.data

theorem SentOn.unique {e received other : ResponseError} {n : Int}
    (h : e.SentOn n received) (hother : e.SentOn n other) : received = other := by
  cases received
  cases other
  obtain ⟨hcode, hmessage, hdata⟩ := h
  obtain ⟨hcode', hmessage', hdata'⟩ := hother
  dsimp only at hcode hmessage hdata hcode' hmessage' hdata'
  subst hcode hmessage hdata hcode' hmessage' hdata'
  rfl

theorem SentOn.notFound_iff {e received : ResponseError} {n : Int}
    (h : e.SentOn n received) :
    received.isMethodNotFound = true ↔ n = ErrorCode.methodNotFound.number := by
  rw [ResponseError.isMethodNotFound, h.1]
  simp [Value.same, Value.sameScalar]

/-- Whether the receiver reads an unknown method where the sender did. -/
theorem SentOn.verdict_iff {e received : ResponseError} {n : Int}
    (h : e.SentOn n received) (hstands : StandsFor e.code n) :
    received.isMethodNotFound = e.isMethodNotFound ↔
      (n = ErrorCode.methodNotFound.number → e.code.same (.int n) = true) := by
  rw [Bool.eq_iff_iff, h.notFound_iff, ResponseError.isMethodNotFound]
  constructor
  · intro hsame hn
    rw [hn]
    exact hsame.mp hn
  · intro hkept
    refine ⟨fun hn => ?_, hstands.eq_of_same⟩
    rw [← hn]
    exact hkept hn

end ResponseError

/-! ## One server -/

/-- A request whose answer is to tell of an error: its identifier can be shown, and the
handler that serves it fails with the error. -/
def FailsWith (rs : List Route) (message : Value) (e : ResponseError) : Prop :=
  ∃ r route params, Told message r ∧ r.id ≠ .null ∧
    firstRoute? rs r.method = some route ∧
    route.request.params.decode r.params = .ok params ∧ route.handler params = .failed e

section

variable {rs : List Route} {message : Value} {e : ResponseError}

theorem FailsWith.reply_of_standsFor (h : FailsWith rs message e) {n : Int}
    (hcode : StandsFor e.code n) :
    ((empty.registerAll rs).dispatch message).reply =
      .ok (some ((Verdict.error n e.message e.data).toMessage (messageId message))) := by
  obtain ⟨r, route, params, htold, hid, hroute, hparams, hout⟩ := h
  have hverdict : Concludes route (route.handler params) (.error n e.message e.data) := by
    rw [hout]
    exact .failed (integerCode_eq_ok.mpr hcode)
  have hlookup := (route?_empty_registerAll rs _).trans hroute
  rw [messageId_of_request htold.request]
  exact reply_of_concludes htold hid hlookup hparams hverdict

theorem FailsWith.reply_of_badCode (h : FailsWith rs message e) {bad : BadCode}
    (hcode : integerCode e.code = .error bad) :
    ((empty.registerAll rs).dispatch message).reply = .error (.badCode bad) := by
  obtain ⟨r, route, params, htold, hid, hroute, hparams, hout⟩ := h
  have hlookup := (route?_empty_registerAll rs _).trans hroute
  exact Dispatcher.reply_of_badCode htold hid (result_of_failed hlookup hparams hout) hcode

/-- The other side reads an error with the integer for its code. -/
theorem decodeResponse_sentOn (id : Value) {n : Int} (hcode : StandsFor e.code n) :
    ∃ received, decodeResponse ((Verdict.error n e.message e.data).toMessage id) =
      .error (.error received) ∧ e.SentOn n received :=
  ⟨_, decodeResponse_error id (hcode.isShowable e.codeShown), rfl, rfl, rfl⟩

/-- What the other side reads, if it reads an error at all. -/
theorem FailsWith.arrives_iff (h : FailsWith rs message e) {received : ResponseError} :
    (∃ m, ((empty.registerAll rs).dispatch message).reply = .ok (some m) ∧
        decodeResponse m = .error (.error received)) ↔
      ∃ n, StandsFor e.code n ∧ e.SentOn n received := by
  constructor
  · rintro ⟨m, hreply, hdecode⟩
    cases hcode : integerCode e.code with
    | error bad =>
        rw [h.reply_of_badCode hcode] at hreply
        cases hreply
    | ok n =>
        have hstands := integerCode_eq_ok.mp hcode
        rw [h.reply_of_standsFor hstands] at hreply
        cases hreply
        obtain ⟨read, hread, hsent⟩ := decodeResponse_sentOn (messageId message) hstands
        rw [hread] at hdecode
        cases hdecode
        exact ⟨n, hstands, hsent⟩
  · rintro ⟨n, hstands, hsent⟩
    obtain ⟨read, hread, hsame⟩ := decodeResponse_sentOn (messageId message) hstands
    obtain rfl := hsame.unique hsent
    exact ⟨_, h.reply_of_standsFor hstands, hread⟩

end

/-- A route that passes on an error. -/
def passingRoute (e : ResponseError) : Route := ⟨.foldingRanges, fun _ => .failed e⟩

theorem failsWith_passingRoute (e : ResponseError) :
    FailsWith [passingRoute e] falsyRequest e :=
  ⟨_, passingRoute e, _, ⟨ofMessage_rangesRequest _, rfl⟩, nofun, rfl, rfl, rfl⟩

/-- An error that another server was answered with is passed on. The answer is read as an
error with the same message and the same data, and as one about an unknown method exactly
if it was one, as long as its code keeps its meaning, and only then. Whatever integer the
code stands for is the code that arrives, in an answer with the identifier of the request;
if it stands for none there is no answer. -/
theorem relayed_error_arrives_iff {rs : List Route} {message : Value} {err : Members}
    {original : ResponseError} (hread : ResponseError.ofMembers? err = some original)
    (h : FailsWith rs message original) :
    let code := ResponseError.codeIn err
    let reply := ((empty.registerAll rs).dispatch message).reply
    ((∃ m received, reply = .ok (some m) ∧ decodeResponse m = .error (.error received) ∧
        received.message = original.message ∧ received.data = original.data ∧
        received.isMethodNotFound = original.isMethodNotFound) ↔
      KeepsMeaning code) ∧
    (∀ n, StandsFor code n →
      ∃ m received, reply = .ok (some m) ∧ messageId m = messageId message ∧
        decodeResponse m = .error (.error received) ∧ original.SentOn n received) ∧
    ((¬ ∃ n, StandsFor code n) → ∃ bad, reply = .error (.badCode bad)) := by
  intro code reply
  have hcode : code = original.code := (ResponseError.code_of_ofMembers? hread).symm
  rw [hcode]
  refine ⟨⟨?_, ?_⟩, fun n hstands => ?_, fun hnone => ?_⟩
  · rintro ⟨m, received, hreply, hdecode, -, -, hverdict⟩
    obtain ⟨n, hstands, hsent⟩ := h.arrives_iff.mp ⟨m, hreply, hdecode⟩
    exact ⟨n, hstands, (hsent.verdict_iff hstands).mp hverdict⟩
  · rintro ⟨n, hstands, hkept⟩
    obtain ⟨received, hdecode, hsent⟩ := decodeResponse_sentOn (messageId message) hstands
    exact ⟨_, received, h.reply_of_standsFor hstands, hdecode, hsent.2.1, hsent.2.2,
      (hsent.verdict_iff hstands).mpr hkept⟩
  · obtain ⟨received, hdecode, hsent⟩ := decodeResponse_sentOn (messageId message) hstands
    exact ⟨_, received, h.reply_of_standsFor hstands, rfl, hdecode, hsent⟩
  · obtain ⟨bad, hbad⟩ := integerCode_eq_error.mpr hnone
    exact ⟨bad, h.reply_of_badCode hbad⟩

/-- An error with some code, as another server may spell it. -/
def busyError (code : Value) : Members := [("code", code), ("message", .str "busy")]

/-- The error that is read from it. -/
def readBusyError (code : Value) (hcode : code.isShowable = true) : ResponseError where
  code := code
  message := .str "busy"
  data := .null
  codeShown := hcode

/-- A code that is null makes the error get lost, and one that is a numeral arrives as a
number; the text of the number of an unknown method is read as that number only after it
was passed on. -/
theorem busyError_needs_a_number :
    let reply := fun e => ((empty.registerAll [passingRoute e]).dispatch falsyRequest).reply
    (∀ code hcode, ResponseError.ofMembers? (busyError code) = some (readBusyError code hcode) ∧
        FailsWith [passingRoute (readBusyError code hcode)] falsyRequest
          (readBusyError code hcode)) ∧
      (∃ bad, reply (readBusyError .null rfl) = .error (.badCode bad)) ∧
      (∃ m received, reply (readBusyError (.str "12") rfl) = .ok (some m) ∧
        messageId m = .bool false ∧ decodeResponse m = .error (.error received) ∧
        received.code = .int 12) ∧
      (readBusyError (.str "-32601") rfl).isMethodNotFound = false ∧
      ∃ m received, reply (readBusyError (.str "-32601") rfl) = .ok (some m) ∧
        messageId m = .bool false ∧ decodeResponse m = .error (.error received) ∧
        received.code = .int (-32601) := by
  intro reply
  have hread (code : Value) (hcode : code.isShowable = true) :
      ResponseError.ofMembers? (busyError code) = some (readBusyError code hcode) :=
    ResponseError.ofMembers?_ofCode_and_text hcode "busy"
  have hfails (code : Value) (hcode : code.isShowable = true) :=
    failsWith_passingRoute (readBusyError code hcode)
  refine ⟨fun code hcode => ⟨hread code hcode, hfails code hcode⟩, ?_, ?_, rfl, ?_⟩
  · obtain ⟨-, -, hlost⟩ := relayed_error_arrives_iff (hread .null rfl) (hfails .null rfl)
    exact hlost fun ⟨n, hstands⟩ => nomatch hstands
  · obtain ⟨-, harrives, -⟩ := relayed_error_arrives_iff (hread (.str "12") rfl) (hfails _ rfl)
    obtain ⟨m, received, hreply, hid, hdecode, hsent⟩ := harrives 12 (.str rfl)
    exact ⟨m, received, hreply, hid, hdecode, hsent.1⟩
  · obtain ⟨-, harrives, -⟩ :=
      relayed_error_arrives_iff (hread (.str "-32601") rfl) (hfails _ rfl)
    obtain ⟨m, received, hreply, hid, hdecode, hsent⟩ := harrives (-32601) (.str rfl)
    exact ⟨m, received, hreply, hid, hdecode, hsent.1⟩

/-! ## Many servers -/

/-- An error that a server passes on, and the error that is read from its answer. -/
def PassedOn (e received : ResponseError) : Prop :=
  ∃ rs message m, FailsWith rs message e ∧
    ((empty.registerAll rs).dispatch message).reply = .ok (some m) ∧
    decodeResponse m = .error (.error received)

theorem passedOn_iff {e received : ResponseError} :
    PassedOn e received ↔ ∃ n, StandsFor e.code n ∧ e.SentOn n received := by
  constructor
  · rintro ⟨rs, message, m, hfails, hreply, hdecode⟩
    exact hfails.arrives_iff.mp ⟨m, hreply, hdecode⟩
  · intro h
    have hfails := failsWith_passingRoute e
    obtain ⟨m, hreply, hdecode⟩ := hfails.arrives_iff.mpr h
    exact ⟨_, _, m, hfails, hreply, hdecode⟩

/-- However many servers pass an error on, what arrives is what left the first of them. -/
theorem passedOn_by_many_iff {e received : ResponseError} :
    Relation.TransGen PassedOn e received ↔ PassedOn e received := by
  refine ⟨fun h => ?_, .single⟩
  induction h with
  | single h => exact h
  | tail _ hlast ih =>
      obtain ⟨n, hstands, hcode, hmessage, hdata⟩ := passedOn_iff.mp ih
      obtain ⟨m, hagain, hcode', hmessage', hdata'⟩ := passedOn_iff.mp hlast
      rw [hcode] at hagain
      cases hagain
      exact passedOn_iff.mpr ⟨n, hstands, hcode', hmessage'.trans hmessage, hdata'.trans hdata⟩

end FoldingProtocol.Rpc
