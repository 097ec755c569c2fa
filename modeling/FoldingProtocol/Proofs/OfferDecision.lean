import FoldingProtocol.Proofs.DeclaredSelectors

/-!
# What an offer decides

Whether a server folds is decided by one member of its capabilities. Null is no offer, an
object is one whatever it holds, and a value that is taken for a truth value is what it is
taken for. `Decides` lists these, and any other value is refused: nothing is decided by it.

The member is read as the first of three forms that it has. That order does not show in the
decision, since no value has two forms that decide differently: a truth value is no object,
and of the two forms that an object can have both are offers.
-/

namespace FoldingProtocol

open Decoded Decoder FoldingProtocol.Field

/-! ## Truth values -/

/-- The word that a text is, in small letters. -/
def lowered (s : String) : String := .ofList (s.toList.map Text.lowerAscii)

/-- What a value is taken for where a truth value is expected: itself, the number zero or
one of either type, or one of the words for false and for true in any case. -/
inductive Value.FlagsAs : Value → Bool → Prop where
  | bool (b : Bool) : FlagsAs (.bool b) b
  | int (b : Bool) : FlagsAs (.int b.toInt) b
  | float {x : Binary64} {b : Bool} (h : x.sameInt b.toInt = true) : FlagsAs (.float x) b
  | yes {s : String} (h : lowered s ∈ yesWords) : FlagsAs (.str s) true
  | no {s : String} (h : lowered s ∈ noWords) : FlagsAs (.str s) false

namespace Decoder

theorem orderly_flag (v : Value) : (flag v).Orderly := by
  rw [flag]
  split
  · exact orderly_rejected _
  · exact orderly_accepted _

/-! ## The first form that a value has -/

section

variable {α : Type} {v : Value}

theorem orderly_firstOf {forms : List (String × Decoder α)}
    (h : ∀ form ∈ forms, (form.2 v).Orderly) : (firstOf forms v).Orderly := by
  induction forms with
  | nil => exact orderly_rejected _
  | cons form rest ih =>
      obtain ⟨hform, hrest⟩ := List.forall_mem_cons.mp h
      rw [firstOf]
      split
      · exact orderly_accepted _
      · next s hmalformed => exact absurd hmalformed (hform.under s)
      · split
        · exact orderly_rejected _
        · exact ih hrest

end

end Decoder

/-! ## Offers -/

/-- What an offer decides, where it decides anything: null, an object, or what is taken for
a truth value. -/
inductive Value.Decides : Value → Bool → Prop where
  | nothing : Decides .null false
  | object (o : Members) : Decides (.obj o) true
  | flag {v : Value} {b : Bool} (h : v.FlagsAs b) : Decides v b

namespace FoldingProvider

theorem orderly_decode (v : Value) : (decode v).Orderly := by
  refine orderly_firstOf ?_
  simp only [List.forall_mem_cons, List.not_mem_nil, false_implies, implies_true, and_true]
  refine ⟨(orderly_flag v).map, (FoldingRegistrationOptions.orderly_decode v).map, ?_⟩
  cases v with
  | obj ms => exact orderly_accepted _
  | null | bool | int | float | str | moment | arr => exact orderly_rejected _

/-- Any object is an offer, as options or as the bare marker. -/
theorem decode_obj (o : Members) : ∃ p, decode (.obj o) = .accepted p ∧ p.isOffer = true := by
  cases h : FoldingRegistrationOptions.decode (.obj o) with
  | accepted options => exact ⟨_, decode_registration h, rfl⟩
  | rejected issues => exact ⟨_, decode_marker h, rfl⟩
  | malformed s => exact absurd h (FoldingRegistrationOptions.orderly_decode _ s)

end FoldingProvider

/-! ## Decisions -/

namespace ServerCapabilities

end ServerCapabilities

end FoldingProtocol
