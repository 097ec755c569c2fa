import FoldingProtocol.Capabilities.Server
import FoldingProtocol.Proofs.KeptMembers

/-!
# An offer of folding survives the wire

A server's capabilities hold an offer of folding, in one of three forms or none, and
whatever else the server said. Written out and read again they hold the same offer,
since each form is read back in its own form: a truth value is no object, and options
are told from a bare object by their selector, which is written even when it is null.

What else the server said can get in the way once. An offer under the field name is
one of the other members if there is a null under the wire name, so nothing is offered;
the null is not written, and the offer comes up when the object is read again. Only a
double that is not finite does not come up, since it is sent as null.
-/

namespace FoldingProtocol

open Decoder Decoded FoldingProtocol.Field

/-! ## The three forms -/

namespace Decoder

variable {α : Type} {label : String} {decode : Decoder α} {rest : List (String × Decoder α)}
  {v : Value} {a : α}

theorem firstOf_of_accepted (h : decode v = .accepted a) :
    firstOf ((label, decode) :: rest) v = .accepted a := by
  rw [firstOf, h]
  rfl

theorem firstOf_of_rejected {issues : List Issue} (h : decode v = .rejected issues)
    (hrest : firstOf rest v = .accepted a) : firstOf ((label, decode) :: rest) v = .accepted a := by
  rw [firstOf, h, hrest]
  rfl

end Decoder

theorem FoldingProvider.readsBack : ReadsBack FoldingProvider.decode (encode .wire) where
  accepted p := by
    cases p with
    | flag b => rfl
    | registration options =>
        have hoptions := FoldingRegistrationOptions.readsBack.accepted options
        obtain ⟨ms, hobject⟩ : ∃ ms, options.encode .wire = .obj ms :=
          ⟨_, options.encode_wire⟩
        have hflag : (Decoder.flag (options.encode .wire)).map flag =
            .rejected [⟨.notFlag, [], options.encode .wire⟩] := by
          rw [hobject]
          rfl
        exact firstOf_of_rejected hflag (firstOf_of_accepted (map_accepted hoptions))
    | marker options => rfl
  notNull p := by
    cases p with
    | flag b => rfl
    | registration options => exact FoldingRegistrationOptions.readsBack.notNull options
    | marker options => rfl

theorem FoldingProvider.isFinite_encode (p : FoldingProvider) :
    (p.encode .wire).isFinite = true := by
  cases p with
  | flag b => rfl
  | registration options => exact FoldingRegistrationOptions.isFinite_encode options
  | marker options => rfl

/-! ## Capabilities -/

namespace ServerCapabilities

variable {ms : Members} {m : ServerCapabilities}

theorem ofValue_obj : ofValue (.obj ms) = .ok m ↔ decode (.obj ms) = .accepted m := by
  rw [ofValue, mapError_eq_ok, titled_eq_ok]

theorem decode_obj (h : decode (.obj ms) = .accepted m) :
    Decoder.optional foldingProviderField FoldingProvider.decode ms =
      .accepted m.foldingProvider ∧ m.extras = Field.others [foldingProviderField] ms := by
  obtain ⟨offer, hoffer, rfl⟩ := map_eq_accepted h
  exact ⟨hoffer, rfl⟩

theorem encode_of_decode (hkeys : ms.Distinct) (h : decode (.obj ms) = .accepted m) :
    m.encode .wire = .obj (foldingProviderField.keptMembers
      (.ofOption (m.foldingProvider.map (FoldingProvider.encode .wire))) ms) := by
  rw [encode, (decode_obj h).2]
  exact object_kept hkeys _

/-- Whatever object a server's capabilities are read from, with either spelling of the
offer or both and with any other members: written out and read again they hold the same
offer, and so the same decision, exactly if no null under the wire name hides a value
under the field name that is sent as something else than null. -/
theorem offer_survives_iff (hkeys : ms.Distinct) (h : ofValue (.obj ms) = .ok m) :
    (∃ again, ofValue (m.encode .wire) = .ok again ∧
      again.foldingProvider = m.foldingProvider ∧ again.supportsFolding = m.supportsFolding) ↔
        ¬ ∃ offer, foldingProviderField.Hides ms offer := by
  have hdecode := ofValue_obj.mp h
  have hread := (decode_obj hdecode).1
  have hkept := optional_keptMembers_iff FoldingProvider.readsBack
    FoldingProvider.isFinite_encode hkeys hread
  rw [encode_of_decode hkeys hdecode, not_exists, ← hkept]
  constructor
  · rintro ⟨again, hagain, hoffer, -⟩
    have hagain := (decode_obj (ofValue_obj.mp hagain)).1
    rwa [hoffer] at hagain
  · intro hagain
    exact ⟨⟨m.foldingProvider, _⟩, ofValue_obj.mpr (map_accepted hagain), rfl, rfl⟩

/-- Options under the wire name, and a truth value under the field name that says
otherwise. -/
def bothSpellings : Members :=
  [("folding_provider", .bool false), ("hoverProvider", .null), ("name", .str "ranges"),
    ("foldingProvider", .obj [("documentSelector", .null)])]

/-- A null under the wire name and an offer under the field name. -/
def hiddenOffer : Members := [("foldingProvider", .null), ("folding_provider", .bool true)]

/-- The options survive their contradiction, and nothing does not survive the offer
that it hid. -/
theorem bothSpellings_survive :
    (∃ m, ofValue (.obj bothSpellings) = .ok m ∧ m.supportsFolding = true ∧
      ∃ again, ofValue (m.encode .wire) = .ok again ∧
        again.foldingProvider = m.foldingProvider ∧
        again.supportsFolding = m.supportsFolding) ∧
    (∃ m, ofValue (.obj hiddenOffer) = .ok m ∧ m.supportsFolding = false ∧
      ¬ ∃ again, ofValue (m.encode .wire) = .ok again ∧
        again.foldingProvider = m.foldingProvider ∧
        again.supportsFolding = m.supportsFolding) := by
  refine ⟨⟨_, rfl, rfl, ?_⟩, ⟨_, rfl, rfl, ?_⟩⟩
  · refine (offer_survives_iff (by decide : bothSpellings.Distinct) rfl).mpr ?_
    rintro ⟨offer, hwire, -, -⟩
    cases hwire
  · refine mt (offer_survives_iff (by decide : hiddenOffer.Distinct) rfl).mp ?_
    exact fun hno => hno ⟨.bool true, rfl, rfl, nofun⟩

end ServerCapabilities

end FoldingProtocol
