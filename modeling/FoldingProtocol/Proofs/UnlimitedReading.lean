import FoldingProtocol.Proofs.NumberLimits

/-!
# A limit never changes what a text spells

How many digits an integer may have is asked at one place of the reader, and only to
refuse. So reading a text under a limit comes to what reading it without one comes to,
value or fault, unless a numeral in it is refused. The two runs are followed through the
loops of the reader in lockstep, on the same fuel.
-/

namespace FoldingProtocol.Json

section

variable {α β : Type} {limited unlimited : Except Fault α}

/-- Reading under a limit comes to what reading without one comes to, unless it refuses a
numeral. -/
def Limits (limited unlimited : Except Fault α) : Prop :=
  limited = unlimited ∨ ∃ count, limited = .error (.digits count)

theorem Limits.refl (x : Except Fault α) : Limits x x := .inl rfl

theorem Limits.bind (h : Limits limited unlimited) {f g : α → Except Fault β}
    (hf : ∀ a, Limits (f a) (g a)) : Limits (limited >>= f) (unlimited >>= g) := by
  rcases h with rfl | ⟨count, rfl⟩
  · cases limited with
    | ok a => exact hf a
    | error fault => exact .refl _
  · exact .inr ⟨count, rfl⟩

theorem Limits.map (h : Limits limited unlimited) (f : α → β) :
    Limits (limited.map f) (unlimited.map f) := by
  rcases h with rfl | ⟨count, rfl⟩
  · exact .refl _
  · exact .inr ⟨count, rfl⟩

theorem Limits.unlimited_eq_ok (h : Limits limited unlimited) {a : α} (ha : limited = .ok a) :
    unlimited = .ok a := by
  rcases h with rfl | ⟨count, hcount⟩
  · exact ha
  · rw [hcount] at ha
    cases ha

end

variable {limit : Option Nat} {storage : Text.Storage} {fuel : Nat}

theorem limits_number (limit : Option Nat) (cs : List Char) :
    Limits (number limit cs) (number none cs) := by
  unfold number
  split
  next negative body hsign =>
    cases whole? body with
    | none => exact .refl _
    | some parts =>
        dsimp only
        split
        · split
          · exact .inr ⟨_, rfl⟩
          · exact .refl _
        · exact .refl _

theorem limits_scalar (limit : Option Nat) (cs : List Char) :
    Limits (scalar limit cs) (scalar none cs) := by
  unfold scalar
  split
  · exact .refl _
  · exact limits_number limit cs

/-- The three loops of the reader, with and without a limit. -/
structure ReadsAlike (limit : Option Nat) (storage : Text.Storage) (fuel : Nat) : Prop where
  value : ∀ cs, Limits (value ⟨limit, storage⟩ fuel cs) (value ⟨none, storage⟩ fuel cs)
  items : ∀ cs, Limits (items ⟨limit, storage⟩ fuel cs) (items ⟨none, storage⟩ fuel cs)
  members : ∀ cs, Limits (members ⟨limit, storage⟩ fuel cs) (members ⟨none, storage⟩ fuel cs)

theorem ReadsAlike.value_succ (ih : ReadsAlike limit storage fuel) (cs : List Char) :
    Limits (Json.value ⟨limit, storage⟩ (fuel + 1) cs)
      (Json.value ⟨none, storage⟩ (fuel + 1) cs) := by
  unfold Json.value
  split
  · exact .refl _
  · split
    · exact .refl _
    · exact (ih.items _).map _
  · split
    · exact .refl _
    · exact (ih.members _).map _
  · exact limits_scalar limit _

theorem ReadsAlike.items_succ (ih : ReadsAlike limit storage fuel) (cs : List Char) :
    Limits (Json.items ⟨limit, storage⟩ (fuel + 1) cs)
      (Json.items ⟨none, storage⟩ (fuel + 1) cs) := by
  unfold Json.items
  refine (ih.value cs).bind fun found => ?_
  dsimp only
  split
  · exact .refl _
  · exact (ih.items _).bind fun more => .refl _
  · exact .refl _

theorem ReadsAlike.members_succ (ih : ReadsAlike limit storage fuel) (cs : List Char) :
    Limits (Json.members ⟨limit, storage⟩ (fuel + 1) cs)
      (Json.members ⟨none, storage⟩ (fuel + 1) cs) := by
  unfold Json.members
  split
  · refine (Limits.refl _).bind fun name => ?_
    dsimp only
    split
    · refine (ih.value _).bind fun found => ?_
      split
      · exact .refl _
      · exact (ih.members _).bind fun more => .refl _
      · exact .refl _
    · exact .refl _
  · exact .refl _

theorem readsAlike (limit : Option Nat) (storage : Text.Storage) (fuel : Nat) :
    ReadsAlike limit storage fuel := by
  induction fuel with
  | zero => exact ⟨fun _ => .refl _, fun _ => .refl _, fun _ => .refl _⟩
  | succ fuel ih => exact ⟨ih.value_succ, ih.items_succ, ih.members_succ⟩

/-- A limit refuses some texts, and changes what no text spells. -/
theorem limits_readIn (limit : Option Nat) (storage : Text.Storage) (cs : List Char) :
    Limits (readIn ⟨limit, storage⟩ cs) (readIn ⟨none, storage⟩ cs) := by
  unfold readIn
  split
  · exact .refl _
  · exact ((readsAlike limit storage _).value _).bind fun found => .refl _

end FoldingProtocol.Json
