import FoldingProtocol.Text.Storage
import Mathlib.Data.List.Chain

/-!
# Stored texts

A marked text is taken apart into the points that it was made of, whatever they are: what
stands behind a mark is a second mark or stands for a half, and no character does both. So
storing loses nothing, and a text can be spoken of by its points.

Two halves that could have made a pair do not stay side by side: the reader of JSON takes
them for the pair. `Joined` says of points that there are none such, and a stored text that
the reader can have read is one that `Holds`.
-/

namespace FoldingProtocol.Text

/-! ## Marks -/

theorem halfChar_toNat (n : Fin 0x800) : (halfChar n).toNat = 0xe000 + n := by
  have hvalid : (0xe000 + n.val).isValidChar := .inr ⟨by omega, by omega⟩
  rw [halfChar, Char.ofNat, dif_pos hvalid]
  exact UInt32.toNat_ofNatLT ..

theorem half?_halfChar (n : Fin 0x800) : half? (halfChar n) = some n := by
  rw [half?, dif_pos (by rw [halfChar_toNat]; omega), Option.some.injEq, Fin.ext_iff]
  show (halfChar n).toNat - 0xe000 = n
  rw [halfChar_toNat]
  omega

theorem markedPoints_cons_of_ne {c : Char} (h : c ≠ mark) (rest : List Char) :
    markedPoints (c :: rest) = .char c :: markedPoints rest := by
  cases rest with
  | nil => rfl
  | cons d rest => rw [markedPoints, if_neg h]

theorem markedPoints_marked (p : Point) (rest : List Char) :
    markedPoints (p.marked ++ rest) = p :: markedPoints rest := by
  cases p with
  | half n =>
      show markedPoints (mark :: halfChar n :: rest) = _
      rw [markedPoints, if_pos rfl, half?_halfChar]
  | char c =>
      rw [Point.marked]
      split
      · next h =>
          rw [h]
          rfl
      · next h => exact markedPoints_cons_of_ne h rest

/-- A marked text is taken apart into what it was made of. -/
theorem markedPoints_flatMap (ps : List Point) : markedPoints (ps.flatMap Point.marked) = ps := by
  induction ps with
  | nil => rfl
  | cons p ps ih => rw [List.flatMap_cons, markedPoints_marked, ih]

theorem marked_of_ne {c : Char} (h : c ≠ mark) : (Point.char c).marked = [c] := if_neg h

theorem flatMap_marked_of_not_mem {cs : List Char} (h : mark ∉ cs) :
    (cs.map Point.char).flatMap Point.marked = cs := by
  induction cs with
  | nil => rfl
  | cons c cs ih =>
      rw [List.mem_cons, not_or] at h
      rw [List.map_cons, List.flatMap_cons, marked_of_ne (Ne.symm h.1), ih h.2]
      rfl

theorem markedPoints_of_not_mem {cs : List Char} (h : mark ∉ cs) :
    markedPoints cs = cs.map .char := by
  have hpoints := markedPoints_flatMap (cs.map .char)
  rwa [flatMap_marked_of_not_mem h] at hpoints

/-! ## Storing -/

namespace Storage

theorem store?_cons (s : Storage) (p : Point) (ps : List Point) :
    s.store? (p :: ps) = (s.point? p).bind fun cs => (s.store? ps).map (cs ++ ·) := by
  rw [store?]
  cases s.point? p with
  | none => rfl
  | some cs => cases s.store? ps <;> rfl

theorem store?_marked (ps : List Point) : marked.store? ps = some (ps.flatMap Point.marked) := by
  induction ps with
  | nil => rfl
  | cons p ps ih => rw [store?_cons, ih]; rfl

theorem store?_plain_iff {ps : List Point} {cs : List Char} :
    plain.store? ps = some cs ↔ ps = cs.map .char := by
  induction ps generalizing cs with
  | nil => cases cs <;> simp [store?]
  | cons p ps ih =>
      rw [store?_cons]
      cases p with
      | half n => exact iff_of_false nofun (by cases cs <;> simp)
      | char c =>
          show ((plain.store? ps).map ([c] ++ ·)) = some cs ↔ _
          rw [Option.map_eq_some_iff]
          constructor
          · rintro ⟨ds, hds, rfl⟩
            rw [ih.mp hds]
            rfl
          · intro h
            cases cs with
            | nil => cases h
            | cons d cs =>
                rw [List.map_cons, List.cons.injEq, Point.char.injEq] at h
                exact ⟨cs, ih.mpr h.2, by rw [h.1]; rfl⟩

theorem points_of_store? {s : Storage} {ps : List Point} {cs : List Char}
    (h : s.store? ps = some cs) : s.points cs = ps := by
  cases s with
  | plain => exact (store?_plain_iff.mp h).symm
  | marked =>
      rw [store?_marked] at h
      cases h
      exact markedPoints_flatMap ps

theorem store?_of_not_mem (s : Storage) {cs : List Char} (h : mark ∉ cs) :
    s.store? (cs.map .char) = some cs := by
  cases s with
  | plain => exact store?_plain_iff.mpr rfl
  | marked => rw [store?_marked, flatMap_marked_of_not_mem h]

theorem plainly?_of_not_mem (s : Storage) {cs : List Char} (h : mark ∉ cs) :
    s.plainly? cs = some cs := by
  cases s with
  | plain => rfl
  | marked => rw [plainly?, markedPoints_of_not_mem h]; exact store?_plain_iff.mpr rfl

theorem told_append_of_not_mem {cs : List Char} (h : mark ∉ cs) (rest : List Char) :
    marked.told (cs ++ rest) = cs ++ marked.told rest := by
  induction cs with
  | nil => rfl
  | cons c cs ih =>
      rw [List.mem_cons, not_or] at h
      rw [List.cons_append, told, markedPoints_cons_of_ne (Ne.symm h.1), List.flatMap_cons]
      exact congrArg (c :: ·) (ih h.2)

/-- A half is all that is in the way of showing a text in characters. -/
theorem plainly?_eq_none_iff {ps : List Point} :
    marked.plainly? (ps.flatMap Point.marked) = none ↔ ∃ n, .half n ∈ ps := by
  rw [plainly?, markedPoints_flatMap]
  induction ps with
  | nil => simp [store?]
  | cons p ps ih =>
      rw [store?_cons]
      cases p with
      | half n => exact iff_of_true rfl ⟨n, List.mem_cons_self⟩
      | char c => simpa [point?] using ih

end Storage

/-! ## Texts that can have been read -/

/-- Points among which no two halves side by side would make a pair. -/
def Joined (ps : List Point) : Prop :=
  ps.IsChain fun p q => ¬ (p.isHigh = true ∧ q.isLow = true)

instance (ps : List Point) : Decidable (Joined ps) := inferInstanceAs (Decidable (ps.IsChain _))

theorem joined_map_char (cs : List Char) : Joined (cs.map .char) := by
  induction cs with
  | nil => exact .nil
  | cons c cs ih => exact List.isChain_cons.mpr ⟨fun _ _ h => Bool.false_ne_true h.1, ih⟩

/-- A text that is stored as points that the reader of JSON can have read. -/
def Storage.Holds (s : Storage) (text : String) : Prop :=
  ∃ ps, s.store? ps = some text.toList ∧ Joined ps

theorem Storage.holds_of_not_mem (s : Storage) {text : String} (h : mark ∉ text.toList) :
    s.Holds text := ⟨_, s.store?_of_not_mem h, joined_map_char _⟩

/-- Any text can have been read where texts are plain. -/
theorem Storage.holds_plain (text : String) : plain.Holds text :=
  ⟨_, store?_plain_iff.mpr rfl, joined_map_char _⟩

end FoldingProtocol.Text
