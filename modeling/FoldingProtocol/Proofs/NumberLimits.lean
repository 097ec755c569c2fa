import FoldingProtocol.Proofs.DecodedRanges
import FoldingProtocol.Proofs.JsonScalars
import Mathlib.Data.List.TakeWhile

/-!
# Numbers stay short

The reader of JSON refuses an integer with too many digits, and it joins the halves that
make a pair, so what it reads can be written and read again. The same holds of what is
decoded from it: a count is an integer that was read, a truth value, a double that fits
into a word, or a text that spells an integer, and such a text is held to the same number
of digits as the reader; and a kind is a text that was read.
-/

namespace FoldingProtocol

section

variable {ε φ α β : Type}

theorem bind_eq_ok {x : Except ε α} {f : α → Except ε β} {b : β} :
    x >>= f = .ok b ↔ ∃ a, x = .ok a ∧ f a = .ok b := by
  cases x with
  | ok a => exact ⟨fun h => ⟨a, rfl, h⟩, fun ⟨_, ha, h⟩ => by cases ha; exact h⟩
  | error e => exact ⟨nofun, nofun⟩

theorem map_eq_ok {x : Except ε α} {f : α → β} {b : β} :
    x.map f = .ok b ↔ ∃ a, x = .ok a ∧ f a = b := by
  cases x with
  | ok a => simp [Except.map]
  | error e => exact ⟨nofun, nofun⟩

theorem mapError_eq_ok {x : Except ε α} {f : ε → φ} {a : α} : x.mapError f = .ok a ↔ x = .ok a := by
  cases x <;> simp [Except.mapError]

end

namespace Numeral

theorem short_of_lt {n : Int} (h : n.natAbs < 10 ^ 19) : Short n :=
  Nat.lt_of_lt_of_le h (Nat.pow_le_pow_right (by decide) (by decide))

theorem short_neg {n : Int} (h : Short n) : Short (-n) := by
  rw [Short, Int.natAbs_neg]
  exact h

theorem short_of_length {n : Nat} {k : Nat} (h : n < 10 ^ k) (hk : k ≤ digitLimit) : Short n :=
  Nat.lt_of_lt_of_le h (Nat.pow_le_pow_right (by decide) hk)

end Numeral

/-- A value all of whose integers have no more digits than a numeral may have. -/
inductive Value.Short : Value → Prop where
  | null : Short .null
  | bool (b : Bool) : Short (.bool b)
  | int {n : Int} (hn : Numeral.Short n) : Short (.int n)
  | float (x : Binary64) : Short (.float x)
  | str (s : String) : Short (.str s)
  | moment (m : Moment) : Short (.moment m)
  | arr {items : List Value} (hitems : ∀ v ∈ items, Short v) : Short (.arr items)
  | obj {members : Members} (hmembers : ∀ m ∈ members, Short m.2) : Short (.obj members)

theorem Value.Short.isShowable {v : Value} (h : v.Short) : v.isShowable = true := by
  induction h with
  | null | bool | float | str | moment => rfl
  | int hn => exact Numeral.isShowable_iff.mpr hn
  | arr _ ih => exact areShowable_iff.mpr ih
  | obj _ ih => exact haveShowable_iff.mpr ih

/-- A value that can have been read from a file: its integers are short, and its texts
have no halves that make a pair. -/
inductive Value.Legible : Value → Prop where
  | null : Legible .null
  | bool (b : Bool) : Legible (.bool b)
  | int {n : Int} (hn : Numeral.Short n) : Legible (.int n)
  | float (x : Binary64) : Legible (.float x)
  | str {s : String} (hs : Text.Storage.marked.Holds s) : Legible (.str s)
  | arr {items : List Value} (hitems : ∀ v ∈ items, Legible v) : Legible (.arr items)
  | obj {members : Members} (hmembers : ∀ m ∈ members, Legible m.2) : Legible (.obj members)

theorem Value.Legible.short {v : Value} (h : v.Legible) : v.Short := by
  induction h with
  | null => exact .null
  | bool b => exact .bool b
  | int hn => exact .int hn
  | float x => exact .float x
  | str => exact .str _
  | arr _ ih => exact .arr ih
  | obj _ ih => exact .obj ih

theorem Members.forall_mem_put {P : Value → Prop} {key : String} {v : Value} {ms : Members}
    (hv : P v) (hms : ∀ m ∈ ms, P m.2) : ∀ m ∈ ms.put key v, P m.2 := by
  induction ms with
  | nil => exact List.forall_mem_singleton.mpr hv
  | cons m ms ih =>
      rw [List.forall_mem_cons] at hms
      rw [put]
      split
      · exact List.forall_mem_cons.mpr ⟨hv, hms.2⟩
      · exact List.forall_mem_cons.mpr ⟨hms.1, ih hms.2⟩

/-! ## What the reader gives -/

namespace Json

theorem digits_lt {ds : List Char} (hds : ∀ c ∈ ds, isDigit c = true) (n : Nat) :
    ds.foldl (fun n c => 10 * n + (c.toNat - '0'.toNat)) n < (n + 1) * 10 ^ ds.length := by
  induction ds generalizing n with
  | nil => simp
  | cons d ds ih =>
      rw [List.forall_mem_cons] at hds
      have hd := hds.1
      rw [isDigit, Bool.and_eq_true, decide_eq_true_eq, decide_eq_true_eq] at hd
      have hhigh : d.toNat ≤ 57 := hd.2
      have hzero : '0'.toNat = 48 := rfl
      have hstep : 10 * n + (d.toNat - '0'.toNat) + 1 ≤ (n + 1) * 10 := by omega
      refine Nat.lt_of_lt_of_le (ih hds.2 _) ?_
      rw [List.length_cons, Nat.pow_succ', ← Nat.mul_assoc]
      exact Nat.mul_le_mul_right _ hstep

theorem ofDigits_lt {ds : List Char} (hds : ∀ c ∈ ds, isDigit c = true) :
    ofDigits ds < 10 ^ ds.length := by
  have h := digits_lt hds 0
  rwa [Nat.zero_add, Nat.one_mul] at h

theorem isDigit_of_whole? {cs ds rest : List Char} (h : whole? cs = some (ds, rest)) :
    ∀ c ∈ ds, isDigit c = true := by
  unfold whole? at h
  split at h
  · cases h
  · split at h
    · cases h; exact List.forall_mem_singleton.mpr rfl
    · split at h
      · rw [List.span_eq_takeWhile_dropWhile] at h
        cases h
        exact fun c hc => List.mem_takeWhile_imp hc
      · cases h

theorem legible_number {cs rest : List Char} {v : Value}
    (h : number (some Numeral.digitLimit) cs = .ok (v, rest)) : v.Legible := by
  unfold number at h
  split at h
  next negative body hsign =>
    split at h
    · cases h
    · next whole more hwhole =>
        simp only [] at h
        split at h
        · split at h
          · cases h
          · next hlimit =>
              have hlt := ofDigits_lt (isDigit_of_whole? hwhole)
              have hshort : Numeral.Short (ofDigits whole) :=
                Numeral.short_of_length hlt (Nat.not_lt.mp (mt Numeral.exceeds_some.mpr hlimit))
              cases h
              cases negative
              · exact .int hshort
              · exact .int (Numeral.short_neg hshort)
        · cases h
          exact .float _

theorem legible_word? {cs rest : List Char} {v : Value} (h : word? cs = some (v, rest)) :
    v.Legible := by
  obtain ⟨⟨word, w⟩, hmem, hw⟩ := List.exists_of_findSome?_eq_some h
  simp only [] at hw
  split at hw
  · cases hw
    simp only [words, List.mem_cons, List.not_mem_nil, or_false, Prod.mk.injEq] at hmem
    rcases hmem with ⟨-, rfl⟩ | ⟨-, rfl⟩ | ⟨-, rfl⟩ | ⟨-, rfl⟩ | ⟨-, rfl⟩ | ⟨-, rfl⟩
    · exact .null
    · exact .bool true
    · exact .bool false
    all_goals exact .float _
  · cases hw

theorem legible_scalar {cs rest : List Char} {v : Value}
    (h : scalar (some Numeral.digitLimit) cs = .ok (v, rest)) : v.Legible := by
  unfold scalar at h
  split at h
  · next found hword =>
      cases h
      exact legible_word? hword
  · exact legible_number h

theorem legible_putAll {ms more : Members} (hms : ∀ m ∈ ms, m.2.Legible)
    (hmore : ∀ m ∈ more, m.2.Legible) : ∀ m ∈ Members.putAll ms more, m.2.Legible := by
  induction more generalizing ms with
  | nil => exact hms
  | cons m more ih =>
      rw [List.forall_mem_cons] at hmore
      exact ih (Members.forall_mem_put hmore.1 hms) hmore.2

/-- The three loops of the reader give legible values with some fuel. -/
structure ReadsLegible (fuel : Nat) : Prop where
  value : ∀ {cs rest v}, value .files fuel cs = .ok (v, rest) → v.Legible
  items : ∀ {cs rest vs}, items .files fuel cs = .ok (vs, rest) →
    ∀ v ∈ vs, v.Legible
  members : ∀ {cs rest ms}, members .files fuel cs = .ok (ms, rest) →
    ∀ m ∈ ms, m.2.Legible

section

variable {fuel : Nat} {cs rest : List Char}

theorem ReadsLegible.value_succ (ih : ReadsLegible fuel) {v : Value}
    (h : Json.value .files (fuel + 1) cs = .ok (v, rest)) : v.Legible := by
  unfold Json.value at h
  split at h
  · obtain ⟨_, htext, hv⟩ := map_eq_ok.mp h
    cases hv
    exact .str (holds_of_text htext)
  · split at h
    · cases h; exact .arr nofun
    · obtain ⟨_, hread, hv⟩ := map_eq_ok.mp h
      cases hv
      exact .arr (ih.items hread)
  · split at h
    · cases h; exact .obj nofun
    · obtain ⟨_, hread, hv⟩ := map_eq_ok.mp h
      cases hv
      exact .obj (legible_putAll nofun (ih.members hread))
  · exact legible_scalar h

theorem ReadsLegible.items_succ (ih : ReadsLegible fuel) {vs : List Value}
    (h : Json.items .files (fuel + 1) cs = .ok (vs, rest)) :
    ∀ v ∈ vs, v.Legible := by
  unfold Json.items at h
  obtain ⟨⟨v, after⟩, hread, h⟩ := bind_eq_ok.mp h
  simp only [] at h
  split at h
  · cases h
    exact List.forall_mem_singleton.mpr (ih.value hread)
  · obtain ⟨⟨vs, last⟩, hmore, h⟩ := bind_eq_ok.mp h
    cases h
    exact List.forall_mem_cons.mpr ⟨ih.value hread, ih.items hmore⟩
  · cases h

theorem ReadsLegible.members_succ (ih : ReadsLegible fuel) {ms : Members}
    (h : Json.members .files (fuel + 1) cs = .ok (ms, rest)) :
    ∀ m ∈ ms, m.2.Legible := by
  unfold Json.members at h
  split at h
  · obtain ⟨⟨name, after⟩, -, h⟩ := bind_eq_ok.mp h
    simp only [] at h
    split at h
    · obtain ⟨⟨v, after⟩, hread, h⟩ := bind_eq_ok.mp h
      simp only [] at h
      split at h
      · cases h
        exact List.forall_mem_singleton.mpr (ih.value hread)
      · obtain ⟨⟨ms, last⟩, hmore, h⟩ := bind_eq_ok.mp h
        cases h
        exact List.forall_mem_cons.mpr ⟨ih.value hread, ih.members hmore⟩
      · cases h
    · cases h
  · cases h

end

theorem readsLegible (fuel : Nat) : ReadsLegible fuel := by
  induction fuel with
  | zero => exact ⟨nofun, nofun, nofun⟩
  | succ fuel ih => exact ⟨ih.value_succ, ih.items_succ, ih.members_succ⟩

theorem legible_read {cs : List Char} {v : Value} (h : read cs = .ok v) : v.Legible := by
  unfold read readIn at h
  split at h
  · cases h
  · obtain ⟨⟨w, rest⟩, hread, h⟩ := bind_eq_ok.mp h
    simp only [] at h
    split at h
    · cases h
      exact (readsLegible _).value hread
    · cases h

end Json

/-! ## What texts spell -/

namespace Numeral

theorem lt_of_step {soFar d n k m : Nat} (hd : d < 10) (hk : k < m)
    (h : n < (10 * soFar + d + 1) * 10 ^ k) : n < (soFar + 1) * 10 ^ m :=
  calc n < (10 * soFar + d + 1) * 10 ^ k := h
    _ ≤ (soFar + 1) * 10 * 10 ^ k := Nat.mul_le_mul_right _ (by omega)
    _ = (soFar + 1) * 10 ^ (k + 1) := by rw [Nat.pow_succ', Nat.mul_assoc]
    _ ≤ (soFar + 1) * 10 ^ m := Nat.mul_le_mul_left _ (Nat.pow_le_pow_right (by decide) hk)

/-- How many characters of a text are digits. -/
def digitCount (digit? : Char → Option Nat) (cs : List Char) : Nat :=
  (cs.filter fun c => (digit? c).isSome).length

section

variable {digit? : Char → Option Nat} {cs rest : List Char} {c : Char}

theorem digitCount_le_length : digitCount digit? cs ≤ cs.length := List.length_filter_le _ _

theorem digitCount_le_of_sublist (h : rest.Sublist cs) :
    digitCount digit? rest ≤ digitCount digit? cs := (h.filter _).length_le

theorem digitCount_cons_of_some {d : Nat} (h : digit? c = some d) :
    digitCount digit? (c :: rest) = digitCount digit? rest + 1 := by
  rw [digitCount, List.filter_cons_of_pos (by rw [h]; rfl), List.length_cons]
  rfl

/-- A digit makes a number ten times as great at most, and an underscore makes it
no greater. -/
theorem readMore?_lt (hdigit : ∀ {c d}, digit? c = some d → d < 10) {soFar n : Nat}
    (h : readMore? digit? soFar cs = some n) : n < (soFar + 1) * 10 ^ digitCount digit? cs := by
  induction soFar, cs using readMore?.induct with
  | case1 soFar =>
      cases h
      simp [digitCount]
  | case2 soFar c rest ih =>
      rw [readMore?] at h
      obtain ⟨d, hd, h⟩ := Option.bind_eq_some_iff.mp h
      have hcount : digitCount digit? (c :: rest) ≤ digitCount digit? ('_' :: c :: rest) :=
        digitCount_le_of_sublist (List.sublist_cons_self _ _)
      rw [digitCount_cons_of_some hd] at hcount
      exact lt_of_step (hdigit hd) hcount (ih d h)
  | case3 soFar c rest hne ih =>
      rw [readMore?] at h
      · obtain ⟨d, hd, h⟩ := Option.bind_eq_some_iff.mp h
        rw [digitCount_cons_of_some hd]
        exact lt_of_step (hdigit hd) (Nat.lt_succ_self _) (ih d h)
      · exact hne

theorem readNat?_lt (hdigit : ∀ {c d}, digit? c = some d → d < 10) {n : Nat}
    (h : readNat? digit? cs = some n) : n < 10 ^ digitCount digit? cs := by
  cases cs with
  | nil => cases h
  | cons c rest =>
      obtain ⟨d, hd, h⟩ := Option.bind_eq_some_iff.mp h
      have hlt := readMore?_lt hdigit h
      have hten : d + 1 ≤ 10 := hdigit hd
      calc n < (d + 1) * 10 ^ digitCount digit? rest := hlt
        _ ≤ 10 * 10 ^ digitCount digit? rest := Nat.mul_le_mul_right _ hten
        _ = 10 ^ digitCount digit? (c :: rest) := by
          rw [digitCount_cons_of_some hd, Nat.pow_succ']

theorem readInt?_lt (hdigit : ∀ {c d}, digit? c = some d → d < 10) {n : Int}
    (h : readInt? digit? cs = some n) : n.natAbs < 10 ^ digitCount digit? cs := by
  have hsigned {rest : List Char} {m : Nat} (hm : readNat? digit? rest = some m)
      (hrest : rest.Sublist cs) : m < 10 ^ digitCount digit? cs :=
    Nat.lt_of_lt_of_le (readNat?_lt hdigit hm)
      (Nat.pow_le_pow_right (by decide) (digitCount_le_of_sublist hrest))
  unfold readInt? at h
  split at h
  · obtain ⟨m, hm, rfl⟩ := Option.map_eq_some_iff.mp h
    obtain ⟨k, hk, hm⟩ := Option.bind_eq_some_iff.mp hm
    cases hm
    rw [Int.natAbs_neg]
    exact hsigned hk (List.sublist_cons_self _ _)
  · obtain ⟨m, hm, rfl⟩ := Option.map_eq_some_iff.mp h
    exact hsigned hm (List.sublist_cons_self _ _)
  · obtain ⟨m, hm, rfl⟩ := Option.map_eq_some_iff.mp h
    exact hsigned hm (List.Sublist.refl _)

end

end Numeral

theorem Text.asciiDigit?_lt {c : Char} {d : Nat} (h : asciiDigit? c = some d) : d < 10 := by
  unfold asciiDigit? at h
  split at h
  · next hc =>
      have hhigh : c.toNat ≤ 57 := hc.2
      have hzero : '0'.toNat = 48 := rfl
      cases h
      omega
  · cases h

theorem Text.digit?_lt {c : Char} {d : Nat} (h : digit? c = some d) : d < 10 := by
  obtain ⟨first, hfirst, rfl⟩ := Option.map_eq_some_iff.mp h
  have hnear := List.find?_some hfirst
  rw [Bool.and_eq_true, decide_eq_true_eq, decide_eq_true_eq] at hnear
  omega

/-- A numeral of people is held to the number of digits that can be shown. -/
theorem Numeral.short_readWritten {cs : List Char} {n : Int} (h : readWritten cs = .ok n) :
    Short n := by
  unfold readWritten at h
  dsimp only at h
  split at h
  · cases h
  · next m hm =>
      split at h
      · cases h
      · next hcount =>
          cases h
          exact Nat.lt_of_lt_of_le (readInt?_lt Text.digit?_lt hm)
            (Nat.pow_le_pow_right (by decide) (Nat.not_lt.mp hcount))

/-- A run of doubles is twice as far from zero as the one before it. -/
theorem Binary64.natAbs_truncate_lt (x : Binary64) :
    x.truncate.natAbs < 2 ^ (53 + x.rank / runLength) := by
  have hlength : runLength = 2 ^ 52 := rfl
  have hscaled : x.scaled < 2 ^ 53 * 2 ^ (x.rank / runLength) := by
    have hpow : 0 < 2 ^ (x.rank / runLength) := Nat.pow_pos (by decide)
    rw [scaled]
    split
    · have hone : 2 ^ 53 * 1 ≤ 2 ^ 53 * 2 ^ (x.rank / runLength) := Nat.mul_le_mul_left _ hpow
      omega
    · have hmod : x.rank % runLength < runLength := Nat.mod_lt _ (by rw [hlength]; decide)
      exact Nat.mul_lt_mul_of_lt_of_le (by omega)
        (Nat.pow_le_pow_right (by decide) (Nat.sub_le _ _)) hpow
  have hwhole : x.truncate.natAbs = x.scaled / unitsPerOne := by
    rw [truncate]
    generalize x.scaled / unitsPerOne = whole
    cases x.negative <;> simp
  rw [hwhole, Nat.pow_add]
  exact Nat.lt_of_le_of_lt (Nat.div_le_self _ _) hscaled

/-- The greatest double is far below the numbers that cannot be shown. -/
theorem Binary64.short_truncate {x : Binary64} (h : x.isFinite = true) :
    Numeral.Short x.truncate := by
  have hrank : x.rank < 2047 * runLength := of_decide_eq_true h
  have hrun : x.rank / runLength < 2047 := Nat.div_lt_of_lt_mul (by rwa [Nat.mul_comm])
  have hpower : 53 + x.rank / runLength ≤ Numeral.digitLimit := by
    rw [Numeral.digitLimit]
    omega
  calc x.truncate.natAbs < 2 ^ (53 + x.rank / runLength) := natAbs_truncate_lt x
    _ ≤ 10 ^ (53 + x.rank / runLength) := Nat.pow_le_pow_left (by decide) _
    _ ≤ 10 ^ Numeral.digitLimit := Nat.pow_le_pow_right (by decide) hpower

namespace Decoder

/-- A plain numeral that is read is as long as was looked at. -/
theorem short_readPlain {cs : List Char} {n : Int} (h : readPlain cs = .ok n) :
    Numeral.Short n := by
  unfold readPlain at h
  dsimp only at h
  generalize List.span (fun c => (Text.asciiDigit? c).isSome) _ = parts at h
  obtain ⟨digits, after⟩ := parts
  dsimp only at h
  split at h
  · cases h
  · split at h
    · cases h
    · next hlimit =>
        split at h
        · cases h
        · next hafter =>
            split at h
            · next m hm =>
                cases h
                rw [Bool.not_eq_true', Bool.not_eq_false, List.isEmpty_iff] at hafter
                rw [hafter] at hlimit
                have hlt := Numeral.readInt?_lt Text.asciiDigit?_lt hm
                refine Nat.lt_of_lt_of_le hlt (Nat.pow_le_pow_right (by decide) ?_)
                exact Nat.le_trans Numeral.digitCount_le_length (Nat.not_lt.mp hlimit)
            · cases h

theorem short_readInteger {s : String} {n : Int} (h : readInteger s = .ok n) :
    Numeral.Short n := by
  unfold readInteger at h
  split at h
  · split at h
    · exact short_readPlain h
    · cases h
  · exact short_readPlain h

theorem short_wholeFloat {x : Binary64} {n : Int} (h : wholeFloat x = .ok n) :
    Numeral.Short n := by
  unfold wholeFloat at h
  split at h
  · cases h
  · split at h
    · cases h
    · split at h
      · next hbounds =>
          cases h
          rw [wordBound] at hbounds
          exact Numeral.short_of_lt (by omega)
      · cases h

theorem short_toInteger {v : Value} (hv : v.Short) {n : Int} (h : toInteger v = .ok n) :
    Numeral.Short n := by
  cases hv with
  | bool b =>
      cases h
      exact Numeral.short_of_lt (by cases b <;> decide)
  | int hn => cases h; exact hn
  | float x => exact short_wholeFloat h
  | str s => exact short_readInteger h
  | null | moment | arr | obj => cases h

end Decoder

/-! ## What is decoded -/

/-- A span that can have been read: its numbers are short, and its kind is a text that can
have been read. -/
structure Span.Legible (s : Span) : Prop where
  startLine : Numeral.Short s.startLine
  startCharacter : ∀ n, s.startCharacter = some n → Numeral.Short n
  endLine : Numeral.Short s.endLine
  endCharacter : ∀ n, s.endCharacter = some n → Numeral.Short n
  kind : ∀ kind, s.kind = some kind → Text.Storage.marked.Holds kind.name

theorem Span.legible_of_lt {s : Span} (hstartLine : s.startLine < 10 ^ 19)
    (hstartCharacter : s.startCharacter.getD 0 < 10 ^ 19) (hendLine : s.endLine < 10 ^ 19)
    (hendCharacter : s.endCharacter.getD 0 < 10 ^ 19)
    (hkind : ∀ kind, s.kind = some kind → Text.Storage.marked.Holds kind.name) : s.Legible where
  startLine := Numeral.short_of_lt hstartLine
  startCharacter n hn := Numeral.short_of_lt (by rwa [hn] at hstartCharacter)
  endLine := Numeral.short_of_lt hendLine
  endCharacter n hn := Numeral.short_of_lt (by rwa [hn] at hendCharacter)
  kind := hkind

theorem Value.CountsAs.short {v : Value} {n : Nat} (h : v.CountsAs (some n)) (hv : v.Legible) :
    Numeral.Short n := Decoder.short_toInteger hv.short h

theorem Field.legible_valueIn {f : Field} {ms : Members} (hms : ∀ m ∈ ms, m.2.Legible) :
    (f.valueIn ms).Legible := by
  rw [valueIn]
  cases hfound : f.find? ms with
  | none => exact .null
  | some m => exact hms m (mem_of_find? hfound)

theorem Span.SpelledBy.legible {s : Span} {ms : Members} (h : s.SpelledBy ms)
    (hms : ∀ m ∈ ms, m.2.Legible) : s.Legible where
  startLine := h.startLine.short (Field.legible_valueIn hms)
  startCharacter _ hn := Value.CountsAs.short (hn ▸ h.startCharacter) (Field.legible_valueIn hms)
  endLine := h.endLine.short (Field.legible_valueIn hms)
  endCharacter _ hn := Value.CountsAs.short (hn ▸ h.endCharacter) (Field.legible_valueIn hms)
  kind k hk := by
    have hvalue : (kindField.valueIn ms).Legible := Field.legible_valueIn hms
    rw [h.kind, hk] at hvalue
    cases hvalue with
    | str hs => exact hs

theorem FoldingRange.legible_of_decode {v : Value} (hv : v.Legible) {r : FoldingRange}
    (h : FoldingRange.decode v = .accepted r) : r.toSpan.Legible := by
  obtain ⟨ms, rfl, hspelled⟩ := decode_eq_accepted.mp h
  cases hv with
  | obj hmembers => exact hspelled.legible hmembers

/-- Ranges that can have been read. -/
def FoldingRangeList.Legible (l : FoldingRangeList) : Prop := ∀ r ∈ l.ranges, r.toSpan.Legible

theorem FoldingRangeList.legible_of_decode {v : Value} (hv : v.Legible) {l : FoldingRangeList}
    (h : FoldingRangeList.decode v = .accepted l) : l.Legible := by
  obtain ⟨ms, rfl, hms⟩ := Decoder.object_eq_accepted h
  obtain ⟨ranges, hranges, rfl⟩ := Decoded.map_eq_accepted hms
  obtain ⟨⟨key, w⟩, hm, hlist⟩ := Field.required_eq_accepted hranges
  obtain ⟨vs, rfl, hvs⟩ := Decoder.list_eq_accepted hlist
  intro r hr
  obtain ⟨u, hu, hdecode⟩ := hvs r hr
  cases hv with
  | obj hmembers =>
      cases hmembers _ hm with
      | arr hitems => exact FoldingRange.legible_of_decode (hitems u hu) hdecode

end FoldingProtocol
