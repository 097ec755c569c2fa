import FoldingProtocol.Proofs.ShortestDecimal
import FoldingProtocol.Proofs.TomlScalars

/-!
# Doubles of a document read back

A double is laid out as digits with a point among them, or as one digit with places
and a power of ten. Either way the reader finds the digits and the power again, and so
a decimal of the same value, which is the one that was chosen because it reads back.
Every layout starts with a run of digits that ends before a point or before the mark
of a power, so none is taken for a moment.
-/

namespace FoldingProtocol.Toml

open Binary64

/-! ## Parts of a number -/

section

variable {negative : Bool} {cs body more rest whole ds : List Char} {power? : Option Int}

theorem decimal?_of_parts (hsign : sign cs = (negative, body)) (hwhole : whole? body = some (whole, more))
    {after : List Char} (hplaces : places more = (ds, after)) (hpower : power after = (power?, rest))
    (h : (ds.isEmpty && power?.isNone) = false) :
    decimal? cs = some (.ok (.float (.ofDecimal negative
      ⟨ofDigits 10 (whole ++ ds), power?.getD 0 - ds.length⟩), rest)) := by
  simp only [decimal?, hsign, hwhole, hplaces, hpower, h, Bool.false_eq_true, if_false]

theorem places_digits (hne : ds ≠ []) (hds : ∀ c ∈ ds, isDecimal c = true)
    (hrest : ∀ c ∈ rest.head?, isDecimal c = false ∧ c ≠ '_') :
    places ('.' :: (ds ++ rest)) = (ds, rest) := by
  rw [places, someDigits?_append (by decide) hne hds hrest]
  rfl

theorem power_digits (hne : ds ≠ []) (hds : ∀ c ∈ ds, isDecimal c = true) (hrest : EndsNumber rest)
    (negative : Bool) :
    power ('e' :: (if negative then '-' else '+') :: (ds ++ rest)) =
      (some ((if negative then -1 else 1 : Int) * ofDigits 10 ds), rest) := by
  have hdigits := someDigits?_append (by decide) hne hds hrest.endsDigits
  cases negative <;> simp [power, hdigits]

end

theorem ofDigits_zeros_append (zeros : Nat) (ds : List Char) :
    ofDigits 10 (List.replicate zeros '0' ++ ds) = ofDigits 10 ds := by
  induction zeros with
  | zero => rfl
  | succ zeros ih => exact ih

theorem isDecimal_of_mem_zeros {zeros : Nat} {c : Char} (h : c ∈ List.replicate zeros '0') :
    isDecimal c = true := by
  rw [List.eq_of_mem_replicate h]
  decide

/-! ## Layouts -/

/-- A text that starts with digits and reads as a double of base ten, whatever sign
stands before it. -/
structure ReadsAs (d : Decimal) (cs rest : List Char) : Prop where
  run : ∃ ds tail, cs = ds ++ tail ∧ ds ≠ [] ∧ (∀ c ∈ ds, isDecimal c = true) ∧ NoMark tail
  number : ∀ {negative text}, sign text = (negative, cs) →
    decimal? text = some (.ok (.float (.ofDecimal negative d), rest))

theorem ReadsAs.congr {d e : Decimal} {cs rest : List Char} (h : ReadsAs d cs rest)
    (heq : ∀ negative, Binary64.ofDecimal negative d = .ofDecimal negative e) :
    ReadsAs e cs rest where
  run := h.run
  number hsign := by rw [h.number hsign, heq]

theorem ends_point (rest : List Char) :
    ∀ c ∈ ('.' :: rest).head?, isDecimal c = false ∧ c ≠ '_' := by
  intro c hc
  cases hc
  decide

theorem noMark_cons {c : Char} (hc : isDecimal c = false ∧ c ∉ ['-', ':', 'x', 'o', 'b'])
    (rest : List Char) : NoMark (c :: rest) := by
  intro d hd
  cases hd
  exact hc

section

variable {c : Char} {cs rest : List Char}

/-- Digits before a point and behind it. -/
theorem readsAs_point {whole ds : List Char} (hc : c ≠ '0') (hwhole : ∀ x ∈ c :: whole, isDecimal x = true)
    (hne : ds ≠ []) (hds : ∀ x ∈ ds, isDecimal x = true) (hrest : EndsNumber rest) :
    ReadsAs ⟨ofDigits 10 (c :: whole ++ ds), -ds.length⟩ (c :: whole ++ '.' :: (ds ++ rest)) rest where
  run := ⟨c :: whole, '.' :: (ds ++ rest), rfl, List.cons_ne_nil _ _, hwhole,
    noMark_cons (by decide) _⟩
  number hsign := by
    have hsome : (ds.isEmpty && (none : Option Int).isNone) = false := by
      cases ds with
      | nil => exact absurd rfl hne
      | cons _ _ => rfl
    rw [decimal?_of_parts hsign (whole?_of_digits hc hwhole (ends_point _))
      (places_digits hne hds hrest.endsDigits) (power_of_ends hrest) hsome]
    simp

theorem readsAs_zeroPoint (hcs : ∀ x ∈ c :: cs, isDecimal x = true) (hrest : EndsNumber rest)
    (zeros : Nat) :
    ReadsAs ⟨ofDigits 10 (c :: cs), -(zeros + (c :: cs).length : Nat)⟩
      ('0' :: '.' :: (List.replicate zeros '0' ++ c :: cs ++ rest)) rest where
  run := ⟨['0'], _, rfl, by decide, List.forall_mem_singleton.mpr rfl, noMark_cons (by decide) _⟩
  number hsign := by
    have hdigits : ∀ x ∈ List.replicate zeros '0' ++ c :: cs, isDecimal x = true :=
      List.forall_mem_append.mpr ⟨fun _ => isDecimal_of_mem_zeros, hcs⟩
    have hne : List.replicate zeros '0' ++ c :: cs ≠ [] := by simp
    have hsome : ((List.replicate zeros '0' ++ c :: cs).isEmpty && (none : Option Int).isNone) =
        false := by simp
    have hvalue : ofDigits 10 (['0'] ++ (List.replicate zeros '0' ++ c :: cs)) =
        ofDigits 10 (c :: cs) := ofDigits_zeros_append (zeros + 1) (c :: cs)
    rw [decimal?_of_parts hsign rfl (places_digits hne hdigits hrest.endsDigits)
      (power_of_ends hrest) hsome, hvalue]
    simp

/-- Zeros between the digits and the point, and one behind it. -/
theorem readsAs_zerosPoint (hc : c ≠ '0') (hcs : ∀ x ∈ c :: cs, isDecimal x = true)
    (hrest : EndsNumber rest) (zeros : Nat) :
    ReadsAs ⟨ofDigits 10 (c :: cs), zeros⟩
      (c :: cs ++ List.replicate zeros '0' ++ ['.', '0'] ++ rest) rest := by
  have hwhole : ∀ x ∈ c :: (cs ++ List.replicate zeros '0'), isDecimal x = true :=
    List.forall_mem_append.mpr ⟨hcs, fun _ => isDecimal_of_mem_zeros⟩
  have hzero : ∀ x ∈ ['0'], isDecimal x = true := List.forall_mem_singleton.mpr rfl
  have hreads := readsAs_point hc hwhole (List.cons_ne_nil _ _) hzero hrest
  have htext : c :: cs ++ List.replicate zeros '0' ++ ['.', '0'] ++ rest =
      c :: (cs ++ List.replicate zeros '0') ++ '.' :: (['0'] ++ rest) := by simp
  have hdigits : c :: (cs ++ List.replicate zeros '0') ++ ['0'] =
      c :: cs ++ List.replicate (zeros + 1) '0' := by simp [List.replicate_succ']
  -- The zero behind the point is one more to take off again, by the power it comes with.
  have hvalue : ofDigits 10 (c :: cs ++ List.replicate (zeros + 1) '0') =
      ofDigits 10 (c :: cs) * 10 ^ (zeros + 1) := by
    rw [ofDigits_ten hcs, ofDigits_ten, ofDigits_append_zeros]
    exact List.forall_mem_append.mpr ⟨hcs, fun _ => isDecimal_of_mem_zeros⟩
  have hpower : (zeros + 1 : Nat) + -((['0'] : List Char).length : Int) = zeros := by
    rw [List.length_singleton]
    omega
  rw [htext]
  refine hreads.congr fun negative => ?_
  rw [hdigits, hvalue, ofDecimal_zeros, hpower]

/-- The point among the digits. -/
theorem readsAs_pointInside (hc : c ≠ '0') (hcs : ∀ x ∈ c :: cs, isDecimal x = true)
    (hrest : EndsNumber rest) {n : Nat} (hn : n < cs.length) :
    ReadsAs ⟨ofDigits 10 (c :: cs), (n + 1 : Nat) - (c :: cs).length⟩
      (c :: cs.take n ++ '.' :: (cs.drop n ++ rest)) rest := by
  have hwhole : ∀ x ∈ c :: cs.take n, isDecimal x = true :=
    List.forall_mem_cons.mpr ⟨hcs c List.mem_cons_self,
      fun x hx => hcs x (List.mem_cons_of_mem _ (List.mem_of_mem_take hx))⟩
  have hne : cs.drop n ≠ [] := by
    rw [ne_eq, List.drop_eq_nil_iff]
    omega
  have hplaces : ∀ x ∈ cs.drop n, isDecimal x = true :=
    fun x hx => hcs x (List.mem_cons_of_mem _ (List.mem_of_mem_drop hx))
  have hreads := readsAs_point hc hwhole hne hplaces hrest
  have hdigits : c :: cs.take n ++ cs.drop n = c :: cs := by simp
  have hpower : -((cs.drop n).length : Int) = (n + 1 : Nat) - (c :: cs).length := by
    rw [List.length_drop, List.length_cons]
    omega
  rw [hdigits, hpower] at hreads
  exact hreads

theorem readsAs_positional (hc : c ≠ '0') (hcs : ∀ x ∈ c :: cs, isDecimal x = true)
    (hrest : EndsNumber rest) (point : Int) :
    ReadsAs ⟨ofDigits 10 (c :: cs), point - (c :: cs).length⟩
      (positional (c :: cs) point ++ rest) rest := by
  unfold positional
  split
  · have hpower : point - (c :: cs).length = -((-point).toNat + (c :: cs).length : Nat) := by
      omega
    rw [hpower]
    simpa using readsAs_zeroPoint hcs hrest (-point).toNat
  split
  · have hpower : point - (c :: cs).length = (point.toNat - (c :: cs).length : Nat) := by
      omega
    rw [hpower]
    exact readsAs_zerosPoint hc hcs hrest _
  · next hshort =>
      obtain ⟨n, hn⟩ : ∃ n, point.toNat = n + 1 := ⟨point.toNat - 1, by omega⟩
      rw [List.length_cons] at hshort
      have hpower : point = (n + 1 : Nat) := by omega
      have hreads := readsAs_pointInside hc hcs hrest (n := n) (by omega)
      rw [hn, hpower]
      simpa using hreads

/-- The mark of a power, its sign, and its digits. -/
theorem power_written (hrest : EndsNumber rest) (n : Int) :
    power ('e' :: (if n < 0 then '-' else '+') ::
      (List.replicate (2 - (Nat.toDigits 10 n.natAbs).length) '0' ++
        (Nat.toDigits 10 n.natAbs ++ rest))) = (some n, rest) := by
  have hdigits : ∀ x ∈ List.replicate (2 - (Nat.toDigits 10 n.natAbs).length) '0' ++
      Nat.toDigits 10 n.natAbs, isDecimal x = true :=
    List.forall_mem_append.mpr ⟨fun _ => isDecimal_of_mem_zeros,
      fun x hx => isDecimal_of_mem_ofNat (n := n.natAbs) hx⟩
  have hvalue : ofDigits 10 (List.replicate (2 - (Nat.toDigits 10 n.natAbs).length) '0' ++
      Nat.toDigits 10 n.natAbs) = n.natAbs := by
    rw [ofDigits_zeros_append]
    exact ofDigits_ofNat n.natAbs
  have hne : List.replicate (2 - (Nat.toDigits 10 n.natAbs).length) '0' ++
      Nat.toDigits 10 n.natAbs ≠ [] := by simp [Nat.toDigits_ne_nil]
  have hpower := power_digits hne hdigits hrest (decide (n < 0))
  rw [hvalue, List.append_assoc] at hpower
  by_cases hnegative : n < 0
  · have hback : (-1 : Int) * n.natAbs = n := by omega
    rw [decide_eq_true hnegative, if_pos rfl, if_pos rfl, hback] at hpower
    rw [if_pos hnegative, hpower]
  · have hback : (1 : Int) * n.natAbs = n := by omega
    rw [decide_eq_false hnegative, if_neg Bool.false_ne_true, if_neg Bool.false_ne_true, hback]
      at hpower
    rw [if_neg hnegative, hpower]

theorem readsAs_scientific (hc : c ≠ '0') (hcs : ∀ x ∈ c :: cs, isDecimal x = true)
    (hrest : EndsNumber rest) (n : Int) :
    ReadsAs ⟨ofDigits 10 (c :: cs), n - cs.length⟩ (scientific (c :: cs) n ++ rest) rest := by
  have hpower := power_written hrest n
  have hdigit : ∀ x ∈ [c], isDecimal x = true :=
    List.forall_mem_singleton.mpr (hcs c List.mem_cons_self)
  have hmark (more : List Char) : ∀ x ∈ ('e' :: more).head?, isDecimal x = false ∧ x ≠ '_' := by
    intro x hx
    cases hx
    decide
  have htext : scientific (c :: cs) n ++ rest =
      [c] ++ ((if (c :: cs).length ≤ 1 then [] else '.' :: cs) ++
        'e' :: (if n < 0 then '-' else '+') ::
          (List.replicate (2 - (Nat.toDigits 10 n.natAbs).length) '0' ++
            (Nat.toDigits 10 n.natAbs ++ rest))) := by
    simp [scientific]
  rw [htext]
  generalize (if n < 0 then '-' else '+') :: (List.replicate _ '0' ++ _) = more at *
  cases cs with
  | nil =>
      refine ⟨⟨[c], 'e' :: more, rfl, by simp, hdigit, noMark_cons (by decide) _⟩, fun hsign => ?_⟩
      rw [decimal?_of_parts hsign (whole?_of_digits hc hdigit (hmark more)) rfl hpower rfl]
      simp
  | cons d ds =>
      have hds := (List.forall_mem_cons.mp hcs).2
      have hplaces := places_digits (List.cons_ne_nil d ds) hds (hmark more)
      have hlong : ¬ (c :: d :: ds).length ≤ 1 := by simp
      rw [if_neg hlong]
      refine ⟨⟨[c], _, rfl, by simp, hdigit, noMark_cons (by decide) _⟩, fun hsign => ?_⟩
      rw [decimal?_of_parts hsign (whole?_of_digits hc hdigit (ends_point _)) hplaces hpower rfl]
      simp

end

/-! ## Doubles -/

theorem readsAs_layout {d : Decimal} (hd : 0 < d.coefficient) {rest : List Char}
    (hrest : EndsNumber rest) : ReadsAs d (layout d ++ rest) rest := by
  obtain @⟨c, cs, zeros, hfirst, hdigits, hvalue, hlayout⟩ := laidOut hd
  have hcs : ∀ x ∈ c :: cs, isDecimal x = true := fun x hx => by
    rw [isDecimal_eq]
    exact hdigits x hx
  have hlaid := hlayout _ rfl
  -- However it is laid out, the value is that of the digits with their zeros back.
  have hback (e : Int) (he : e = zeros + d.exponent) (negative : Bool) :
      Binary64.ofDecimal negative ⟨ofDigits 10 (c :: cs), e⟩ = .ofDecimal negative d := by
    rw [he, ← ofDecimal_zeros, ofDigits_ten hcs, ← hvalue]
  rw [hlaid]
  split
  · exact (readsAs_positional hfirst hcs hrest _).congr (hback _ (by omega))
  · exact (readsAs_scientific hfirst hcs hrest _).congr (hback _ (by rw [List.length_cons]; omega))

theorem ReadsAs.scalar_eq {d : Decimal} {cs rest : List Char} (h : ReadsAs d cs rest)
    (negative : Bool) : scalar ((if negative then ['-'] else []) ++ cs) =
      .ok (.float (.ofDecimal negative d), rest) := by
  cases negative with
  | true => exact scalar_of_minus (h.number rfl)
  | false =>
      obtain ⟨ds, tail, hcs, hne, hds, htail⟩ := h.run
      have hsign : sign cs = (false, cs) := by
        cases ds with
        | nil => exact absurd rfl hne
        | cons e es => rw [hcs]; exact sign_digit (hds e List.mem_cons_self) _
      have hnumber := h.number hsign
      rw [hcs] at hnumber
      show scalar cs = _
      rw [hcs]
      exact scalar_of_decimal hne hds htail hnumber

theorem coefficient_shortest_pos {x : Binary64} (h : x.rank < infinityRank) (hzero : x.rank ≠ 0) :
    0 < x.shortest.coefficient := by
  refine Nat.pos_of_ne_zero fun hcoefficient => hzero ?_
  rw [← ofDecimal_shortest h hzero, ofDecimal, if_pos hcoefficient]

theorem scalar_infinity (negative : Bool) (rest : List Char) :
    scalar ((if negative then ['-'] else []) ++ spelling.infinity.toList ++ rest) =
      .ok (.float (.infinity negative), rest) := by
  cases negative <;> rfl

theorem readsAs_zero {rest : List Char} (hrest : EndsNumber rest) :
    ReadsAs ⟨0, -1⟩ (['0', '.', '0'] ++ rest) rest :=
  readsAs_zeroPoint (List.forall_mem_singleton.mpr (rfl : isDecimal '0' = true)) hrest 0

/-- A double that reading can give is written so that it reads back. -/
theorem scalar_writtenDouble {x : Binary64} (hx : x.Canonical) {rest : List Char}
    (hrest : Follows rest) : scalar (x.render spelling ++ rest) = .ok (.float x, rest) := by
  have hends := hrest.endsNumber
  unfold render
  split
  · next hnan =>
      rcases hx with hrank | rfl
      · exact absurd (of_decide_eq_true hnan) (Nat.not_lt.mpr hrank)
      · rfl
  next hnumber =>
  rw [isNaN, decide_eq_true_eq, Nat.not_lt] at hnumber
  rw [List.append_assoc]
  by_cases hfinite : x.rank < infinityRank
  · have hshown : (!x.isFinite) = false := by rw [isFinite, decide_eq_true hfinite]; rfl
    rw [hshown, if_neg Bool.false_ne_true]
    by_cases hzero : x.rank = 0
    · have hx : x = ⟨x.negative, 0⟩ := congrArg (Binary64.mk x.negative) hzero
      rw [if_pos hzero, (readsAs_zero hends).scalar_eq, hx]
      rfl
    · have hlayout := readsAs_layout (coefficient_shortest_pos hfinite hzero) hends
      rw [if_neg hzero, hlayout.scalar_eq, ofDecimal_shortest hfinite hzero]
  · have hshown : (!x.isFinite) = true := by rw [isFinite, decide_eq_false hfinite]; rfl
    have hx : x = infinity x.negative :=
      congrArg (Binary64.mk x.negative) (Nat.le_antisymm hnumber (Nat.not_lt.mp hfinite))
    rw [if_pos hshown, ← List.append_assoc, scalar_infinity, ← hx]

end FoldingProtocol.Toml
