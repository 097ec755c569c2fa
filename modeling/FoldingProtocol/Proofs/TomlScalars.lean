import FoldingProtocol.Proofs.DocumentValues
import FoldingProtocol.Toml.Writer
import Mathlib.Data.List.Basic

/-!
# Texts, integers and moments of a document read back

Scalars are tried in the order texts, truth values, moments, numbers, and each
reader takes as much as it can. So what is written must not be taken for a
scalar of an earlier kind, and what follows must not be taken for more of it. After
a value there is a line end, a comma, or the blank before a closing brace. The
blank matters: one that stood before digits could go on with a date.

No numeral is taken for a moment, since a run of digits that is a year or an hour
goes on with a dash or a colon.
-/

namespace FoldingProtocol.Toml

/-- What follows a value where it is written. -/
inductive Follows : List Char → Prop where
  | line (rest : List Char) : Follows ('\n' :: rest)
  | comma (rest : List Char) : Follows (',' :: rest)
  | brace (rest : List Char) : Follows (' ' :: '}' :: rest)

theorem Follows.head {rest : List Char} (h : Follows rest) :
    ∀ c ∈ rest.head?, c = '\n' ∨ c = ',' ∨ c = ' ' := by
  intro c hc
  cases h <;> cases hc <;> decide

/-! ## Runs of digits -/

theorem isDecimal_eq (c : Char) : isDecimal c = Json.isDigit c := by
  rw [isDecimal, Text.asciiDigit?, Json.isDigit, ← Bool.decide_and]
  split
  · next h => rw [decide_eq_true h]; rfl
  · next h => rw [decide_eq_false h]; rfl

theorem isDecimal_of_mem_ofNat {n : Nat} {c : Char} (h : c ∈ Numeral.ofNat n) :
    isDecimal c = true := by
  rw [isDecimal_eq]
  exact Json.isDigit_of_mem_ofNat h

theorem ne_of_isDecimal {c d : Char} (hd : isDecimal d = true) (hc : isDecimal c = false) :
    d ≠ c := by
  rintro rfl
  rw [hd] at hc
  cases hc

section

variable {class_ : Char → Bool} {ds rest : List Char}

/-- A run of digits ends before what is no digit. -/
theorem moreDigits_append (hmark : class_ '_' = false) (hds : ∀ c ∈ ds, class_ c = true)
    (hrest : ∀ c ∈ rest.head?, class_ c = false ∧ c ≠ '_') :
    moreDigits class_ (ds ++ rest) = (ds, rest) := by
  induction ds with
  | nil =>
      cases rest with
      | nil => rfl
      | cons c rest =>
          obtain ⟨hc, hne⟩ := hrest c rfl
          rw [List.nil_append, moreDigits, hc, if_neg Bool.false_ne_true]
          exact fun _ _ heq => absurd heq hne
  | cons d ds ih =>
      rw [List.forall_mem_cons] at hds
      rw [List.cons_append, moreDigits, if_pos hds.1, ih hds.2]
      rintro _ _ rfl
      rw [hds.1] at hmark
      cases hmark

theorem someDigits?_append (hmark : class_ '_' = false) (hne : ds ≠ [])
    (hds : ∀ c ∈ ds, class_ c = true) (hrest : ∀ c ∈ rest.head?, class_ c = false ∧ c ≠ '_') :
    someDigits? class_ (ds ++ rest) = some (ds, rest) := by
  cases ds with
  | nil => exact absurd rfl hne
  | cons d ds =>
      rw [List.forall_mem_cons] at hds
      rw [List.cons_append, someDigits?, if_pos hds.1, moreDigits_append hmark hds.2 hrest]

end

theorem hexValue?_of_isDecimal {c : Char} (h : isDecimal c = true) :
    (Hex.value? c).getD 0 = c.toNat - '0'.toNat := by
  rw [isDecimal_eq, Json.isDigit, Bool.and_eq_true, decide_eq_true_eq, decide_eq_true_eq] at h
  rw [Hex.value?, if_pos h, Option.getD_some]

theorem asciiDigit?_of_isDecimal {c : Char} (h : isDecimal c = true) :
    Text.asciiDigit? c = some (c.toNat - '0'.toNat) := by
  rw [isDecimal_eq, Json.isDigit, Bool.and_eq_true, decide_eq_true_eq, decide_eq_true_eq] at h
  rw [Text.asciiDigit?, if_pos h]

/-- The digits of base ten have one value, whoever reads them. -/
theorem ofDigits_ten {ds : List Char} (hds : ∀ c ∈ ds, isDecimal c = true) :
    ofDigits 10 ds = Json.ofDigits ds :=
  List.foldl_ext _ _ _ fun n c hc => by rw [hexValue?_of_isDecimal (hds c hc)]

theorem ofDigits_ofNat (n : Nat) : ofDigits 10 (Numeral.ofNat n) = n := by
  rw [ofDigits_ten fun _ => isDecimal_of_mem_ofNat, Json.ofDigits_ofNat]

/-! ## Integers -/

/-- What follows a numeral: nothing that goes on with it. -/
def EndsNumber (rest : List Char) : Prop :=
  ∀ c ∈ rest.head?, isDecimal c = false ∧ c ≠ '_' ∧ c ≠ '.' ∧ c ≠ 'e' ∧ c ≠ 'E'

theorem Follows.endsNumber {rest : List Char} (h : Follows rest) : EndsNumber rest := by
  intro c hc
  rcases h.head c hc with rfl | rfl | rfl <;> decide

theorem EndsNumber.endsDigits {rest : List Char} (h : EndsNumber rest) :
    ∀ c ∈ rest.head?, isDecimal c = false ∧ c ≠ '_' := fun c hc => ⟨(h c hc).1, (h c hc).2.1⟩

theorem places_of_ends {rest : List Char} (h : EndsNumber rest) : places rest = ([], rest) := by
  unfold places
  split
  · next more => exact absurd rfl (h '.' rfl).2.2.1
  · rfl

theorem power_of_ends {rest : List Char} (h : EndsNumber rest) : power rest = (none, rest) := by
  unfold power
  split
  · next c more =>
      obtain ⟨-, -, -, hsmall, hcapital⟩ := h c rfl
      rw [if_neg (not_or.mpr ⟨hsmall, hcapital⟩)]
  · rfl

theorem whole?_of_digits {d : Char} {ds rest : List Char} (hd : d ≠ '0')
    (hds : ∀ c ∈ d :: ds, isDecimal c = true)
    (hrest : ∀ c ∈ rest.head?, isDecimal c = false ∧ c ≠ '_') :
    whole? (d :: ds ++ rest) = some (d :: ds, rest) := by
  have hwhole : whole? (d :: ds ++ rest) = someDigits? isDecimal (d :: ds ++ rest) := by
    unfold whole?
    split
    · next heq => exact absurd (List.cons.inj heq).1 hd
    · rfl
  rw [hwhole, someDigits?_append (by decide) (List.cons_ne_nil _ _) hds hrest]

theorem whole?_ofNat (n : Nat) {rest : List Char} (h : EndsNumber rest) :
    whole? (Numeral.ofNat n ++ rest) = some (Numeral.ofNat n, rest) := by
  rcases Nat.eq_zero_or_pos n with rfl | hn
  · rfl
  · have hhead := Json.head?_ofNat hn
    have hdigits : ∀ c ∈ Numeral.ofNat n, isDecimal c = true := fun _ => isDecimal_of_mem_ofNat
    cases hds : Numeral.ofNat n with
    | nil => exact absurd hds Nat.toDigits_ne_nil
    | cons d ds =>
        rw [hds] at hhead hdigits
        exact whole?_of_digits (fun heq => hhead (by rw [heq]; rfl)) hdigits h.endsDigits

/-- A first digit is no sign. -/
theorem sign_digit {d : Char} (hd : isDecimal d = true) (cs : List Char) :
    sign (d :: cs) = (false, d :: cs) := by
  unfold sign
  split
  · next heq => cases heq; cases hd
  · next heq => cases heq; cases hd
  · rfl

theorem ofNat_eq_cons (n : Nat) :
    ∃ d ds, Numeral.ofNat n = d :: ds ∧ isDecimal d = true := by
  obtain ⟨d, ds, hds, hd⟩ := Json.ofNat_eq_cons n
  exact ⟨d, ds, hds, by rw [isDecimal_eq]; exact hd⟩

theorem sign_ofNat (n : Nat) (rest : List Char) :
    sign (Numeral.ofNat n ++ rest) = (false, Numeral.ofNat n ++ rest) := by
  obtain ⟨d, ds, hds, hd⟩ := ofNat_eq_cons n
  rw [hds, List.cons_append, sign_digit hd]

theorem decimal?_of_sign {n : Nat} (hn : Numeral.Short n) {negative : Bool} {cs rest : List Char}
    (hsign : sign cs = (negative, Numeral.ofNat n ++ rest)) (h : EndsNumber rest) :
    decimal? cs = some (.ok (.int (if negative then -n else n), rest)) := by
  have hlen : ¬ Numeral.digitLimit < (Numeral.ofNat n).length :=
    Nat.not_lt.mpr (Numeral.length_ofNat hn)
  simp only [decimal?, hsign, whole?_ofNat n h, places_of_ends h, power_of_ends h,
    List.isEmpty_nil, Option.isNone_none, Bool.and_self, if_true, if_neg hlen, ofDigits_ofNat]

/-! ## Numerals among the scalars

A run of digits that is no year and no hour is no moment. -/

theorem dropWhile_digits? {count soFar n : Nat} {cs rest : List Char}
    (h : digits? count soFar cs = some (n, rest)) :
    rest.dropWhile isDecimal = cs.dropWhile isDecimal := by
  induction count generalizing soFar cs with
  | zero => rw [digits?] at h; cases h; rfl
  | succ count ih =>
      cases cs with
      | nil => cases h
      | cons c cs =>
          obtain ⟨d, hd, h⟩ := Option.bind_eq_some_iff.mp h
          have hc : isDecimal c = true := by rw [isDecimal, hd]; rfl
          rw [ih h, List.dropWhile_cons_of_pos hc]

theorem markedPair?_eq_none {mark : Char} (hmark : isDecimal mark = false) {low high : Nat}
    {cs : List Char} (h : ∀ c ∈ (cs.dropWhile isDecimal).head?, c ≠ mark) :
    markedPair? mark low high cs = none := by
  cases cs with
  | nil => rfl
  | cons c cs =>
      rw [markedPair?]
      split
      · next heq =>
          subst heq
          rw [List.dropWhile_cons_of_neg (by rw [hmark]; exact Bool.false_ne_true)] at h
          exact absurd rfl (h _ rfl)
      · rfl

theorem dropWhile_pair? {low high n : Nat} {cs rest : List Char}
    (h : pair? low high cs = some (n, rest)) :
    rest.dropWhile isDecimal = cs.dropWhile isDecimal := by
  unfold pair? at h
  split at h
  · next heq =>
      split at h
      · cases h; exact dropWhile_digits? heq
      · cases h
  · cases h

theorem moment?_eq_none {cs : List Char}
    (h : ∀ c ∈ (cs.dropWhile isDecimal).head?, c ≠ '-' ∧ c ≠ ':') : moment? cs = none := by
  -- A year or an hour may take only some of the digits; what it leaves ends where they end.
  have hdate : date? cs = none := by
    unfold date?
    cases hyear : digits? 4 0 cs with
    | none => rfl
    | some found =>
        have hnone : markedPair? '-' 1 12 found.2 = none :=
          markedPair?_eq_none (by decide) fun c hc =>
            (h c (by rwa [← dropWhile_digits? hyear])).1
        simp [hnone]
  have htime : time? cs = none := by
    unfold time?
    cases hhour : pair? 0 23 cs with
    | none => rfl
    | some found =>
        have hnone : markedPair? ':' 0 59 found.2 = none :=
          markedPair?_eq_none (by decide) fun c hc =>
            (h c (by rwa [← dropWhile_pair? hhour])).2
        simp [hnone]
  rw [moment?, hdate, htime]
  rfl

theorem dropWhile_digits_append {ds rest : List Char} (hds : ∀ c ∈ ds, isDecimal c = true)
    (hrest : ∀ c ∈ rest.head?, isDecimal c = false) :
    (ds ++ rest).dropWhile isDecimal = rest := by
  rw [List.dropWhile_append_of_pos hds]
  cases rest with
  | nil => rfl
  | cons c rest =>
      exact List.dropWhile_cons_of_neg (by rw [hrest c rfl]; exact Bool.false_ne_true)

/-- What the first mark after a run of digits is not, if the digits are a number of
base ten. -/
def NoMark (rest : List Char) : Prop :=
  ∀ c ∈ rest.head?, isDecimal c = false ∧ c ∉ ['-', ':', 'x', 'o', 'b']

theorem EndsNumber.noMark_of_follows {rest : List Char} (h : Follows rest) : NoMark rest := by
  intro c hc
  rcases h.head c hc with rfl | rfl | rfl <;> decide

/-- The mark of a base is no digit. -/
theorem radixInteger?_append {d : Char} {ds rest : List Char}
    (hds : ∀ c ∈ ds, isDecimal c = true) (hrest : NoMark rest) :
    radixInteger? (d :: (ds ++ rest)) = none := by
  have hsecond : ∀ c ∈ (ds ++ rest).head?, c ∉ ['x', 'o', 'b'] := by
    intro c hc hmark
    rw [List.head?_append] at hc
    cases ds with
    | nil => exact (hrest c hc).2 (List.mem_cons_of_mem _ (List.mem_cons_of_mem _ hmark))
    | cons e es =>
        cases hc
        rw [List.forall_mem_cons] at hds
        revert hds
        simp only [List.mem_cons, List.not_mem_nil, or_false] at hmark
        rcases hmark with rfl | rfl | rfl <;> exact fun hds => absurd hds.1 (by decide)
  unfold radixInteger?
  split
  · next heq => rw [(List.cons.inj heq).2] at hsecond; exact absurd (by decide) (hsecond _ rfl)
  · next heq => rw [(List.cons.inj heq).2] at hsecond; exact absurd (by decide) (hsecond _ rfl)
  · next heq => rw [(List.cons.inj heq).2] at hsecond; exact absurd (by decide) (hsecond _ rfl)
  · rfl

theorem text_digit {d : Char} (hd : isDecimal d = true) (cs : List Char) :
    text (d :: cs) = none ∧ flag? (d :: cs) = none := by
  have hquote : d ≠ '"' := ne_of_isDecimal hd (by decide)
  have happly : d ≠ '\'' := ne_of_isDecimal hd (by decide)
  have ht : d ≠ 't' := ne_of_isDecimal hd (by decide)
  have hf : d ≠ 'f' := ne_of_isDecimal hd (by decide)
  exact ⟨by simp [text, shortText, hquote, happly], by simp [flag?, ht, hf]⟩

/-- What starts with digits and is a number of base ten is that number. -/
theorem scalar_of_decimal {ds rest : List Char} {found : Except Fault (Value × List Char)}
    (hne : ds ≠ []) (hds : ∀ c ∈ ds, isDecimal c = true) (hrest : NoMark rest)
    (h : decimal? (ds ++ rest) = some found) : scalar (ds ++ rest) = found := by
  have hmoment : moment? (ds ++ rest) = none := by
    refine moment?_eq_none ?_
    rw [dropWhile_digits_append hds fun c hc => (hrest c hc).1]
    intro c hc
    exact ⟨fun heq => (hrest c hc).2 (by simp [heq]), fun heq => (hrest c hc).2 (by simp [heq])⟩
  cases ds with
  | nil => exact absurd rfl hne
  | cons d ds =>
      rw [List.forall_mem_cons] at hds
      obtain ⟨htext, hflag⟩ := text_digit hds.1 (ds ++ rest)
      rw [List.cons_append] at hmoment h ⊢
      rw [scalar, htext, hflag, hmoment, number?, radixInteger?_append hds.2 hrest, h]

/-- So is what has a minus sign before it. -/
theorem scalar_of_minus {cs : List Char} {found : Except Fault (Value × List Char)}
    (h : decimal? ('-' :: cs) = some found) : scalar ('-' :: cs) = found := by
  have hmoment : moment? ('-' :: cs) = none := rfl
  rw [scalar, hmoment, number?, h]
  rfl

theorem scalar_ofInt {n : Int} (hn : Numeral.Short n) {rest : List Char} (h : Follows rest) :
    scalar (Numeral.ofInt n ++ rest) = .ok (.int n, rest) := by
  cases n with
  | ofNat n =>
      refine scalar_of_decimal Nat.toDigits_ne_nil (fun _ => isDecimal_of_mem_ofNat)
        (EndsNumber.noMark_of_follows h) ?_
      exact decimal?_of_sign (n := n) hn (sign_ofNat n rest) h.endsNumber
  | negSucc n =>
      refine scalar_of_minus ?_
      have hsign : sign ('-' :: (Numeral.ofNat (n + 1) ++ rest)) =
          (true, Numeral.ofNat (n + 1) ++ rest) := rfl
      exact decimal?_of_sign hn hsign h.endsNumber

/-! ## Truth values -/

theorem scalar_bool (b : Bool) (rest : List Char) :
    scalar ((if b then "true".toList else "false".toList) ++ rest) = .ok (.bool b, rest) := by
  cases b <;> rfl

/-! ## Texts -/

/-- The ways to write a character of a text. -/
inductive WrittenAs (c : Char) : List Char → Prop where
  | letter {letter : Char} (hletter : escaped? letter = some c) (hwidth : escapeWidth? letter = none) :
      WrittenAs c ['\\', letter]
  | number (h : c.toNat < 16 ^ 4) : WrittenAs c ('\\' :: 'u' :: Hex.fixed Hex.lower 4 c.toNat)
  | plain (hquote : c ≠ '"') (hslash : c ≠ '\\') (hcontrol : isControl c = false) : WrittenAs c [c]

theorem writtenAs_writtenChar (c : Char) : WrittenAs c (writtenChar c) := by
  unfold writtenChar
  split
  · next h => rcases h with rfl | rfl <;> exact .letter rfl rfl
  · next hspecial =>
      rw [not_or] at hspecial
      split
      · next h => subst h; exact .letter rfl rfl
      split
      · next h => subst h; exact .letter rfl rfl
      split
      · next h => subst h; exact .letter rfl rfl
      split
      · next h => subst h; exact .letter rfl rfl
      split
      · next h =>
          refine .number ?_
          simp only [isControl, Bool.or_eq_true, Bool.and_eq_true, decide_eq_true_eq] at h
          omega
      · next h => exact .plain hspecial.1 hspecial.2 (Bool.eq_false_iff.mpr h)

theorem hexFixed_four (n : Nat) :
    Hex.fixed Hex.lower 4 n = [Hex.lower (n / 16 / 16 / 16 % 16), Hex.lower (n / 16 / 16 % 16),
      Hex.lower (n / 16 % 16), Hex.lower (n % 16)] := rfl

/-- An escape of four digits is the character with their number. -/
theorem escapedText_number {c : Char} (hc : c.toNat < 16 ^ 4) (rest : List Char) :
    escapedText false .plain ('\\' :: 'u' :: Hex.fixed Hex.lower 4 c.toNat ++ rest) =
      (escapedText false .plain rest).map fun (s, r) => (c :: s, r) := by
  have hdigit (n : Nat) : Hex.value? (Hex.lower (n % 16)) = some (n % 16) :=
    Hex.value?_lower _ (Nat.mod_lt _ (by decide))
  have hn : 16 * (16 * (16 * (16 * 0 + c.toNat / 16 / 16 / 16 % 16) + c.toNat / 16 / 16 % 16) +
      c.toNat / 16 % 16) + c.toNat % 16 = c.toNat := by omega
  have hvalid : c.toNat.isValidChar := c.valid
  rw [hexFixed_four]
  simp only [List.cons_append, List.nil_append, escapedText, escapeWidth?, hdigit, hn, hvalid,
    Char.ofNat_toNat]
  simp

theorem escapedText_written {c : Char} {cs : List Char} (h : WrittenAs c cs) (rest : List Char) :
    escapedText false .plain (cs ++ rest) =
      (escapedText false .plain rest).map fun (s, r) => (c :: s, r) := by
  cases h with
  | letter hletter hwidth =>
      simp [escapedText, hletter, hwidth]
  | number h => exact escapedText_number h rest
  | plain hquote hslash hcontrol =>
      rw [List.singleton_append, escapedText.eq_def]
      simp [hquote, hslash, hcontrol]

/-- A written text reads back as it was. -/
theorem escapedText_flatMap (cs rest : List Char) :
    escapedText false .plain (cs.flatMap writtenChar ++ '"' :: rest) = .ok (cs, rest) := by
  induction cs with
  | nil => rw [List.flatMap_nil, List.nil_append, escapedText.eq_def]; rfl
  | cons c cs ih =>
      rw [List.flatMap_cons, List.append_assoc, escapedText_written (writtenAs_writtenChar c), ih]
      rfl

theorem writtenText_append (s : String) (rest : List Char) :
    writtenText s ++ rest = '"' :: (s.toList.flatMap writtenChar ++ '"' :: rest) := by
  simp [writtenText]

theorem shortText_writtenText (s : String) (rest : List Char) :
    shortText (writtenText s ++ rest) = some (.ok (s.toList, rest)) := by
  rw [writtenText_append, shortText, escapedText_flatMap]

/-- A character is never written with a quote first. -/
theorem WrittenAs.head_ne {c : Char} {cs : List Char} (h : WrittenAs c cs) :
    ∃ d ds, cs = d :: ds ∧ d ≠ '"' := by
  cases h with
  | letter | number => exact ⟨_, _, rfl, by decide⟩
  | plain hquote => exact ⟨_, _, rfl, hquote⟩

/-- No written text is taken for one with three quotes. -/
theorem text_writtenText (s : String) {rest : List Char} (h : Follows rest) :
    text (writtenText s ++ rest) = some (.ok (s.toList, rest)) := by
  have hshort : text (writtenText s ++ rest) = shortText (writtenText s ++ rest) := by
    rw [writtenText_append]
    cases hs : s.toList with
    | nil =>
        -- Two quotes of an empty text would open a long one if another followed.
        cases h <;> rfl
    | cons c cs =>
        obtain ⟨d, ds, hd, hne⟩ := (writtenAs_writtenChar c).head_ne
        rw [List.flatMap_cons, hd, List.cons_append, List.cons_append]
        unfold text
        split
        · next heq => exact absurd (List.cons.inj (List.cons.inj heq).2).1 hne
        · next heq => exact absurd (List.cons.inj heq).1 (by decide)
        · rfl
  rw [hshort, shortText_writtenText]

theorem scalar_writtenText (s : String) {rest : List Char} (h : Follows rest) :
    scalar (writtenText s ++ rest) = .ok (.str s, rest) := by
  have htext := text_writtenText s h
  unfold scalar
  rw [htext]
  show Except.ok (Value.str (.ofList s.toList), rest) = _
  rw [String.ofList_toList]

/-! ## Moments -/

section

open Moment

variable {width n : Nat}

theorem isDecimal_of_mem_padded {c : Char} (h : c ∈ padded width n) : isDecimal c = true := by
  rcases List.mem_append.mp h with h | h
  · rw [List.eq_of_mem_replicate h]
    decide
  · exact isDecimal_of_mem_ofNat h

theorem length_padded (hwidth : 0 < width) (hn : n < 10 ^ width) :
    (padded width n).length = width := by
  have hlength : (Numeral.ofNat n).length ≤ width :=
    (Nat.length_toDigits_le_iff (by decide) hwidth).mpr hn
  rw [padded, List.length_append, List.length_replicate]
  omega

theorem ofDigits_padded (width n : Nat) : Json.ofDigits (padded width n) = n := by
  have hzeros (k : Nat) : Json.ofDigits (List.replicate k '0') = 0 := by
    induction k with
    | zero => rfl
    | succ k ih => rw [List.replicate_succ]; exact ih
  rw [padded, Json.ofDigits, List.foldl_append]
  show List.foldl _ (Json.ofDigits _) _ = n
  rw [hzeros]
  exact Json.ofDigits_ofNat n

theorem digits?_append {ds : List Char} (hds : ∀ c ∈ ds, isDecimal c = true) (soFar : Nat)
    (rest : List Char) :
    digits? ds.length soFar (ds ++ rest) =
      some (ds.foldl (fun n c => 10 * n + (c.toNat - '0'.toNat)) soFar, rest) := by
  induction ds generalizing soFar with
  | nil => rfl
  | cons d ds ih =>
      rw [List.forall_mem_cons] at hds
      rw [List.length_cons, List.cons_append, digits?, asciiDigit?_of_isDecimal hds.1]
      exact ih hds.2 _

theorem digits?_padded (hwidth : 0 < width) (hn : n < 10 ^ width) (rest : List Char) :
    digits? width 0 (padded width n ++ rest) = some (n, rest) := by
  have hdigits : ∀ c ∈ padded width n, isDecimal c = true := fun _ => isDecimal_of_mem_padded
  have h := digits?_append hdigits 0 rest
  rw [length_padded hwidth hn] at h
  rw [h]
  exact congrArg (fun k => some (k, rest)) (ofDigits_padded width n)

theorem pair?_padded {low high : Nat} (hlow : low ≤ n) (hhigh : n ≤ high) (hn : n < 100)
    (rest : List Char) : pair? low high (padded 2 n ++ rest) = some (n, rest) := by
  rw [pair?, digits?_padded (by decide) hn]
  exact if_pos ⟨hlow, hhigh⟩

theorem markedPair?_padded (mark : Char) {low high : Nat} (hlow : low ≤ n) (hhigh : n ≤ high)
    (hn : n < 100) (rest : List Char) :
    markedPair? mark low high (mark :: (padded 2 n ++ rest)) = some (n, rest) := by
  rw [markedPair?, if_pos rfl, pair?_padded hlow hhigh hn]

theorem dateText_append (d : Date) (rest : List Char) :
    dateText d ++ rest = padded 4 d.year ++ '-' :: (padded 2 d.month ++ '-' ::
      (padded 2 d.day ++ rest)) := by simp [dateText]

theorem date?_dateText {d : Date} (h : d.OnCalendar) (rest : List Char) :
    date? (dateText d ++ rest) = some (d, rest) := by
  have hvalid := h.valid
  simp only [Date.isValid, Bool.and_eq_true, decide_eq_true_eq] at hvalid
  obtain ⟨⟨⟨⟨-, hmonth⟩, hmonths⟩, hday⟩, hdays⟩ := hvalid
  have hlong : Date.daysInMonth d.year d.month ≤ 31 := by
    unfold Date.daysInMonth
    split
    · split <;> decide
    · split <;> decide
  rw [dateText_append, date?, digits?_padded (by decide) h.year]
  simp only [bind, Option.bind, markedPair?_padded '-' hmonth hmonths (by omega),
    markedPair?_padded '-' hday (Nat.le_trans hdays hlong) (by omega)]

/-- The part of a time below the second. -/
theorem fraction_padded {micros : Nat} (h : micros < 10 ^ 6) {rest : List Char}
    (hrest : ∀ c ∈ rest.head?, isDecimal c = false) :
    fraction ('.' :: (padded 6 micros ++ rest)) = (micros, rest) := by
  have hdigits : ∀ c ∈ padded 6 micros, isDecimal c = true := fun _ => isDecimal_of_mem_padded
  have hlength := length_padded (by decide) h
  have hspan : (padded 6 micros ++ rest).span isDecimal = (padded 6 micros, rest) := by
    rw [List.span_eq_takeWhile_dropWhile, dropWhile_digits_append hdigits hrest,
      List.takeWhile_append_of_pos hdigits]
    cases rest with
    | nil => simp
    | cons c rest => rw [List.takeWhile_cons_of_neg (by simp [hrest c rfl]), List.append_nil]
  have hne : (padded 6 micros).isEmpty = false := by
    rw [List.isEmpty_eq_false_iff, ← List.length_pos_iff, hlength]
    decide
  have htake : (padded 6 micros ++ List.replicate 6 '0').take 6 = padded 6 micros :=
    List.take_left' hlength
  have hvalue : (padded 6 micros).foldl (fun n c => 10 * n + (Text.asciiDigit? c).getD 0) 0 =
      Json.ofDigits (padded 6 micros) :=
    List.foldl_ext _ _ _ fun n c hc => by rw [asciiDigit?_of_isDecimal (hdigits c hc)]; rfl
  show (match (padded 6 micros ++ rest).span isDecimal with
    | (ds, after) => if ds.isEmpty then (0, '.' :: (padded 6 micros ++ rest))
      else (((ds ++ List.replicate 6 '0').take 6).foldl
        (fun n c => 10 * n + (Text.asciiDigit? c).getD 0) 0, after)) = _
  simp only [hspan, hne, htake, hvalue, ofDigits_padded, Bool.false_eq_true, if_false]

theorem timeText_append (t : TimeOfDay) (rest : List Char) :
    timeText t ++ rest = padded 2 t.hour ++ ':' :: (padded 2 t.minute ++ ':' ::
      (padded 2 t.second ++ ((if t.microsecond = 0 then [] else '.' :: padded 6 t.microsecond) ++
        rest))) := by simp [timeText]

theorem time?_timeText {t : TimeOfDay} (h : t.OnClock) {rest : List Char}
    (hrest : ∀ c ∈ rest.head?, isDecimal c = false ∧ c ≠ '.') :
    time? (timeText t ++ rest) = some (t, rest) := by
  have hhour := h.hour
  have hminute := h.minute
  have hsecond := h.second
  have hfraction : fraction ((if t.microsecond = 0 then [] else
      '.' :: padded 6 t.microsecond) ++ rest) = (t.microsecond, rest) := by
    split
    · next hzero =>
        rw [List.nil_append, hzero]
        unfold fraction
        split
        · exact absurd rfl (hrest '.' rfl).2
        · rfl
    · exact fraction_padded h.microsecond fun c hc => (hrest c hc).1
  rw [timeText_append, time?, pair?_padded (Nat.zero_le _) (by omega) (by omega)]
  simp only [bind, Option.bind, markedPair?_padded ':' (Nat.zero_le _)
    (show t.minute ≤ 59 by omega) (by omega), markedPair?_padded ':' (Nat.zero_le _)
    (show t.second ≤ 59 by omega) (by omega), hfraction]

/-- An hour has too few digits for a year. -/
theorem date?_timeText {t : TimeOfDay} (h : t.OnClock) (rest : List Char) :
    date? (timeText t ++ rest) = none := by
  have hhour := h.hour
  have hlength : (padded 2 t.hour).length = 2 := length_padded (by decide) (by omega)
  obtain ⟨c, d, hcd⟩ := List.length_eq_two.mp hlength
  rw [timeText_append, hcd, date?]
  simp only [List.cons_append, List.nil_append, digits?]
  cases Text.asciiDigit? c with
  | none => rfl
  | some _ => cases Text.asciiDigit? d <;> rfl

theorem offset_offsetText {minutes : Int} (h : minutes.natAbs < 1440) (rest : List Char) :
    offset (offsetText minutes ++ rest) = (some minutes, rest) := by
  have htext : offsetText minutes ++ rest = (if minutes < 0 then '-' else '+') ::
      (padded 2 (minutes.natAbs / 60) ++ ':' :: (padded 2 (minutes.natAbs % 60) ++ rest)) := by
    simp [offsetText]
  have hhours := pair?_padded (Nat.zero_le _) (show minutes.natAbs / 60 ≤ 23 by omega) (by omega)
    (':' :: (padded 2 (minutes.natAbs % 60) ++ rest))
  have hpast := markedPair?_padded ':' (Nat.zero_le _) (show minutes.natAbs % 60 ≤ 59 by omega)
    (by omega) rest
  have htotal : 60 * (minutes.natAbs / 60) + minutes.natAbs % 60 = minutes.natAbs := by omega
  rw [htext, offset, hhours]
  simp only [bind, Option.bind, hpast, htotal]
  by_cases hnegative : minutes < 0
  · have hback : -(minutes.natAbs : Int) = minutes := by omega
    rw [if_pos hnegative, if_neg (by decide), if_pos (by decide), if_pos rfl, hback]
  · have hback : (minutes.natAbs : Int) = minutes := by omega
    rw [if_neg hnegative, if_neg (by decide), if_pos (by decide), if_neg (by decide), hback]

theorem offset_of_follows {rest : List Char} (h : Follows rest) : offset rest = (none, rest) := by
  cases h <;> rfl

theorem moment?_render {m : Moment} (h : m.Real) {rest : List Char} (hrest : Follows rest) :
    moment? (m.render ' ' ++ rest) = some (.ok (m, rest)) := by
  have hends : ∀ c ∈ rest.head?, isDecimal c = false ∧ c ≠ '.' := fun c hc =>
    ⟨(hrest.endsNumber c hc).1, (hrest.endsNumber c hc).2.2.1⟩
  cases h with
  | @date d hd =>
      rw [render, moment?, date?_dateText hd]
      -- A blank after a date could lead on to a time, but the one here is before a brace.
      cases hrest <;> simp [hd.valid, time?, pair?, digits?, Text.asciiDigit?]
  | @time t ht =>
      have hdate := date?_timeText ht rest
      rw [render, moment?, hdate, time?_timeText ht hends]
      rfl
  | @dateTime d t east hd ht heast =>
      cases east with
      | none =>
          have htext : render ' ' (.dateTime d t none) ++ rest =
              dateText d ++ ' ' :: (timeText t ++ rest) := by simp [render]
          rw [htext, moment?, date?_dateText hd]
          simp [time?_timeText ht hends, offset_of_follows hrest, hd.valid]
      | some minutes =>
          have htext : render ' ' (.dateTime d t (some minutes)) ++ rest =
              dateText d ++ ' ' :: (timeText t ++ (offsetText minutes ++ rest)) := by
            simp [render]
          have hsign : ∀ c ∈ (offsetText minutes ++ rest).head?, isDecimal c = false ∧ c ≠ '.' := by
            intro c hc
            cases hc
            split <;> decide
          rw [htext, moment?, date?_dateText hd]
          simp [time?_timeText ht hsign, offset_offsetText (heast minutes rfl), hd.valid]

theorem render_head (m : Moment) (hm : m.Real) :
    ∃ d ds, m.render ' ' = d :: ds ∧ isDecimal d = true := by
  have hpadded (width n : Nat) (hwidth : 0 < width) :
      ∃ d ds, padded width n = d :: ds ∧ isDecimal d = true := by
    cases hds : padded width n with
    | nil =>
        have hempty := congrArg List.length hds
        rw [padded, List.length_append, List.length_replicate, List.length_nil] at hempty
        omega
    | cons d ds => exact ⟨d, ds, rfl, isDecimal_of_mem_padded (hds ▸ List.mem_cons_self)⟩
  cases hm with
  | @date d _ =>
      obtain ⟨c, cs, hcs, hc⟩ := hpadded 4 d.year (by decide)
      exact ⟨c, _, by rw [render, dateText, hcs]; rfl, hc⟩
  | @time t _ =>
      obtain ⟨c, cs, hcs, hc⟩ := hpadded 2 t.hour (by decide)
      exact ⟨c, _, by rw [render, timeText, hcs]; rfl, hc⟩
  | @dateTime d t _ _ _ =>
      obtain ⟨c, cs, hcs, hc⟩ := hpadded 4 d.year (by decide)
      exact ⟨c, _, by rw [render, dateText, hcs]; rfl, hc⟩

end

theorem scalar_render {m : Moment} (h : m.Real) {rest : List Char} (hrest : Follows rest) :
    scalar (m.render ' ' ++ rest) = .ok (.moment m, rest) := by
  have hmoment := moment?_render h hrest
  obtain ⟨d, ds, hds, hd⟩ := render_head m h
  rw [hds, List.cons_append] at hmoment ⊢
  rw [scalar, (text_digit hd _).1, (text_digit hd _).2, hmoment]
  rfl

/-! ## Keys -/

/-- What follows a key and is not taken for more of it. -/
def EndsKey (rest : List Char) : Prop := ∀ c ∈ rest.head?, isBare c = false

theorem endsKey_cons {c : Char} (h : isBare c = false) (rest : List Char) : EndsKey (c :: rest) := by
  intro d hd
  cases hd
  exact h

theorem keyPart_writtenKey (key : String) {rest : List Char} (h : EndsKey rest) :
    keyPart (writtenKey key ++ rest) = .ok (key, rest) := by
  unfold writtenKey
  dsimp only
  split
  · next hbare =>
      rw [Bool.and_eq_true, List.all_eq_true, Bool.not_eq_true'] at hbare
      obtain ⟨hne, hall⟩ := hbare
      have hspan : (key.toList ++ rest).span isBare = (key.toList, rest) := by
        rw [List.span_eq_takeWhile_dropWhile, List.takeWhile_append_of_pos hall,
          List.dropWhile_append_of_pos hall]
        cases rest with
        | nil => simp
        | cons c rest =>
            have hc : ¬ isBare c = true := by rw [h c rfl]; exact Bool.false_ne_true
            rw [List.takeWhile_cons_of_neg hc, List.dropWhile_cons_of_neg hc, List.append_nil]
      cases hcs : key.toList with
      | nil => rw [hcs] at hne; cases hne
      | cons c cs =>
          rw [hcs] at hall hspan
          have hc : isBare c = true := hall c List.mem_cons_self
          have hquote : c ≠ '"' := by rintro rfl; cases hc
          have happly : c ≠ '\'' := by rintro rfl; cases hc
          have htext : shortText (c :: (cs ++ rest)) = none := by
            simp [shortText, hquote, happly]
          rw [List.cons_append] at hspan ⊢
          rw [keyPart, htext]
          simp only [hspan]
          rw [← hcs, String.ofList_toList]
  · rw [keyPart, shortText_writtenText]
    show Except.ok (String.ofList key.toList, rest) = _
    rw [String.ofList_toList]

/-- No written key is empty, and none starts with a blank, a bracket or a mark. -/
theorem writtenKey_head (key : String) :
    ∃ c cs, writtenKey key = c :: cs ∧ startsKey c = true := by
  unfold writtenKey
  dsimp only
  split
  · next hbare =>
      rw [Bool.and_eq_true, List.all_eq_true, Bool.not_eq_true'] at hbare
      cases hcs : key.toList with
      | nil => rw [hcs] at hbare; cases hbare.1
      | cons c cs =>
          rw [hcs] at hbare
          refine ⟨c, cs, rfl, ?_⟩
          rw [startsKey, hbare.2 c List.mem_cons_self]
          rfl
  · exact ⟨'"', _, rfl, by decide⟩

end FoldingProtocol.Toml
