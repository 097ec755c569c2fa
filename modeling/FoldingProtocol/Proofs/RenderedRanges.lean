import FoldingProtocol.Output
import FoldingProtocol.Proofs.JsonScalars
import FoldingProtocol.Proofs.PathNormalForm

/-!
# Ranges are told apart by their lines

A rendered list loses nothing: whoever reads the lines can say which ranges they were
made of. Line by line this is a walk from the left. A number ends where no digit
follows, an offset is there exactly if a colon is, and what is left behind the second
place is the kind. There a blank tells a kind from none, so that even the empty kind is
seen; and the mark of a custom kind is no ending of a name that the protocol knows, so
that a kind which itself ends in the mark is not taken for a shorter one.

The walk is stated with anything behind the part that it takes off, as long as that
cannot be taken for more of the part. Lines come apart at their ends, which is where a
line end inside a kind would do harm, and an empty list has a line that starts with no
digit.
-/

namespace FoldingProtocol

/-! ## Characters that a line does not hold -/

theorem toList_toString (n : Nat) : (toString n).toList = Numeral.ofNat n := by
  rw [Nat.toString_eq_ofList_toDigits, String.toList_ofList]
  rfl

theorem Numeral.not_mem_ofNat {c : Char} (hc : c.isDigit = false) (n : Nat) : c ∉ ofNat n := by
  intro hmem
  rw [← Json.isDigit_eq, Json.isDigit_of_mem_ofNat hmem] at hc
  cases hc

theorem not_mem_toList_toString {c : Char} (hc : c.isDigit = false) (n : Nat) :
    c ∉ (toString n).toList := by
  rw [toList_toString]
  exact Numeral.not_mem_ofNat hc n

theorem not_mem_intercalate {c : Char} {sep : List Char} {parts : List (List Char)}
    (hsep : c ∉ sep) (hparts : ∀ part ∈ parts, c ∉ part) : c ∉ sep.intercalate parts := by
  induction parts with
  | nil => exact List.not_mem_nil
  | cons part rest ih =>
      rw [List.forall_mem_cons] at hparts
      cases rest with
      | nil => rw [List.intercalate_singleton]; exact hparts.1
      | cons next rest =>
          rw [List.intercalate_cons_cons, List.mem_append, List.mem_append]
          rintro ((hmem | hmem) | hmem)
          · exact hparts.1 hmem
          · exact hsep hmem
          · exact ih hparts.2 hmem

/-- A character that no line holds outside of a kind's name. -/
def IsForeignToLines (c : Char) : Prop := c.isDigit = false ∧ c ∉ ":- (custom)".toList

/-- A range whose kind, if it has one, does not hold a character. -/
def FoldingRange.KindWithout (c : Char) (r : FoldingRange) : Prop :=
  ∀ kind, r.kind = some kind → c ∉ kind.name.toList

/-! ## Lines as lists of characters -/

/-- What stands behind a line number. -/
def characterText : Option Nat → List Char
  | none => []
  | some n => ':' :: Numeral.ofNat n

theorem toList_renderPlace (line : Nat) (character : Option Nat) :
    (renderPlace line character).toList = Numeral.ofNat line ++ characterText character := by
  cases character with
  | none => rw [renderPlace, toList_toString, characterText, List.append_nil]
  | some n =>
      have hcolon : ":".toList = [':'] := rfl
      rw [renderPlace, String.toList_append, String.toList_append, toList_toString,
        toList_toString, hcolon, characterText, List.append_assoc, List.singleton_append]

/-- The mark of a custom kind. -/
def customMark : List Char := " (custom)".toList

/-- A kind as a line names it. -/
def RangeKind.label (kind : RangeKind) : List Char :=
  if kind.isKnown then kind.name.toList else kind.name.toList ++ customMark

/-- What stands behind the second place. -/
def kindText : Option RangeKind → List Char
  | none => []
  | some kind => ' ' :: kind.label

theorem toList_kind (kind : Option RangeKind) :
    ((kind.map RangeKind.render).getD "").toList = kindText kind := by
  cases kind with
  | none => rfl
  | some kind =>
      have hblank : " ".toList = [' '] := rfl
      rw [Option.map_some, Option.getD_some, RangeKind.render, String.toList_append,
        String.toList_append, hblank, kindText, RangeKind.label]
      split
      · exact List.append_nil _
      · rfl

theorem toList_render (r : FoldingRange) :
    r.render.toList = Numeral.ofNat r.startLine ++ (characterText r.startCharacter ++
      '-' :: (Numeral.ofNat r.endLine ++ (characterText r.endCharacter ++ kindText r.kind))) := by
  have hdash : "-".toList = ['-'] := rfl
  simp only [FoldingRange.render, String.toList_append, toList_renderPlace, toList_kind, hdash,
    List.append_assoc, List.cons_append, List.nil_append]

/-! ## Taking a line apart -/

/-- What may stand behind a place: it is taken neither for more of the number nor for an
offset. -/
def EndsPlace (rest : List Char) : Prop := Json.Ends rest ∧ rest.head? ≠ some ':'

theorem endsPlace_cons {c : Char} {rest : List Char}
    (h : Json.isDigit c = false ∧ c ≠ '.' ∧ c ≠ 'e' ∧ c ≠ 'E') (hcolon : c ≠ ':') :
    EndsPlace (c :: rest) :=
  ⟨Json.ends_cons h, fun heq => hcolon (Option.some.inj heq)⟩

theorem endsPlace_kindText (kind : Option RangeKind) : EndsPlace (kindText kind) := by
  cases kind with
  | none => exact ⟨nofun, nofun⟩
  | some kind => exact endsPlace_cons (by decide) (by decide)

theorem EndsPlace.ends_characterText {rest : List Char} (h : EndsPlace rest)
    (character : Option Nat) : Json.Ends (characterText character ++ rest) := by
  cases character with
  | none => exact h.1
  | some n => exact Json.ends_cons (by decide)

theorem ofNat_append_inj {m n : Nat} {rest more : List Char} (hrest : Json.Ends rest)
    (hmore : Json.Ends more) (h : Numeral.ofNat m ++ rest = Numeral.ofNat n ++ more) :
    m = n ∧ rest = more := by
  have hspan := Json.span_ofNat m hrest
  rw [h, Json.span_ofNat n hmore] at hspan
  obtain ⟨hdigits, htail⟩ := Prod.mk.inj hspan
  have hn := Json.ofDigits_ofNat n
  rw [hdigits, Json.ofDigits_ofNat] at hn
  exact ⟨hn, htail.symm⟩

theorem place_append_inj {line other : Nat} {character offset : Option Nat}
    {rest more : List Char} (hrest : EndsPlace rest) (hmore : EndsPlace more)
    (h : Numeral.ofNat line ++ (characterText character ++ rest) =
      Numeral.ofNat other ++ (characterText offset ++ more)) :
    line = other ∧ character = offset ∧ rest = more := by
  obtain ⟨hline, htail⟩ :=
    ofNat_append_inj (hrest.ends_characterText character) (hmore.ends_characterText offset) h
  refine ⟨hline, ?_⟩
  cases character with
  | none =>
      cases offset with
      | none => exact ⟨rfl, htail⟩
      | some n =>
          have hcolon : rest = ':' :: (Numeral.ofNat n ++ more) := htail
          exact absurd (congrArg List.head? hcolon) hrest.2
  | some n =>
      cases offset with
      | none =>
          have hcolon : more = ':' :: (Numeral.ofNat n ++ rest) := htail.symm
          exact absurd (congrArg List.head? hcolon) hmore.2
      | some k =>
          obtain ⟨hcharacter, hsame⟩ := ofNat_append_inj hrest.1 hmore.1 (List.cons.inj htail).2
          exact ⟨congrArg some hcharacter, hsame⟩

/-- No name that the protocol knows ends in the mark of a custom kind. -/
theorem RangeKind.name_ne_append_customMark {kind : RangeKind} (h : kind.isKnown = true)
    (cs : List Char) : kind.name.toList ≠ cs ++ customMark := by
  have hnames : ∀ name ∈ known, ¬ customMark <:+ name.toList := by decide
  intro heq
  exact hnames kind.name (List.contains_iff_mem.mp h) ⟨cs, heq.symm⟩

theorem RangeKind.label_injective : Function.Injective label := by
  intro kind other h
  have hname : kind.name.toList = other.name.toList := by
    unfold label at h
    split at h
    · next hkind =>
        split at h
        · exact h
        · exact absurd h (name_ne_append_customMark hkind _)
    · split at h
      · next hother => exact absurd h.symm (name_ne_append_customMark hother _)
      · exact List.append_cancel_right h
  cases kind
  cases other
  exact congrArg mk (String.toList_injective hname)

theorem kindText_injective : Function.Injective kindText := by
  intro kind other h
  cases kind with
  | none =>
      cases other with
      | none => rfl
      | some other => cases h
  | some kind =>
      cases other with
      | none => cases h
      | some other => rw [RangeKind.label_injective (List.cons.inj h).2]

theorem FoldingRange.render_injective : Function.Injective fun r => (render r).toList := by
  intro r s h
  simp only [toList_render] at h
  have hdash {rest : List Char} : EndsPlace ('-' :: rest) :=
    endsPlace_cons (by decide) (by decide)
  obtain ⟨hstart, hstartCharacter, hrest⟩ := place_append_inj hdash hdash h
  obtain ⟨hend, hendCharacter, hkind⟩ :=
    place_append_inj (endsPlace_kindText _) (endsPlace_kindText _) (List.cons.inj hrest).2
  have hkind := kindText_injective hkind
  obtain ⟨⟨startLine, startCharacter, endLine, endCharacter, kind⟩, ordered⟩ := r
  obtain ⟨⟨startLine', startCharacter', endLine', endCharacter', kind'⟩, ordered'⟩ := s
  cases hstart
  cases hstartCharacter
  cases hend
  cases hendCharacter
  cases hkind
  rfl

/-! ## Taking a list apart -/

/-- The lines of a list, of which the empty one has one as well. -/
def FoldingRangeList.lines (l : FoldingRangeList) : List (List Char) :=
  if l.ranges = [] then [noRanges.toList] else l.ranges.map fun r => r.render.toList

theorem toList_renderRanges (l : FoldingRangeList) :
    (renderRanges (some l)).toList = ['\n'].intercalate l.lines := by
  obtain ⟨ranges⟩ := l
  cases ranges with
  | nil => exact List.intercalate_singleton.symm
  | cons r rest =>
      rw [FoldingRangeList.lines, if_neg (List.cons_ne_nil r rest)]
      show ("\n".intercalate ((r :: rest).map FoldingRange.render)).toList = _
      rw [String.toList_intercalate, List.map_map]
      rfl

theorem RangeKind.not_mem_label {c : Char} (hc : IsForeignToLines c) {kind : RangeKind}
    (h : c ∉ kind.name.toList) : c ∉ kind.label := by
  have hmark : c ∉ customMark := fun hmem => hc.2 (List.mem_append_right [':', '-'] hmem)
  unfold label
  split
  · exact h
  · exact List.not_mem_append h hmark

theorem not_mem_characterText {c : Char} (hc : IsForeignToLines c) (character : Option Nat) :
    c ∉ characterText character := by
  cases character with
  | none => exact List.not_mem_nil
  | some n =>
      rw [characterText, List.mem_cons, not_or]
      exact ⟨fun heq => hc.2 (heq ▸ List.mem_cons_self), Numeral.not_mem_ofNat hc.1 n⟩

theorem FoldingRange.not_mem_render {c : Char} (hc : IsForeignToLines c) {r : FoldingRange}
    (h : r.KindWithout c) : c ∉ r.render.toList := by
  have hnumber (n : Nat) : c ∉ Numeral.ofNat n := Numeral.not_mem_ofNat hc.1 n
  have hkind : c ∉ kindText r.kind := by
    cases hkind : r.kind with
    | none => exact List.not_mem_nil
    | some kind =>
        rw [kindText, List.mem_cons, not_or]
        refine ⟨fun heq => hc.2 ?_, RangeKind.not_mem_label hc (h kind hkind)⟩
        rw [heq]
        decide
  have hdash : c ≠ '-' := by
    rintro rfl
    exact hc.2 (by decide)
  rw [toList_render]
  simp only [List.mem_append, List.mem_cons, not_or]
  exact ⟨hnumber _, not_mem_characterText hc _, hdash, hnumber _, not_mem_characterText hc _, hkind⟩

theorem FoldingRangeList.not_mem_lines {c : Char} (hc : IsForeignToLines c)
    (hempty : c ∉ noRanges.toList) {l : FoldingRangeList} (h : ∀ r ∈ l.ranges, r.KindWithout c) :
    ∀ line ∈ l.lines, c ∉ line := by
  unfold lines
  split
  · rw [List.forall_mem_singleton]
    exact hempty
  · rw [List.forall_mem_map]
    exact fun r hr => FoldingRange.not_mem_render hc (h r hr)

/-- A line starts with a digit, which what is shown for no ranges does not. -/
theorem FoldingRange.toList_render_ne_noRanges (r : FoldingRange) :
    r.render.toList ≠ noRanges.toList := by
  obtain ⟨d, ds, hds, hd⟩ := Json.ofNat_eq_cons r.startLine
  rw [toList_render, hds]
  intro h
  have hhead : noRanges.toList.head? = some d := h ▸ rfl
  have hfirst : noRanges.toList.head? = some 'N' := by decide
  rw [← Option.some.inj (hfirst.symm.trans hhead)] at hd
  revert hd
  decide

theorem FoldingRangeList.lines_injective : Function.Injective lines := by
  intro l k h
  obtain ⟨ranges⟩ := l
  obtain ⟨others⟩ := k
  unfold lines at h
  split at h
  · next hnone =>
      split at h
      · next hnone' => exact congrArg mk (hnone.trans hnone'.symm)
      · next hsome =>
          obtain ⟨r, rest, rfl⟩ := List.exists_cons_of_ne_nil hsome
          exact absurd (List.cons.inj h).1.symm r.toList_render_ne_noRanges
  · next hsome =>
      split at h
      · next hnone' =>
          obtain ⟨r, rest, rfl⟩ := List.exists_cons_of_ne_nil hsome
          exact absurd (List.cons.inj h).1 r.toList_render_ne_noRanges
      · exact congrArg mk ((List.map_inj_right fun r s => @FoldingRange.render_injective r s).mp h)

/-- Plainly rendered lists without line ends in their kinds are the same only if the lists
are: as many ranges, and range by range the same lines, offsets and kind. -/
theorem Output.renderPlain_inj {l k : FoldingRangeList}
    (hl : ∀ r ∈ l.ranges, r.KindWithout '\n') (hk : ∀ r ∈ k.ranges, r.KindWithout '\n') :
    (Output.model (.foldingRangeList l)).renderPlain =
      (Output.model (.foldingRangeList k)).renderPlain ↔ l = k := by
  refine ⟨fun h => ?_, fun h => h ▸ rfl⟩
  have hforeign : IsForeignToLines '\n' := ⟨rfl, by decide⟩
  have hne (m : FoldingRangeList) : m.lines ≠ [] := by
    unfold FoldingRangeList.lines
    split
    · exact List.cons_ne_nil _ _
    · next hsome => exact fun hnil => hsome (List.map_eq_nil_iff.mp hnil)
  have htext : ['\n'].intercalate l.lines = ['\n'].intercalate k.lines := by
    rw [← toList_renderRanges, ← toList_renderRanges]
    exact congrArg String.toList h
  have hlines := congrArg (Text.splitAt '\n') htext
  rw [Text.splitAt_intercalate (hne l) (FoldingRangeList.not_mem_lines hforeign (by decide) hl),
    Text.splitAt_intercalate (hne k) (FoldingRangeList.not_mem_lines hforeign (by decide) hk)]
    at hlines
  exact FoldingRangeList.lines_injective hlines

/-- Ranges that differ in their kinds alone. -/
def ofKinds (kinds : List (Option RangeKind)) : FoldingRangeList :=
  ⟨kinds.map fun kind => ⟨⟨0, none, 1, some 2, kind⟩, Nat.zero_le 1⟩⟩

/-- Kinds that look alike: none, one without characters, a known one, and two of which
each ends in the mark of a custom kind. -/
def lookalikes : List (Option RangeKind) :=
  [none, some ⟨""⟩, some ⟨"comment"⟩, some ⟨"comment (custom)"⟩, some ⟨" (custom)"⟩]

theorem lookalikes_are_told_apart :
    (∀ r ∈ (ofKinds lookalikes).ranges, r.KindWithout '\n') ∧
      (∀ r ∈ (ofKinds lookalikes.reverse).ranges, r.KindWithout '\n') ∧
      (Output.model (.foldingRangeList (ofKinds lookalikes))).renderPlain ≠
        (Output.model (.foldingRangeList (ofKinds lookalikes.reverse))).renderPlain := by
  have hkinds : ∀ kind ∈ lookalikes, ∀ known, kind = some known → '\n' ∉ known.name.toList := by
    decide
  have hplain {kinds : List (Option RangeKind)} (h : ∀ kind ∈ kinds, kind ∈ lookalikes) :
      ∀ r ∈ (ofKinds kinds).ranges, r.KindWithout '\n' := by
    intro r hr
    obtain ⟨kind, hkind, rfl⟩ := List.mem_map.mp hr
    exact hkinds kind (h kind hkind)
  have hone := hplain fun kind hkind => hkind
  have hother : ∀ r ∈ (ofKinds lookalikes.reverse).ranges, r.KindWithout '\n' :=
    hplain fun kind hkind => List.mem_reverse.mp hkind
  refine ⟨hone, hother, fun h => ?_⟩
  have hsame := (Output.renderPlain_inj hone hother).mp h
  revert hsame
  decide

end FoldingProtocol
