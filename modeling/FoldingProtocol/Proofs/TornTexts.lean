import FoldingProtocol.Proofs.PrintedRanges
import FoldingProtocol.Proofs.RenderedRanges

/-!
# Texts with half a pair are not printed

The printer has no characters for half a pair. So a text that holds one is not printed at
all, and whether a text holds one is not changed by what is done to it before: texts are put
behind each other, and control sequences are taken out of them, which consist of characters
of ASCII and neither hold half a pair nor part a mark from what it marks.

JSON has escapes for halves. The lines of ranges have not, and a kind is all that can bring
a half into them.
-/

namespace FoldingProtocol

namespace Text

/-- A marked text that is made of points. -/
def IsMarked (cs : List Char) : Prop := ∃ ps : List Point, cs = ps.flatMap Point.marked

/-- A marked text that holds half a pair. -/
def IsTorn (cs : List Char) : Prop := ∃ n, Point.half n ∈ markedPoints cs

/-- A marked text that holds half a pair just if something is so. -/
structure TornIff (cs : List Char) (P : Prop) : Prop where
  marked : IsMarked cs
  torn : IsTorn cs ↔ P

section

variable {cs ds : List Char} {P Q : Prop}

theorem IsMarked.tornIff (h : IsMarked cs) : TornIff cs (IsTorn cs) := ⟨h, Iff.rfl⟩

theorem TornIff.congr (h : TornIff cs P) (hiff : P ↔ Q) : TornIff cs Q :=
  ⟨h.marked, h.torn.trans hiff⟩

theorem tornIff_of_not_mem (h : mark ∉ cs) : TornIff cs False := by
  refine ⟨⟨cs.map .char, (flatMap_marked_of_not_mem h).symm⟩, ?_⟩
  rw [IsTorn, markedPoints_of_not_mem h]
  simp

theorem TornIff.append (h : TornIff cs P) (hds : TornIff ds Q) : TornIff (cs ++ ds) (P ∨ Q) := by
  obtain ⟨⟨ps, rfl⟩, hps⟩ := h
  obtain ⟨⟨qs, rfl⟩, hqs⟩ := hds
  rw [← List.flatMap_append]
  refine ⟨⟨_, rfl⟩, ?_⟩
  rw [← hps, ← hqs]
  simp only [IsTorn, markedPoints_flatMap, List.mem_append, exists_or]

/-- Text without marks before a text changes nothing. -/
theorem TornIff.behind (h : TornIff cs P) (hds : mark ∉ ds) : TornIff (ds ++ cs) P :=
  ((tornIff_of_not_mem hds).append h).congr (by rw [false_or])

/-- Text without marks behind a text changes nothing. -/
theorem TornIff.before (h : TornIff cs P) (hds : mark ∉ ds) : TornIff (cs ++ ds) P :=
  (h.append (tornIff_of_not_mem hds)).congr (by rw [or_false])

theorem tornIff_intercalate {α : Type} {sep : List Char} (hsep : mark ∉ sep) {f : α → List Char}
    {P : α → Prop} {items : List α} (h : ∀ a ∈ items, TornIff (f a) (P a)) :
    TornIff (sep.intercalate (items.map f)) (∃ a ∈ items, P a) := by
  induction items with
  | nil => exact (tornIff_of_not_mem List.not_mem_nil).congr (by simp)
  | cons a items ih =>
      rw [List.forall_mem_cons] at h
      cases items with
      | nil =>
          rw [List.map_singleton, List.intercalate_singleton]
          exact h.1.congr (by simp)
      | cons b items =>
          rw [List.map_cons, List.map_cons, List.intercalate_cons_cons, ← List.map_cons]
          refine ((h.1.before hsep).append (ih h.2)).congr ?_
          simp

end

/-! ## Control sequences -/

/-- What is not a mark at the start of a marked text is its first point. -/
theorem eq_cons_of_flatMap_marked {ps : List Point} {c : Char} {more : List Char} (hc : c ≠ mark)
    (h : ps.flatMap Point.marked = c :: more) :
    ∃ rest, ps = .char c :: rest ∧ more = rest.flatMap Point.marked := by
  have hpoints := markedPoints_flatMap ps
  rw [h, markedPoints_cons_of_ne hc] at hpoints
  rw [← hpoints, List.flatMap_cons, marked_of_ne hc] at h
  exact ⟨_, hpoints.symm, (List.cons.inj h).2.symm⟩

/-- What is dropped for its characters ends before the first mark. -/
theorem dropWhile_marked {p : Char → Bool} (hp : p mark = false) (ps : List Point) :
    ∃ (cs : List Char) (qs : List Point), ps = cs.map .char ++ qs ∧
      (ps.flatMap Point.marked).dropWhile p = qs.flatMap Point.marked := by
  induction ps with
  | nil => exact ⟨[], [], rfl, rfl⟩
  | cons q ps ih =>
      by_cases hq : ∃ c, q = .char c ∧ p c = true
      · obtain ⟨c, rfl, hc⟩ := hq
        have hmark : c ≠ mark := by
          rintro rfl
          rw [hp] at hc
          cases hc
        obtain ⟨cs, qs, rfl, hdrop⟩ := ih
        refine ⟨c :: cs, qs, rfl, ?_⟩
        rw [List.flatMap_cons, marked_of_ne hmark, List.singleton_append,
          List.dropWhile_cons_of_pos hc, hdrop]
      · refine ⟨[], q :: ps, rfl, ?_⟩
        rw [List.flatMap_cons]
        cases q with
        | half n => exact List.dropWhile_cons_of_neg (by rw [hp]; exact Bool.false_ne_true)
        | char c =>
            have hc : ¬ p c = true := fun hc => hq ⟨c, rfl, hc⟩
            rw [Point.marked]
            split
            · next heq => exact List.dropWhile_cons_of_neg (heq ▸ hc)
            · exact List.dropWhile_cons_of_neg hc

/-- A control sequence in a marked text is made of characters. -/
theorem afterControl?_marked {ps : List Point} {after : List Char}
    (h : afterControl? (ps.flatMap Point.marked) = some after) :
    ∃ (cs : List Char) (qs : List Point),
      ps = cs.map .char ++ qs ∧ after = qs.flatMap Point.marked := by
  obtain ⟨cs, qs, rfl, hparameters⟩ := dropWhile_marked (p := isParameter) (by decide) ps
  obtain ⟨ds, rs, rfl, hintermediates⟩ := dropWhile_marked (p := isIntermediate) (by decide) qs
  rw [afterControl?, hparameters, hintermediates] at h
  split at h
  · next c rest hrest =>
      split at h
      · next hfinal =>
          cases h
          have hmark : c ≠ mark := by
            rintro rfl
            revert hfinal
            decide
          obtain ⟨rs, rfl, rfl⟩ := eq_cons_of_flatMap_marked hmark hrest
          exact ⟨cs ++ ds ++ [c], rs, by simp, rfl⟩
      · cases h
  · cases h

theorem withoutControls_esc {cs : List Char} (h : ∀ inside, cs ≠ '[' :: inside) :
    withoutControls ('\x1b' :: cs) = '\x1b' :: withoutControls cs := by
  rw [withoutControls]
  rintro inside - heq
  exact h inside heq

theorem withoutControls_open {inside : List Char} (h : afterControl? inside = none) :
    withoutControls ('\x1b' :: '[' :: inside) = '\x1b' :: '[' :: withoutControls inside := by
  rw [withoutControls]
  split
  · next hsome => rw [h] at hsome; cases hsome
  · rfl

/-- A completed control sequence is dropped, and what follows it goes on as text. -/
theorem withoutControls_of_after {inside after : List Char}
    (h : afterControl? inside = some after) :
    withoutControls ('\x1b' :: '[' :: inside) = withoutControls after := by
  rw [withoutControls]
  split
  · next hsome => rw [h] at hsome; cases hsome; rfl
  · next hnone => rw [h] at hnone; cases hnone

theorem Point.esc_not_mem_marked {p : Point} (h : p ≠ .char '\x1b') : '\x1b' ∉ p.marked := by
  cases p with
  | half n =>
      have hcode := halfChar_toNat n
      have hne : '\x1b' ≠ halfChar n := by
        intro heq
        rw [← heq] at hcode
        have hesc : '\x1b'.toNat = 0x1b := rfl
        omega
      simp [marked, hne, show '\x1b' ≠ mark by decide]
  | char c =>
      have hc : '\x1b' ≠ c := fun heq => h (by rw [heq])
      rw [marked]
      split
      · next => simp [show '\x1b' ≠ mark by decide]
      · simp [hc]

/-- What is left of a marked text without its control sequences has the same halves. -/
theorem withoutControls_marked (ps : List Point) :
    ∃ qs : List Point, withoutControls (ps.flatMap Point.marked) = qs.flatMap Point.marked ∧
      ∀ n, Point.half n ∈ qs ↔ Point.half n ∈ ps := by
  -- A control sequence takes several points at once, so the induction is on their number.
  induction hlength : ps.length using Nat.strongRecOn generalizing ps with
  | _ length ih =>
      subst hlength
      cases ps with
      | nil => exact ⟨[], by rw [List.flatMap_nil, withoutControls], fun _ => Iff.rfl⟩
      | cons p ps =>
          by_cases hesc : p = .char '\x1b'
          · subst hesc
            by_cases hopen : ∃ rest, ps = .char '[' :: rest
            · obtain ⟨inside, rfl⟩ := hopen
              cases hafter : afterControl? (inside.flatMap Point.marked) with
              | some after =>
                  obtain ⟨cs, qs, rfl, rfl⟩ := afterControl?_marked hafter
                  obtain ⟨rs, hrs, hsame⟩ := ih qs.length
                    (by simp only [List.length_cons, List.length_append]; omega) qs rfl
                  refine ⟨rs, (withoutControls_of_after hafter).trans hrs, fun n => ?_⟩
                  simp [hsame]
              | none =>
                  obtain ⟨rs, hrs, hsame⟩ := ih inside.length
                    (by simp only [List.length_cons]; omega) inside rfl
                  refine ⟨.char '\x1b' :: .char '[' :: rs, ?_, fun n => by simp [hsame]⟩
                  exact (withoutControls_open hafter).trans
                    (congrArg (fun rest => '\x1b' :: '[' :: rest) hrs)
            · obtain ⟨rs, hrs, hsame⟩ := ih ps.length (Nat.lt_succ_self _) ps rfl
              refine ⟨.char '\x1b' :: rs, ?_, fun n => by simp [hsame]⟩
              refine (withoutControls_esc fun inside hinside => hopen ?_).trans
                (congrArg ('\x1b' :: ·) hrs)
              obtain ⟨rest, hrest, -⟩ := eq_cons_of_flatMap_marked (by decide) hinside
              exact ⟨rest, hrest⟩
          · obtain ⟨rs, hrs, hsame⟩ := ih ps.length (Nat.lt_succ_self _) ps rfl
            refine ⟨p :: rs, ?_, fun n => by simp [hsame]⟩
            rw [List.flatMap_cons, withoutControls_append (Point.esc_not_mem_marked hesc), hrs,
              List.flatMap_cons]

theorem TornIff.withoutControls {cs : List Char} {P : Prop} (h : TornIff cs P) :
    TornIff (withoutControls cs) P := by
  obtain ⟨⟨ps, rfl⟩, htorn⟩ := h
  obtain ⟨qs, hqs, hsame⟩ := withoutControls_marked ps
  refine ⟨⟨qs, hqs⟩, ?_⟩
  rw [← htorn, IsTorn, IsTorn, hqs, markedPoints_flatMap, markedPoints_flatMap]
  exact exists_congr hsame

theorem TornIff.plainly?_eq_none {cs : List Char} {P : Prop} (h : TornIff cs P) :
    Storage.marked.plainly? cs = none ↔ P := by
  obtain ⟨⟨ps, rfl⟩, htorn⟩ := h
  rw [Storage.plainly?_eq_none_iff, ← htorn, IsTorn, markedPoints_flatMap]

end Text

/-- A marked text is printed unless it holds half a pair. -/
theorem CommandLine.printedIn_eq_none {text : String} {P : Prop} (h : Text.TornIff text.toList P) :
    printedIn .marked text = none ↔ P := by
  rw [printedIn, Option.map_eq_none_iff]
  exact h.withoutControls.plainly?_eq_none

/-! ## Ranges -/

theorem RangeKind.marked_of_holds {kind : RangeKind}
    (h : Text.Storage.marked.Holds kind.name) : Text.IsMarked kind.name.toList := by
  obtain ⟨ps, hstore, -⟩ := h
  rw [Text.Storage.store?_marked] at hstore
  exact ⟨ps, (Option.some.inj hstore).symm⟩

/-- A range whose kind holds half a pair. -/
def FoldingRange.IsTorn (r : FoldingRange) : Prop :=
  ∃ kind, r.kind = some kind ∧ Text.IsTorn kind.name.toList

theorem RangeKind.tornIff_label {kind : RangeKind} (h : Text.IsMarked kind.name.toList) :
    Text.TornIff kind.label (Text.IsTorn kind.name.toList) := by
  unfold label
  split
  · exact h.tornIff
  · exact h.tornIff.before (by decide)

theorem mark_not_mem_characterText (character : Option Nat) :
    Text.mark ∉ characterText character := by
  cases character with
  | none => exact List.not_mem_nil
  | some n =>
      rw [characterText, List.mem_cons, not_or]
      exact ⟨by decide, Numeral.not_mem_ofNat rfl n⟩

theorem FoldingRange.tornIff_render {r : FoldingRange} (h : r.toSpan.Legible) :
    Text.TornIff r.render.toList r.IsTorn := by
  have hkind : Text.TornIff (kindText r.kind) r.IsTorn := by
    unfold IsTorn
    cases hkind : r.kind with
    | none => exact (Text.tornIff_of_not_mem List.not_mem_nil).congr (by simp)
    | some kind =>
        have hlabel := RangeKind.tornIff_label (RangeKind.marked_of_holds (h.kind kind hkind))
        exact (hlabel.behind (show Text.mark ∉ [' '] by decide)).congr (by simp)
  have hdash : Text.mark ∉ ['-'] := by decide
  have hnumber (n : Nat) : Text.mark ∉ Numeral.ofNat n := Numeral.not_mem_ofNat rfl n
  rw [toList_render]
  exact ((((hkind.behind (mark_not_mem_characterText _)).behind (hnumber _)).behind hdash).behind
    (mark_not_mem_characterText _)).behind (hnumber _)

/-- A result with a range whose kind holds half a pair. -/
def TornResult (result : Option FoldingRangeList) : Prop :=
  ∃ l, result = some l ∧ ∃ r ∈ l.ranges, r.IsTorn

theorem tornIff_renderRanges {result : Option FoldingRangeList}
    (h : ∀ l, result = some l → l.Legible) :
    Text.TornIff (renderRanges result).toList (TornResult result) := by
  cases result with
  | none => exact (Text.tornIff_of_not_mem (by decide)).congr (by simp [TornResult])
  | some l =>
      rw [toList_renderRanges, FoldingRangeList.lines]
      split
      · next hnone =>
          rw [List.intercalate_singleton]
          exact (Text.tornIff_of_not_mem (by decide)).congr (by simp [TornResult, hnone])
      · refine (Text.tornIff_intercalate (by decide) fun r hr =>
          FoldingRange.tornIff_render (h l rfl r hr)).congr ?_
        simp [TornResult]

namespace CommandLine

/-- A legible result is printed as JSON, and plainly unless a kind holds half a pair. -/
theorem printedIn_resultText_eq_none {result : Option FoldingRangeList} (json : Bool)
    (h : ∀ l, result = some l → l.Legible) :
    printedIn .marked (resultText (formatOf json) result ++ "\n") = none ↔
      json = false ∧ TornResult result := by
  cases json with
  | true =>
      have hprinted : printedIn .marked (resultText .json result ++ "\n") = some _ :=
        printedIn_pretty (FoldingRequest.readable_encodeResult h)
      rw [formatOf, if_pos rfl, hprinted]
      exact ⟨nofun, nofun⟩
  | false =>
      have htorn : Text.TornIff (renderRanges result ++ "\n").toList (TornResult result) := by
        rw [String.toList_append]
        exact (tornIff_renderRanges h).before (by decide)
      rw [and_iff_right rfl]
      exact printedIn_eq_none htorn

/-- A run prints the result that it comes to, unless it would be printed plainly and a kind
holds half a pair. -/
theorem run_prints_or_tears {env : Environment} {args : List String} {settings : Settings}
    {source : String × Utf8.Bytes} {fit : Option FoldingRangeList} {records : List Log.Record}
    {level : Nat} (json : Bool) (hargs : Asks env args settings source)
    (hlevel : configThreshold env = .ok level) (h : ComesTo env settings source fit records) :
    let out := run env (formatSwitches json ++ "ranges" :: args)
    let torn := json = false ∧ TornResult fit
    (torn → out.exitCode = 1 ∧ out.output = "" ∧ out.escaped = some .tornText) ∧
      (¬ torn → out.exitCode = 0 ∧
        printedIn .marked (resultText (formatOf json) fit ++ "\n") = some out.output) := by
  intro out torn
  have hrun : out = _ := run_of_comesTo json hargs hlevel h
  have htorn := printedIn_resultText_eq_none json h.legible
  cases hprinted : printedIn .marked (resultText (formatOf json) fit ++ "\n") with
  | none =>
      rw [Effect.result_of_torn _ hprinted] at hrun
      rw [hrun]
      exact ⟨fun _ => ⟨rfl, rfl, rfl⟩, fun hnot => absurd (htorn.mp hprinted) hnot⟩
  | some output =>
      rw [Effect.result_of_printed _ hprinted] at hrun
      rw [hrun]
      refine ⟨fun hnot => ?_, fun _ => ⟨rfl, rfl⟩⟩
      rw [htorn.mpr hnot] at hprinted
      cases hprinted

end CommandLine

end FoldingProtocol
