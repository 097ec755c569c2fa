import FoldingProtocol.Proofs.JsonRoundTrip
import FoldingProtocol.Proofs.TomlDoubles

/-!
# Values of a document read back

A value that a document can hold, with integers of no more digits than are read, is
written, and from what is written the reader takes the value and nothing more. The
two recursions do not meet step for step: the writer puts marks between the items it
goes through, and the reader looks past gaps for the marks. So what is proved of the
items after the first is about the item before them too, since it is with that item
that the reader takes its step.

An inline table may bind no key below a key whose value has parts. Its keys have one
part here, so there is only something to say about a key that is bound twice.
-/

namespace FoldingProtocol.Toml

/-- A value that is written, and that a document can hold. -/
inductive Writable : Value → Prop where
  | bool (b : Bool) : Writable (.bool b)
  | int {n : Int} (hn : Numeral.Short n) : Writable (.int n)
  | float {x : Binary64} (hx : x.Canonical) : Writable (.float x)
  | str (s : String) : Writable (.str s)
  | moment {m : Moment} (hm : m.Real) : Writable (.moment m)
  | arr {items : List Value} (hitems : ∀ v ∈ items, Writable v) : Writable (.arr items)
  | obj {ms : Members} (hkeys : ms.Distinct) (hmembers : ∀ m ∈ ms, Writable m.2) :
      Writable (.obj ms)

theorem Sound.writable {v : Value} (h : Sound v) (hshort : v.Short) : Writable v := by
  induction h with
  | bool b => exact .bool b
  | int n => cases hshort with | int hn => exact .int hn
  | float hx => exact .float hx
  | str s => exact .str s
  | moment hm => exact .moment hm
  | arr _ ih => cases hshort with | arr hitems => exact .arr fun v hv => ih v hv (hitems v hv)
  | obj hkeys _ ih =>
      cases hshort with | obj hmembers => exact .obj hkeys fun m hm => ih m hm (hmembers m hm)

/-! ## Characters of a written value -/

/-- A text without returns, which are taken out of line ends when a file is read. -/
def Unbroken (cs : List Char) : Prop := ∀ c ∈ cs, c ≠ '\r'

@[simp] theorem unbroken_nil : Unbroken [] := nofun

@[simp] theorem unbroken_cons {c : Char} {cs : List Char} :
    Unbroken (c :: cs) ↔ c ≠ '\r' ∧ Unbroken cs := List.forall_mem_cons

@[simp] theorem unbroken_append {cs more : List Char} :
    Unbroken (cs ++ more) ↔ Unbroken cs ∧ Unbroken more := List.forall_mem_append

theorem unbroken_of_all {cs : List Char} (class_ : Char → Bool) (h : ∀ c ∈ cs, class_ c = true)
    (hreturn : class_ '\r' = false) : Unbroken cs := by
  rintro _ hc rfl
  rw [h _ hc] at hreturn
  cases hreturn

@[simp] theorem unbroken_ofInt (n : Int) : Unbroken (Numeral.ofInt n) := by
  have hnat (n : Nat) : Unbroken (Numeral.ofNat n) :=
    unbroken_of_all isDecimal (fun _ => isDecimal_of_mem_ofNat) (by decide)
  cases n with
  | ofNat n => exact hnat n
  | negSucc n => exact unbroken_cons.mpr ⟨by decide, hnat (n + 1)⟩

@[simp] theorem unbroken_writtenDouble (x : Binary64) : Unbroken (x.render spelling) := by
  refine Binary64.forall_mem_render (fun c hc => ?_) ?_ ?_ x
  · rintro rfl
    rcases hc with hc | hc
    · cases hc
    · simp at hc
  · simp [spelling]
  · simp [spelling]

theorem WrittenAs.unbroken {c : Char} {cs : List Char} (h : WrittenAs c cs) : Unbroken cs := by
  have hdigit : ∀ n < 16, Hex.lower n ≠ '\r' := by decide
  cases h with
  | @letter letter hletter hwidth =>
      refine unbroken_cons.mpr ⟨by decide, List.forall_mem_singleton.mpr ?_⟩
      rintro rfl
      cases hletter
  | number =>
      rw [hexFixed_four]
      have hlower (n : Nat) : Hex.lower (n % 16) ≠ '\r' := hdigit _ (Nat.mod_lt _ (by decide))
      simp [hlower]
  | plain _ _ hcontrol =>
      refine List.forall_mem_singleton.mpr ?_
      rintro rfl
      cases hcontrol

@[simp] theorem unbroken_writtenText (s : String) : Unbroken (writtenText s) := by
  have hbody : Unbroken (s.toList.flatMap writtenChar) := by
    intro d hd
    obtain ⟨c, -, hc⟩ := List.mem_flatMap.mp hd
    exact (writtenAs_writtenChar c).unbroken d hc
  simp [writtenText, hbody]

@[simp] theorem unbroken_writtenKey (key : String) : Unbroken (writtenKey key) := by
  unfold writtenKey
  dsimp only
  split
  · next hbare =>
      rw [Bool.and_eq_true, List.all_eq_true] at hbare
      exact unbroken_of_all isBare hbare.2 (by decide)
  · exact unbroken_writtenText key

@[simp] theorem unbroken_indent (level : Nat) : Unbroken (indent level) := by
  intro c hc
  rw [List.eq_of_mem_replicate hc]
  decide

@[simp] theorem unbroken_moment (m : Moment) : Unbroken (m.render ' ') := by
  have hpadded (width n : Nat) : Unbroken (Moment.padded width n) :=
    unbroken_of_all isDecimal (fun _ => isDecimal_of_mem_padded) (by decide)
  have hdate (d : Date) : Unbroken (Moment.dateText d) := by simp [Moment.dateText, hpadded]
  have htime (t : TimeOfDay) : Unbroken (Moment.timeText t) := by
    unfold Moment.timeText
    split <;> simp [hpadded]
  have hoffset (minutes : Int) : Unbroken (Moment.offsetText minutes) := by
    unfold Moment.offsetText
    split <;> simp [hpadded]
  cases m with
  | date d => exact hdate d
  | time t => exact htime t
  | dateTime d t east => cases east <;> simp [Moment.render, hdate, htime, hoffset]

/-! ## Scalars -/

/-- A text that spells a value, whatever the value is followed by. -/
structure Spells (cs : List Char) (v : Value) : Prop where
  unbroken : Unbroken cs
  value : ∀ {rest fuel}, Follows rest → 2 * cs.length < fuel → value fuel (cs ++ rest) = .ok (v, rest)

/-- The characters that no scalar starts with. -/
theorem scalar_mark {c : Char} (h : c ∈ ['[', '{', ']', '}', '#', ' ', '\t', '\n', ',']) (cs : List Char) :
    scalar (c :: cs) = .error (.grammar .badValue (c :: cs)) := by
  simp only [List.mem_cons, List.not_mem_nil, or_false] at h
  rcases h with rfl | rfl | rfl | rfl | rfl | rfl | rfl | rfl | rfl <;> rfl

theorem value_of_scalar {fuel : Nat} {cs rest : List Char} {v : Value}
    (h : scalar cs = .ok (v, rest)) : value (fuel + 1) cs = .ok (v, rest) := by
  unfold value
  split
  · rw [scalar_mark (by simp)] at h
    cases h
  · rw [scalar_mark (by simp)] at h
    cases h
  · exact h

theorem spells_of_scalar {cs : List Char} {v : Value} (hcs : Unbroken cs)
    (h : ∀ {rest}, Follows rest → scalar (cs ++ rest) = .ok (v, rest)) : Spells cs v where
  unbroken := hcs
  value {rest fuel} hrest hfuel := by
    cases fuel with
    | zero => omega
    | succ fuel => exact value_of_scalar (h hrest)

/-! ## Gaps -/

theorem isGap_iff {c : Char} : isGap c = true ↔ c = ' ' ∨ c = '\t' ∨ c = '\n' := by
  simp [isGap, isBlank, or_assoc]

theorem skipGaps_head {c : Char} (hgap : isGap c = false) (hmark : c ≠ '#') (cs : List Char) :
    skipGaps false (c :: cs) = .ok (c :: cs) := by
  rw [skipGaps, hgap, if_neg Bool.false_ne_true, if_neg hmark]

theorem skipBlanks_head {c : Char} (hgap : isGap c = false) (cs : List Char) :
    skipBlanks (c :: cs) = c :: cs := by
  have hblank : ¬ isBlank c = true := fun hblank => by
    rw [isGap, hblank] at hgap
    cases hgap
  rw [skipBlanks, List.dropWhile_cons_of_neg hblank]

theorem skipGaps_append {gap : List Char} (hgap : ∀ c ∈ gap, isGap c = true) (cs : List Char) :
    skipGaps false (gap ++ cs) = skipGaps false cs := by
  induction gap with
  | nil => rfl
  | cons c gap ih =>
      rw [List.forall_mem_cons] at hgap
      rw [List.cons_append, skipGaps, if_pos hgap.1, ih hgap.2]

theorem isGap_of_mem_indent {level : Nat} {c : Char} (h : c ∈ indent level) : isGap c = true := by
  rw [List.eq_of_mem_replicate h]
  decide

theorem skipGaps_line (level : Nat) (cs : List Char) :
    skipGaps false ('\n' :: (indent level ++ cs)) = skipGaps false cs :=
  skipGaps_append (List.forall_mem_cons.mpr ⟨by decide, fun _ => isGap_of_mem_indent⟩) cs

/-- What spells a value starts with none of the marks that can stand in its place. -/
theorem Spells.head {cs : List Char} {v : Value} (h : Spells cs v) :
    ∃ c more, cs = c :: more ∧ isGap c = false ∧ c ≠ '#' ∧ c ≠ ']' := by
  have hvalue := h.value (.line []) (Nat.lt_succ_self _)
  -- The reader would refuse the text at such a mark, but it takes the value from it.
  have hmark {c : Char} {more : List Char} (hc : c ∈ [']', '#', ' ', '\t', '\n'])
      (hread : Toml.value (2 * cs.length + 1) (c :: more) = .ok (v, ['\n'])) : False := by
    simp only [List.mem_cons, List.not_mem_nil, or_false] at hc
    rcases hc with rfl | rfl | rfl | rfl | rfl <;> cases hread
  cases cs with
  | nil => exact (hmark (by simp) hvalue).elim
  | cons c more =>
      refine ⟨c, more, rfl, Bool.eq_false_iff.mpr fun hgap => ?_, ?_, ?_⟩
      · refine hmark ?_ hvalue
        rcases isGap_iff.mp hgap with rfl | rfl | rfl <;> simp
      · rintro rfl
        exact hmark (by simp) hvalue
      · rintro rfl
        exact hmark (by simp) hvalue

theorem Spells.skipGaps_append {cs : List Char} {v : Value} (h : Spells cs v) (rest : List Char) :
    skipGaps false (cs ++ rest) = .ok (cs ++ rest) := by
  obtain ⟨c, more, rfl, hgap, hmark, -⟩ := h.head
  exact skipGaps_head hgap hmark _

theorem Spells.append_ne_close {cs : List Char} {v : Value} (h : Spells cs v)
    (rest tail : List Char) : cs ++ rest ≠ ']' :: tail := by
  obtain ⟨c, more, rfl, -, -, hclose⟩ := h.head
  exact fun heq => hclose (List.cons.inj heq).1

theorem Spells.skipBlanks_append {cs : List Char} {v : Value} (h : Spells cs v) (rest : List Char) :
    skipBlanks (' ' :: (cs ++ rest)) = cs ++ rest := by
  obtain ⟨c, more, rfl, hgap, -, -⟩ := h.head
  rw [skipBlanks, List.dropWhile_cons_of_pos (by decide)]
  exact skipBlanks_head hgap _

/-! ## Arrays -/

/-- A value that is written, on every level, as something that spells it. -/
def IsSpelled (v : Value) : Prop := ∀ level, ∃ cs, written level v = .ok cs ∧ Spells cs v

section

variable {fuel : Nat} {cs next more rest after : List Char} {v : Value} {vs : List Value}

theorem items_last (hv : value fuel cs = .ok (v, ',' :: more))
    (hmore : skipGaps false more = .ok (']' :: after)) :
    items (fuel + 1) cs = .ok ([v], after) := by
  rw [items, hv]
  simp only [bind, Except.bind, skipGaps_head (c := ',') rfl (by decide), hmore]

theorem items_more (hv : value fuel cs = .ok (v, ',' :: more))
    (hmore : skipGaps false more = .ok next) (hopen : ∀ tail, next ≠ ']' :: tail)
    (hvs : items fuel next = .ok (vs, after)) :
    items (fuel + 1) cs = .ok (v :: vs, after) := by
  rw [items, hv]
  simp only [bind, Except.bind, skipGaps_head (c := ',') rfl (by decide), hmore, hvs]

theorem value_arr (hrest : skipGaps false rest = .ok next) (hopen : ∀ tail, next ≠ ']' :: tail)
    (hvs : items fuel next = .ok (vs, after)) :
    value (fuel + 1) ('[' :: rest) = .ok (.arr vs, after) := by
  simp only [value, bind, Except.bind, hrest, hvs]

end

/-- The items after the first are read together with the first. -/
theorem items_written {vs : List Value} (hvs : ∀ v ∈ vs, IsSpelled v) (level outer : Nat) :
    ∃ more, writtenItems level vs = .ok more ∧ Unbroken more ∧
      ∀ first v fuel after, Spells first v → 2 * (first.length + more.length) + 1 < fuel →
        items fuel (first ++ (more ++ ',' :: '\n' :: (indent outer ++ ']' :: after))) =
          .ok (v :: vs, after) := by
  induction vs with
  | nil =>
      refine ⟨[], by rw [writtenItems], unbroken_nil, fun first v fuel after hfirst hfuel => ?_⟩
      cases fuel with
      | zero => omega
      | succ fuel =>
          rw [List.length_nil] at hfuel
          refine items_last (hfirst.value (.comma _) (by omega)) ?_
          rw [skipGaps_line]
          exact skipGaps_head rfl (by decide) _
  | cons w ws ih =>
      rw [List.forall_mem_cons] at hvs
      obtain ⟨second, hsecond, hw⟩ := hvs.1 level
      obtain ⟨more, hmore, hunbroken, hread⟩ := ih hvs.2
      refine ⟨',' :: '\n' :: indent level ++ second ++ more, ?_, ?_, ?_⟩
      · rw [writtenItems, hsecond, hmore]
        rfl
      · simp [hw.unbroken, hunbroken]
      · intro first v fuel after hfirst hfuel
        simp only [List.length_append, List.length_cons] at hfuel
        cases fuel with
        | zero => omega
        | succ fuel =>
            have hnext := hread second w fuel after hw (by omega)
            simp only [List.append_assoc, List.cons_append]
            refine items_more (hfirst.value (.comma _) (by omega)) ?_ (hw.append_ne_close _) hnext
            rw [skipGaps_line]
            exact hw.skipGaps_append _

theorem isSpelled_arr {items : List Value} (h : ∀ v ∈ items, IsSpelled v) :
    IsSpelled (.arr items) := by
  intro level
  cases items with
  | nil =>
      refine ⟨['[', ']'], by rw [written], by simp, fun {rest fuel} hrest hfuel => ?_⟩
      cases fuel with
      | zero => omega
      | succ fuel => rfl
  | cons v vs =>
      rw [List.forall_mem_cons] at h
      obtain ⟨first, hfirst, hv⟩ := h.1 (level + 1)
      obtain ⟨more, hmore, hunbroken, hread⟩ := items_written h.2 (level + 1) level
      refine ⟨'[' :: '\n' :: indent (level + 1) ++ first ++ more ++ ',' :: '\n' ::
        indent level ++ [']'], ?_, ?_, ?_⟩
      · rw [written, hfirst, hmore]
        rfl
      · simp [hv.unbroken, hunbroken]
      · intro rest fuel _ hfuel
        simp only [List.length_append, List.length_cons] at hfuel
        cases fuel with
        | zero => omega
        | succ fuel =>
            have hitems := hread first v fuel rest hv (by omega)
            simp only [List.append_assoc, List.cons_append, List.nil_append]
            refine value_arr ?_ (hv.append_ne_close _) hitems
            rw [skipGaps_line]
            exact hv.skipGaps_append _

/-! ## Keys of one part -/

theorem startsKey_head {c : Char} (h : startsKey c = true) :
    isGap c = false ∧ c ≠ '#' ∧ c ≠ '}' ∧ c ≠ '[' := by
  refine ⟨Bool.eq_false_iff.mpr fun hgap => ?_, ?_, ?_, ?_⟩
  · rcases isGap_iff.mp hgap with rfl | rfl | rfl <;> cases h
  all_goals rintro rfl; cases h

theorem skipGaps_writtenKey (key : String) (rest : List Char) :
    skipGaps false (writtenKey key ++ rest) = .ok (writtenKey key ++ rest) := by
  obtain ⟨c, cs, hkey, hc⟩ := writtenKey_head key
  obtain ⟨hgap, hmark, -, -⟩ := startsKey_head hc
  rw [hkey]
  exact skipGaps_head hgap hmark _

theorem writtenKey_append_ne_close (key : String) (rest tail : List Char) :
    writtenKey key ++ rest ≠ '}' :: tail := by
  obtain ⟨c, cs, hkey, hc⟩ := writtenKey_head key
  rw [hkey]
  exact fun heq => (startsKey_head hc).2.2.1 (List.cons.inj heq).1

theorem key_writtenKey (k : String) (rest : List Char) :
    key (writtenKey k ++ ' ' :: '=' :: rest) = .ok ([k], '=' :: rest) := by
  rw [key, keyFrom, keyPart_writtenKey k (endsKey_cons (by decide) _)]
  rfl

/-! ## Inline tables -/

/-- The keys that may not be reached into are keys of the table. -/
def Inline.Bound (t : Inline) : Prop :=
  ∀ path ∈ t.marks.fixed, ∃ k ∈ t.table.map Prod.fst, path = [k]

theorem bindNew_append {ms : Members} {k : String} (h : k ∉ ms.map Prod.fst) (v : Value) :
    bindNew k v ms = .ok (ms ++ [(k, v)]) := by
  rw [bindNew, Members.has, Members.get?_eq_none h, Json.put_append h]
  rfl

theorem Inline.bind_new {t : Inline} (ht : t.Bound) {k : String} (hk : k ∉ t.table.map Prod.fst)
    (v : Value) (rest : List Char) :
    ∃ u, t.bind [k] v rest = .ok u ∧ u.table = t.table ++ [(k, v)] ∧ u.Bound := by
  have hfixed : t.marks.isFixed [k] = false := by
    rw [Marks.isFixed, List.any_eq_false]
    rintro path hpath hprefix
    obtain ⟨other, hother, rfl⟩ := ht path hpath
    obtain ⟨rfl, -⟩ := List.cons_prefix_cons.mp (List.isPrefixOf_iff_prefix.mp hprefix)
    exact hk hother
  have hchange : change false (bindNew k v) [] t.table = .ok (t.table ++ [(k, v)]) := by
    rw [change, bindNew_append hk]
  have hmem : ∀ other ∈ t.table.map Prod.fst, other ∈ (t.table ++ [(k, v)]).map Prod.fst :=
    fun other hother => by rw [List.map_append]; exact List.mem_append_left _ hother
  have hold : ∀ path ∈ t.marks.fixed, ∃ other ∈ (t.table ++ [(k, v)]).map Prod.fst,
      path = [other] := fun path hpath => by
    obtain ⟨other, hother, heq⟩ := ht path hpath
    exact ⟨other, hmem other hother, heq⟩
  refine ⟨⟨t.table ++ [(k, v)], if hasParts v then t.marks.fix [k] else t.marks⟩, ?_, rfl, ?_⟩
  · simp only [Inline.bind, hfixed, Bool.false_eq_true, if_false, List.dropLast_singleton,
      List.getLast?_singleton, Option.getD_some, hchange]
  · unfold Inline.Bound
    dsimp only
    split
    · exact List.forall_mem_cons.mpr ⟨⟨k, by simp, rfl⟩, hold⟩
    · exact hold

section

variable {fuel : Nat} {t : Inline} {k : String} {v : Value} {first next more rest after : List Char}
  {ms : Members}

/-- The last pair before the closing brace. -/
theorem pairs_last (ht : t.Bound) (hk : k ∉ t.table.map Prod.fst) (hv : Spells first v)
    (hfuel : 2 * first.length < fuel) :
    pairs (fuel + 1) t (writtenKey k ++ ' ' :: '=' :: ' ' :: (first ++ ' ' :: '}' :: after)) =
      .ok (t.table ++ [(k, v)], after) := by
  obtain ⟨u, hbind, htable, -⟩ := Inline.bind_new ht hk v (' ' :: '}' :: after)
  have hvalue := hv.value (.brace after) hfuel
  have hclose : skipGaps false (' ' :: '}' :: after) = .ok ('}' :: after) := rfl
  rw [pairs, key_writtenKey]
  simp only [bind, Except.bind, hv.skipBlanks_append, hvalue, hbind, hclose, htable]

/-- A pair with others after it. -/
theorem pairs_more (ht : t.Bound) (hk : k ∉ t.table.map Prod.fst) (hv : Spells first v)
    (hfuel : 2 * first.length < fuel) (hmore : skipGaps false more = .ok next)
    (hopen : ∀ tail, next ≠ '}' :: tail)
    (hpairs : ∀ u : Inline, u.Bound → u.table = t.table ++ [(k, v)] →
      pairs fuel u next = .ok (ms, after)) :
    pairs (fuel + 1) t (writtenKey k ++ ' ' :: '=' :: ' ' :: (first ++ ',' :: more)) =
      .ok (ms, after) := by
  obtain ⟨u, hbind, htable, hbound⟩ := Inline.bind_new ht hk v (',' :: more)
  have hvalue := hv.value (.comma more) hfuel
  have hcomma := skipGaps_head (c := ',') rfl (by decide) more
  have hnext := hpairs u hbound htable
  rw [pairs, key_writtenKey]
  simp only [bind, Except.bind, hv.skipBlanks_append, hvalue, hbind, hcomma, hmore, hnext]

theorem value_obj (hrest : skipGaps false rest = .ok next) (hopen : ∀ tail, next ≠ '}' :: tail)
    (hpairs : pairs fuel ⟨[], .none⟩ next = .ok (ms, after)) :
    value (fuel + 1) ('{' :: rest) = .ok (.obj ms, after) := by
  simp only [value, bind, Except.bind, hrest, hpairs]

end

/-- The pairs after the first are read together with the first. -/
theorem pairs_written {ms : Members} (hms : ∀ m ∈ ms, IsSpelled m.2) :
    ∃ more, writtenPairs ms = .ok more ∧ Unbroken more ∧
      ∀ t k first v fuel after, Inline.Bound t → (t.table ++ (k, v) :: ms).Distinct →
        Spells first v → 2 * (first.length + more.length) + 1 < fuel →
          pairs fuel t (writtenKey k ++ ' ' :: '=' :: ' ' :: (first ++ (more ++ ' ' :: '}' :: after)))
            = .ok (t.table ++ (k, v) :: ms, after) := by
  have hfresh {t : Inline} {k : String} {v : Value} {more : Members}
      (hkeys : (t.table ++ (k, v) :: more).Distinct) : k ∉ t.table.map Prod.fst := by
    rw [Members.Distinct, List.map_append, List.nodup_append] at hkeys
    exact fun hmem => hkeys.2.2 k hmem k List.mem_cons_self rfl
  induction ms with
  | nil =>
      refine ⟨[], by rw [writtenPairs], unbroken_nil, ?_⟩
      intro t k first v fuel after ht hkeys hfirst hfuel
      rw [List.length_nil] at hfuel
      cases fuel with
      | zero => omega
      | succ fuel => exact pairs_last ht (hfresh hkeys) hfirst (by omega)
  | cons m ms ih =>
      rw [List.forall_mem_cons] at hms
      obtain ⟨second, hsecond, hm⟩ := hms.1 0
      obtain ⟨more, hmore, hunbroken, hread⟩ := ih hms.2
      refine ⟨',' :: ' ' :: writtenKey m.1 ++ [' ', '=', ' '] ++ second ++ more, ?_, ?_, ?_⟩
      · rw [writtenPairs, hsecond, hmore]
        rfl
      · simp [hm.unbroken, hunbroken]
      · intro t k first v fuel after ht hkeys hfirst hfuel
        simp only [List.length_append, List.length_cons] at hfuel
        simp only [List.append_assoc, List.cons_append, List.nil_append]
        cases fuel with
        | zero => omega
        | succ fuel =>
            refine pairs_more ht (hfresh hkeys) hfirst (by omega) (skipGaps_writtenKey _ _)
              (writtenKey_append_ne_close _ _) fun u hbound htable => ?_
            -- The table grows at its end, so what is bound at last is in the order written.
            have hall : u.table ++ m :: ms = t.table ++ (k, v) :: m :: ms := by
              rw [htable, List.append_assoc]
              rfl
            rw [← hall] at hkeys ⊢
            exact hread u m.1 second m.2 fuel after hbound hkeys hm (by omega)

theorem isSpelled_obj {ms : Members} (hkeys : ms.Distinct) (h : ∀ m ∈ ms, IsSpelled m.2) :
    IsSpelled (.obj ms) := by
  intro level
  cases ms with
  | nil =>
      refine ⟨['{', '}'], by rw [written], by simp, fun {rest fuel} hrest hfuel => ?_⟩
      cases fuel with
      | zero => omega
      | succ fuel => rfl
  | cons m ms =>
      rw [List.forall_mem_cons] at h
      obtain ⟨first, hfirst, hm⟩ := h.1 0
      obtain ⟨more, hmore, hunbroken, hread⟩ := pairs_written h.2
      refine ⟨'{' :: ' ' :: writtenKey m.1 ++ [' ', '=', ' '] ++ first ++ more ++ [' ', '}'],
        ?_, ?_, ?_⟩
      · rw [written, hfirst, hmore]
        rfl
      · simp [hm.unbroken, hunbroken]
      · intro rest fuel _ hfuel
        simp only [List.length_append, List.length_cons] at hfuel
        cases fuel with
        | zero => omega
        | succ fuel =>
            have hpairs := hread ⟨[], .none⟩ m.1 first m.2 fuel rest nofun hkeys hm (by omega)
            simp only [List.append_assoc, List.cons_append, List.nil_append]
            exact value_obj (skipGaps_writtenKey _ _) (writtenKey_append_ne_close _ _) hpairs

/-! ## Values -/

theorem isSpelled_of_scalar {v : Value} {cs : List Char} (hwritten : ∀ level, written level v = .ok cs)
    (hcs : Unbroken cs) (h : ∀ {rest}, Follows rest → scalar (cs ++ rest) = .ok (v, rest)) :
    IsSpelled v :=
  fun level => ⟨cs, hwritten level, spells_of_scalar hcs h⟩

/-- A value that can be written is written as what the reader takes it from. -/
theorem Writable.isSpelled {v : Value} (h : Writable v) : IsSpelled v := by
  induction h with
  | bool b =>
      refine isSpelled_of_scalar (fun _ => ?_) ?_ fun _ => scalar_bool b _
      · cases b <;> rw [written] <;> rfl
      · cases b <;> simp
  | @int n hn =>
      refine isSpelled_of_scalar (fun _ => ?_) (unbroken_ofInt n) fun hrest => scalar_ofInt hn hrest
      rw [written, if_pos (Numeral.isShowable_iff.mpr hn)]
  | @float x hx =>
      refine isSpelled_of_scalar (fun _ => ?_) (unbroken_writtenDouble x) fun hrest =>
        scalar_writtenDouble hx hrest
      rw [written]
  | str s =>
      refine isSpelled_of_scalar (fun _ => ?_) (unbroken_writtenText s) fun hrest =>
        scalar_writtenText s hrest
      rw [written]
  | @moment m hm =>
      refine isSpelled_of_scalar (fun _ => ?_) (unbroken_moment m) fun hrest => scalar_render hm hrest
      rw [written]
  | arr _ ih => exact isSpelled_arr ih
  | obj hkeys _ ih => exact isSpelled_obj hkeys ih

end FoldingProtocol.Toml
