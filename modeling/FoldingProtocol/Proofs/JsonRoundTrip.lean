import FoldingProtocol.Proofs.JsonScalars

/-!
# Printed JSON reads back

Reading goes through a printed value along the value's own structure: what a
layout puts between the parts is blanks and one mark, and behind every part
stands a mark or a blank, which ends a number. Items and members are lists, so
each of the two loops of the reader is one induction over the list, and a value
is one induction over the value.

The reader is given fuel, two for each character of the text. A part is shorter
than the whole by at least the bracket, so what is left suffices for the part.

Not every value reads back. Doubles are left out here, an integer may have more
digits than the reader is to accept, a text may have halves that make a pair, and of
two members with one name the reader keeps the last.
-/

namespace FoldingProtocol.Json

/-- A value that is printed for good, if it is read in a dialect. -/
inductive ReadableIn (d : Dialect) : Value → Prop where
  | null : ReadableIn d .null
  | bool (b : Bool) : ReadableIn d (.bool b)
  | int {n : Int} (hn : Numeral.Within d.limit n) : ReadableIn d (.int n)
  | str {s : String} (hs : d.storage.Holds s) : ReadableIn d (.str s)
  | arr {items : List Value} (hitems : ∀ v ∈ items, ReadableIn d v) : ReadableIn d (.arr items)
  | obj {members : Members} (hnames : (members.map Prod.fst).Nodup)
      (hkeys : ∀ m ∈ members, d.storage.Holds m.1)
      (hmembers : ∀ m ∈ members, ReadableIn d m.2) : ReadableIn d (.obj members)

/-- A value that is printed for good, if it is read from a file. -/
abbrev Readable : Value → Prop := ReadableIn .files

theorem Readable.int {n : Int} (hn : Numeral.Short n) : Readable (.int n) :=
  ReadableIn.int hn.within

/-- Reading undoes printing, in any layout and before anything that does not go
on with a number. -/
def ReadsBack (d : Dialect) (v : Value) : Prop :=
  ∀ (layout : Layout) (fuel : Nat) (rest : List Char),
    2 * (print d.storage layout v).length ≤ fuel → Ends rest →
      value d fuel (print d.storage layout v ++ rest) = .ok (v, rest)

section

variable {d : Dialect}

/-! ## Blanks -/

theorem skip_cons_of_space {c : Char} (hc : isSpace c = true) (cs : List Char) :
    skip (c :: cs) = skip cs := List.dropWhile_cons_of_pos hc

theorem skip_cons {c : Char} (hc : isSpace c = false) (cs : List Char) :
    skip (c :: cs) = c :: cs :=
  List.dropWhile_cons_of_neg (by rw [hc]; exact Bool.false_ne_true)

theorem skip_append {blanks : List Char} (hblanks : ∀ c ∈ blanks, isSpace c = true)
    (cs : List Char) : skip (blanks ++ cs) = skip cs :=
  List.dropWhile_append_of_pos hblanks

theorem Layout.lead_blank (layout : Layout) : ∀ c ∈ layout.lead, isSpace c = true := by
  cases layout with
  | line => intro c hc; cases hc
  | indented depth =>
      intro c hc
      rcases List.mem_cons.mp hc with rfl | hmem
      · rfl
      · rw [List.eq_of_mem_replicate hmem]; rfl

theorem skip_lead (layout : Layout) (cs : List Char) : skip (layout.lead ++ cs) = skip cs :=
  skip_append layout.lead_blank cs

/-- What stands between two items is a comma before blanks. -/
theorem Layout.between_eq (layout : Layout) :
    ∃ gap, layout.between = ',' :: gap ∧ ∀ c ∈ gap, isSpace c = true := by
  cases layout with
  | line => exact ⟨[' '], rfl, List.forall_mem_singleton.mpr rfl⟩
  | indented depth => exact ⟨_, rfl, (Layout.indented depth).lead_blank⟩

/-- Closing brackets end a number, behind blanks or not. -/
theorem ends_lead (layout : Layout) {c : Char}
    (hc : isDigit c = false ∧ c ≠ '.' ∧ c ≠ 'e' ∧ c ≠ 'E') (rest : List Char) :
    Ends (layout.lead ++ c :: rest) := by
  cases layout with
  | line => exact ends_cons hc
  | indented depth => exact ends_cons (by decide)

/-! ## First characters -/

theorem print_head {v : Value} (hv : ReadableIn d v) (layout : Layout) :
    ∃ c cs, print d.storage layout v = c :: cs ∧ isSpace c = false ∧ c ≠ ']' := by
  cases hv with
  | null => exact ⟨_, _, rfl, rfl, by decide⟩
  | bool b => cases b <;> exact ⟨_, _, rfl, rfl, by decide⟩
  | @int n hn =>
      cases n with
      | ofNat n =>
          obtain ⟨d, ds, hds, hd⟩ := ofNat_eq_cons n
          refine ⟨d, ds, hds, ?_, (ne_of_isDigit hd rfl).symm⟩
          have hblank : ' ' ≠ d ∧ '\t' ≠ d ∧ '\n' ≠ d ∧ '\r' ≠ d :=
            ⟨ne_of_isDigit hd rfl, ne_of_isDigit hd rfl, ne_of_isDigit hd rfl,
              ne_of_isDigit hd rfl⟩
          simp [isSpace, hblank.1.symm, hblank.2.1.symm, hblank.2.2.1.symm, hblank.2.2.2.symm]
      | negSucc n => exact ⟨_, _, rfl, rfl, by decide⟩
  | str => exact ⟨_, _, rfl, rfl, by decide⟩
  | @arr items hitems => cases items <;> exact ⟨_, _, rfl, rfl, by decide⟩
  | @obj members hnames hkeys hmembers => cases members <;> exact ⟨_, _, rfl, rfl, by decide⟩

theorem skip_print {v : Value} (hv : ReadableIn d v) (layout : Layout) (rest : List Char) :
    skip (print d.storage layout v ++ rest) = print d.storage layout v ++ rest := by
  obtain ⟨c, cs, hprint, hc, -⟩ := print_head hv layout
  rw [hprint, List.cons_append, skip_cons hc]

/-! ## Steps of the reader -/

section

variable {fuel : Nat} {cs rest more after : List Char} {v : Value} {name : List Char}

theorem items_last (hv : value d fuel cs = .ok (v, rest)) (hrest : skip rest = ']' :: after) :
    items d (fuel + 1) cs = .ok ([v], after) := by
  rw [items, hv]
  simp only [bind, Except.bind, hrest]

theorem items_more {vs : List Value} (hv : value d fuel cs = .ok (v, rest))
    (hrest : skip rest = ',' :: more) (hmore : items d fuel (skip more) = .ok (vs, after)) :
    items d (fuel + 1) cs = .ok (v :: vs, after) := by
  rw [items, hv]
  simp only [bind, Except.bind, hrest, hmore]

theorem members_last (hname : text d.storage ('"' :: cs) cs = .ok (name, ':' :: ' ' :: rest))
    (hv : value d fuel (skip rest) = .ok (v, more)) (hmore : skip more = '}' :: after) :
    members d (fuel + 1) ('"' :: cs) = .ok ([(.ofList name, v)], after) := by
  rw [members, hname]
  simp only [bind, Except.bind, skip_cons (show isSpace ':' = false by rfl),
    skip_cons_of_space (show isSpace ' ' = true by rfl), hv, hmore]

theorem members_more {ms : Members} {tail : List Char}
    (hname : text d.storage ('"' :: cs) cs = .ok (name, ':' :: ' ' :: rest))
    (hv : value d fuel (skip rest) = .ok (v, more)) (hmore : skip more = ',' :: tail)
    (htail : members d fuel (skip tail) = .ok (ms, after)) :
    members d (fuel + 1) ('"' :: cs) = .ok ((.ofList name, v) :: ms, after) := by
  rw [members, hname]
  simp only [bind, Except.bind, skip_cons (show isSpace ':' = false by rfl),
    skip_cons_of_space (show isSpace ' ' = true by rfl), hv, hmore, htail]

theorem value_arr {vs : List Value} (hrest : skip rest = cs) (hcs : ∀ more, cs ≠ ']' :: more)
    (hitems : items d fuel cs = .ok (vs, after)) :
    value d (fuel + 1) ('[' :: rest) = .ok (.arr vs, after) := by
  rw [value, hrest]
  split
  · next more => exact absurd rfl (hcs more)
  · rw [hitems]; rfl

theorem value_obj {ms : Members} (hrest : skip rest = cs) (hcs : ∀ more, cs ≠ '}' :: more)
    (hmembers : members d fuel cs = .ok (ms, after)) :
    value d (fuel + 1) ('{' :: rest) = .ok (.obj (Members.putAll [] ms), after) := by
  rw [value, hrest]
  split
  · next more => exact absurd rfl (hcs more)
  · rw [hmembers]; rfl

end

/-! ## Items and members -/

theorem skip_between (layout : Layout) (cs : List Char) :
    ∃ gap, skip (layout.between ++ cs) = ',' :: (gap ++ cs) ∧ skip (gap ++ cs) = skip cs ∧
      layout.between.length = gap.length + 1 := by
  obtain ⟨gap, hbetween, hgap⟩ := layout.between_eq
  refine ⟨gap, ?_, skip_append hgap cs, by rw [hbetween]; rfl⟩
  rw [hbetween, List.cons_append, skip_cons (by rfl)]

theorem ends_between (layout : Layout) (rest : List Char) : Ends (layout.between ++ rest) := by
  obtain ⟨gap, hbetween, -⟩ := layout.between_eq
  rw [hbetween]
  exact ends_cons (by decide)

theorem items_print {v : Value} {vs : List Value}
    (hitems : ∀ w ∈ v :: vs, ReadableIn d w ∧ ReadsBack d w) (inner outer : Layout)
    (fuel : Nat) (after : List Char)
    (hfuel : 2 * (print d.storage inner v ++ printItems d.storage inner vs).length < fuel) :
    items d fuel (print d.storage inner v ++
        (printItems d.storage inner vs ++ (outer.lead ++ ']' :: after))) =
      .ok (v :: vs, after) := by
  induction vs generalizing v fuel with
  | nil =>
      obtain ⟨fuel, rfl⟩ := Nat.exists_eq_add_one_of_ne_zero (by omega : fuel ≠ 0)
      rw [List.length_append] at hfuel
      have hv := (hitems v List.mem_cons_self).2 inner fuel (outer.lead ++ ']' :: after)
        (by omega) (ends_lead outer (by decide) after)
      refine items_last hv ?_
      rw [skip_lead, skip_cons (by rfl)]
  | cons w ws ih =>
      obtain ⟨fuel, rfl⟩ := Nat.exists_eq_add_one_of_ne_zero (by omega : fuel ≠ 0)
      rw [printItems, List.append_assoc, List.length_append, List.length_append] at hfuel
      rw [printItems, List.append_assoc, List.append_assoc]
      have hv := (hitems v List.mem_cons_self).2 inner fuel _ (by omega) (ends_between inner
        (print d.storage inner w ++ (printItems d.storage inner ws ++ (outer.lead ++ ']' :: after))))
      obtain ⟨gap, hbetween, hgap, hlength⟩ := skip_between inner
        (print d.storage inner w ++ (printItems d.storage inner ws ++ (outer.lead ++ ']' :: after)))
      refine items_more hv hbetween ?_
      rw [hgap, skip_print (hitems w (by simp)).1]
      exact ih (fun u hu => hitems u (List.mem_cons_of_mem _ hu)) fuel (by omega)

/-- A member as it is printed. -/
def printMember (storage : Text.Storage) (layout : Layout) (m : String × Value) : List Char :=
  quotedText storage m.1 ++ ':' :: ' ' :: print storage layout m.2

theorem printMember_append (layout : Layout) (name : String) (v : Value) (rest : List Char) :
    printMember d.storage layout (name, v) ++ rest =
      '"' :: ((d.storage.points name.toList).flatMap escapedPoint ++
        '"' :: ':' :: ' ' :: (print d.storage layout v ++ rest)) := by
  simp [printMember, quotedText]

theorem skip_printMember (layout : Layout) (m : String × Value) (rest : List Char) :
    skip (printMember d.storage layout m ++ rest) = printMember d.storage layout m ++ rest := by
  rw [printMember_append, skip_cons (by rfl)]

theorem printMembers_cons (layout : Layout) (m : String × Value) (ms : Members) :
    printMembers d.storage layout (m :: ms) =
      layout.between ++ (printMember d.storage layout m ++ printMembers d.storage layout ms) := by
  rw [printMembers, printMember, List.append_assoc, List.append_assoc, List.append_assoc]

theorem members_print {m : String × Value} {ms : Members}
    (hmembers : ∀ n ∈ m :: ms, d.storage.Holds n.1 ∧ ReadableIn d n.2 ∧ ReadsBack d n.2)
    (inner outer : Layout) (fuel : Nat) (after : List Char)
    (hfuel : 2 * (printMember d.storage inner m ++ printMembers d.storage inner ms).length < fuel) :
    members d fuel
        (printMember d.storage inner m ++
          (printMembers d.storage inner ms ++ (outer.lead ++ '}' :: after))) =
      .ok (m :: ms, after) := by
  induction ms generalizing m fuel with
  | nil =>
      obtain ⟨fuel, rfl⟩ := Nat.exists_eq_add_one_of_ne_zero (by omega : fuel ≠ 0)
      obtain ⟨name, v⟩ := m
      obtain ⟨hname, hreadable, hback⟩ := hmembers (name, v) List.mem_cons_self
      rw [printMembers, List.append_nil, printMember, List.length_append, List.length_cons,
        List.length_cons] at hfuel
      have hv := hback inner fuel (outer.lead ++ '}' :: after) (by omega)
        (ends_lead outer (by decide) after)
      rw [printMembers, List.nil_append, printMember_append]
      have hclosed : skip (outer.lead ++ '}' :: after) = '}' :: after := by
        rw [skip_lead, skip_cons (by rfl)]
      have hlast := members_last (text_quotedText hname _ _)
        (by rw [skip_print hreadable]; exact hv) hclosed
      rw [hlast, String.ofList_toList]
  | cons n ns ih =>
      obtain ⟨fuel, rfl⟩ := Nat.exists_eq_add_one_of_ne_zero (by omega : fuel ≠ 0)
      obtain ⟨name, v⟩ := m
      obtain ⟨hname, hreadable, hback⟩ := hmembers (name, v) List.mem_cons_self
      rw [printMembers_cons, printMember, List.length_append, List.length_append,
        List.length_append, List.length_cons, List.length_cons] at hfuel
      have hv := hback inner fuel _ (by omega) (ends_between inner
        (printMember d.storage inner n ++
          (printMembers d.storage inner ns ++ (outer.lead ++ '}' :: after))))
      obtain ⟨gap, hbetween, hgap, hlength⟩ := skip_between inner
        (printMember d.storage inner n ++
          (printMembers d.storage inner ns ++ (outer.lead ++ '}' :: after)))
      have htail := ih (fun u hu => hmembers u (List.mem_cons_of_mem _ hu)) fuel (by omega)
      rw [printMembers_cons, List.append_assoc, List.append_assoc, printMember_append]
      rw [members_more (text_quotedText hname _ _) (by rw [skip_print hreadable]; exact hv)
        hbetween (by rw [hgap, skip_printMember]; exact htail), String.ofList_toList]

/-! ## Values -/

theorem put_append {key : String} {v : Value} {ms : Members} (h : key ∉ ms.map Prod.fst) :
    Members.put key v ms = ms ++ [(key, v)] := by
  induction ms with
  | nil => rfl
  | cons m ms ih =>
      rw [List.map_cons, List.mem_cons, not_or] at h
      rw [Members.put, if_neg (Ne.symm h.1), ih h.2]
      rfl

theorem putAll_eq_append {ms more : Members} (h : ((ms ++ more).map Prod.fst).Nodup) :
    Members.putAll ms more = ms ++ more := by
  induction more generalizing ms with
  | nil => rw [List.append_nil]; rfl
  | cons m more ih =>
      have hm : m.1 ∉ ms.map Prod.fst := by
        rw [List.map_append, List.nodup_append] at h
        exact fun hmem => h.2.2 m.1 hmem m.1 (by simp) rfl
      show Members.putAll (Members.put m.1 m.2 ms) more = _
      rw [put_append hm, ih, List.append_assoc]
      · rfl
      · rwa [List.append_assoc]

/-- A printed value is not empty, so there is fuel for one step at least. -/
theorem readsBack_of_step {v : Value} (hv : ReadableIn d v)
    (h : ∀ (layout : Layout) (fuel : Nat) (rest : List Char),
      2 * (print d.storage layout v).length ≤ fuel + 1 → Ends rest →
        value d (fuel + 1) (print d.storage layout v ++ rest) = .ok (v, rest)) : ReadsBack d v := by
  intro layout fuel rest hfuel hrest
  cases fuel with
  | zero =>
      obtain ⟨c, cs, hprint, -, -⟩ := print_head hv layout
      rw [hprint, List.length_cons] at hfuel
      omega
  | succ fuel => exact h layout fuel rest hfuel hrest

theorem value_of_scalar {fuel : Nat} {c : Char} {cs : List Char} (hquote : c ≠ '"')
    (hbracket : c ≠ '[') (hbrace : c ≠ '{') :
    value d (fuel + 1) (c :: cs) = scalar d.limit (c :: cs) := by
  rw [value]
  all_goals simp_all

theorem readsBack_int {n : Int} (hn : Numeral.Within d.limit n) : ReadsBack d (.int n) := by
  refine readsBack_of_step (.int hn) fun layout fuel rest hfuel hrest => ?_
  have hscalar := scalar_ofInt hn hrest
  rw [print]
  cases n with
  | ofNat n =>
      obtain ⟨d, ds, hds, hd⟩ := ofNat_eq_cons n
      rw [Numeral.ofInt, hds] at hscalar ⊢
      rw [List.cons_append, value_of_scalar (ne_of_isDigit hd rfl).symm
        (ne_of_isDigit hd rfl).symm (ne_of_isDigit hd rfl).symm]
      exact hscalar
  | negSucc n => exact hscalar

theorem readsBack_str {s : String} (hs : d.storage.Holds s) : ReadsBack d (.str s) := by
  refine readsBack_of_step (.str hs) fun layout fuel rest hfuel hrest => ?_
  have hprint : print d.storage layout (.str s) ++ rest =
      '"' :: ((d.storage.points s.toList).flatMap escapedPoint ++ '"' :: rest) := by
    simp [print, quotedText]
  rw [hprint, value, text_quotedText hs]
  show Except.ok (Value.str (.ofList s.toList), rest) = _
  rw [String.ofList_toList]

theorem print_arr (layout : Layout) (v : Value) (vs : List Value) (rest : List Char) :
    print d.storage layout (.arr (v :: vs)) ++ rest =
      '[' :: (layout.deeper.lead ++ (print d.storage layout.deeper v ++
        (printItems d.storage layout.deeper vs ++ (layout.lead ++ ']' :: rest)))) := by
  simp [print]

theorem readsBack_arr {items : List Value} (hitems : ∀ v ∈ items, ReadableIn d v)
    (hback : ∀ v ∈ items, ReadsBack d v) : ReadsBack d (.arr items) := by
  refine readsBack_of_step (.arr hitems) fun layout fuel rest hfuel hrest => ?_
  cases items with
  | nil => rfl
  | cons v vs =>
      have hlength := congrArg List.length (print_arr (d := d) layout v vs [])
      simp only [List.append_nil, List.length_cons, List.length_append] at hlength
      have hread := items_print (fun w hw => ⟨hitems w hw, hback w hw⟩)
        layout.deeper layout fuel rest (by rw [List.length_append]; omega)
      have hv : ReadableIn d v := hitems v List.mem_cons_self
      rw [print_arr]
      refine value_arr ?_ ?_ hread
      · rw [skip_lead, skip_print hv]
      · obtain ⟨c, cs, hhead, -, hclosing⟩ := print_head hv layout.deeper
        intro more heq
        rw [hhead] at heq
        exact hclosing (List.cons.inj heq).1

theorem print_obj (layout : Layout) (m : String × Value) (ms : Members) (rest : List Char) :
    print d.storage layout (.obj (m :: ms)) ++ rest =
      '{' :: (layout.deeper.lead ++ (printMember d.storage layout.deeper m ++
        (printMembers d.storage layout.deeper ms ++ (layout.lead ++ '}' :: rest)))) := by
  simp [print, printMember]

theorem readsBack_obj {ms : Members} (hnames : (ms.map Prod.fst).Nodup)
    (hkeys : ∀ m ∈ ms, d.storage.Holds m.1) (hmembers : ∀ m ∈ ms, ReadableIn d m.2)
    (hback : ∀ m ∈ ms, ReadsBack d m.2) : ReadsBack d (.obj ms) := by
  refine readsBack_of_step (.obj hnames hkeys hmembers) fun layout fuel rest hfuel hrest => ?_
  cases ms with
  | nil => rfl
  | cons m ms =>
      have hlength := congrArg List.length (print_obj (d := d) layout m ms [])
      simp only [List.append_nil, List.length_cons, List.length_append] at hlength
      have hread := members_print (fun n hn => ⟨hkeys n hn, hmembers n hn, hback n hn⟩)
        layout.deeper layout fuel rest (by rw [List.length_append]; omega)
      have hput : Members.putAll [] (m :: ms) = m :: ms := putAll_eq_append hnames
      rw [print_obj, value_obj ?_ ?_ hread, hput]
      · rw [skip_lead, skip_printMember]
      · intro more heq
        rw [printMember_append] at heq
        cases heq

theorem readsBack {v : Value} (hv : ReadableIn d v) : ReadsBack d v := by
  induction hv with
  | null => exact readsBack_of_step .null fun _ _ _ _ _ => rfl
  | bool b =>
      refine readsBack_of_step (.bool b) fun _ _ _ _ _ => ?_
      cases b <;> rfl
  | int hn => exact readsBack_int hn
  | str hs => exact readsBack_str hs
  | arr hitems ih => exact readsBack_arr hitems ih
  | obj hnames hkeys hmembers ih => exact readsBack_obj hnames hkeys hmembers ih

/-! ## What a printed text is made of -/

/-- A visible character of ASCII, a blank, or the end of a line. -/
def Printed (c : Char) : Prop := c = '\n' ∨ (0x20 ≤ c.toNat ∧ c.toNat < 0x7f)

instance (c : Char) : Decidable (Printed c) := inferInstanceAs (Decidable (_ ∨ _))

-- The characters are gone through one by one: to decide the statement about all
-- characters would be to go through all there are.
theorem printed_of_all {cs : List Char} (h : cs.all (fun c => decide (Printed c)) = true) :
    ∀ c ∈ cs, Printed c :=
  fun c hc => of_decide_eq_true (List.all_eq_true.mp h c hc)

theorem printed_lower : ∀ n < 16, Printed (Hex.lower n) := by decide

theorem printed_unitEscape (n : Nat) : ∀ c ∈ unitEscape n, Printed c := by
  have hlower (k : Nat) : Printed (Hex.lower (k % 16)) := printed_lower _ (Nat.mod_lt _ (by decide))
  rw [unitEscape_eq]
  simp only [List.forall_mem_cons]
  exact ⟨by decide, by decide, hlower _, hlower _, hlower _, hlower _, nofun⟩

theorem printed_letter {letter c : Char} (h : escaped? letter = some c) : Printed letter := by
  unfold escaped? at h
  split at h
  all_goals first | decide | cases h

theorem PrintedAs.printed {p : Text.Point} {cs : List Char} (h : PrintedAs p cs) :
    ∀ d ∈ cs, Printed d := by
  cases h with
  | letter hletter _ =>
      exact List.forall_mem_cons.mpr ⟨by decide, List.forall_mem_singleton.mpr
        (printed_letter hletter)⟩
  | plain _ _ hlow hhigh => exact List.forall_mem_singleton.mpr (.inr ⟨hlow, hhigh⟩)
  | unit | half => exact printed_unitEscape _
  | pair => exact List.forall_mem_append.mpr ⟨printed_unitEscape _, printed_unitEscape _⟩

theorem printed_quotedText (storage : Text.Storage) (s : String) :
    ∀ c ∈ quotedText storage s, Printed c := by
  rw [quotedText, List.forall_mem_append, List.forall_mem_cons, List.forall_mem_singleton]
  refine ⟨⟨by decide, fun c hc => ?_⟩, by decide⟩
  obtain ⟨p, -, hp⟩ := List.mem_flatMap.mp hc
  exact (printedAs_escapedPoint p).printed c hp

theorem printed_of_isDigit {c : Char} (h : isDigit c = true) : Printed c := by
  rw [isDigit, Bool.and_eq_true, decide_eq_true_eq, decide_eq_true_eq] at h
  have hlow : 48 ≤ c.toNat := h.1
  have hhigh : c.toNat ≤ 57 := h.2
  exact .inr ⟨by omega, by omega⟩

theorem printed_ofNat (n : Nat) : ∀ c ∈ Numeral.ofNat n, Printed c :=
  fun _ hc => printed_of_isDigit (isDigit_of_mem_ofNat hc)

theorem printed_ofInt (n : Int) : ∀ c ∈ Numeral.ofInt n, Printed c := by
  cases n with
  | ofNat n => exact printed_ofNat n
  | negSucc n => exact List.forall_mem_cons.mpr ⟨by decide, printed_ofNat (n + 1)⟩

theorem Layout.printed_lead (layout : Layout) : ∀ c ∈ layout.lead, Printed c := by
  cases layout with
  | line => exact nofun
  | indented depth =>
      refine List.forall_mem_cons.mpr ⟨by decide, fun c hc => ?_⟩
      rw [List.eq_of_mem_replicate hc]
      decide

theorem Layout.printed_between (layout : Layout) : ∀ c ∈ layout.between, Printed c := by
  cases layout with
  | line => exact printed_of_all (by decide)
  | indented depth =>
      exact List.forall_mem_cons.mpr ⟨by decide, (Layout.indented depth).printed_lead⟩

theorem printed_items {layout : Layout} {vs : List Value}
    (hvs : ∀ v ∈ vs, ∀ c ∈ print d.storage layout v, Printed c) :
    ∀ c ∈ printItems d.storage layout vs, Printed c := by
  induction vs with
  | nil => exact nofun
  | cons v vs ih =>
      rw [List.forall_mem_cons] at hvs
      rw [printItems, List.forall_mem_append, List.forall_mem_append]
      exact ⟨⟨layout.printed_between, hvs.1⟩, ih hvs.2⟩

theorem printed_member {layout : Layout} {m : String × Value}
    (hm : ∀ c ∈ print d.storage layout m.2, Printed c) :
    ∀ c ∈ printMember d.storage layout m, Printed c := by
  rw [printMember, List.forall_mem_append, List.forall_mem_cons, List.forall_mem_cons]
  exact ⟨printed_quotedText d.storage m.1, by decide, by decide, hm⟩

theorem printed_members {layout : Layout} {ms : Members}
    (hms : ∀ m ∈ ms, ∀ c ∈ print d.storage layout m.2, Printed c) :
    ∀ c ∈ printMembers d.storage layout ms, Printed c := by
  induction ms with
  | nil => exact nofun
  | cons m ms ih =>
      rw [List.forall_mem_cons] at hms
      rw [printMembers_cons, List.forall_mem_append, List.forall_mem_append]
      exact ⟨layout.printed_between, printed_member hms.1, ih hms.2⟩

theorem printed_print {v : Value} (hv : ReadableIn d v) (layout : Layout) :
    ∀ c ∈ print d.storage layout v, Printed c := by
  induction hv generalizing layout with
  | null => rw [print]; exact printed_of_all (by decide)
  | bool b => cases b <;> rw [print] <;> exact printed_of_all (by decide)
  | int => exact printed_ofInt _
  | @str s hs => exact printed_quotedText _ s
  | @arr items hitems ih =>
      cases items with
      | nil => rw [print]; exact printed_of_all (by decide)
      | cons v vs =>
          rw [List.forall_mem_cons] at ih
          rw [← List.append_nil (print d.storage layout _), print_arr, List.forall_mem_cons,
            List.forall_mem_append, List.forall_mem_append, List.forall_mem_append,
            List.forall_mem_append, List.forall_mem_singleton]
          exact ⟨by decide, layout.deeper.printed_lead, ih.1 _,
            printed_items fun w hw => ih.2 w hw _, layout.printed_lead, by decide⟩
  | @obj members hnames hkeys hmembers ih =>
      cases members with
      | nil => rw [print]; exact printed_of_all (by decide)
      | cons m ms =>
          rw [List.forall_mem_cons] at ih
          rw [← List.append_nil (print d.storage layout _), print_obj, List.forall_mem_cons,
            List.forall_mem_append, List.forall_mem_append, List.forall_mem_append,
            List.forall_mem_append, List.forall_mem_singleton]
          exact ⟨by decide, layout.deeper.printed_lead, printed_member (ih.1 _),
            printed_members fun n hn => ih.2 n hn _, layout.printed_lead, by decide⟩

/-! ## Whole texts -/

theorem ends_blank {blanks : List Char} (h : ∀ c ∈ blanks, isSpace c = true) : Ends blanks := by
  intro c hc
  have hblank := h c (List.mem_of_head? hc)
  simp only [isSpace, Bool.or_eq_true, decide_eq_true_eq] at hblank
  rcases hblank with ((rfl | rfl) | rfl) | rfl <;> decide

/-- A printed value, with blanks behind it, is a text that spells the value. -/
theorem readIn_print {v : Value} (hv : ReadableIn d v) (layout : Layout)
    {blanks : List Char} (hblanks : ∀ c ∈ blanks, isSpace c = true) :
    readIn d (print d.storage layout v ++ blanks) = .ok v := by
  obtain ⟨c, cs, hprint, hc, -⟩ := print_head hv layout
  have hmark : c ≠ '\uFEFF' := by
    have hprinted := printed_print hv layout c (by rw [hprint]; exact List.mem_cons_self)
    rintro rfl
    revert hprinted
    decide
  have hvalue := readsBack hv layout (2 * (print d.storage layout v ++ blanks).length + 2) blanks
    (by rw [List.length_append]; omega) (ends_blank hblanks)
  have hskip := skip_print hv layout blanks
  have hend : skip blanks = [] := by
    rw [← List.append_nil blanks, skip_append hblanks]
    rfl
  unfold readIn
  split
  · next rest heq =>
      rw [hprint] at heq
      exact absurd (List.cons.inj heq).1 hmark
  · rw [hskip, hvalue]
    simp only [bind, Except.bind, hend]

/-- A printed value with the end of its line is a text that spells the value. -/
theorem read_print {v : Value} (hv : Readable v) (layout : Layout) :
    read (print .marked layout v ++ ['\n']) = .ok v :=
  readIn_print hv layout (List.forall_mem_singleton.mpr rfl)

end

end FoldingProtocol.Json
