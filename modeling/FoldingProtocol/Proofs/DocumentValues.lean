import FoldingProtocol.Proofs.NumberLimits
import FoldingProtocol.Toml.Reader

/-!
# What a document holds

A document of settings holds less than values can express. It has no null, every
table in it binds a key once, its doubles are those that reading gives, and its
moments are on the calendar and on the clock. That is so because scalars are
checked where they are read, and because every statement of a document, and every
pair of an inline table, changes one table by putting one key into it.

The reader of values is given fuel and so the induction is on that; a document is
then one induction over its lines.
-/

namespace FoldingProtocol

namespace Members

theorem get?_put_self (key : String) (v : Value) (ms : Members) :
    (ms.put key v).get? key = some v := by
  induction ms with
  | nil => rw [put, get?_cons, if_pos rfl]
  | cons m ms ih =>
      rw [put]
      split
      · rw [get?_cons, if_pos rfl]
      · next hne => rw [get?_cons, if_neg hne, ih]

theorem get?_put_of_ne {key other : String} (h : other ≠ key) (v : Value) (ms : Members) :
    (ms.put key v).get? other = ms.get? other := by
  induction ms with
  | nil => rw [put, get?_cons, if_neg (Ne.symm h)]
  | cons m ms ih =>
      obtain ⟨k, w⟩ := m
      rw [put]
      split
      · next hk => rw [get?_cons, get?_cons, if_neg (Ne.symm h), if_neg (hk ▸ Ne.symm h)]
      · rw [get?_cons, get?_cons, ih]

theorem isSome_get?_put {ms : Members} {other : String} (h : (ms.get? other).isSome = true)
    (key : String) (v : Value) : ((ms.put key v).get? other).isSome = true := by
  by_cases hkey : other = key
  · rw [hkey, get?_put_self]
    rfl
  · rw [get?_put_of_ne hkey]
    exact h

/-- Every key is bound once. -/
def Distinct (ms : Members) : Prop := (ms.map Prod.fst).Nodup

instance (ms : Members) : Decidable ms.Distinct := inferInstanceAs (Decidable (List.Nodup _))

theorem mem_keys_put {key other : String} {v : Value} {ms : Members}
    (h : other ∈ (ms.put key v).map Prod.fst) : other = key ∨ other ∈ ms.map Prod.fst := by
  induction ms with
  | nil => exact .inl (List.mem_singleton.mp h)
  | cons m ms ih =>
      rw [put] at h
      split at h
      · next hk =>
          rcases List.mem_cons.mp h with rfl | h
          · exact .inl rfl
          · exact .inr (List.mem_cons_of_mem _ h)
      · rcases List.mem_cons.mp h with rfl | h
        · exact .inr List.mem_cons_self
        · rcases ih h with h | h
          · exact .inl h
          · exact .inr (List.mem_cons_of_mem _ h)

theorem Distinct.put {ms : Members} (h : Distinct ms) (key : String) (v : Value) :
    Distinct (ms.put key v) := by
  induction ms with
  | nil => exact List.nodup_cons.mpr ⟨List.not_mem_nil, List.nodup_nil⟩
  | cons m ms ih =>
      obtain ⟨hm, hms⟩ := List.nodup_cons.mp h
      rw [Members.put]
      split
      · next hk =>
          subst hk
          exact List.nodup_cons.mpr ⟨hm, hms⟩
      · next hk =>
          refine List.nodup_cons.mpr ⟨fun hmem => ?_, ih hms⟩
          rcases mem_keys_put hmem with h | h
          · exact hk h
          · exact hm h

theorem get?_eq_none {ms : Members} {key : String} (h : key ∉ ms.map Prod.fst) :
    ms.get? key = none :=
  Option.eq_none_iff_forall_ne_some.mpr fun _ hv => h (List.mem_map_of_mem (mem_of_get? hv))

theorem get?_eq_some {ms : Members} (h : ms.Distinct) {key : String} {v : Value} :
    ms.get? key = some v ↔ (key, v) ∈ ms := by
  refine ⟨mem_of_get?, fun hmem => ?_⟩
  induction ms with
  | nil => cases hmem
  | cons m ms ih =>
      obtain ⟨hm, hms⟩ := List.nodup_cons.mp h
      rw [get?_cons]
      rcases List.mem_cons.mp hmem with rfl | hmem
      · rw [if_pos rfl]
      · have hne : m.1 ≠ key := fun heq => hm (heq ▸ List.mem_map_of_mem hmem)
        rw [if_neg hne, ih hms hmem]

theorem get?_perm {ms more : Members} (h : ms.Distinct) (hperm : more.Perm ms) (key : String) :
    more.get? key = ms.get? key := by
  have hmore : more.Distinct := (hperm.map Prod.fst).nodup_iff.mpr h
  refine Option.ext fun v => ?_
  rw [get?_eq_some hmore, get?_eq_some h, hperm.mem_iff]

theorem mem_keys_iff {ms : Members} {key : String} :
    key ∈ ms.map Prod.fst ↔ (ms.get? key).isSome = true := by
  refine ⟨fun hkey => ?_, fun hbound => ?_⟩
  · induction ms with
    | nil => cases hkey
    | cons m ms ih =>
        rw [get?_cons]
        split
        · rfl
        · next hne =>
            rcases List.mem_cons.mp hkey with heq | hkey
            · exact absurd heq.symm hne
            · exact ih hkey
  · obtain ⟨v, hv⟩ := Option.isSome_iff_exists.mp hbound
    exact List.mem_map_of_mem (mem_of_get? hv)

end Members

/-! ## Scalars -/

/-- A time that a clock shows. -/
structure TimeOfDay.OnClock (t : TimeOfDay) : Prop where
  hour : t.hour < 24
  minute : t.minute < 60
  second : t.second < 60
  microsecond : t.microsecond < 1000000

/-- A day of the calendar whose year has four digits. -/
structure Date.OnCalendar (d : Date) : Prop where
  valid : d.isValid = true
  year : d.year < 10000

/-- A moment of calendar and clock; an offset is less than a day. -/
inductive Moment.Real : Moment → Prop where
  | date {d : Date} (hd : d.OnCalendar) : Real (.date d)
  | time {t : TimeOfDay} (ht : t.OnClock) : Real (.time t)
  | dateTime {d : Date} {t : TimeOfDay} {east : Option Int} (hd : d.OnCalendar)
      (ht : t.OnClock) (heast : ∀ minutes ∈ east, minutes.natAbs < 1440) :
      Real (.dateTime d t east)

/-- A double that reading gives: up to infinity, or the one that is no number. -/
def Binary64.Canonical (x : Binary64) : Prop := x.rank ≤ infinityRank ∨ x = nan

/-- A value that a document can hold. -/
inductive Toml.Sound : Value → Prop where
  | bool (b : Bool) : Sound (.bool b)
  | int (n : Int) : Sound (.int n)
  | float {x : Binary64} (hx : x.Canonical) : Sound (.float x)
  | str (s : String) : Sound (.str s)
  | moment {m : Moment} (hm : m.Real) : Sound (.moment m)
  | arr {items : List Value} (hitems : ∀ v ∈ items, Sound v) : Sound (.arr items)
  | obj {ms : Members} (hkeys : ms.Distinct) (hmembers : ∀ m ∈ ms, Sound m.2) : Sound (.obj ms)

namespace Toml

theorem digits?_lt {count soFar n : Nat} {cs rest : List Char}
    (h : digits? count soFar cs = some (n, rest)) : n < (soFar + 1) * 10 ^ count := by
  induction count generalizing soFar cs with
  | zero =>
      rw [digits?] at h
      cases h
      omega
  | succ count ih =>
      cases cs with
      | nil => cases h
      | cons c cs =>
          obtain ⟨d, hd, h⟩ := Option.bind_eq_some_iff.mp h
          exact Numeral.lt_of_step (Text.asciiDigit?_lt hd) (Nat.lt_succ_self _) (ih h)

theorem pair?_bounds {low high n : Nat} {cs rest : List Char}
    (h : pair? low high cs = some (n, rest)) : low ≤ n ∧ n ≤ high := by
  unfold pair? at h
  split at h
  · split at h
    · next hbounds => cases h; exact hbounds
    · cases h
  · cases h

theorem markedPair?_bounds {mark : Char} {low high n : Nat} {cs rest : List Char}
    (h : markedPair? mark low high cs = some (n, rest)) : low ≤ n ∧ n ≤ high := by
  cases cs with
  | nil => cases h
  | cons c cs =>
      rw [markedPair?] at h
      split at h
      · exact pair?_bounds h
      · cases h

theorem fraction_lt (cs : List Char) : (fraction cs).1 < 1000000 := by
  have hfold (ds : List Char) (n : Nat) :
      ds.foldl (fun n c => 10 * n + (Text.asciiDigit? c).getD 0) n < (n + 1) * 10 ^ ds.length := by
    induction ds generalizing n with
    | nil => simp
    | cons d ds ih =>
        have hd : (Text.asciiDigit? d).getD 0 < 10 := by
          cases hdigit : Text.asciiDigit? d with
          | none => decide
          | some k => exact Text.asciiDigit?_lt hdigit
        exact Numeral.lt_of_step hd (Nat.lt_succ_self _) (ih _)
  unfold fraction
  split
  · dsimp only
    split
    · exact Nat.succ_pos _
    · refine Nat.lt_of_lt_of_le (hfold _ 0) ?_
      rw [Nat.zero_add, Nat.one_mul]
      exact Nat.pow_le_pow_right (by decide) (List.length_take_le _ _)
  · exact Nat.succ_pos _

theorem time?_onClock {cs rest : List Char} {t : TimeOfDay} (h : time? cs = some (t, rest)) :
    t.OnClock := by
  unfold time? at h
  obtain ⟨⟨hour, cs⟩, hhour, h⟩ := Option.bind_eq_some_iff.mp h
  obtain ⟨⟨minute, cs⟩, hminute, h⟩ := Option.bind_eq_some_iff.mp h
  have hhours : hour < 24 := Nat.lt_succ_of_le (pair?_bounds hhour).2
  have hminutes : minute < 60 := Nat.lt_succ_of_le (markedPair?_bounds hminute).2
  dsimp only at h
  split at h
  · cases h
    exact ⟨hhours, hminutes, Nat.succ_pos _, Nat.succ_pos _⟩
  · next second after hsecond =>
      have hseconds : second < 60 := Nat.lt_succ_of_le (markedPair?_bounds hsecond).2
      cases h
      exact ⟨hhours, hminutes, hseconds, fraction_lt after⟩

theorem offset_lt {cs rest : List Char} {minutes : Int} (h : offset cs = (some minutes, rest)) :
    minutes.natAbs < 1440 := by
  unfold offset at h
  split at h
  · split at h
    · cases h; decide
    · split at h
      · split at h
        · next total after heq =>
            obtain ⟨⟨hours, more⟩, hhours, heq⟩ := Option.bind_eq_some_iff.mp heq
            obtain ⟨⟨past, more⟩, hpast, heq⟩ := Option.bind_eq_some_iff.mp heq
            have hhours := (pair?_bounds hhours).2
            have hpast := (markedPair?_bounds hpast).2
            cases heq
            cases h
            split <;> omega
        · cases h
      · cases h
  · cases h

theorem date?_year {cs rest : List Char} {d : Date} (h : date? cs = some (d, rest)) :
    d.year < 10000 := by
  unfold date? at h
  obtain ⟨⟨year, cs⟩, hyear, h⟩ := Option.bind_eq_some_iff.mp h
  obtain ⟨⟨month, cs⟩, -, h⟩ := Option.bind_eq_some_iff.mp h
  obtain ⟨⟨day, cs⟩, -, h⟩ := Option.bind_eq_some_iff.mp h
  cases h
  exact digits?_lt hyear

theorem real_of_moment? {cs rest : List Char} {m : Moment}
    (h : moment? cs = some (.ok (m, rest))) : m.Real := by
  unfold moment? at h
  split at h
  · next day after hday =>
      have hyear := date?_year hday
      dsimp only at h
      split at h
      · next hvalid =>
          have hd : day.OnCalendar := ⟨hvalid, hyear⟩
          have hm := congrArg Prod.fst (Except.ok.inj (Option.some.inj h))
          simp only [] at hm
          subst hm
          split
          · split
            · split
              · next clock tail hclock =>
                  refine .dateTime hd (time?_onClock hclock) fun minutes hminutes => ?_
                  exact offset_lt (Prod.ext hminutes rfl)
              · exact .date hd
            · exact .date hd
          · exact .date hd
      · cases h
  · obtain ⟨⟨clock, after⟩, hclock, h⟩ := Option.map_eq_some_iff.mp h
    cases h
    exact .time (time?_onClock hclock)

theorem canonical_ofDecimal (negative : Bool) (d : Decimal) :
    (Binary64.ofDecimal negative d).Canonical := by
  unfold Binary64.ofDecimal
  split
  · exact .inl (Nat.zero_le _)
  · split
    · exact .inl (Nat.le_refl _)
    · split
      · exact .inl (Nat.zero_le _)
      · split
        · exact .inl (Nat.min_le_left _ _)
        · exact .inl (Nat.min_le_left _ _)

theorem sound_decimal? {cs rest : List Char} {v : Value}
    (h : decimal? cs = some (.ok (v, rest))) : Sound v := by
  unfold decimal? at h
  split at h
  next negative body hsign =>
    split at h
    · cases h
    · dsimp only at h
      split at h
      · split at h
        · cases h
        · cases h
          exact .int _
      · cases h
        exact .float (canonical_ofDecimal _ _)

theorem sound_unbounded? {cs rest : List Char} {v : Value}
    (h : unbounded? cs = some (v, rest)) : Sound v := by
  unfold unbounded? at h
  split at h
  next negative body hsign =>
    split at h
    · cases h
      exact .float (.inl (Nat.le_refl _))
    · cases h
      exact .float (.inr rfl)
    · cases h

theorem sound_number? {cs rest : List Char} {v : Value}
    (h : number? cs = some (.ok (v, rest))) : Sound v := by
  unfold number? at h
  split at h
  · cases h
    exact .int _
  · split at h
    · next found hfound =>
        cases h
        exact sound_decimal? hfound
    · obtain ⟨⟨w, r⟩, hread, h⟩ := Option.map_eq_some_iff.mp h
      cases h
      exact sound_unbounded? hread

theorem sound_flag? {cs rest : List Char} {v : Value} (h : flag? cs = some (v, rest)) :
    Sound v := by
  unfold flag? at h
  split at h
  · cases h; exact .bool true
  · cases h; exact .bool false
  · cases h

theorem sound_scalar {cs rest : List Char} {v : Value} (h : scalar cs = .ok (v, rest)) :
    Sound v := by
  unfold scalar at h
  split at h
  · obtain ⟨_, -, h⟩ := map_eq_ok.mp h
    cases h
    exact .str _
  · next hflag =>
      cases h
      exact sound_flag? hflag
  · next found _ hmoment =>
      obtain ⟨⟨m, r⟩, rfl, h⟩ := map_eq_ok.mp h
      cases h
      exact .moment (real_of_moment? hmoment)
  · next found hnumber =>
      cases h
      exact sound_number? hnumber
  · cases h

/-! ## Tables -/

/-- A change that leaves a sound table sound. -/
def Keeps (act : Members → Except Conflict Members) : Prop :=
  ∀ {ms changed : Members}, Sound (.obj ms) → act ms = .ok changed → Sound (.obj changed)

theorem Sound.distinct {ms : Members} (h : Sound (.obj ms)) : ms.Distinct := by
  cases h with
  | obj hkeys hmembers => exact hkeys

theorem sound_empty : Sound (.obj []) := .obj List.nodup_nil nofun

theorem sound_put {ms : Members} {key : String} {v : Value} (hms : Sound (.obj ms)) (hv : Sound v) :
    Sound (.obj (ms.put key v)) := by
  cases hms with
  | obj hkeys hmembers => exact .obj (hkeys.put _ _) (Members.forall_mem_put hv hmembers)

theorem sound_of_get? {ms : Members} {key : String} {v : Value} (hms : Sound (.obj ms))
    (h : ms.get? key = some v) : Sound v := by
  cases hms with
  | obj hkeys hmembers => exact hmembers _ (Members.mem_of_get? h)

theorem keeps_bindNew (key : String) {v : Value} (hv : Sound v) : Keeps (bindNew key v) := by
  intro ms changed hms h
  unfold bindNew at h
  split at h
  · cases h
  · cases h
    exact sound_put hms hv

theorem keeps_addTable (key : String) : Keeps (addTable key) := by
  intro ms changed hms h
  unfold addTable at h
  split at h
  · cases h
    exact sound_put hms (.arr (List.forall_mem_singleton.mpr sound_empty))
  · next items hget =>
      cases h
      have hitems := sound_of_get? hms hget
      cases hitems with
      | arr hitems =>
          refine sound_put hms (.arr (List.forall_mem_append.mpr ⟨hitems, ?_⟩))
          exact List.forall_mem_singleton.mpr sound_empty
  · cases h

theorem keeps_ok : Keeps .ok := by
  intro ms changed hms h
  cases h
  exact hms

/-- Every table on the way to the changed one is put back where it stood. -/
theorem keeps_change {act : Members → Except Conflict Members} (hact : Keeps act)
    (throughArrays : Bool) (path : Path) : Keeps (change throughArrays act path) := by
  induction path with
  | nil => exact hact
  | cons key path ih =>
      intro ms changed hms h
      rw [change] at h
      split at h
      · obtain ⟨table, htable, h⟩ := bind_eq_ok.mp h
        cases h
        exact sound_put hms (ih sound_empty htable)
      · next table hget =>
          obtain ⟨table, htable, h⟩ := bind_eq_ok.mp h
          cases h
          exact sound_put hms (ih (sound_of_get? hms hget) htable)
      · next items hget =>
          split at h
          · next table hlast =>
              obtain ⟨table, htable, h⟩ := bind_eq_ok.mp h
              cases h
              have hitems := sound_of_get? hms hget
              cases hitems with
              | arr hitems =>
                  refine sound_put hms (.arr (List.forall_mem_append.mpr ⟨fun v hv => ?_, ?_⟩))
                  · exact hitems v (List.dropLast_subset _ hv)
                  · have htable' := ih (hitems _ (List.mem_of_getLast? hlast)) htable
                    exact List.forall_mem_singleton.mpr htable'
          · cases h
      · cases h

/-! ## Values -/

theorem sound_inlineBind {t u : Inline} {path : Path} {v : Value} {rest : List Char}
    (ht : Sound (.obj t.table)) (hv : Sound v) (h : t.bind path v rest = .ok u) :
    Sound (.obj u.table) := by
  unfold Inline.bind at h
  dsimp only at h
  split at h
  · cases h
  · split at h
    · cases h
    · cases h
    · next table htable =>
        cases h
        exact keeps_change (keeps_bindNew _ hv) _ _ ht htable

/-- The three loops of the reader give sound values with some fuel. -/
structure ReadsSound (fuel : Nat) : Prop where
  value : ∀ {cs rest v}, value fuel cs = .ok (v, rest) → Sound v
  items : ∀ {cs rest vs}, items fuel cs = .ok (vs, rest) → ∀ v ∈ vs, Sound v
  pairs : ∀ {cs rest t ms}, Sound (.obj t.table) → pairs fuel t cs = .ok (ms, rest) →
    Sound (.obj ms)

section

variable {fuel : Nat} {cs rest : List Char}

theorem ReadsSound.value_succ (ih : ReadsSound fuel) {v : Value}
    (h : Toml.value (fuel + 1) cs = .ok (v, rest)) : Sound v := by
  unfold Toml.value at h
  split at h
  · obtain ⟨after, -, h⟩ := bind_eq_ok.mp h
    split at h
    · cases h
      exact .arr nofun
    · obtain ⟨⟨vs, last⟩, hitems, h⟩ := bind_eq_ok.mp h
      cases h
      exact .arr (ih.items hitems)
  · obtain ⟨after, -, h⟩ := bind_eq_ok.mp h
    split at h
    · cases h
      exact sound_empty
    · obtain ⟨⟨table, last⟩, hpairs, h⟩ := bind_eq_ok.mp h
      cases h
      exact ih.pairs sound_empty hpairs
  · exact sound_scalar h

theorem ReadsSound.items_succ (ih : ReadsSound fuel) {vs : List Value}
    (h : Toml.items (fuel + 1) cs = .ok (vs, rest)) : ∀ v ∈ vs, Sound v := by
  unfold Toml.items at h
  obtain ⟨⟨v, after⟩, hvalue, h⟩ := bind_eq_ok.mp h
  obtain ⟨gap, -, h⟩ := bind_eq_ok.mp h
  have hv := ih.value hvalue
  split at h
  · cases h
    exact List.forall_mem_singleton.mpr hv
  · obtain ⟨gap, -, h⟩ := bind_eq_ok.mp h
    split at h
    · cases h
      exact List.forall_mem_singleton.mpr hv
    · obtain ⟨⟨vs, last⟩, hitems, h⟩ := bind_eq_ok.mp h
      cases h
      exact List.forall_mem_cons.mpr ⟨hv, ih.items hitems⟩
  · cases h

theorem ReadsSound.pairs_succ (ih : ReadsSound fuel) {t : Inline} {ms : Members}
    (ht : Sound (.obj t.table)) (h : Toml.pairs (fuel + 1) t cs = .ok (ms, rest)) :
    Sound (.obj ms) := by
  unfold Toml.pairs at h
  obtain ⟨⟨path, after⟩, -, h⟩ := bind_eq_ok.mp h
  dsimp only at h
  split at h
  · obtain ⟨⟨v, after⟩, hvalue, h⟩ := bind_eq_ok.mp h
    obtain ⟨u, hbind, h⟩ := bind_eq_ok.mp h
    obtain ⟨gap, -, h⟩ := bind_eq_ok.mp h
    have hu := sound_inlineBind ht (ih.value hvalue) hbind
    split at h
    · cases h
      exact hu
    · obtain ⟨gap, -, h⟩ := bind_eq_ok.mp h
      split at h
      · cases h
        exact hu
      · exact ih.pairs hu h
    · cases h
  · cases h

end

theorem readsSound (fuel : Nat) : ReadsSound fuel := by
  induction fuel with
  | zero => exact ⟨nofun, nofun, nofun⟩
  | succ fuel ih => exact ⟨ih.value_succ, ih.items_succ, ih.pairs_succ⟩

/-! ## Documents -/

section

variable {d e : Document} {path : Path} {cs rest : List Char}

theorem Document.sound_openTable (hd : Sound (.obj d.root)) (h : d.openTable path rest = .ok e) :
    Sound (.obj e.root) := by
  unfold openTable at h
  split at h
  · cases h
  · split at h
    · cases h
    · next root hroot =>
        cases h
        exact keeps_change keeps_ok _ _ hd hroot

theorem Document.sound_openArrayTable (hd : Sound (.obj d.root))
    (h : d.openArrayTable path rest = .ok e) : Sound (.obj e.root) := by
  unfold openArrayTable at h
  split at h
  · cases h
  · split at h
    · cases h
    · next root hroot =>
        cases h
        exact keeps_change (keeps_addTable _) _ _ hd hroot

theorem Document.sound_bind {v : Value} (hd : Sound (.obj d.root)) (hv : Sound v)
    (h : d.bind path v rest = .ok e) : Sound (.obj e.root) := by
  unfold bind at h
  split at h
  · cases h
  · dsimp only at h
    split at h
    · cases h
    · split at h
      · cases h
      · next root hroot =>
          cases h
          exact keeps_change (keeps_bindNew _ hv) _ _ hd hroot

theorem sound_pair (hd : Sound (.obj d.root)) (h : pair d cs = .ok (e, rest)) :
    Sound (.obj e.root) := by
  unfold pair at h
  obtain ⟨⟨path, after⟩, -, h⟩ := bind_eq_ok.mp h
  dsimp only at h
  split at h
  · obtain ⟨⟨v, last⟩, hvalue, h⟩ := bind_eq_ok.mp h
    obtain ⟨f, hbind, h⟩ := bind_eq_ok.mp h
    cases h
    exact Document.sound_bind hd ((readsSound _).value hvalue) hbind
  · cases h

theorem sound_header (hd : Sound (.obj d.root)) (h : header d cs = .ok (e, rest)) :
    Sound (.obj e.root) := by
  unfold header at h
  split at h
  · obtain ⟨⟨path, after⟩, -, h⟩ := bind_eq_ok.mp h
    obtain ⟨f, hopen, h⟩ := bind_eq_ok.mp h
    split at h
    · cases h
      exact Document.sound_openArrayTable hd hopen
    · cases h
  · obtain ⟨⟨path, after⟩, -, h⟩ := bind_eq_ok.mp h
    obtain ⟨f, hopen, h⟩ := bind_eq_ok.mp h
    split at h
    · cases h
      exact Document.sound_openTable hd hopen
    · cases h

theorem sound_statement (hd : Sound (.obj d.root)) (h : statement d cs = .ok (e, rest)) :
    Sound (.obj e.root) := by
  unfold statement at h
  split at h
  · cases h; exact hd
  · split at h
    · exact sound_pair hd h
    · split at h
      · exact sound_header (d := d.settle) hd h
      · split at h
        · cases h; exact hd
        · cases h

theorem sound_statements {fuel : Nat} {ms : Members} (hd : Sound (.obj d.root))
    (h : statements fuel d cs = .ok ms) : Sound (.obj ms) := by
  induction fuel generalizing d cs with
  | zero => cases h; exact hd
  | succ fuel ih =>
      rw [statements] at h
      obtain ⟨⟨e, rest⟩, hstatement, h⟩ := bind_eq_ok.mp h
      have he := sound_statement hd hstatement
      obtain ⟨after, -, h⟩ := bind_eq_ok.mp h
      split at h
      · cases h; exact he
      · exact ih he h
      · cases h

end

/-- What a text spells is sound. -/
theorem sound_read {cs : List Char} {ms : Members} (h : read cs = .ok ms) : Sound (.obj ms) :=
  sound_statements (d := .empty) sound_empty h

end Toml

end FoldingProtocol
