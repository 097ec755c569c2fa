import FoldingProtocol.Proofs.ReorderedTables
import FoldingProtocol.Proofs.TomlLines

/-!
# Written documents read back

What is written of a document reads back as the document, but for the order of the
members of its tables: plain pairs come before tables, since a pair after the header
of an inner table would belong to that one.

The writer goes through the tables from the outside in, and at each place the reader
finds what the place needs. The table there is empty or still to be made, so keys can
be bound in it; its path and the paths below it bear no marks, or the marks are taken
off by the header that adds it to an array. Both are kept from one member to the next,
because keys are distinct, and lead from a table to the tables inside it.
-/

namespace FoldingProtocol.Toml

open Value

/-! ## Members of a table -/

/-- A document in which the table at a path can be given more keys. -/
structure Standing (d : Document) (path : Path) (table : Members) (fill : Members → Members)
    (keys : List String) : Prop where
  around : Around d.root path table fill
  pending : d.pending = []
  free : d.marks.Free path
  fresh : ∀ key ∈ keys, d.marks.Fresh (path ++ [key])
  distinct : (table.map Prod.fst ++ keys).Nodup

/-- The table at a path was given some more members. It is there afterwards if there
was any, or if it was there before. -/
structure Reached (d e : Document) (path : Path) (table more : Members)
    (fill : Members → Members) (keys : List String) : Prop where
  standing : Standing e path (table ++ more) fill keys
  grown : d.marks.GrownAt e.marks path
  placed : d.root = fill table ∨ more ≠ [] → e.root = fill (table ++ more)

section

variable {d e f : Document} {path : Path} {table more others : Members}
  {fill : Members → Members} {key : String} {keys : List String} {w : Value}

theorem Standing.unbound (h : Standing d path table fill (key :: keys)) :
    key ∉ table.map Prod.fst := by
  have hdistinct := List.nodup_append.mp h.distinct
  exact fun hmem => hdistinct.2.2 key hmem key List.mem_cons_self rfl

theorem Standing.freshHead (h : Standing d path table fill (key :: keys)) :
    d.marks.Fresh (path ++ [key]) := h.fresh key List.mem_cons_self

theorem Standing.perm {others : List String} (h : Standing d path table fill keys)
    (hperm : others.Perm keys) : Standing d path table fill others where
  around := h.around
  pending := h.pending
  free := h.free
  fresh other hother := h.fresh other (hperm.mem_iff.mp hother)
  distinct := (hperm.append_left _).nodup_iff.mpr h.distinct

theorem Standing.stay (h : Standing d path table fill keys) :
    Reached d d path table [] fill keys where
  standing := by
    rw [List.append_nil]
    exact h
  grown := Marks.grownAt_refl _ _
  placed hroot := by
    rw [List.append_nil]
    exact hroot.resolve_right fun hne => hne rfl

/-- One member more, with nothing marked but what is below its key. -/
theorem Standing.reach (h : Standing d path table fill (key :: keys))
    (hroot : e.root = fill (table ++ [(key, w)])) (hpending : e.pending = [])
    (hgrown : d.marks.GrownAt e.marks (path ++ [key])) :
    Reached d e path table [(key, w)] fill keys where
  standing := {
    around := by
      rw [hroot]
      exact h.around.filled _
    pending := hpending
    free := h.free.of_grownAt hgrown
    fresh := fun other hother => by
      have hne : key ≠ other := by
        rintro rfl
        have hkeys := (List.nodup_append.mp h.distinct).2.1
        exact (List.nodup_cons.mp hkeys).1 hother
      exact (h.fresh other (List.mem_cons_of_mem _ hother)).of_grownAt hgrown hne
    distinct := by
      rw [List.map_append, List.append_assoc]
      exact h.distinct }
  grown := hgrown.above
  placed _ := hroot

theorem Reached.trans (h : Reached d e path table more fill keys) {left : List String}
    (hnext : Reached e f path (table ++ more) others fill left) :
    Reached d f path table (more ++ others) fill left where
  standing := by
    rw [← List.append_assoc]
    exact hnext.standing
  grown := h.grown.trans hnext.grown
  placed hroot := by
    rw [← List.append_assoc]
    refine hnext.placed ?_
    -- If the first step adds nothing, the table may still be to make at the second.
    by_cases hmore : more = []
    · subst hmore
      exact hroot.imp_left fun hroot => h.placed (.inl hroot)
    · exact .inl (h.placed (.inr hmore))

end

/-- The pairs of a table are bound in it, one after the other. -/
theorem reads_plain {path : Path} {fill : Members → Members} {keys : List String} {ms : Members}
    (hms : ∀ m ∈ ms, Writable m.2) {d : Document} {table : Members}
    (h : Standing d path table fill (ms.map Prod.fst ++ keys)) (hheader : ms ≠ [] → d.header = path) :
    ∃ e, Reads (ms.map fun (k, v) => pairLine k v) d e ∧ Reached d e path table ms fill keys := by
  induction ms generalizing d table with
  | nil => exact ⟨d, reads_nil d, h.stay⟩
  | cons m ms ih =>
      obtain ⟨k, v⟩ := m
      rw [List.forall_mem_cons] at hms
      have hpath := hheader (List.cons_ne_nil _ _)
      obtain ⟨cs, hcs, hspells⟩ := hms.1.isSpelled 0
      subst hpath
      have hbind := bind_here h.around h.unbound h.free v
      have hgrown := grownAt_bound d k v (fill (table ++ [(k, v)]))
      have hreached : Reached d _ d.header table [(k, v)] fill (ms.map Prod.fst ++ keys) :=
        h.reach (e := d.bound k v (fill (table ++ [(k, v)]))) rfl h.pending hgrown
      have hline : Reads [pairLine k v] d (d.bound k v (fill (table ++ [(k, v)]))) := by
        rw [pairLine, hcs]
        refine reads_singleton ?_ (run_pair hspells hbind)
        simp [hspells.unbroken]
      obtain ⟨e, hreads, hrest⟩ := ih hms.2 hreached.standing fun _ => rfl
      exact ⟨e, hline.trans hreads, hreached.trans hrest⟩

/-! ## Tables inside a table -/

/-- What comes after the header of a table leads to a document with a reordering of the
table in the place of an empty one. -/
def ReadsBody (ms : Members) : Prop :=
  ∀ (path : Path) (fill : Members → Members) (d : Document),
    Standing d path [] fill (ms.map Prod.fst) → (plain ms ≠ [] → d.header = path) →
      ∃ bound e ns, Reads ((plain ms).map fun (k, v) => pairLine k v) d bound ∧
        ReadsEach (tablesInside (pathName path) ms) bound e ∧ Reached d e path [] ns fill [] ∧
        Reordered (.obj ms) (.obj ns)

theorem ne_nil_of_reordered {ms ns : Members} (h : Reordered (.obj ms) (.obj ns)) (hms : ms ≠ []) :
    ns ≠ [] := by
  cases h with
  | leaf _ hobj => exact absurd rfl (hobj ms)
  | obj hbound _ =>
      rintro rfl
      cases ms with
      | nil => exact hms rfl
      | cons m ms =>
          have hhead := hbound m.1
          rw [Members.get?_cons, if_pos rfl] at hhead
          cases hhead

theorem tablesInside_nil (name : List Char) : tablesInside name [] = [] := by rw [tablesInside]

section

variable {d : Document} {path : Path} {table ms : Members} {fill : Members → Members}
  {key : String} {keys : List String}

/-- A table inside another has a header of its own, or at least one table inside. -/
theorem reads_ownHeader (h : Standing d path table fill (key :: keys)) (hms : ms.Distinct)
    (inner : List (List Chunk)) :
    ∃ e, Reads (ownHeader (pathName (path ++ [key])) false ms inner) d e ∧
      Standing e (path ++ [key]) [] (fun u => fill (table ++ [(key, .obj u)])) (ms.map Prod.fst) ∧
      (plain ms ≠ [] → e.header = path ++ [key]) ∧ d.marks.GrownAt e.marks (path ++ [key]) ∧
      (e.root = fill (table ++ [(key, .obj [])]) ∨ inner ≠ []) := by
  have hunbound := h.unbound
  have hget : table.get? key = none := Members.get?_eq_none hunbound
  have hplace : Around d.root (path ++ [key]) [] fun u => fill (table ++ [(key, .obj u)]) := by
    simpa only [Json.put_append hunbound] using h.around.made hget
  have hfresh := h.freshHead
  unfold ownHeader
  split
  · have hopen := openTable_below h.around hget hfresh
    have hpath : path ++ [key] ≠ [] := by simp
    rw [Json.put_append hunbound] at hopen
    refine ⟨_, reads_singleton ?_ (run_header h.pending hpath hopen), ?_, fun _ => rfl,
      Marks.grownAt_declare _ _, .inl rfl⟩
    · simp [headerLine, unbroken_pathName]
    · exact ⟨hplace.filled [], h.pending, hfresh.free, fun k _ => hfresh.declare k, hms⟩
  · next hheader =>
      -- There are no pairs then, so it does not matter which table is open.
      rw [Bool.false_or, isEmpty_pathName (by simp), Bool.not_false, Bool.true_and,
        Bool.or_eq_true, not_or, Bool.not_eq_true', Bool.not_eq_false, List.isEmpty_iff,
        List.isEmpty_iff] at hheader
      refine ⟨d, reads_nil d, ?_, fun hne => absurd hheader.1 hne, Marks.grownAt_refl _ _,
        .inr hheader.2⟩
      exact ⟨hplace, h.pending, hfresh.free, fun k _ => hfresh.below k, hms⟩

theorem reads_table (hbody : ReadsBody ms) (hms : Writable (.obj ms))
    (h : Standing d path table fill (key :: keys)) :
    ∃ e w, Reads (assemble (pathName (path ++ [key])) false ms
        (tablesInside (pathName (path ++ [key])) ms)) d e ∧
      Reached d e path table [(key, w)] fill keys ∧ Reordered (.obj ms) w := by
  cases hms with
  | obj hkeys hmembers =>
      obtain ⟨entered, hheader, hstanding, hpath, hentered, hplaced⟩ :=
        reads_ownHeader h hkeys (tablesInside (pathName (path ++ [key])) ms)
      obtain ⟨bound, e, ns, hplain, hinner, hreached, hsame⟩ := hbody _ _ entered hstanding hpath
      have hroot : e.root = fill (table ++ [(key, .obj ns)]) := by
        refine hreached.placed (hplaced.imp_right fun hinside => ?_)
        refine ne_nil_of_reordered hsame ?_
        rintro rfl
        exact hinside (tablesInside_nil _)
      have hgrown := hentered.trans hreached.grown
      exact ⟨e, .obj ns, reads_assemble (headersFault?_eq_none hmembers) hheader hplain hinner,
        h.reach hroot hreached.standing.pending hgrown, hsame⟩

end

/-! ## Arrays of tables -/

/-- A table with an array of what was added to it so far. -/
def listed (table : Members) (key : String) (items : List Value) : Members :=
  if items = [] then table else table ++ [(key, .arr items)]

/-- A document in which the array at a key of a table can be given more tables. -/
structure Listing (d : Document) (path : Path) (table : Members) (key : String)
    (items : List Value) (fill : Members → Members) : Prop where
  around : Around d.root path (listed table key items) fill
  pending : d.pending = []
  free : d.marks.Free (path ++ [key])
  placed : items ≠ [] → d.root = fill (table ++ [(key, .arr items)])

theorem addTable_listed {table : Members} {key : String} (h : key ∉ table.map Prod.fst)
    (items : List Value) :
    addTable key (listed table key items) = .ok (table ++ [(key, .arr (items ++ [.obj []]))]) := by
  have hput (v : Value) : table ++ [(key, v)] = table.put key v := (Json.put_append h).symm
  unfold listed
  split
  · next hitems =>
      subst hitems
      rw [addTable, Members.get?_eq_none h, hput]
      rfl
  · rw [addTable, hput, hput, Members.get?_put_self]
    simp only [Members.put_put]

/-- What is around the table that an array gets next. -/
def fillNext (fill : Members → Members) (table : Members) (key : String) (done : List Value)
    (u : Members) : Members :=
  fill (table ++ [(key, .arr (done ++ [.obj u]))])

section

variable {d : Document} {path : Path} {table : Members} {key : String} {done : List Value}
  {fill : Members → Members}

/-- One table more in an array. -/
theorem reads_item {ms : Members} (hbody : ReadsBody ms) (hms : Writable (.obj ms))
    (hkey : key ∉ table.map Prod.fst) (h : Listing d path table key done fill) :
    ∃ e w, Reads (assemble (pathName (path ++ [key])) true ms
        (tablesInside (pathName (path ++ [key])) ms)) d e ∧
      Listing e path table key (done ++ [w]) fill ∧ d.marks.GrownAt e.marks (path ++ [key]) ∧
      Reordered (.obj ms) w := by
  have hput (v : Value) : table ++ [(key, v)] = table.put key v := (Json.put_append hkey).symm
  have hopen := openArrayTable_below h.around (addTable_listed hkey done) h.free
  have hplace : Around (fillNext fill table key done []) (path ++ [key]) []
      (fillNext fill table key done) := by
    have hlast := (h.around.filled (table ++ [(key, .arr (done ++ [.obj []]))])).last
      (by rw [hput, Members.get?_put_self])
    show Around (fill (table ++ [(key, .arr (done ++ [.obj []]))])) _ _
      fun u => fill (table ++ [(key, .arr (done ++ [.obj u]))])
    simpa only [hput, Members.put_put] using hlast
  cases hms with
  | obj hkeys hmembers =>
      have hheader : Reads (ownHeader (pathName (path ++ [key])) true ms
          (tablesInside (pathName (path ++ [key])) ms)) d
            (d.extended (path ++ [key]) (fillNext fill table key done [])) := by
        refine reads_singleton ?_ (run_arrayHeader h.pending (by simp) hopen)
        simp [headerLine, unbroken_pathName]
      -- The header has taken the marks of the tables before off the path.
      have hstanding : Standing (d.extended (path ++ [key]) (fillNext fill table key done []))
          (path ++ [key]) [] (fillNext fill table key done) (ms.map Prod.fst) :=
        ⟨hplace, h.pending, h.free.of_release, fun k _ => h.free.release k, hkeys⟩
      obtain ⟨bound, e, ns, hplain, hinner, hreached, hsame⟩ :=
        hbody _ _ _ hstanding fun _ => rfl
      have hroot : e.root = fill (table ++ [(key, .arr (done ++ [.obj ns]))]) :=
        hreached.placed (.inl rfl)
      have hlisting : Listing e path table key (done ++ [.obj ns]) fill := by
        refine ⟨?_, hreached.standing.pending, hreached.standing.free, fun _ => hroot⟩
        rw [listed, if_neg (by simp), hroot]
        exact h.around.filled _
      have hgrown : d.marks.GrownAt e.marks (path ++ [key]) :=
        ((Marks.grownAt_release _ _).trans (Marks.grownAt_declare _ _)).trans hreached.grown
      exact ⟨e, .obj ns, reads_assemble (headersFault?_eq_none hmembers) hheader hplain hinner,
        hlisting, hgrown, hsame⟩

theorem reads_tablesListed {items : List Value} (hitems : ∀ v ∈ items, ∃ ms, v = .obj ms)
    (hbodies : ∀ ms, .obj ms ∈ items → ReadsBody ms) (hwritable : ∀ v ∈ items, Writable v)
    (hkey : key ∉ table.map Prod.fst) (h : Listing d path table key done fill) :
    ∃ e ws, ReadsEach (tablesListed (pathName (path ++ [key])) items) d e ∧
      Listing e path table key (done ++ ws) fill ∧ d.marks.GrownAt e.marks (path ++ [key]) ∧
      List.Forall₂ Reordered items ws := by
  induction items generalizing d done with
  | nil =>
      rw [tablesListed]
      exact ⟨d, [], .nil d, by rw [List.append_nil]; exact h, Marks.grownAt_refl _ _, .nil⟩
  | cons v items ih =>
      rw [List.forall_mem_cons] at hitems hwritable
      obtain ⟨ms, rfl⟩ := hitems.1
      obtain ⟨middle, w, hreads, hlisting, hgrown, hsame⟩ :=
        reads_item (hbodies ms List.mem_cons_self) hwritable.1 hkey h
      obtain ⟨e, ws, hrest, hlisted, hmore, hothers⟩ :=
        ih hitems.2 (fun ms hms => hbodies ms (List.mem_cons_of_mem _ hms)) hwritable.2 hlisting
      rw [List.append_assoc] at hlisted
      rw [tablesListed]
      exact ⟨e, w :: ws, .cons hreads hrest, hlisted, hgrown.trans hmore, .cons hsame hothers⟩

theorem reads_array {items : List Value} {keys : List String} (hne : items ≠ [])
    (hitems : ∀ v ∈ items, ∃ ms, v = .obj ms) (hbodies : ∀ ms, .obj ms ∈ items → ReadsBody ms)
    (hwritable : ∀ v ∈ items, Writable v) (h : Standing d path table fill (key :: keys)) :
    ∃ e w, ReadsEach (tablesListed (pathName (path ++ [key])) items) d e ∧
      Reached d e path table [(key, w)] fill keys ∧ Reordered (.arr items) w := by
  have hlisting : Listing d path table key [] fill :=
    ⟨h.around, h.pending, h.freshHead.free, fun hempty => absurd rfl hempty⟩
  obtain ⟨e, ws, hreads, hlisted, hgrown, hsame⟩ :=
    reads_tablesListed hitems hbodies hwritable h.unbound hlisting
  have hws : ws ≠ [] := by
    rintro rfl
    cases hsame
    exact hne rfl
  exact ⟨e, .arr ws, hreads, h.reach (hlisted.placed hws) hlisted.pending hgrown, .of_forall₂ hsame⟩

end

/-! ## Whole documents -/

/-- Every table in a value is read, where it has a header. -/
def ReadsBodies : Value → Prop
  | .obj ms => ReadsBody ms
  | .arr items => ∀ ms, .obj ms ∈ items → ReadsBody ms
  | _ => True

theorem reads_headed {d : Document} {path : Path} {table : Members} {fill : Members → Members}
    {key : String} {keys : List String} {v : Value} (hv : Writable v) (hbodies : ReadsBodies v)
    (hheaded : isHeaded v = true) (h : Standing d path table fill (key :: keys)) :
    ∃ e w, ReadsEach (tables (nestedName (pathName path) key) v) d e ∧
      Reached d e path table [(key, w)] fill keys ∧ Reordered v w := by
  rw [nestedName_pathName]
  cases headed_of_isHeaded hheaded with
  | table ms =>
      obtain ⟨e, w, hreads, hreached, hsame⟩ := reads_table hbodies hv h
      rw [tables]
      exact ⟨e, w, .cons hreads (.nil e), hreached, hsame⟩
  | tables hne hitems =>
      cases hv with
      | arr hwritable =>
          rw [tables]
          exact reads_array hne hitems hbodies hwritable h

/-- The members of a table that have headers. -/
def headed (ms : Members) : Members := ms.filter fun (_, v) => isHeaded v

theorem reads_tablesInside {path : Path} {fill : Members → Members} {ms : Members}
    (hms : ∀ m ∈ ms, Writable m.2) (hbodies : ∀ m ∈ ms, ReadsBodies m.2) {d : Document}
    {table : Members} (h : Standing d path table fill ((headed ms).map Prod.fst)) :
    ∃ e ns, ReadsEach (tablesInside (pathName path) ms) d e ∧ Reached d e path table ns fill [] ∧
      List.Forall₂ SameKeys (headed ms) ns := by
  induction ms generalizing d table with
  | nil =>
      rw [tablesInside_nil]
      exact ⟨d, [], .nil d, h.stay, .nil⟩
  | cons m ms ih =>
      obtain ⟨k, v⟩ := m
      rw [List.forall_mem_cons] at hms hbodies
      rw [tablesInside]
      by_cases hv : isHeaded v = true
      · have hcons : headed ((k, v) :: ms) = (k, v) :: headed ms := List.filter_cons_of_pos hv
        rw [hcons] at h ⊢
        obtain ⟨middle, w, hreads, hreached, hsame⟩ := reads_headed hms.1 hbodies.1 hv h
        obtain ⟨e, ns, hrest, hmore, hothers⟩ := ih hms.2 hbodies.2 hreached.standing
        rw [if_pos hv]
        exact ⟨e, (k, w) :: ns, hreads.trans hrest, hreached.trans hmore, .cons ⟨rfl, hsame⟩ hothers⟩
      · -- The member was written as a pair, before all of these.
        have hcons : headed ((k, v) :: ms) = headed ms := List.filter_cons_of_neg hv
        rw [hcons] at h ⊢
        rw [if_neg hv]
        exact ih hms.2 hbodies.2 h

theorem plain_append_headed (ms : Members) : (plain ms ++ headed ms).Perm ms := by
  have hperm := List.filter_append_perm (fun m : String × Value => !isHeaded m.2) ms
  simp only [Bool.not_not] at hperm
  exact hperm

theorem readsBody_of_members {ms : Members} (hkeys : ms.Distinct) (hms : ∀ m ∈ ms, Writable m.2)
    (hbodies : ∀ m ∈ ms, ReadsBodies m.2) : ReadsBody ms := by
  intro path fill d h hheader
  have hperm := plain_append_headed ms
  have hplain : ∀ m ∈ plain ms, Writable m.2 := fun m hm => hms m (List.mem_filter.mp hm).1
  have hstanding : Standing d path [] fill ((plain ms).map Prod.fst ++ (headed ms).map Prod.fst) := by
    rw [← List.map_append]
    exact h.perm (hperm.map Prod.fst)
  obtain ⟨bound, hreads, hbound⟩ := reads_plain hplain hstanding hheader
  obtain ⟨e, ns, hinner, hreached, hsame⟩ := reads_tablesInside hms hbodies hbound.standing
  have hmembers : List.Forall₂ SameKeys (plain ms ++ headed ms) (plain ms ++ ns) := by
    refine List.rel_append ?_ hsame
    exact List.forall₂_same.mpr fun m hm => ⟨rfl, .refl (hplain m hm)⟩
  exact ⟨bound, e, plain ms ++ ns, hreads, hinner, hbound.trans hreached, .of_perm hkeys hperm hmembers⟩

theorem Writable.readsBodies {v : Value} (h : Writable v) : ReadsBodies v := by
  induction h with
  | bool | int | float | str | moment => trivial
  | arr _ ih => exact fun ms hms => ih (.obj ms) hms
  | obj hkeys hmembers ih => exact readsBody_of_members hkeys hmembers ih

theorem written_of_reads {texts : List (List Char)} :
    writtenUpTo (texts.map .ok) = texts.flatten ∧ firstFault? (texts.map .ok) = none := by
  induction texts with
  | nil => exact ⟨rfl, rfl⟩
  | cons text texts ih =>
      rw [List.map_cons, writtenUpTo, firstFault?, List.flatten_cons, ih.1]
      exact ⟨rfl, ih.2⟩

/-- A document that can be written is written without a fault, and what is written
reads back as the document but for the order of members. -/
theorem read_write {ms : Members} (h : Writable (.obj ms)) :
    (write ms).fault = none ∧ Unbroken (write ms).text ∧
      ∃ ns, read (write ms).text = .ok ns ∧ Reordered (.obj ms) (.obj ns) := by
  cases h with
  | obj hkeys hmembers =>
      have hbody : ReadsBody ms := (Writable.obj hkeys hmembers).readsBodies
      have hstanding : Standing .empty [] [] id (ms.map Prod.fst) :=
        ⟨around_root [], rfl, nofun, fun k _ => Marks.fresh_none _, hkeys⟩
      obtain ⟨bound, e, ns, hplain, hinner, hreached, hsame⟩ :=
        hbody [] id .empty hstanding fun _ => rfl
      have hheader : Reads (ownHeader [] false ms (tablesInside [] ms)) .empty .empty :=
        reads_nil _
      obtain ⟨texts, htexts, hunbroken, hrun⟩ :=
        reads_assemble (headersFault?_eq_none hmembers) hheader hplain hinner
      have hroot : e.root = ns := hreached.placed (.inl rfl)
      have hwrite : write ms = ⟨texts.flatten, none⟩ := by
        rw [write, chunks]
        simp only [htexts, written_of_reads.1, written_of_reads.2]
      rw [hwrite]
      exact ⟨rfl, hunbroken, ns, by rw [hrun.read, hroot], hsame⟩

end FoldingProtocol.Toml
