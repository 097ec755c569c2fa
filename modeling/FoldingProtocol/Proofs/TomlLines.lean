import FoldingProtocol.Proofs.TomlDocuments
import FoldingProtocol.Proofs.TomlPlaces
import FoldingProtocol.Proofs.TomlValues

/-!
# Lines of a written document

The writer makes chunks, each of which is some lines: a header, a pair, or an empty
line. From a header the reader takes the path that it names, and from a pair the key
and the value; what these do to a document is told at the place where it stands.
Chunks that are all there lead from one document to another, and so do those of one
table after the other, whether there are empty lines between them or not.
-/

namespace FoldingProtocol.Toml

/-! ## Headers and pairs -/

/-- The text of a path, with points between its keys. -/
def pathName : Path → List Char
  | [] => []
  | key :: path => writtenKey key ++ path.flatMap fun key => '.' :: writtenKey key

theorem isEmpty_writtenKey_append (key : String) (rest : List Char) :
    (writtenKey key ++ rest).isEmpty = false := by
  obtain ⟨c, cs, hkey, -⟩ := writtenKey_head key
  rw [hkey]
  rfl

theorem nestedName_pathName (path : Path) (key : String) :
    nestedName (pathName path) key = pathName (path ++ [key]) := by
  cases path with
  | nil => simp [nestedName, pathName]
  | cons first path => simp [nestedName, pathName, isEmpty_writtenKey_append]

theorem isEmpty_pathName {path : Path} (h : path ≠ []) : (pathName path).isEmpty = false := by
  cases path with
  | nil => exact absurd rfl h
  | cons key path => exact isEmpty_writtenKey_append key _

theorem unbroken_pathName (path : Path) : Unbroken (pathName path) := by
  cases path with
  | nil => exact unbroken_nil
  | cons key path =>
      refine unbroken_append.mpr ⟨unbroken_writtenKey key, fun c hc => ?_⟩
      obtain ⟨other, -, hmem⟩ := List.mem_flatMap.mp hc
      exact unbroken_cons.mpr ⟨by decide, unbroken_writtenKey other⟩ c hmem

theorem skipBlanks_writtenKey (key : String) (rest : List Char) :
    skipBlanks (writtenKey key ++ rest) = writtenKey key ++ rest := by
  obtain ⟨c, cs, hkey, hc⟩ := writtenKey_head key
  rw [hkey]
  exact skipBlanks_head (startsKey_head hc).1 _

theorem keyFrom_pathName {path : Path} {fuel : Nat} (hfuel : path.length < fuel) (key : String)
    (rest : List Char) :
    keyFrom fuel (pathName (key :: path) ++ ']' :: rest) = .ok (key :: path, ']' :: rest) := by
  induction path generalizing fuel key with
  | nil =>
      obtain ⟨fuel, rfl⟩ := Nat.exists_eq_succ_of_ne_zero (Nat.ne_of_gt hfuel)
      rw [pathName, List.flatMap_nil, List.append_nil, keyFrom,
        keyPart_writtenKey key (endsKey_cons (by decide) _)]
      rfl
  | cons next path ih =>
      obtain ⟨fuel, rfl⟩ := Nat.exists_eq_succ_of_ne_zero (Nat.ne_of_gt (Nat.zero_lt_of_lt hfuel))
      have hnext := ih (Nat.lt_of_succ_lt_succ hfuel) next
      have htext : pathName (key :: next :: path) ++ ']' :: rest =
          writtenKey key ++ '.' :: (pathName (next :: path) ++ ']' :: rest) := by simp [pathName]
      have hskip : skipBlanks ('.' :: (pathName (next :: path) ++ ']' :: rest)) =
          '.' :: (pathName (next :: path) ++ ']' :: rest) := rfl
      have hblanks : skipBlanks (pathName (next :: path) ++ ']' :: rest) =
          pathName (next :: path) ++ ']' :: rest := by
        rw [pathName, List.append_assoc, skipBlanks_writtenKey]
      rw [htext, keyFrom, keyPart_writtenKey key (endsKey_cons (by decide) _)]
      simp only [bind, Except.bind, hskip, hblanks, hnext]

theorem length_le_pathName (path : Path) : path.length ≤ (pathName path).length := by
  have hpoints (path : Path) : path.length ≤
      (path.flatMap fun key => '.' :: writtenKey key).length := by
    induction path with
    | nil => exact Nat.le_refl _
    | cons key path ih =>
        rw [List.flatMap_cons, List.length_append, List.length_cons, List.length_cons]
        omega
  cases path with
  | nil => exact Nat.le_refl _
  | cons key path =>
      obtain ⟨c, cs, hkey, -⟩ := writtenKey_head key
      have hrest := hpoints path
      rw [pathName, hkey, List.length_append, List.length_cons, List.length_cons]
      omega

theorem key_pathName {path : Path} (h : path ≠ []) (rest : List Char) :
    key (skipBlanks (pathName path ++ ']' :: rest)) = .ok (path, ']' :: rest) := by
  have hlength := length_le_pathName path
  cases path with
  | nil => exact absurd rfl h
  | cons first path =>
      have hblanks : skipBlanks (pathName (first :: path) ++ ']' :: rest) =
          pathName (first :: path) ++ ']' :: rest := by
        rw [pathName, List.append_assoc, skipBlanks_writtenKey]
      rw [List.length_cons] at hlength
      rw [hblanks, key, keyFrom_pathName]
      rw [List.length_append]
      omega

theorem settle_of_pending {d : Document} (h : d.pending = []) : d.settle = d := by
  obtain ⟨root, marks, pending, header⟩ := d
  cases h
  rfl

section

variable {d e : Document} {path : Path} {k : String} {v : Value} {cs : List Char}

theorem run_header (hd : d.pending = []) (hpath : path ≠ [])
    (hopen : ∀ rest, d.openTable path rest = .ok e) :
    Run d (headerLine (pathName path) false) e := by
  have htext : headerLine (pathName path) false = '[' :: pathName path ++ [']'] ++ ['\n'] := by
    simp [headerLine]
  rw [htext]
  refine run_line fun rest => ?_
  have hstatement : statement d (skipBlanks ('[' :: pathName path ++ [']'] ++ '\n' :: rest)) =
      header d.settle (pathName path ++ ']' :: '\n' :: rest) := by
    simp only [List.append_assoc, List.cons_append, List.nil_append]
    rfl
  rw [hstatement, settle_of_pending hd, header]
  · rw [key_pathName hpath]
    simp only [bind, Except.bind, hopen]
  · -- No key starts with a bracket, so this is not the header of an array.
    intro more heq
    cases path with
    | nil => exact hpath rfl
    | cons key path =>
        obtain ⟨c, cs, hkey, hc⟩ := writtenKey_head key
        rw [pathName, hkey] at heq
        exact (startsKey_head hc).2.2.2 (List.cons.inj heq).1

theorem run_arrayHeader (hd : d.pending = []) (hpath : path ≠ [])
    (hopen : ∀ rest, d.openArrayTable path rest = .ok e) :
    Run d (headerLine (pathName path) true) e := by
  have htext : headerLine (pathName path) true =
      '[' :: '[' :: pathName path ++ [']', ']'] ++ ['\n'] := by simp [headerLine]
  rw [htext]
  refine run_line fun rest => ?_
  have hstatement :
      statement d (skipBlanks ('[' :: '[' :: pathName path ++ [']', ']'] ++ '\n' :: rest)) =
        header d.settle ('[' :: (pathName path ++ ']' :: ']' :: '\n' :: rest)) := by
    simp only [List.append_assoc, List.cons_append, List.nil_append]
    rfl
  rw [hstatement, settle_of_pending hd, header, key_pathName hpath]
  simp only [bind, Except.bind, hopen]

theorem run_pair (hv : Spells cs v) (hbind : ∀ rest, d.bind [k] v rest = .ok e) :
    Run d (writtenKey k ++ [' ', '=', ' '] ++ cs ++ ['\n']) e := by
  refine run_line fun rest => ?_
  have htext : writtenKey k ++ [' ', '=', ' '] ++ cs ++ '\n' :: rest =
      writtenKey k ++ ' ' :: '=' :: ' ' :: (cs ++ '\n' :: rest) := by simp
  have hpair : pair d (writtenKey k ++ ' ' :: '=' :: ' ' :: (cs ++ '\n' :: rest)) =
      .ok (e, '\n' :: rest) := by
    refine pair_of_value (key_writtenKey k _) ?_ (hbind _)
    rw [hv.skipBlanks_append]
    refine hv.value (.line rest) ?_
    rw [List.length_append]
    omega
  rw [htext, skipBlanks_writtenKey]
  obtain ⟨c, more, hkey, hc⟩ := writtenKey_head k
  rw [hkey, List.cons_append] at hpair ⊢
  rw [statement_pair hc, hpair]

end

/-! ## Statements at a place -/

/-- The document after the header of a table. -/
def Document.opened (d : Document) (path : Path) (root : Members) : Document :=
  { d with root, marks := d.marks.declare path, header := path }

/-- The document after a header that adds a table to an array. -/
def Document.extended (d : Document) (path : Path) (root : Members) : Document :=
  { d with root, marks := (d.marks.release path).declare path, header := path }

/-- The document after a pair. -/
def Document.bound (d : Document) (key : String) (v : Value) (root : Members) : Document :=
  { d with root, marks := if hasParts v then d.marks.fix (d.header ++ [key]) else d.marks }

section

variable {d : Document} {path : Path} {table : Members} {fill : Members → Members} {key : String}

theorem openTable_below (h : Around d.root path table fill) (hkey : table.get? key = none)
    (hmarks : d.marks.Fresh (path ++ [key])) (rest : List Char) :
    d.openTable (path ++ [key]) rest =
      .ok (d.opened (path ++ [key]) (fill (table.put key (.obj [])))) := by
  have hchange : change true .ok (path ++ [key]) d.root = .ok (fill (table.put key (.obj []))) :=
    h.made hkey _
  rw [Document.openTable, hmarks.isDeclared_eq_false, hmarks.free.isFixed_eq_false, hchange]
  rfl

theorem openArrayTable_below (h : Around d.root path table fill) {more : Members}
    (hadd : addTable key table = .ok more) (hmarks : d.marks.Free (path ++ [key]))
    (rest : List Char) :
    d.openArrayTable (path ++ [key]) rest = .ok (d.extended (path ++ [key]) (fill more)) := by
  have hchange : change true (addTable key) path d.root = .ok (fill more) := by
    rw [h, hadd]
    rfl
  rw [Document.openArrayTable, hmarks.isFixed_eq_false]
  simp only [Bool.false_eq_true, if_false, List.getLast?_concat, Option.getD_some,
    List.dropLast_concat, hchange, Document.extended]

theorem bind_here (h : Around d.root d.header table fill) (hkey : key ∉ table.map Prod.fst)
    (hmarks : d.marks.Free d.header) (v : Value) (rest : List Char) :
    d.bind [key] v rest = .ok (d.bound key v (fill (table ++ [(key, v)]))) := by
  have hthrough : d.through [key] = [] := rfl
  have hchange : change true (bindNew key v) d.header d.root =
      .ok (fill (table ++ [(key, v)])) := by
    rw [h, bindNew_append hkey]
    rfl
  rw [Document.bind, hthrough]
  simp only [List.find?_nil, List.dropLast_singleton, List.append_nil, hmarks.isFixed_eq_false,
    Bool.false_eq_true, if_false, List.getLast?_singleton, Option.getD_some, hchange,
    Document.bound]

theorem grownAt_bound (d : Document) (key : String) (v : Value) (root : Members) :
    d.marks.GrownAt (d.bound key v root).marks (d.header ++ [key]) := by
  unfold Document.bound
  dsimp only
  split
  · exact Marks.grownAt_fix _ _
  · exact Marks.grownAt_refl _ _

end

/-! ## Chunks -/

/-- Chunks that are all there, and that lead from one document to another. -/
def Reads (cs : List Chunk) (d e : Document) : Prop :=
  ∃ texts : List (List Char), cs = texts.map .ok ∧ Unbroken texts.flatten ∧ Run d texts.flatten e

theorem reads_nil (d : Document) : Reads [] d d := ⟨[], rfl, unbroken_nil, run_nil d⟩

theorem reads_singleton {d e : Document} {text : List Char} (hunbroken : Unbroken text)
    (h : Run d text e) : Reads [.ok text] d e := by
  refine ⟨[text], rfl, ?_, ?_⟩
  · rw [List.flatten_singleton]
    exact hunbroken
  · rw [List.flatten_singleton]
    exact h

theorem Reads.trans {d e f : Document} {cs more : List Chunk} (h : Reads cs d e)
    (hmore : Reads more e f) : Reads (cs ++ more) d f := by
  obtain ⟨texts, rfl, hunbroken, hrun⟩ := h
  obtain ⟨others, rfl, hothers, hnext⟩ := hmore
  refine ⟨texts ++ others, List.map_append.symm, ?_, ?_⟩
  · rw [List.flatten_append]
    exact unbroken_append.mpr ⟨hunbroken, hothers⟩
  · rw [List.flatten_append]
    exact hrun.trans hnext

theorem run_blank (d : Document) : Run d ['\n'] d := by
  have hline : Run d ([] ++ ['\n']) d := run_line fun _ => rfl
  exact hline

theorem reads_blank (d : Document) : Reads [.ok ['\n']] d d :=
  reads_singleton (unbroken_cons.mpr ⟨by decide, unbroken_nil⟩)
    (run_blank d)

/-- The chunks of one table after the other. -/
inductive ReadsEach : List (List Chunk) → Document → Document → Prop where
  | nil (d : Document) : ReadsEach [] d d
  | cons {cs : List Chunk} {rest : List (List Chunk)} {d e f : Document} (h : Reads cs d e)
      (hrest : ReadsEach rest e f) : ReadsEach (cs :: rest) d f

theorem ReadsEach.trans {parts more : List (List Chunk)} {d e f : Document}
    (h : ReadsEach parts d e) (hmore : ReadsEach more e f) : ReadsEach (parts ++ more) d f := by
  induction h with
  | nil => exact hmore
  | cons h _ ih => exact .cons h (ih hmore)

theorem ReadsEach.apart {parts : List (List Chunk)} {d e : Document} (h : ReadsEach parts d e) :
    Reads (parts.flatMap ([.ok ['\n']] ++ ·)) d e := by
  induction h with
  | nil d => exact reads_nil d
  | cons h _ ih =>
      rw [List.flatMap_cons]
      exact ((reads_blank _).trans h).trans ih

/-- The members that are written as pairs of their table. -/
def plain (ms : Members) : Members := ms.filter fun (_, v) => !isHeaded v

/-- The lines of a table before those of the tables in it. -/
def ownHeader (name : List Char) (inArray : Bool) (ms : Members) (inner : List (List Chunk)) :
    List Chunk :=
  if inArray || (!name.isEmpty && (!(plain ms).isEmpty || inner.isEmpty)) then
    [.ok (headerLine name inArray)]
  else []

theorem reads_assemble {name : List Char} {inArray : Bool} {ms : Members}
    {inner : List (List Chunk)} {d entered bound e : Document} (hfault : headersFault? ms = none)
    (hheader : Reads (ownHeader name inArray ms inner) d entered)
    (hplain : Reads ((plain ms).map fun (k, v) => pairLine k v) entered bound)
    (hinner : ReadsEach inner bound e) : Reads (assemble name inArray ms inner) d e := by
  have hown := hheader.trans hplain
  unfold assemble
  rw [hfault]
  cases hinner with
  | nil => exact hown
  | @cons first rest _ after _ hfirst hrest =>
      have hbetween (cs : List Chunk) :
          Reads (if cs.isEmpty then [] else [.ok ['\n']]) bound bound := by
        split
        · exact reads_nil bound
        · exact reads_blank bound
      exact ((hown.trans (hbetween _)).trans hfirst).trans hrest.apart

/-! ## Values with headers -/

theorem hasHeaders_ok {v : Value} (h : Writable v) : ∃ b, hasHeaders v = .ok b := by
  have hfits {items : List Value} (hitems : ∀ v ∈ items, Writable v) :
      ∃ b, allFitLine items = .ok b := by
    induction items with
    | nil => exact ⟨true, rfl⟩
    | cons v items ih =>
        rw [List.forall_mem_cons] at hitems
        obtain ⟨cs, hcs, -⟩ := hitems.1.isSpelled 0
        obtain ⟨b, hb⟩ := ih hitems.2
        rw [allFitLine, fitsLine, hcs, hb]
        simp only [Except.map, bind, Except.bind]
        split
        · exact ⟨b, rfl⟩
        · exact ⟨false, rfl⟩
  cases h with
  | arr hitems =>
      obtain ⟨b, hb⟩ := hfits hitems
      unfold hasHeaders
      dsimp only
      split
      · exact ⟨!b, by rw [hb]; rfl⟩
      · exact ⟨false, rfl⟩
  | obj => exact ⟨true, rfl⟩
  | bool | int | float | str | moment => exact ⟨false, rfl⟩

theorem headersFault?_eq_none {ms : Members} (h : ∀ m ∈ ms, Writable m.2) :
    headersFault? ms = none := by
  rw [headersFault?, List.findSome?_eq_none_iff]
  intro m hm
  obtain ⟨b, hb⟩ := hasHeaders_ok (h m hm)
  simp only [hb]

/-- Tables have headers, and so do some arrays, which then have nothing but tables. -/
inductive Headed : Value → Prop where
  | table (ms : Members) : Headed (.obj ms)
  | tables {items : List Value} (hne : items ≠ []) (h : ∀ v ∈ items, ∃ ms, v = .obj ms) :
      Headed (.arr items)

theorem headed_of_isHeaded {v : Value} (h : isHeaded v = true) : Headed v := by
  cases v with
  | obj ms => exact .table ms
  | arr items =>
      simp only [isHeaded, hasHeaders] at h
      split at h
      · next hguard =>
          split at hguard
          · next htables =>
              rw [Bool.and_eq_true, List.all_eq_true, Bool.not_eq_true', List.isEmpty_eq_false_iff]
                at htables
              refine .tables htables.1 fun v hv => ?_
              have htable := htables.2 v hv
              cases v with
              | obj ms => exact ⟨ms, rfl⟩
              | null | bool | int | float | str | moment | arr => cases htable
          · cases hguard
            cases h
      · cases h
  | null | bool | int | float | str | moment => cases h

end FoldingProtocol.Toml
