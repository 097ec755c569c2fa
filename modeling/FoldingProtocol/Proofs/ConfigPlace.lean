import FoldingProtocol.CommandLine.Run
import FoldingProtocol.Proofs.NumberLimits
import FoldingProtocol.Proofs.PathNormalForm

/-!
# The place of the configuration

The configuration is found by following its path name by name, and made at the place
that the names come to. Following a path ends at that place, or it stops before. So a
file that is made is found again, unless the path goes through something that is not
there; and where the path has no two dots in it, making the file also makes every
directory on the way.

Nothing is made where something on the way is a file. So a file that is at the place
of a path without two dots is found, and nothing is made over it.
-/

namespace FoldingProtocol

/-! ## Trees -/

namespace FileTree

variable {t : FileTree} {place other rest : List (List Char)} {contents : Utf8.Bytes}

theorem lookup_filter_of_ne (files : List (List (List Char) × Utf8.Bytes)) (h : other ≠ place) :
    (files.filter fun (p, _) => p ≠ place).lookup other = files.lookup other := by
  induction files with
  | nil => rfl
  | cons file files ih =>
      by_cases hfile : file.1 = place
      · have hother : (other == file.1) = false := by simpa [hfile] using h
        rw [List.filter_cons_of_neg (by simpa using hfile), ih, List.lookup_cons, hother]
      · rw [List.filter_cons_of_pos (by simpa using hfile), List.lookup_cons, List.lookup_cons, ih]

theorem get?_put_self (t : FileTree) (place : List (List Char)) (contents : Utf8.Bytes) :
    (t.put place contents).get? place = some contents := by
  rw [get?, put, List.lookup_cons_self]

theorem get?_put_of_ne (t : FileTree) (h : other ≠ place) (contents : Utf8.Bytes) :
    (t.put place contents).get? other = t.get? other := by
  have hother : (other == place) = false := by simpa using h
  rw [get?, put, List.lookup_cons, hother]
  exact lookup_filter_of_ne t.files h

theorem found_of_get? (h : t.get? place = some contents) : t.found place = .file contents := by
  rw [found, h]

/-- A place above a file is a directory. -/
theorem isDirectory_of_get? (h : t.get? (place ++ rest) = some contents) (hrest : rest ≠ []) :
    t.isDirectory place = true := by
  obtain ⟨before, after, hfiles, -⟩ := List.lookup_eq_some_iff.mp h
  have hmem : (place ++ rest, contents) ∈ t.files := by
    rw [hfiles]
    exact List.mem_append_right _ List.mem_cons_self
  have hunder : (t.files.any fun (p, _) => place.isPrefixOf p && place ≠ p) = true := by
    refine List.any_eq_true.mpr ⟨_, hmem, ?_⟩
    rw [Bool.and_eq_true, List.isPrefixOf_iff_prefix]
    exact ⟨List.prefix_append _ _, by simpa using hrest⟩
  rw [isDirectory, hunder, Bool.or_true]

theorem found_of_above (h : t.get? (place ++ rest) = some contents) (hrest : rest ≠ [])
    (hnone : t.get? place = none) : t.found place = .directory := by
  rw [found, hnone]
  exact if_pos (isDirectory_of_get? h hrest)

/-- What is at a place is a file, a directory, or nothing. -/
theorem found_ne_throughFile (t : FileTree) (place : List (List Char)) :
    t.found place ≠ .throughFile := by
  unfold found
  split
  · exact nofun
  · split <;> exact nofun

/-- Following a path ends at the place that its pieces come to, or it stops before. -/
theorem follow_ends_or_stops (t : FileTree) (place pieces : List (List Char)) :
    t.follow place pieces = t.found (FilePath.enterAll place pieces) ∨
      t.follow place pieces = .missing ∨ t.follow place pieces = .throughFile := by
  induction pieces generalizing place with
  | nil => exact .inl rfl
  | cons piece pieces ih =>
      rw [follow]
      cases hfound : t.found place with
      | file contents => exact .inr (.inr rfl)
      | missing => exact .inr (.inl rfl)
      | throughFile => exact absurd hfound (found_ne_throughFile t place)
      | directory =>
          dsimp only
          split
          · next hother =>
              rw [FilePath.enterAll_cons_other (by rcases hother with rfl | rfl <;> rfl)]
              exact ih place
          · next hname =>
              have hpiece : FilePath.isName piece = true :=
                FilePath.isName_iff.mpr (not_or.mp hname)
              rw [FilePath.enterAll_cons_name hpiece, FilePath.enter]
              split <;> exact ih _

/-- Names that go through directories are followed to their end. -/
theorem follow_of_directories {names : List (List Char)}
    (hnames : ∀ name ∈ names, FilePath.IsProper name)
    (h : ∀ before name after, names = before ++ name :: after →
      t.found (place ++ before) = .directory) :
    t.follow place names = t.found (place ++ names) := by
  induction names generalizing place with
  | nil => rw [follow, List.append_nil]
  | cons name names ih =>
      have hhere := h [] name names rfl
      have hname := hnames name List.mem_cons_self
      rw [List.append_nil] at hhere
      rw [follow, hhere]
      dsimp only
      rw [if_neg (not_or.mpr ⟨hname.1, hname.2.1⟩), if_neg hname.2.2, ih, List.append_assoc]
      · rfl
      · exact fun other hother => hnames other (List.mem_cons_of_mem _ hother)
      · intro before other after hsplit
        rw [List.append_assoc]
        exact h (name :: before) other after (congrArg (name :: ·) hsplit)

end FileTree

/-! ## Paths -/

namespace FilePath

/-- A path to a name, as reading a text gives it. -/
structure Spelled (p : FilePath) : Prop where
  named : p.names ≠ []
  names : ∀ name ∈ p.names, isName name = true ∧ '/' ∉ name

/-- A path in which nothing leads up. -/
structure Direct (p : FilePath) : Prop extends Spelled p where
  down : ['.', '.'] ∉ p.names

/-- Where following a path starts. -/
def start (directory : List (List Char)) (p : FilePath) : List (List Char) :=
  if p.root = .relative then directory else []

variable {p : FilePath}

theorem isName_of_mem_namesOf {cs name : List Char} (h : name ∈ namesOf cs) :
    isName name = true ∧ '/' ∉ name := by
  rw [namesOf, List.mem_filter] at h
  exact ⟨h.2, Text.not_mem_of_mem_splitAt h.1⟩

theorem spelled_child {name : List Char} (hp : ∀ name ∈ p.names, isName name = true ∧ '/' ∉ name)
    (hname : isName name = true ∧ '/' ∉ name) : (p.child name).Spelled where
  named := List.append_ne_nil_of_right_ne_nil _ (List.cons_ne_nil _ _)
  names := List.forall_mem_append.mpr ⟨hp, List.forall_mem_singleton.mpr hname⟩

theorem Direct.isProper (h : p.Direct) : ∀ name ∈ p.names, IsProper name := by
  intro name hmem
  obtain ⟨hne, hhere⟩ := isName_iff.mp (h.names name hmem).1
  exact ⟨hne, hhere, fun hup => h.down (hup ▸ hmem)⟩

namespace Spelled

theorem splitAt_names (h : p.Spelled) :
    Text.splitAt '/' (['/'].intercalate p.names) = p.names :=
  Text.splitAt_intercalate h.named fun name hmem => (h.names name hmem).2

theorem names_ne (h : p.Spelled) (rest : List (List Char)) : p.names ≠ [] :: rest := by
  intro heq
  have hempty := (h.names [] (heq ▸ List.mem_cons_self)).1
  cases hempty

theorem resolve_eq (h : p.Spelled) (directory : List (List Char)) :
    p.resolve directory = enterAll (p.start directory) p.names := by
  rw [resolve, enterAll, List.filter_eq_self.mpr fun name hmem => (h.names name hmem).1]
  rfl

/-- The text of a path is followed by the names of it. -/
theorem look_text (h : p.Spelled) (t : FileTree) (directory : List (List Char)) :
    t.look directory p.text = t.follow (p.start directory) p.names := by
  have hsplit := h.splitAt_names
  have hne := h.names_ne
  obtain ⟨root, names⟩ := p
  dsimp only [text, start] at hsplit hne ⊢
  generalize ['/'].intercalate names = cs at hsplit ⊢
  cases root with
  | relative =>
      cases cs with
      | nil => exact absurd hsplit.symm (hne _)
      | cons c cs =>
          have hc : c ≠ '/' := by
            rintro rfl
            rw [Text.splitAt_mark] at hsplit
            exact hne _ hsplit.symm
          show t.look directory (c :: cs) = _
          unfold FileTree.look
          split
          · next hnil => cases hnil
          · next hslash => exact absurd (List.cons.inj hslash).1 hc
          · rw [hsplit]
            rfl
  | single =>
      show t.follow [] (Text.splitAt '/' cs) = _
      rw [hsplit]
      rfl
  | double =>
      show t.follow [] (Text.splitAt '/' ('/' :: cs)) = t.follow [] names
      rw [Text.splitAt_mark, hsplit]
      -- The empty piece after the first slash leads from the root to the root.
      obtain ⟨name, rest, rfl⟩ := List.exists_cons_of_ne_nil h.named
      rw [FileTree.follow]
      cases hroot : t.found [] with
      | file => rw [FileTree.follow, hroot]
      | missing => rw [FileTree.follow, hroot]
      | throughFile => rw [FileTree.follow, hroot]
      | directory => exact if_pos (.inl rfl)

end Spelled

theorem Direct.resolve_eq (h : p.Direct) (directory : List (List Char)) :
    p.resolve directory = p.start directory ++ p.names :=
  (h.toSpelled.resolve_eq directory).trans (enterAll_of_proper h.isProper _)

end FilePath

/-- Every path of a configuration is spelled by its text. -/
theorem Config.spelled_fileIn {configHome : Option (List Char)} {home : List Char}
    {directory : FilePath} (h : directory? configHome home = some directory) :
    (fileIn directory).Spelled := by
  refine FilePath.spelled_child ?_ (by decide)
  unfold directory? at h
  split at h
  · cases h
    exact (FilePath.spelled_child (fun _ => FilePath.isName_of_mem_namesOf) (by decide)).names
  · obtain ⟨-, h⟩ := Option.ite_none_left_eq_some.mp h
    cases h
    refine (FilePath.spelled_child ?_ (by decide)).names
    exact (FilePath.spelled_child (fun _ => FilePath.isName_of_mem_namesOf) (by decide)).names

/-! ## The configuration in a tree -/

namespace CommandLine.Environment

variable {env : Environment} {files : FileTree} {config : Members} {contents : Utf8.Bytes}

/-- Nothing above the place of the configuration is a file. -/
def Reachable (env : Environment) : Prop :=
  ∀ before name after, env.configPlace = before ++ name :: after → env.files.get? before = none

/-- A configuration is put at its place, which has no file above it. -/
theorem saveConfig_eq_ok (h : env.saveConfig config = .ok files) :
    files = env.files.put env.configPlace (Config.save config).1 ∧ env.Reachable := by
  unfold saveConfig at h
  dsimp only at h
  split at h
  · cases h
  next habove =>
  split at h
  · cases h
  next hholder =>
  refine ⟨(Except.ok.inj h).symm, fun before name after hplace => ?_⟩
  rw [hplace, List.dropLast_append_cons] at habove hholder
  by_cases hlast : (name :: after).dropLast = []
  · rw [hlast, List.append_nil] at hholder
    exact Option.not_isSome_iff_eq_none.mp hholder
  · rw [List.any_eq_true, not_exists] at habove
    have hnone := habove before.length
    rw [List.mem_range, List.take_left, List.length_append] at hnone
    refine Option.not_isSome_iff_eq_none.mp fun hsome => hnone ⟨?_, hsome⟩
    exact Nat.lt_add_of_pos_right (List.length_pos_iff.mpr hlast)

theorem configFound_eq (h : env.configPath.Spelled) :
    env.configFound =
      env.files.follow (env.configPath.start env.directory) env.configPath.names :=
  h.look_text env.files env.directory

/-- At the end of a path without two dots is the place of the configuration. -/
theorem configFound_of_get? (hpath : env.configPath.Direct) (hreach : env.Reachable)
    (hget : env.files.get? env.configPlace = some contents) : env.configFound = .file contents := by
  have hplace : env.configPlace = env.configPath.start env.directory ++ env.configPath.names :=
    hpath.resolve_eq env.directory
  rw [configFound_eq hpath.toSpelled, FileTree.follow_of_directories hpath.isProper, ← hplace]
  · exact FileTree.found_of_get? hget
  · intro before name after hsplit
    rw [hsplit, ← List.append_assoc] at hplace
    exact FileTree.found_of_above (hplace ▸ hget) (List.cons_ne_nil _ _) (hreach _ _ _ hplace)

/-- The tree with something at the place of the configuration. -/
def holding (env : Environment) (contents : Utf8.Bytes) : Environment :=
  { env with files := env.files.put env.configPlace contents }

theorem reachable_holding (h : env.Reachable) (contents : Utf8.Bytes) :
    (env.holding contents).Reachable := by
  intro before name after hplace
  have hne : before ≠ env.configPlace := by
    rw [show env.configPlace = _ from hplace]
    simp
  exact (FileTree.get?_put_of_ne env.files hne contents).trans (h before name after hplace)

theorem configFound_holding (hpath : env.configPath.Direct) (hreach : env.Reachable)
    (contents : Utf8.Bytes) : (env.holding contents).configFound = .file contents :=
  configFound_of_get? hpath (reachable_holding hreach contents)
    (FileTree.get?_put_self env.files env.configPlace contents)

/-- What is put at the place of the configuration is what is found then, or nothing is. -/
theorem configFound_holding_cases (hpath : env.configPath.Spelled) (contents : Utf8.Bytes) :
    (env.holding contents).configFound = .file contents ∨
      (env.holding contents).configFound = .missing ∨
      (env.holding contents).configFound = .throughFile := by
  have hpath' : (env.holding contents).configPath.Spelled := hpath
  rw [configFound_eq hpath']
  refine (FileTree.follow_ends_or_stops _ _ _).imp_left fun hends => hends.trans ?_
  rw [← hpath'.resolve_eq]
  exact FileTree.found_of_get? (FileTree.get?_put_self _ _ _)

/-- A file that loads as the configuration without a file is one that changes nothing. -/
theorem config_holding (hpath : env.configPath.Spelled)
    (hload : Config.load env.configPath (some contents) = .ok config)
    (hnone : Config.load env.configPath none = .ok config) :
    (env.holding contents).config = .ok config := by
  have hload' : Config.load (env.holding contents).configPath (some contents) = .ok config := hload
  have hnone' : Config.load (env.holding contents).configPath none = .ok config := hnone
  rcases configFound_holding_cases hpath contents with hfound | hfound | hfound
  · simp only [Environment.config, hfound, hload', bind, Except.bind]
  · simp only [Environment.config, hfound, hnone', bind, Except.bind]
  · simp only [Environment.config, hfound, hnone', bind, Except.bind]

end CommandLine.Environment

end FoldingProtocol
