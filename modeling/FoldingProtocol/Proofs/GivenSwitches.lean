import FoldingProtocol.CommandLine.Arguments
import FoldingProtocol.Proofs.NumberLimits

/-!
# What is given is spelled

A switch without a value and without a letter is given in one way only: its spelling is
one of the arguments. What is left of the arguments when the switches of the program are
taken is the end of them. So a command with such a switch is named in the arguments, and
the switch is spelled after it.
-/

namespace FoldingProtocol.CommandLine

/-- A switch that is spelled out, and has nothing to it but its spelling. -/
structure Switch.Plain (switch : Switch) : Prop where
  noValue : switch.takesValue = false
  noLetter : switch.letter? = none

section

variable {known : List Switch} {mixed : Bool} {args : List String} {arg : List Char}
  {given : List Given} {switch : Switch} {sorted : Sorted}

theorem letter?_of_readLetters {letters : List Char} (h : readLetters known letters = .ok given) :
    ∀ g ∈ given, g.switch.letter? ≠ none := by
  induction letters generalizing given with
  | nil =>
      cases h
      exact nofun
  | cons c letters ih =>
      rw [readLetters] at h
      split at h
      · cases h
      · next s hfind =>
          obtain ⟨rest, hrest, rfl⟩ := map_eq_ok.mp h
          have hletter : s.letter? = some c := by simpa using List.find?_some hfind
          refine List.forall_mem_cons.mpr ⟨?_, ih hrest⟩
          rw [hletter]
          exact nofun

/-- An argument that gives a plain switch is its spelling. -/
theorem eq_spelling_of_readSwitch (h : readSwitch known arg = .ok (.complete given))
    (hmem : switch ∈ given.map Given.switch) (hplain : switch.Plain) :
    String.ofList arg = switch.spelling := by
  obtain ⟨g, hg, rfl⟩ := List.mem_map.mp hmem
  unfold readSwitch at h
  dsimp only at h
  split at h
  · next s hfind =>
      have hspelling : s.spelling = .ofList (arg.takeWhile (· ≠ '=')) := by
        simpa using List.find?_some hfind
      split at h
      · next hvalue _ =>
          cases h
          rw [List.mem_singleton.mp hg] at hplain
          exact absurd (hvalue.symm.trans hplain.noValue) nofun
      · cases h
      · next hnone =>
          cases h
          rw [List.mem_singleton.mp hg, hspelling]
          -- Nothing comes after the name, so the name is all of the argument.
          rw [(List.takeWhile_prefix _).eq_of_length_le (List.drop_eq_nil_iff.mp hnone)]
      · cases h
  · split at h
    · cases h
    · obtain ⟨read, hread, hgiven⟩ := map_eq_ok.mp h
      cases hgiven
      exact absurd hplain.noLetter (letter?_of_readLetters hread g hg)

theorem takesValue_of_readSwitch (h : readSwitch known arg = .ok (.awaitsValue switch)) :
    switch.takesValue = true := by
  unfold readSwitch at h
  dsimp only at h
  split at h
  · split at h
    · cases h
    · next hvalue _ =>
        cases h
        exact hvalue
    · cases h
    · cases h
  · split at h
    · cases h
    · obtain ⟨read, hread, hgiven⟩ := map_eq_ok.mp h
      cases hgiven

/-- A plain switch that is given is one of the arguments. -/
theorem spelling_mem_of_sort (h : sort known mixed args = .ok sorted)
    (hmem : switch ∈ sorted.given.map Given.switch) (hplain : switch.Plain) :
    switch.spelling ∈ args := by
  fun_induction sort known mixed args generalizing sorted with
  | case1 | case2 | case8 =>
      cases h
      cases hmem
  | case3 | case5 => cases h
  | case4 arg rest _ _ given hread ih =>
      obtain ⟨after, hsort, rfl⟩ := map_eq_ok.mp h
      rw [List.map_append, List.mem_append] at hmem
      rcases hmem with hhere | hafter
      · have heq := eq_spelling_of_readSwitch hread hhere hplain
        rw [String.ofList_toList] at heq
        exact heq ▸ List.mem_cons_self
      · exact List.mem_cons_of_mem _ (ih hsort hafter)
  | case6 arg _ _ other hread value rest ih =>
      obtain ⟨after, hsort, rfl⟩ := map_eq_ok.mp h
      rcases List.mem_cons.mp hmem with rfl | hafter
      · exact absurd ((takesValue_of_readSwitch hread).symm.trans hplain.noValue) nofun
      · exact List.mem_cons_of_mem _ (List.mem_cons_of_mem _ (ih hsort hafter))
  | case7 arg rest _ _ _ ih =>
      obtain ⟨after, hsort, rfl⟩ := map_eq_ok.mp h
      exact List.mem_cons_of_mem _ (ih hsort hmem)

/-- What is left after the switches is the end of the arguments. -/
theorem rest_suffix_of_sort (h : sort known false args = .ok sorted) : sorted.rest <:+ args := by
  generalize hmixed : false = mixed at h
  fun_induction sort known mixed args generalizing sorted with
  | case1 | case8 =>
      cases h
      exact List.suffix_refl _
  | case2 rest =>
      cases h
      exact List.suffix_cons _ _
  | case3 | case5 => cases h
  | case4 arg rest _ _ given hread ih =>
      obtain ⟨after, hsort, rfl⟩ := map_eq_ok.mp h
      exact (ih hsort).trans (List.suffix_cons _ _)
  | case6 arg _ _ other hread value rest ih =>
      obtain ⟨after, hsort, rfl⟩ := map_eq_ok.mp h
      exact (ih hsort).trans (List.suffix_append [arg, value] rest)
  | case7 arg rest _ _ htrue => exact absurd (hmixed.trans htrue) nofun

/-! ## Taking up switches -/

theorem init_of_take {settings taken : Settings} {value : String}
    (h : settings.take switch value = .ok taken) (hother : switch ≠ .init) :
    taken.init = settings.init := by
  cases switch with
  | init => exact absurd rfl hother
  | id | completeLines | maximum =>
      obtain ⟨_, -, rfl⟩ := map_eq_ok.mp h
      rfl
  | help | json | logLevel | truncate | rejectOffsets =>
      cases h
      rfl

theorem init_iff_of_foldlM {value : Switch → String} {switches : List Switch}
    {settings taken : Settings}
    (h : switches.foldlM (fun settings switch => settings.take switch (value switch)) settings =
      .ok taken) : taken.init = true ↔ settings.init = true ∨ .init ∈ switches := by
  induction switches generalizing settings with
  | nil =>
      cases h
      simp
  | cons switch switches ih =>
      rw [List.foldlM_cons] at h
      obtain ⟨next, htake, h⟩ := bind_eq_ok.mp h
      rw [ih h, List.mem_cons]
      by_cases hswitch : switch = .init
      · subst hswitch
        cases htake
        simp
      · rw [init_of_take htake hswitch, or_iff_right (Ne.symm hswitch)]

theorem Sorted.has_iff : sorted.has switch = true ↔ switch ∈ sorted.given.map Given.switch := by
  rw [Sorted.has, List.any_eq_true, List.mem_map]
  simp only [beq_iff_eq]

/-- A configuration is to be made if the switch for it is given, and else not. -/
theorem init_iff_has {settings : Settings} (h : sorted.settings = .ok settings) :
    settings.init = true ↔ sorted.has .init = true := by
  have hnot : ¬ Settings.standard.init = true := Bool.false_ne_true
  rw [init_iff_of_foldlM h, or_iff_right hnot, Sorted.has_iff, Sorted.switches, List.mem_eraseDups]

end

end FoldingProtocol.CommandLine
