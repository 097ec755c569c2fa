import FoldingProtocol.Rpc.Dispatcher

/-!
# The first registration of a method stands

A dispatcher comes about by registrations, one after the other. Each one either
adds its route or is refused and changes nothing, so what matters about a whole
run is only which registration of a method came first. The step lemma says what
one registration does to the route of any method, and the run lemma follows by
induction on the registrations: looking up a method is looking through the
registrations themselves.
-/

namespace FoldingProtocol.Rpc.Dispatcher

/-- Registers routes one after the other; a refused one changes nothing. -/
def registerAll (d : Dispatcher) (rs : List Route) : Dispatcher :=
  rs.foldl (fun d r => (d.register? r).getD d) d

/-- The first of some registrations for a method. -/
def firstRoute? (rs : List Route) (method : String) : Option Route :=
  rs.find? (·.request.method == method)

theorem firstRoute?_cons {r : Route} {rs : List Route} {method : String} :
    firstRoute? (r :: rs) method =
      if r.request.method = method then some r else firstRoute? rs method := by
  rw [firstRoute?, List.find?_cons]
  by_cases h : r.request.method = method
  · rw [if_pos h, beq_iff_eq.mpr h]
  · rw [if_neg h, beq_false_of_ne h]
    rfl

theorem method_of_firstRoute? {rs : List Route} {method : String} {r : Route}
    (h : firstRoute? rs method = some r) : r.request.method = method := by
  have hfound := List.find?_some h
  exact beq_iff_eq.mp hfound

theorem firstRoute?_middle {before after : List Route} {r : Route}
    (h : ∀ route ∈ before, route.request.method ≠ r.request.method) :
    firstRoute? (before ++ r :: after) r.request.method = some r := by
  induction before with
  | nil => rw [List.nil_append, firstRoute?_cons, if_pos rfl]
  | cons route rest ih =>
      rw [List.cons_append, firstRoute?_cons, if_neg (h route List.mem_cons_self)]
      exact ih fun other hmem => h other (List.mem_cons_of_mem _ hmem)

/-- One registration: the route of a method is the one it had, or else the new
one if that is for the method. -/
theorem route?_register (d : Dispatcher) (r : Route) (method : String) :
    ((d.register? r).getD d).route? method =
      (d.route? method).or (firstRoute? [r] method) := by
  rw [register?]
  split <;> rename_i hsupports
  · rw [Option.getD_none, firstRoute?_cons]
    split <;> rename_i hmethod
    -- A registration is refused because of an old route, and that one stays.
    · subst hmethod
      obtain ⟨old, hold⟩ := Option.isSome_iff_exists.mp hsupports
      rw [hold]
      rfl
    · exact (Option.or_none).symm
  · rw [Option.getD_some]
    exact List.find?_append

/-- A run of registrations: the first one for a method is its route. -/
theorem route?_registerAll (d : Dispatcher) (rs : List Route) (method : String) :
    (d.registerAll rs).route? method = (d.route? method).or (firstRoute? rs method) := by
  induction rs generalizing d with
  | nil => exact (Option.or_none).symm
  | cons r rest ih =>
      show (((d.register? r).getD d).registerAll rest).route? method = _
      rw [ih, route?_register, Option.or_assoc]
      congr 1
      show _ = firstRoute? ([r] ++ rest) method
      exact List.find?_append.symm

theorem route?_empty_registerAll (rs : List Route) (method : String) :
    (empty.registerAll rs).route? method = firstRoute? rs method :=
  route?_registerAll empty rs method

end FoldingProtocol.Rpc.Dispatcher
