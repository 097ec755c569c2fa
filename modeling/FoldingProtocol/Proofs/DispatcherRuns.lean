import FoldingProtocol.Proofs.DispatchDecision

/-!
# A dispatcher in use

Registrations, questions and messages reach a dispatcher in any order. Of all of
these only registrations matter for what comes later: the step lemma says that an
action adds at most its own route, and never in place of another one, and the run
lemma says that after any run the route of a method is the first one that was
registered for it. Everything else that a run promises is read off the routes:
when a registration is refused, who serves a message, and whether the dispatcher
offers folding.
-/

namespace FoldingProtocol.Rpc

/-! ## Actions -/

/-- What can be done with a dispatcher. A handler is registered, or decorated
with its registration, which hands it back. -/
inductive Action where
  | register (route : Route)
  | decorate (route : Route)
  | supports (method : String)
  | capabilities (registration : Option FoldingRegistrationOptions)
  | dispatch (message : Value)

/-- What an action comes to. -/
inductive Reaction where
  | registered
  | decorated (handler : Handler)
  | refused (message : String)
  | supports (answer : Bool)
  | capabilities (c : ServerCapabilities)
  | dispatched (out : Dispatched)

/-- The route that an action wants to add. -/
def Action.route? : Action → Option Route
  | .register route => some route
  | .decorate route => some route
  | _ => none

/-- The registrations in a run, refused ones among them. -/
def registrations (actions : List Action) : List Route := actions.filterMap Action.route?

namespace Dispatcher

/-- Registers a route; what is said then depends on who asks. -/
def add (d : Dispatcher) (route : Route) (welcome : Reaction) : Dispatcher × Reaction :=
  match d.register? route with
  | some next => (next, welcome)
  | none => (d, .refused (registeredMessage route.request.method))

/-- One action: the dispatcher after it, and what it comes to. -/
def act (d : Dispatcher) : Action → Dispatcher × Reaction
  | .register route => d.add route .registered
  | .decorate route => d.add route (.decorated route.handler)
  | .supports method => (d, .supports (d.supports method))
  | .capabilities registration => (d, .capabilities (d.serverCapabilities registration))
  | .dispatch message => (d, .dispatched (d.dispatch message))

/-- The dispatcher after a run. -/
def after (d : Dispatcher) (actions : List Action) : Dispatcher :=
  actions.foldl (fun d a => (d.act a).1) d

/-! ## One action -/

variable {d : Dispatcher} {route : Route} {welcome : Reaction}

theorem add_of_supports (h : d.supports route.request.method = true) :
    d.add route welcome = (d, .refused (registeredMessage route.request.method)) := by
  rw [add, register?, if_pos h]

theorem add_of_not_supports (h : d.supports route.request.method = false) :
    d.add route welcome = (⟨d.routes ++ [route]⟩, welcome) := by
  rw [add, register?, if_neg (by simp [h])]

theorem add_fst : (d.add route welcome).1 = (d.register? route).getD d := by
  rw [add]
  split <;> rename_i h <;> rw [h] <;> rfl

theorem act_of_no_route {a : Action} (h : a.route? = none) : (d.act a).1 = d := by
  cases a with
  | register route => cases h
  | decorate route => cases h
  | supports method => rfl
  | capabilities registration => rfl
  | dispatch message => rfl

theorem act_of_route {a : Action} (h : a.route? = some route) :
    (d.act a).1 = (d.register? route).getD d := by
  cases a with
  | register r => cases h; exact add_fst
  | decorate r => cases h; exact add_fst
  | supports method => cases h
  | capabilities registration => cases h
  | dispatch message => cases h

/-! ## A run -/

theorem registrations_cons (a : Action) (rest : List Action) :
    registrations (a :: rest) = a.route?.toList ++ registrations rest := by
  rw [registrations, List.filterMap_cons]
  cases a.route? <;> rfl

/-- A run leaves what its registrations alone would leave. -/
theorem after_eq_registerAll (d : Dispatcher) (actions : List Action) :
    d.after actions = d.registerAll (registrations actions) := by
  induction actions generalizing d with
  | nil => rfl
  | cons a rest ih =>
      show (d.act a).1.after rest = _
      rw [ih, registrations_cons]
      cases h : a.route? with
      | none => rw [act_of_no_route h]; rfl
      | some route => rw [act_of_route h]; rfl

theorem route?_after (actions : List Action) (method : String) :
    (empty.after actions).route? method = firstRoute? (registrations actions) method := by
  rw [after_eq_registerAll]
  exact route?_empty_registerAll _ _

/-- The methods that a dispatcher has routes for. -/
def methods (d : Dispatcher) : List String := d.routes.map (·.request.method)

theorem supports_iff {method : String} : d.supports method = true ↔ method ∈ d.methods := by
  rw [supports, route?, List.find?_isSome, methods, List.mem_map]
  simp only [beq_iff_eq]

theorem nodup_methods_register (h : d.methods.Nodup) :
    ((d.register? route).getD d).methods.Nodup := by
  rw [register?]
  split <;> rename_i hsupports
  · exact h
  · rw [supports_iff] at hsupports
    show (List.map _ (d.routes ++ [route])).Nodup
    rw [List.map_append]
    refine List.nodup_append.mpr ⟨h, List.nodup_cons.mpr ⟨List.not_mem_nil, .nil⟩, ?_⟩
    intro m hm m' hm' heq
    rw [heq, List.mem_singleton.mp hm'] at hm
    exact hsupports hm

theorem nodup_methods_after {actions : List Action} (h : d.methods.Nodup) :
    (d.after actions).methods.Nodup := by
  induction actions generalizing d with
  | nil => exact h
  | cons a rest ih =>
      refine ih (d := (d.act a).1) ?_
      cases hroute : a.route? with
      | none => rw [act_of_no_route hroute]; exact h
      | some route => rw [act_of_route hroute]; exact nodup_methods_register h

/-! ## What a run promises -/

theorem firstRoute?_isSome {rs : List Route} {method : String} :
    (firstRoute? rs method).isSome = true ↔ ∃ route ∈ rs, route.request.method = method := by
  rw [firstRoute?, List.find?_isSome]
  simp only [beq_iff_eq]

theorem supports_after {actions : List Action} {method : String} :
    (empty.after actions).supports method = true ↔
      ∃ route ∈ registrations actions, route.request.method = method := by
  rw [supports, route?_after, firstRoute?_isSome]

/-- Serving looks at nothing but the route of the method. -/
theorem dispatch_congr {d' : Dispatcher} {message : Value} {r : Request}
    (h : Request.ofMessage message = .ok r) (hroute : d.route? r.method = d'.route? r.method) :
    d.dispatch message = d'.dispatch message := by
  rw [dispatch, dispatch, h]
  simp only [serve, hroute]

theorem route?_alone : (Dispatcher.mk [route]).route? route.request.method = some route := by
  rw [Dispatcher.route?, List.find?_cons, beq_iff_eq.mpr rfl]

theorem supportsFolding_serverCapabilities (registration : Option FoldingRegistrationOptions) :
    (d.serverCapabilities registration).supportsFolding = d.supports FoldingRequest.method := by
  unfold serverCapabilities
  split <;> rename_i h
  · rw [h]
    cases registration <;> rfl
  · exact (Bool.eq_false_iff.mpr h).symm

/-- Whatever was done with a dispatcher before, each method has the first route
that was registered for it, and no other. A registration for a method that has a
route is refused and changes nothing, and no other action changes anything. A
request is served as by a dispatcher that has the first registration for its
method alone; if there is none, no handler is called, and whoever waits is told
that the method is not found; and one whose identifier cannot be shown is not
served at all. And folding is offered, whatever the options to register with,
when a route for it was registered, and only then. -/
theorem after_follows_first_registrations (actions : List Action) :
    let d := empty.after actions
    let first? := firstRoute? (registrations actions)
    (∀ method, d.route? method = first? method) ∧ d.methods.Nodup ∧
      (∀ route, (∃ earlier ∈ registrations actions,
          earlier.request.method = route.request.method) →
        d.act (.register route) = (d, .refused (registeredMessage route.request.method)) ∧
          d.act (.decorate route) = (d, .refused (registeredMessage route.request.method))) ∧
      (∀ route, (¬ ∃ earlier ∈ registrations actions,
          earlier.request.method = route.request.method) →
        d.act (.register route) = (⟨d.routes ++ [route]⟩, .registered) ∧
          d.act (.decorate route) = (⟨d.routes ++ [route]⟩, .decorated route.handler)) ∧
      (∀ a, a.route? = none → (d.act a).1 = d) ∧
      (∀ message r, Request.ofMessage message = .ok r →
        (∀ route, first? r.method = some route →
          d.dispatch message = (Dispatcher.mk [route]).dispatch message) ∧
        (first? r.method = none → (d.dispatch message).calls = [] ∧
          (r.id ≠ .null → r.id.isShowable = true →
            (d.dispatch message).reply = .ok (some ((Verdict.error (-32601)
              (.str ("Method not found: " ++ r.method)) .null).toMessage r.id)))) ∧
        (r.id.isShowable = false → d.dispatch message = ⟨.error .hiddenId, [], []⟩)) ∧
      ∀ registration, (d.serverCapabilities registration).supportsFolding = true ↔
        ∃ route ∈ registrations actions, route.request.method = FoldingRequest.method := by
  intro d first?
  have hroute : ∀ method, d.route? method = first? method := route?_after actions
  refine ⟨hroute, nodup_methods_after .nil, ?_, ?_, fun a => act_of_no_route, ?_, ?_⟩
  · intro route hearlier
    have hsupports := supports_after.mpr hearlier
    exact ⟨add_of_supports hsupports, add_of_supports hsupports⟩
  · intro route hnew
    have hsupports := Bool.eq_false_iff.mpr (mt supports_after.mp hnew)
    exact ⟨add_of_not_supports hsupports, add_of_not_supports hsupports⟩
  · intro message r hr
    refine ⟨fun route hfirst => ?_, fun hnone => ?_, dispatch_of_hidden hr⟩
    · refine dispatch_congr hr ?_
      rw [hroute, hfirst, ← method_of_firstRoute? hfirst]
      exact route?_alone.symm
    · have hserve := serve_of_unknown ((hroute r.method).trans hnone)
      refine ⟨?_, fun hid hshown => ?_⟩
      · cases hshown : r.id.isShowable with
        | true => rw [calls_of_told ⟨hr, hshown⟩, hserve]
        | false => rw [dispatch_of_hidden hr hshown]
      · refine reply_of_comesTo ⟨hr, hshown⟩ hid ?_
        rw [hserve]
        exact .ofCode .methodNotFound _
  · intro registration
    rw [supportsFolding_serverCapabilities]
    exact supports_after

/-- A method is asked about, registered, and served before somebody else
registers for it. -/
theorem second_registration_is_refused :
    let d := empty.after [.supports FoldingRequest.method, .register refusingRoute,
      .dispatch falsyRequest, .capabilities none]
    d.act (.decorate backwardsRoute) =
        (d, .refused "Handler already registered for textDocument/foldingRanges") ∧
      d.dispatch falsyRequest = (Dispatcher.mk [refusingRoute]).dispatch falsyRequest ∧
      (d.serverCapabilities (some ⟨none, none⟩)).supportsFolding = true := by
  intro d
  obtain ⟨-, -, hrefused, -, -, hserved, hoffered⟩ := after_follows_first_registrations
    [.supports FoldingRequest.method, .register refusingRoute, .dispatch falsyRequest,
      .capabilities none]
  have hmem : refusingRoute ∈ registrations [.supports FoldingRequest.method,
      .register refusingRoute, .dispatch falsyRequest, .capabilities none] :=
    List.mem_singleton.mpr rfl
  exact ⟨(hrefused backwardsRoute ⟨refusingRoute, hmem, rfl⟩).2,
    (hserved falsyRequest _ (ofMessage_rangesRequest _)).1 refusingRoute rfl,
    (hoffered _).mpr ⟨refusingRoute, hmem, rfl⟩⟩

/-- Nobody has registered for the method of a request, and it is not answered. -/
theorem unregistered_request_is_not_answered :
    let d := empty.after [.supports FoldingRequest.method]
    registrations [.supports FoldingRequest.method] = [] ∧ messageId endlessRequest ≠ .null ∧
      (d.dispatch endlessRequest).reply = .error .hiddenId := by
  intro d
  have hid : messageId endlessRequest ≠ .null := nofun
  exact ⟨rfl, hid, congrArg Dispatched.reply (dispatch_endlessRequest d)⟩

end Dispatcher

end FoldingProtocol.Rpc
