import StateProxy.Backend.History
import StateProxy.Backend.Mirror

/-! Which protocol an endpoint is served through.  A service has the protocol of the `Add` that opened
its port; an `Add` on an open port does not change it, whatever protocol it asks for.  So every
endpoint is served through the protocol it asked for exactly as long as every `Add` on an open port
asks for the protocol of its service. -/

namespace StateProxy.Backend

open Net ProofKit ServiceManager

/-- The external protocol that an event asks for, when it is an `Add` of the endpoint on the port. -/
def asked (id : EndpointId) (port : UInt16) : String × EndpointEvent → Option String
  | (discovery, .add uid _ externalPort externalProtocol _ _) =>
    if (⟨discovery, uid⟩ : EndpointId) = id ∧ externalPort = port then some externalProtocol else none
  | _ => none

/-- The external protocol of the last `Add` of the endpoint on the port. -/
def lastAsked (id : EndpointId) (port : UInt16) (events : List (String × EndpointEvent)) :
    Option String :=
  (events.filterMap (asked id port)).getLast?

/-- Every endpoint of a service has last asked for the protocol of the service. -/
def ServedAsAsked (events : List (String × EndpointEvent)) (map : ServiceMap) : Prop :=
  ∀ port s id e, map.lookup port = some s → s.endpoints.lookup id = some e →
    lastAsked id port events = some s.protocol

/-- An `Add` on an open port asks for the protocol of its service. -/
def EndpointEvent.Matches (map : ServiceMap) : EndpointEvent → Prop
  | .add _ _ port protocol _ _ => ∀ s, map.lookup port = some s → protocol = s.protocol
  | _ => True

/-- A run from `start` in which `P` holds of every step: of the events processed before it, the
manager before it, its event and the manager after it. -/
inductive RunOf (P : List (String × EndpointEvent) → ServiceManager → String × EndpointEvent →
    ServiceManager → Prop) (start : ServiceManager) :
    List (String × EndpointEvent) → ServiceManager → Prop
  | nil : RunOf P start [] start
  | snoc {events : List (String × EndpointEvent)} {m₁ m₂ : ServiceManager} {discovery : String}
      {event : EndpointEvent} (order : IterOrder UInt16) : RunOf P start events m₁ →
      processEvent order discovery event m₁ = .ok () m₂ → P events m₁ (discovery, event) m₂ →
      RunOf P start (events ++ [(discovery, event)]) m₂

/-- A run in whose every state all endpoints are served as they asked. -/
abbrev ServedRun := RunOf fun before _ event m' => ServedAsAsked (before ++ [event]) m'.portServiceMap

/-- A run in which every `Add` on an open port asks for the protocol of its service. -/
abbrev MatchingRun := RunOf fun _ m event _ => event.2.Matches m.portServiceMap

theorem lastAsked_concat (id : EndpointId) (port : UInt16) (events : List (String × EndpointEvent))
    (event : String × EndpointEvent) :
    lastAsked id port (events ++ [event]) = (asked id port event).or (lastAsked id port events) := by
  rw [lastAsked, List.filterMap_append, List.getLast?_append, lastAsked]
  cases h : asked id port event <;> simp [h]

section Steps

variable {order : IterOrder UInt16} {discovery : String} {map : ServiceMap}
  {events : List (String × EndpointEvent)} {event : EndpointEvent}

/-- An endpoint that an event leaves was there before, unless the event has added it. -/
theorem endpointAt_before {port : UInt16} {id : EndpointId}
    (hasked : asked id port (discovery, event) = none)
    (h : (endpointAt (effect order discovery event map).map port id).isSome) :
    (endpointAt map port id).isSome := by
  rw [endpointAt_effect] at h
  refine TableOp.isSome_of_apply h fun e hput => ?_
  obtain ⟨protocol, heq⟩ := op_eq_put hput
  rw [heq] at hasked
  simp [asked] at hasked

theorem asked_eq_some {port : UInt16} {id : EndpointId} {protocol : String}
    (h : asked id port (discovery, event) = some protocol) :
    ∃ flag address backendProtocol,
      event = .add id.uid flag port protocol address backendProtocol := by
  cases event with
  | add uid flag externalPort externalProtocol address backendProtocol =>
    simp only [asked] at h
    split at h
    · rename_i heq
      obtain ⟨rfl, rfl⟩ := heq
      cases h
      exact ⟨flag, address, backendProtocol, rfl⟩
    · cases h
  | delete => cases h
  | suspend => cases h
  | resume => cases h

/-- An event that matches its service leaves all endpoints served as they asked. -/
theorem servedAsAsked_step (hserved : ServedAsAsked events map) (hmatches : event.Matches map) :
    ServedAsAsked (events ++ [(discovery, event)]) (effect order discovery event map).map := by
  intro port s id e hs he
  rw [lastAsked_concat]
  cases hasked : asked id port (discovery, event) with
  | none =>
    have hafter : (endpointAt (effect order discovery event map).map port id).isSome := by
      rw [endpointAt, hs, Option.bind_some, he]
      rfl
    obtain ⟨e₀, he₀⟩ := Option.isSome_iff_exists.mp (endpointAt_before hasked hafter)
    obtain ⟨s₀, hs₀, he₀⟩ := Option.bind_eq_some_iff.mp he₀
    rw [Option.none_or, protocol_kept hs₀ hs]
    exact hserved port s₀ id e₀ hs₀ he₀
  | some protocol =>
    obtain ⟨flag, address, backendProtocol, rfl⟩ := asked_eq_some hasked
    rw [Option.some_or, Option.some.injEq]
    cases hs₀ : map.lookup port with
    | none =>
      obtain ⟨uid, flag', address', backendProtocol', heq⟩ :=
        opened_by_add (Finmap.lookup_eq_none.mp hs₀) hs
      cases heq
      rfl
    | some s₀ =>
      rw [protocol_kept hs₀ hs]
      exact hmatches s₀ hs₀

/-- An event that leaves all endpoints served as they asked has matched its service: otherwise the
endpoint that it adds is not. -/
theorem matches_of_servedAsAsked
    (hserved : ServedAsAsked (events ++ [(discovery, event)])
      (effect order discovery event map).map) : event.Matches map := by
  cases event with
  | add uid flag port protocol address backendProtocol =>
    intro s₀ hs₀
    let id : EndpointId := ⟨discovery, uid⟩
    let e : Endpoint := ⟨flag, address, backendProtocol⟩
    have hafter : (effect order discovery (.add uid flag port protocol address backendProtocol)
        map).map.lookup port = some { s₀ with endpoints := s₀.endpoints.insert id e } := by
      simp only [effect, hs₀]
      exact Finmap.lookup_insert _
    have hlast := hserved port _ id e hafter (Finmap.lookup_insert _)
    rw [lastAsked_concat] at hlast
    simpa [asked, id] using hlast
  | delete => trivial
  | suspend => trivial
  | resume => trivial

end Steps

section Runs

variable {start m : ServiceManager} {events : List (String × EndpointEvent)}

theorem RunOf.servedAsAsked (hempty : start.portServiceMap = ∅) (run : ServedRun start events m) :
    ServedAsAsked events m.portServiceMap := by
  cases run with
  | nil =>
    intro port s id e hs
    rw [hempty, Finmap.lookup_empty] at hs
    cases hs
  | snoc order _ _ hserved => exact hserved

theorem RunOf.served_of_matching (hempty : start.portServiceMap = ∅)
    (run : MatchingRun start events m) : ServedRun start events m := by
  induction run with
  | nil => exact .nil
  | snoc order _ step hmatches ih =>
    refine ih.snoc order step ?_
    obtain ⟨sender, -, rfl⟩ := processEvent_ok.mp step
    exact servedAsAsked_step (ih.servedAsAsked hempty) hmatches

theorem RunOf.matching_of_served (run : ServedRun start events m) :
    MatchingRun start events m := by
  induction run with
  | nil => exact .nil
  | snoc order _ step hserved ih =>
    refine ih.snoc order step ?_
    obtain ⟨sender, -, rfl⟩ := processEvent_ok.mp step
    exact matches_of_servedAsAsked hserved

/-- A consumer that is there from the start on has been told of the services and their protocols. -/
theorem Run.mirrored (run : Run start events m) (hempty : start.portServiceMap = ∅)
    {remaining : Option Nat} (hsender : start.portEventSender = some ⟨[], remaining⟩) :
    ∃ sender, m.portEventSender = some sender ∧ Mirrored m.portServiceMap sender.sent := by
  induction run with
  | nil =>
    refine ⟨_, hsender, ?_⟩
    rw [hempty]
    rfl
  | @snoc m₁ m₂ events discovery event order _ step ih =>
    obtain ⟨before, hbefore, hmirrored⟩ := ih
    obtain ⟨after, hdeliver, rfl⟩ := processEvent_ok.mp step
    rw [hbefore] at hdeliver
    obtain ⟨sender, rfl, hsent⟩ := deliver_sent hdeliver
    refine ⟨sender, rfl, ?_⟩
    rw [Mirrored, hsent, replay_append, hmirrored, Option.bind_some]
    exact replay_effect order discovery event m₁.portServiceMap

/-- Along a run, every endpoint is served through the protocol it last asked for exactly when every
`Add` on an open port asks for the protocol of its service, which is the one that the consumer was
told in the `Open` of the port. -/
theorem endpoints_served_as_asked_iff (hempty : start.portServiceMap = ∅) :
    (ServedRun start events m ↔ MatchingRun start events m) ∧
    ∀ remaining, start.portEventSender = some ⟨[], remaining⟩ → Run start events m →
      ∃ sender, m.portEventSender = some sender ∧
        replay sender.sent (fun _ => none) = some (protocolAt m.portServiceMap) :=
  ⟨⟨RunOf.matching_of_served, RunOf.served_of_matching hempty⟩,
    fun _ hsender run => run.mirrored hempty hsender⟩

/-- Two endpoints of one port that ask for one protocol. -/
def onePort : List (String × EndpointEvent) :=
  [("pods", .add "u" true 80 "http" (.v4 ⟨10, 0, 0, 1⟩ 80) "http"),
    ("pods", .add "v" true 80 "http" (.v4 ⟨10, 0, 0, 2⟩ 80) "http")]

theorem endpoints_served_as_asked_onePort :
    ∃ m, MatchingRun .new onePort m ∧ ServedRun .new onePort m :=
  have run : MatchingRun .new onePort _ :=
    (RunOf.nil.snoc ascending rfl (fun _ h => nomatch h)).snoc ascending rfl fun s h => by
      cases h
      rfl
  ⟨_, run, (endpoints_served_as_asked_iff rfl).1.mpr run⟩

/-- The second endpoint of a port asks for another protocol than the first. -/
def otherProtocol : List (String × EndpointEvent) :=
  [("pods", .add "u" true 80 "http" (.v4 ⟨10, 0, 0, 1⟩ 80) "http"),
    ("pods", .add "v" true 80 "ssh" (.v4 ⟨10, 0, 0, 2⟩ 22) "ssh")]

/-- Without the condition an endpoint is served through a protocol that it has not asked for. -/
theorem not_served_otherProtocol :
    ¬ ∀ events m, Run .new events m → ServedAsAsked events m.portServiceMap := by
  intro hall
  have hstate : (processAll ascending .new otherProtocol).bind (fun m =>
      (m.portServiceMap.lookup 80).map fun s =>
        (s.protocol, (s.endpoints.lookup ⟨"pods", "v"⟩).isSome)) = some ("http", true) := by
    decide +kernel
  obtain ⟨m, hrun, hstate⟩ := Option.bind_eq_some_iff.mp hstate
  obtain ⟨s, hs, hstate⟩ := Option.map_eq_some_iff.mp hstate
  obtain ⟨hprotocol, hheld⟩ := Prod.mk.inj hstate
  obtain ⟨e, he⟩ := Option.isSome_iff_exists.mp hheld
  have hserved := hall otherProtocol m ((Run.nil .new).extend hrun) 80 s ⟨"pods", "v"⟩ e hs he
  rw [hprotocol] at hserved
  exact absurd hserved (by decide)

end Runs

end StateProxy.Backend
