import StateProxy.Backend.History
import StateProxy.Backend.Linearization

/-! The endpoints that the manager holds, whatever its methods do beside each other.  An event takes
effect when its call gets the write lock on the service map; `Recorded` is an execution with the
events that have taken effect so far, in that order.  A consumer may go away and a send may panic
between the removals of the services that a `Delete` has emptied: only services without endpoints
are concerned, so that the table of endpoints is still that of the recorded events. -/

namespace StateProxy.Backend

open Net ProofKit ServiceManager

/-- The event that a call to `process_event` brings to the service map. -/
def Call.event : Call → Option (String × EndpointEvent)
  | .processEvent discovery event => some (discovery, event)
  | _ => none

/-- The call that gets a lock by an action. -/
def Config.entering (config : Config) : Action → Option Nat
  | .acquire t _ => some t
  | .grant l _ => (config.locks l).next.map Prod.fst
  | _ => none

/-- The event that takes effect by an action. -/
def Config.takes (config : Config) (action : Action) : List (String × EndpointEvent) :=
  ((config.entering action).bind fun t => (config.calls t).event).toList

/-- An execution and the events that have taken effect in it. -/
inductive Recorded : List Action → List (String × EndpointEvent) → Config → Prop
  | nil : Recorded [] [] .initial
  | snoc {actions : List Action} {taken : List (String × EndpointEvent)} {config config' : Config}
      (action : Action) : Recorded actions taken config → config.step action = some config' →
      Recorded (actions ++ [action]) (taken ++ config.takes action) config'

theorem Recorded.execution {actions : List Action} {taken : List (String × EndpointEvent)}
    {config : Config} (recorded : Recorded actions taken config) : Execution actions config := by
  induction recorded with
  | nil => exact .nil
  | snoc action _ step ih => exact ih.snoc action step

/-- None of the ports has an endpoint. -/
def Vacant (map : ServiceMap) (ports : List UInt16) : Prop :=
  ∀ p ∈ ports, ∀ id, endpointAt map p id = none

theorem endpointAt_eraseAll {map : ServiceMap} {ports : List UInt16} (h : Vacant map ports) :
    endpointAt (eraseAll map ports) = endpointAt map := by
  funext p id
  unfold endpointAt
  rw [lookup_eraseAll]
  split
  · rename_i hmem
    exact (h p hmem id).symm
  · rfl

theorem Vacant.of_endpointAt_eq {map map' : ServiceMap} {ports : List UInt16}
    (h : Vacant map ports) (heq : endpointAt map' = endpointAt map) : Vacant map' ports := by
  intro p hp id
  rw [heq]
  exact h p hp id

/-- The services that a `Delete` is to remove have no endpoints any more. -/
theorem vacant_scan (order : IterOrder UInt16) (id : EndpointId) (map : ServiceMap) :
    Vacant (scan order id map).1 (scan order id map).2.2 := by
  intro p hp j
  obtain ⟨s, hs, hempty⟩ := mem_scan_todo.mp hp
  unfold endpointAt
  rw [lookup_scan, hs]
  simp [hempty]

/-- Removing services without endpoints leaves the table as it is, wherever the loop waits. -/
theorem endpointAt_closeServices {shared : Shared} {ports : List UInt16}
    (h : Vacant shared.portServiceMap ports) :
    endpointAt (shared.closeServices ports).1.portServiceMap = endpointAt shared.portServiceMap ∧
      Vacant (shared.closeServices ports).1.portServiceMap
        (shared.closeServices ports).2.toClose := by
  induction ports generalizing shared with
  | nil =>
    refine ⟨rfl, ?_⟩
    intro p hp
    cases hp
  | cons port ports ih =>
    have hfirst : Vacant shared.portServiceMap [port] := by
      intro p hp
      rw [List.mem_singleton.mp hp]
      exact h port List.mem_cons_self
    have herase : endpointAt (shared.portServiceMap.erase port) =
        endpointAt shared.portServiceMap := endpointAt_eraseAll hfirst
    have hrest : Vacant (shared.portServiceMap.erase port) ports := by
      intro p hp id
      rw [herase]
      exact h p (List.mem_cons_of_mem _ hp) id
    have hmore := @ih { shared with portServiceMap := shared.portServiceMap.erase port } hrest
    simp only [Shared.closeServices]
    split
    · exact ⟨hmore.1.trans herase, hmore.2⟩
    · exact ⟨herase, hrest⟩

theorem Call.eq_processEvent_of_event {call : Call} {discovery : String} {event : EndpointEvent}
    (h : call.event = some (discovery, event)) : call = .processEvent discovery event := by
  cases call <;> cases h
  rfl

theorem Call.writes_of_toClose {call : Call} (h : call.toClose ≠ []) : call.Writes := by
  cases call <;> simp_all [Call.toClose, Call.Writes, Call.holds]

theorem Vacant.of_not_writes {call : Call} (h : ¬ call.Writes) (map : ServiceMap) :
    Vacant map call.toClose := by
  have hnone : call.toClose = [] := by
    by_contra hsome
    exact h (Call.writes_of_toClose hsome)
  rw [hnone]
  intro p hp
  cases hp

/-- A call that brings no event to the service map leaves the table as it is. -/
theorem endpointAt_enter (shared : Shared) (orders : Orders) {call : Call}
    (hevent : call.event = none) (h : Vacant shared.portServiceMap call.toClose) :
    endpointAt (shared.enter orders call).1.portServiceMap = endpointAt shared.portServiceMap ∧
      Vacant (shared.enter orders call).1.portServiceMap (shared.enter orders call).2.toClose := by
  cases call with
  | processEvent discovery event => cases hevent
  | openPort port protocol =>
    simp only [Shared.enter]
    split <;> exact ⟨rfl, fun p hp => by cases hp⟩
  | closePorts ports => exact endpointAt_closeServices h
  | sendPortEventsTo c =>
    refine ⟨rfl, .of_not_writes ?_ _⟩
    simp [Shared.enter, Call.Writes, holds_sendNext]
  | lockMetrics name =>
    simp only [Shared.enter]
    split <;> exact ⟨rfl, fun p hp => by cases hp⟩
  | _ => exact ⟨rfl, h⟩

theorem endpointAt_sent (shared : Shared) {call : Call} {c : Nat} {event : PortEvent}
    (hsending : call.sending = some (c, event)) (h : Vacant shared.portServiceMap call.toClose) :
    endpointAt (shared.sent call).1.portServiceMap = endpointAt shared.portServiceMap ∧
      Vacant (shared.sent call).1.portServiceMap (shared.sent call).2.toClose := by
  obtain ⟨ports, rfl⟩ | ⟨rest, rfl⟩ := Call.sending_cases hsending
  · exact endpointAt_closeServices h
  · refine ⟨rfl, .of_not_writes ?_ _⟩
    simp [Shared.sent, Call.Writes, holds_sendNext]

theorem toClose_sendFailed {call : Call} {c : Nat} {event : PortEvent}
    (hsending : call.sending = some (c, event)) : (Shared.sendFailed call).toClose = [] := by
  obtain ⟨ports, rfl⟩ | ⟨rest, rfl⟩ := Call.sending_cases hsending <;> rfl

/-- The service map of a configuration holds what the events `taken` leave, and each call that is to
remove services removes only services without endpoints. -/
structure Config.Holds (config : Config) (taken : List (String × EndpointEvent)) : Prop where
  table : endpointAt config.shared.portServiceMap = TableOp.run (operations taken) TableOp.empty
  vacant : ∀ t, Vacant config.shared.portServiceMap (config.calls t).toClose

namespace Config.Holds

variable {config : Config} {taken : List (String × EndpointEvent)}

/-- A call goes on and leaves the table as it is. -/
theorem moved (holds : config.Holds taken) {t : Nat} {next : Call} {shared : Shared}
    {channels : Nat → Option (Channel PortEvent)} {locks : LockName → RwLock Nat}
    (htable : endpointAt shared.portServiceMap = endpointAt config.shared.portServiceMap)
    (hvacant : Vacant shared.portServiceMap next.toClose) :
    Config.Holds ⟨shared, channels, locks, Function.update config.calls t next⟩ taken where
  table := htable.trans holds.table
  vacant := (Function.forall_update_iff config.calls fun _ call =>
    Vacant shared.portServiceMap call.toClose).mpr
      ⟨hvacant, fun t' _ => (holds.vacant t').of_endpointAt_eq htable⟩

/-- `process_event` takes effect. -/
theorem processEvent (holds : config.Holds taken) (agrees : config.LocksAgree) {t : Nat}
    {orders : Orders} {discovery : String} {event : EndpointEvent}
    (hcall : config.calls t = .processEvent discovery event)
    (hadmits : RwLock.Admits (config.locks .portServiceMap).holders .write) (lock : RwLock Nat) :
    (config.enter t orders .portServiceMap lock).Holds (taken ++ [(discovery, event)]) := by
  obtain ⟨hmap, -⟩ := enter_processEvent config.shared orders discovery event
  have hvacant : Vacant
      (config.shared.enter orders (.processEvent discovery event)).1.portServiceMap
      (config.shared.enter orders (.processEvent discovery event)).2.toClose := by
    cases event with
    | add uid isAvailable port protocol address backendProtocol =>
      simp only [Shared.enter]
      split <;> exact fun p hp => by cases hp
    | delete uid => exact vacant_scan orders.ports ⟨discovery, uid⟩ config.shared.portServiceMap
    | suspend uid => exact fun p hp => by cases hp
    | resume uid => exact fun p hp => by cases hp
  have htable := endpointAt_eraseAll hvacant
  rw [hmap, endpointAt_effect, holds.table] at htable
  rw [Config.enter_eq, hcall]
  refine ⟨?_, ?_⟩
  · rw [operations_append, TableOp.run_append]
    exact htable.symm
  · -- nobody else has the lock, so nobody else has services to remove
    exact (Function.forall_update_iff config.calls fun _ call => Vacant _ call.toClose).mpr
      ⟨hvacant, fun t' _ => .of_not_writes (not_writes_of_admits agrees hadmits t') _⟩

/-- A call gets a lock. -/
theorem enter (holds : config.Holds taken) (agrees : config.LocksAgree) {t : Nat}
    {orders : Orders} {l : LockName} {mode : Mode}
    (hwants : (config.calls t).wants = some (l, mode))
    (hadmits : RwLock.Admits (config.locks l).holders mode) (lock : RwLock Nat) :
    (config.enter t orders l lock).Holds (taken ++ (config.calls t).event.toList) := by
  cases hevent : (config.calls t).event with
  | none =>
    obtain ⟨htable, hvacant⟩ := endpointAt_enter config.shared orders hevent (holds.vacant t)
    rw [Option.toList_none, List.append_nil, Config.enter_eq]
    exact holds.moved htable hvacant
  | some e =>
    obtain ⟨discovery, event⟩ := e
    have hcall := Call.eq_processEvent_of_event hevent
    rw [hcall] at hwants
    cases hwants
    exact holds.processEvent agrees hcall hadmits lock

end Config.Holds

theorem Transition.holds {config config' : Config} {action : Action}
    {taken : List (String × EndpointEvent)} (transition : Transition config action config')
    (agrees : config.LocksAgree) (holds : config.Holds taken) :
    config'.Holds (taken ++ config.takes action) := by
  have hnothing : ∀ after : Config, config.takes action = [] → after.Holds taken →
      after.Holds (taken ++ config.takes action) := by
    intro after hnone h
    rwa [hnone, List.append_nil]
  cases transition with
  | channel => exact hnothing _ rfl ⟨holds.table, holds.vacant⟩
  | call hfinished hstart =>
    refine hnothing _ rfl (holds.moved rfl (.of_not_writes ?_ _))
    simp [Call.Writes, holds_start hstart]
  | acquire hwants htakable => exact holds.enter agrees hwants htakable.2 _
  | await => exact hnothing _ rfl ⟨holds.table, holds.vacant⟩
  | grant hnext =>
    obtain ⟨rest, hqueue, hadmits⟩ := RwLock.next_eq_some.mp hnext
    have hwants := agrees.waiting _ _ _ (by rw [hqueue]; exact List.mem_cons_self)
    simp only [Config.takes, Config.entering, hnext, Option.map_some, Option.bind_some]
    exact holds.enter agrees hwants hadmits _
  | @send t c event channel channel' hsending =>
    obtain ⟨htable, hvacant⟩ := endpointAt_sent config.shared hsending (holds.vacant t)
    exact hnothing _ rfl (holds.moved htable hvacant)
  | sendFailed hsending =>
    refine hnothing _ rfl (holds.moved rfl ?_)
    rw [toClose_sendFailed hsending]
    exact fun p hp => by cases hp
  | release hdropping =>
    refine hnothing _ rfl (holds.moved rfl ?_)
    rw [(dropping_settled hdropping).1.2]
    exact fun p hp => by cases hp
  | receive => exact hnothing _ rfl ⟨holds.table, holds.vacant⟩
  | dropReceiver => exact hnothing _ rfl ⟨holds.table, holds.vacant⟩

theorem Recorded.holds {actions : List Action} {taken : List (String × EndpointEvent)}
    {config : Config} (recorded : Recorded actions taken config) : config.Holds taken := by
  induction recorded with
  | nil => exact ⟨endpointAt_empty, fun t p hp => by cases hp⟩
  | snoc action before step ih =>
    exact (transition_of_step step).holds before.execution.locksAgree ih

theorem Execution.recorded {actions : List Action} {config : Config}
    (execution : Execution actions config) : ∃ taken, Recorded actions taken config := by
  induction execution with
  | nil => exact ⟨[], .nil⟩
  | snoc action _ step ih =>
    obtain ⟨taken, recorded⟩ := ih
    exact ⟨_, recorded.snoc action step⟩

/-- In every execution, also after consumers have gone away and sends have panicked, the endpoints of
the service map are those added and not deleted since by the events that have taken effect, as their
last `Add` and the last change of their availability left them; and a selection that gets the service
map returns the address and the protocol of one that is available. -/
theorem endpoints_follow_events_taken {actions : List Action}
    {taken : List (String × EndpointEvent)} {config : Config}
    (recorded : Recorded actions taken config) (port : UInt16) :
    (∀ id, (endpointAt config.shared.portServiceMap port id).isSome ↔ StillAdded taken id port) ∧
    (∀ id e, endpointAt config.shared.portServiceMap port id = some e → ∃ flag post,
      LastAdd taken id port flag e.address e.protocol post ∧
      e.isAvailable = (post.filterMap (availabilityGiven id)).getLastD flag) ∧
    ∀ t index orders found, config.calls t = .getEndpointFor port index →
      (config.shared.enter orders (config.calls t)).2 = .gotEndpoint (.ok (some found)) →
      ∃ id flag post, LastAdd taken id port flag found.1 found.2 post ∧
        (post.filterMap (availabilityGiven id)).getLastD flag = true := by
  have htable := recorded.holds.table
  refine ⟨fun id => ?_, fun id e he => ?_, fun t index orders found hcall hfound => ?_⟩
  · rw [htable, stillAdded_iff_table]
  · rw [htable] at he
    exact lastAdd_of_table he
  · rw [hcall] at hfound
    obtain ⟨id, e, he, havailable, rfl⟩ := getEndpointFor_eq_some (Call.gotEndpoint.inj hfound)
    rw [htable] at he
    obtain ⟨flag, post, hlast, hflag⟩ := lastAdd_of_table he
    exact ⟨id, flag, post, hlast, hflag.symm.trans havailable⟩

/-- A consumer goes away, and the send of the next port event panics. -/
def failedSend : List Action :=
  [.channel 0 1, .call 0 (.sendPortEventsTo 0), .acquire 0 .ascending, .acquire 0 .ascending,
    .release 0, .release 0, .dropReceiver 0, .call 1 (.processEvent "pods" (.add "pod" true 80 "http"
      (.v4 ⟨10, 0, 0, 1⟩ 8080) "http")), .acquire 1 .ascending, .acquire 1 .ascending, .send 1]

theorem endpoint_added_before_failed_send :
    ∃ taken config, Recorded failedSend taken config ∧
      (endpointAt config.shared.portServiceMap 80 ⟨"pods", "pod"⟩).isSome ∧
      StillAdded taken ⟨"pods", "pod"⟩ 80 := by
  obtain ⟨config, hrun, hsome⟩ : ∃ config, failedSend.foldlM Config.step .initial = some config ∧
      (endpointAt config.shared.portServiceMap 80 ⟨"pods", "pod"⟩).isSome := ⟨_, rfl, by decide⟩
  have execution : Execution failedSend config := Execution.nil.trans hrun
  obtain ⟨taken, recorded⟩ := execution.recorded
  exact ⟨taken, config, recorded, hsome,
    ((endpoints_follow_events_taken recorded 80).1 ⟨"pods", "pod"⟩).mp hsome⟩

end StateProxy.Backend
