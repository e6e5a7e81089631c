import StateProxy.Backend.Manager

/-! What one event does when its port events can be sent: the service map that `process_event`
leaves, the port events it sends and the warnings it logs.  `processEvent_ok` is the one place that
follows the monadic code; every later proof about the manager starts from `effect`. -/

namespace StateProxy.Backend

open Net ProofKit

/-- The sender after the port events `events`; `none` when one of them cannot be sent. -/
def deliver (sender : Option (Sender PortEvent)) : List PortEvent →
    Option (Option (Sender PortEvent))
  | [] => some sender
  | event :: events =>
    match sender with
    | none => deliver none events
    | some s => (s.send event).bind fun s => deliver (some s) events

theorem deliver_none (events : List PortEvent) : deliver none events = some none := by
  induction events with
  | nil => rfl
  | cons event events ih => exact ih

theorem deliver_cons (sender : Option (Sender PortEvent)) (event : PortEvent)
    (events : List PortEvent) :
    deliver sender (event :: events) = (deliver sender [event]).bind (deliver · events) := by
  cases sender with
  | none => rfl
  | some s => cases hs : s.send event <;> simp [deliver, hs]

theorem deliver_sent {s : Sender PortEvent} {sender : Option (Sender PortEvent)}
    {events : List PortEvent} (h : deliver (some s) events = some sender) :
    ∃ s', sender = some s' ∧ s'.sent = s.sent ++ events := by
  induction events generalizing s with
  | nil =>
    cases h
    exact ⟨s, rfl, by simp⟩
  | cons event events ih =>
    simp only [deliver, Option.bind_eq_some_iff] at h
    obtain ⟨s₁, hs, h⟩ := h
    obtain ⟨s', rfl, hs'⟩ := ih h
    exact ⟨s', rfl, by rw [hs', Sender.send_sent hs]; simp⟩

namespace ServiceManager

theorem sendEvent_ok {event : PortEvent} {m m' : ServiceManager} :
    sendEvent event m = .ok () m' ↔ ∃ sender, deliver m.portEventSender [event] = some sender ∧
      m' = { m with portEventSender := sender } := by
  obtain ⟨map, sender, warnings⟩ := m
  cases sender with
  | none => simp [sendEvent, deliver, eq_comm]
  | some s => cases hs : s.send event <;> simp [sendEvent, deliver, hs, eq_comm]

theorem closeServices_cons {port : UInt16} {ports : List UInt16} {m : ServiceManager}
    (h : port ∈ m.portServiceMap) :
    closeServices (port :: ports) m = (sendEvent (.closePort port) >>= fun _ =>
      closeServices ports) { m with portServiceMap := m.portServiceMap.erase port } := by
  obtain ⟨service, hservice⟩ := Finmap.mem_iff.mp h
  simp only [closeServices, bind_of_ok (show (get : ManagerM _) m = .ok m m from rfl), hservice]
  rfl

theorem mem_erase_of_mem {map : ServiceMap} {port : UInt16} {ports : List UInt16}
    (hnot : port ∉ ports) (hports : ∀ p ∈ port :: ports, p ∈ map) :
    ∀ p ∈ ports, p ∈ map.erase port := by
  intro p hp
  have hne : p ≠ port := fun h => hnot (h ▸ hp)
  exact Finmap.mem_erase.mpr ⟨hne, hports p (List.mem_cons_of_mem _ hp)⟩

theorem closeServices_ok {ports : List UInt16} (hnodup : ports.Nodup) {m m' : ServiceManager}
    (hports : ∀ p ∈ ports, p ∈ m.portServiceMap) :
    closeServices ports m = .ok () m' ↔
      ∃ sender, deliver m.portEventSender (ports.map .closePort) = some sender ∧
        m' = { m with portServiceMap := eraseAll m.portServiceMap ports, portEventSender := sender } := by
  induction ports generalizing m with
  | nil => simp [closeServices, deliver, eq_comm]
  | cons port ports ih =>
    obtain ⟨hnot, hrest⟩ := List.nodup_cons.mp hnodup
    have hnext := mem_erase_of_mem hnot hports
    rw [closeServices_cons (hports port List.mem_cons_self), bind_ok, List.map_cons, deliver_cons]
    simp only [Option.bind_eq_some_iff]
    constructor
    · rintro ⟨_, m₁, hsend, hclose⟩
      obtain ⟨sender₁, hs₁, rfl⟩ := sendEvent_ok.mp hsend
      obtain ⟨sender, hs, rfl⟩ := (ih hrest hnext).mp hclose
      exact ⟨sender, ⟨sender₁, hs₁, hs⟩, by rw [eraseAll_cons]⟩
    · rintro ⟨sender, ⟨sender₁, hs₁, hs⟩, rfl⟩
      refine ⟨(), _, sendEvent_ok.mpr ⟨sender₁, hs₁, rfl⟩, ?_⟩
      exact (ih hrest hnext).mpr ⟨sender, hs, by rw [eraseAll_cons]⟩

/-- What is left to do of an event once its port events can be sent. -/
structure Effect where
  map : ServiceMap
  portEvents : List PortEvent
  warnings : List String

def effect (order : IterOrder UInt16) (discovery : String) (event : EndpointEvent)
    (map : ServiceMap) : Effect :=
  match event with
  | .add uid isAvailable port protocol address backendProtocol =>
    let id : EndpointId := ⟨discovery, uid⟩
    let endpoint : Endpoint := ⟨isAvailable, address, backendProtocol⟩
    match map.lookup port with
    | none => ⟨map.insert port ⟨port, protocol, (∅ : HashMap EndpointId Endpoint).insert id endpoint⟩,
        [.openPort port protocol], []⟩
    | some service =>
      ⟨map.insert port { service with endpoints := service.endpoints.insert id endpoint }, [], []⟩
  | .delete uid =>
    let scanned := scan order ⟨discovery, uid⟩ map
    ⟨eraseAll scanned.1 scanned.2.2, scanned.2.2.map .closePort,
      if scanned.2.1 then [] else [unknownEndpoint "Delete" discovery uid]⟩
  | .suspend uid =>
    let toggled := toggle order false ⟨discovery, uid⟩ map
    ⟨toggled.1, [], if toggled.2 then [] else [unknownEndpoint "Suspend" discovery uid]⟩
  | .resume uid =>
    let toggled := toggle order true ⟨discovery, uid⟩ map
    ⟨toggled.1, [], if toggled.2 then [] else [unknownEndpoint "Resume" discovery uid]⟩

theorem scan_locals (id : EndpointId) (map : ServiceMap) (keys : List UInt16)
    (vars : Bool × List UInt16) :
    (keys.foldl (fun s k => (map.lookup k).elim s fun v => (removeEndpoint id k v s).2) vars).2 =
      vars.2 ++ keys.filter fun k => (map.lookup k).any fun s => s.endpoints.erase id = ∅ := by
  induction keys generalizing vars with
  | nil => simp
  | cons key keys ih =>
    rw [List.foldl_cons, ih]
    cases hv : map.lookup key with
    | none => simp [hv]
    | some service =>
      by_cases he : service.endpoints.erase id = ∅
      · simp [hv, he, removeEndpoint]
      · simp [hv, he, removeEndpoint]

/-- `services_to_delete` holds the ports whose services the `Delete` leaves without endpoints. -/
theorem scan_todo (order : IterOrder UInt16) (id : EndpointId) (map : ServiceMap) :
    (scan order id map).2.2 = (order.visit map.keys).filter fun k =>
      (map.lookup k).any fun s => s.endpoints.erase id = ∅ := by
  rw [scan, iterMut_locals _ (order.nodup _), scan_locals, List.nil_append]

theorem scan_todo_nodup (order : IterOrder UInt16) (id : EndpointId) (map : ServiceMap) :
    (scan order id map).2.2.Nodup := by
  rw [scan_todo]
  exact (order.nodup _).filter _

theorem mem_scan_todo {order : IterOrder UInt16} {id : EndpointId} {map : ServiceMap} {p : UInt16} :
    p ∈ (scan order id map).2.2 ↔ ∃ s, map.lookup p = some s ∧ s.endpoints.erase id = ∅ := by
  rw [scan_todo, List.mem_filter, order.mem, mem_keys_iff]
  constructor
  · rintro ⟨⟨s, hs⟩, he⟩
    exact ⟨s, hs, by simpa [hs] using he⟩
  · rintro ⟨s, hs, he⟩
    exact ⟨⟨s, hs⟩, by simp [hs, he]⟩

theorem lookup_scan (order : IterOrder UInt16) (id : EndpointId) (map : ServiceMap) (p : UInt16) :
    (scan order id map).1.lookup p =
      (map.lookup p).map fun s => { s with endpoints := s.endpoints.erase id } := by
  have hbody : ∀ k v s, (removeEndpoint id k v s).1 = { v with endpoints := v.endpoints.erase id } :=
    fun _ _ _ => rfl
  exact lookup_iterMut_visit hbody order map _ p

theorem scan_todo_mem {order : IterOrder UInt16} {id : EndpointId} {map : ServiceMap} {p : UInt16}
    (h : p ∈ (scan order id map).2.2) : p ∈ (scan order id map).1 := by
  obtain ⟨s, hs, -⟩ := mem_scan_todo.mp h
  exact Finmap.mem_iff.mpr ⟨_, by rw [lookup_scan, hs]; rfl⟩

/-- The endpoint `id` of a service, if it has one, with its availability set. -/
def available (isAvailable : Bool) (id : EndpointId) (service : Service) : Service :=
  match service.endpoints.lookup id with
  | none => service
  | some endpoint =>
    { service with endpoints := service.endpoints.insert id { endpoint with isAvailable } }

theorem setAvailability_fst (isAvailable : Bool) (id : EndpointId) (p : UInt16) (s : Service)
    (found : Bool) : (setAvailability isAvailable id p s found).1 = available isAvailable id s := by
  cases hl : s.endpoints.lookup id with
  | none => simp only [setAvailability, available, hl]
  | some endpoint =>
    simp only [setAvailability, available, hl]
    split
    · rename_i h
      rw [← h]
    · rfl

theorem lookup_toggle (order : IterOrder UInt16) (isAvailable : Bool) (id : EndpointId)
    (map : ServiceMap) (p : UInt16) :
    (toggle order isAvailable id map).1.lookup p = (map.lookup p).map (available isAvailable id) :=
  lookup_iterMut_visit (setAvailability_fst isAvailable id) order map _ p

theorem warnUnless_ok (found : Bool) (line : String) {m m' : ServiceManager} :
    ((if !found then warn line else pure ()) : ManagerM Unit) m = .ok () m' ↔
      m' = { m with warnings := m.warnings ++ if found then [] else [line] } := by
  cases found
  · change EStateM.Result.ok () _ = _ ↔ _
    simp [eq_comm]
  · simp only [Bool.not_true, Bool.false_eq_true, if_false, pure_ok, true_and, if_true,
      List.append_nil]
    exact eq_comm

/-- `process_event` returns exactly when its port events can be sent, and then has done its
effect. -/
theorem processEvent_ok {order : IterOrder UInt16} {discovery : String} {event : EndpointEvent}
    {m m' : ServiceManager} :
    processEvent order discovery event m = .ok () m' ↔
      ∃ sender, deliver m.portEventSender
          (effect order discovery event m.portServiceMap).portEvents = some sender ∧
        m' = ⟨(effect order discovery event m.portServiceMap).map, sender,
          m.warnings ++ (effect order discovery event m.portServiceMap).warnings⟩ := by
  have hget : (get : ManagerM _) m = .ok m m := rfl
  cases event with
  | add uid isAvailable port protocol address backendProtocol =>
    cases hl : m.portServiceMap.lookup port with
    | none =>
      simp only [processEvent, bind_of_ok hget, hl, effect]
      change sendEvent _ _ = _ ↔ _
      rw [sendEvent_ok]
      simp
    | some service =>
      simp only [processEvent, bind_of_ok hget, hl, effect]
      change EStateM.Result.ok () _ = _ ↔ _
      simp [deliver, eq_comm]
  | delete uid =>
    simp only [processEvent, bind_of_ok hget, effect]
    change (closeServices _ >>= fun _ => _) { m with portServiceMap := _ } = _ ↔ _
    rw [bind_ok]
    constructor
    · rintro ⟨_, m₁, hclose, hwarn⟩
      obtain ⟨sender, hs, rfl⟩ :=
        (closeServices_ok (scan_todo_nodup _ _ _) (fun p => scan_todo_mem)).mp hclose
      exact ⟨sender, hs, (warnUnless_ok _ _).mp hwarn⟩
    · rintro ⟨sender, hs, rfl⟩
      exact ⟨(), _, (closeServices_ok (scan_todo_nodup _ _ _) (fun p => scan_todo_mem)).mpr
        ⟨sender, hs, rfl⟩, (warnUnless_ok _ _).mpr rfl⟩
  | suspend uid =>
    simp only [processEvent, bind_of_ok hget, effect]
    change (if _ then _ else _ : ManagerM Unit) { m with portServiceMap := _ } = _ ↔ _
    exact (warnUnless_ok _ _).trans (by simp [deliver])
  | resume uid =>
    simp only [processEvent, bind_of_ok hget, effect]
    change (if _ then _ else _ : ManagerM Unit) { m with portServiceMap := _ } = _ ↔ _
    exact (warnUnless_ok _ _).trans (by simp [deliver])

theorem sendEvent_error {event : PortEvent} {m m' : ServiceManager} {e : Panic}
    (h : sendEvent event m = .error e m') : e = .cannotSendPortEvent := by
  unfold sendEvent at h
  split at h
  · cases h
  · split at h <;> cases h
    rfl

theorem closeServices_error {ports : List UInt16} (hnodup : ports.Nodup) {m m' : ServiceManager}
    (hports : ∀ p ∈ ports, p ∈ m.portServiceMap) {e : Panic}
    (h : closeServices ports m = .error e m') : e = .cannotSendPortEvent := by
  induction ports generalizing m with
  | nil => cases h
  | cons port ports ih =>
    obtain ⟨hnot, hrest⟩ := List.nodup_cons.mp hnodup
    rw [closeServices_cons (hports port List.mem_cons_self), bind_error] at h
    rcases h with h | ⟨_, m₁, hsend, h⟩
    · exact sendEvent_error h
    · obtain ⟨sender, -, rfl⟩ := sendEvent_ok.mp hsend
      exact ih hrest (mem_erase_of_mem hnot hports) h

/-- The only panic of `process_event` is that of a port event that cannot be sent. -/
theorem processEvent_error {order : IterOrder UInt16} {discovery : String} {event : EndpointEvent}
    {m m' : ServiceManager} {e : Panic} (h : processEvent order discovery event m = .error e m') :
    e = .cannotSendPortEvent := by
  have hget : (get : ManagerM _) m = .ok m m := rfl
  cases event with
  | add uid isAvailable port protocol address backendProtocol =>
    cases hl : m.portServiceMap.lookup port with
    | none =>
      simp only [processEvent, bind_of_ok hget, hl] at h
      change sendEvent _ _ = _ at h
      exact sendEvent_error h
    | some service =>
      simp only [processEvent, bind_of_ok hget, hl] at h
      cases h
  | delete uid =>
    simp only [processEvent, bind_of_ok hget] at h
    change (closeServices _ >>= fun _ => _) { m with portServiceMap := _ } = _ at h
    rcases bind_error.mp h with h | ⟨_, m₁, -, h⟩
    · exact closeServices_error (scan_todo_nodup _ _ _) (fun p => scan_todo_mem) h
    · split at h <;> cases h
  | suspend uid =>
    simp only [processEvent, bind_of_ok hget] at h
    change (if _ then _ else _ : ManagerM Unit) { m with portServiceMap := _ } = _ at h
    split at h <;> cases h
  | resume uid =>
    simp only [processEvent, bind_of_ok hget] at h
    change (if _ then _ else _ : ManagerM Unit) { m with portServiceMap := _ } = _ at h
    split at h <;> cases h

end ServiceManager

end StateProxy.Backend
