import StateProxy.Backend.Selection

/-! The service map as a function of the events processed so far.  An endpoint is held when it was
added and not deleted since, with the address of its last `Add` and the availability given last;
histories that agree on every endpoint leave the same endpoints on every port. -/

namespace StateProxy.Backend

open Net ProofKit ServiceManager

/-- The history has an `Add` of the endpoint on the port that no later `Delete` of it follows. -/
def StillAdded (events : List (String × EndpointEvent)) (id : EndpointId) (port : UInt16) : Prop :=
  ∃ pre flag protocol address backendProtocol post,
    events = pre ++ (id.endpointDiscoveryName,
      .add id.uid flag port protocol address backendProtocol) :: post ∧
    (id.endpointDiscoveryName, .delete id.uid) ∉ post

/-- The last `Add` of the endpoint on the port, which no `Delete` of it follows: its flag, its
address, its backend protocol and the events after it. -/
def LastAdd (events : List (String × EndpointEvent)) (id : EndpointId) (port : UInt16) (flag : Bool)
    (address : SocketAddr) (backendProtocol : String) (post : List (String × EndpointEvent)) : Prop :=
  (∃ pre protocol, events = pre ++ (id.endpointDiscoveryName,
    .add id.uid flag port protocol address backendProtocol) :: post) ∧
  (id.endpointDiscoveryName, .delete id.uid) ∉ post ∧
  ∀ flag' protocol' address' backendProtocol', (id.endpointDiscoveryName,
    .add id.uid flag' port protocol' address' backendProtocol') ∉ post

/-- The availability that an event gives to an endpoint already added. -/
def availabilityGiven (id : EndpointId) : String × EndpointEvent → Option Bool
  | (discovery, .suspend uid) => if (⟨discovery, uid⟩ : EndpointId) = id then some false else none
  | (discovery, .resume uid) => if (⟨discovery, uid⟩ : EndpointId) = id then some true else none
  | _ => none

theorem op_eq_put {discovery : String} {event : EndpointEvent} {port : UInt16} {id : EndpointId}
    {e : Endpoint} (h : event.op discovery = .put port id e) :
    ∃ protocol, (discovery, event) = (id.endpointDiscoveryName,
      .add id.uid e.isAvailable port protocol e.address e.protocol) := by
  cases event <;> simp only [EndpointEvent.op, TableOp.put.injEq, reduceCtorEq] at h
  obtain ⟨rfl, rfl, rfl⟩ := h
  exact ⟨_, rfl⟩

theorem op_eq_drop {discovery : String} {event : EndpointEvent} {id : EndpointId}
    (h : event.op discovery = .drop id) :
    (discovery, event) = (id.endpointDiscoveryName, .delete id.uid) := by
  cases event <;> simp only [EndpointEvent.op, TableOp.drop.injEq, reduceCtorEq] at h
  rw [← h]

theorem not_mem_delete_of_keeps {events : List (String × EndpointEvent)} {port : UInt16}
    {id : EndpointId} (h : ∀ op ∈ operations events, op.Keeps port id) :
    (id.endpointDiscoveryName, .delete id.uid) ∉ events := by
  intro hmem
  exact h _ (List.mem_map_of_mem hmem) rfl

theorem not_mem_add_of_keeps {events : List (String × EndpointEvent)} {port : UInt16}
    {id : EndpointId} (h : ∀ op ∈ operations events, op.Keeps port id) (flag : Bool)
    (protocol : String) (address : SocketAddr) (backendProtocol : String) :
    (id.endpointDiscoveryName, .add id.uid flag port protocol address backendProtocol) ∉ events := by
  intro hmem
  exact h _ (List.mem_map_of_mem hmem) ⟨rfl, rfl⟩

/-- After its `Add`, an endpoint keeps its address and protocol, and has the availability given
last. -/
theorem foldl_changed (events : List (String × EndpointEvent)) (id : EndpointId) (e : Endpoint) :
    (operations events).foldl (fun e op => op.changed id e) e =
      { e with isAvailable := (events.filterMap (availabilityGiven id)).getLastD e.isAvailable } := by
  induction events generalizing e with
  | nil => rfl
  | cons event events ih =>
    obtain ⟨discovery, event⟩ := event
    change (operations events).foldl _ ((event.op discovery).changed id e) = _
    rw [ih]
    cases event with
    | add => rfl
    | delete => rfl
    | suspend uid =>
      by_cases hid : (⟨discovery, uid⟩ : EndpointId) = id
      · simp only [EndpointEvent.op, TableOp.changed, List.filterMap_cons, availabilityGiven, hid,
          if_true, List.getLastD_cons]
      · simp only [EndpointEvent.op, TableOp.changed, List.filterMap_cons, availabilityGiven, hid,
          if_false]
    | resume uid =>
      by_cases hid : (⟨discovery, uid⟩ : EndpointId) = id
      · simp only [EndpointEvent.op, TableOp.changed, List.filterMap_cons, availabilityGiven, hid,
          if_true, List.getLastD_cons]
      · simp only [EndpointEvent.op, TableOp.changed, List.filterMap_cons, availabilityGiven, hid,
          if_false]

theorem operations_eq_append_put {events : List (String × EndpointEvent)}
    {pre post : List (TableOp UInt16 EndpointId Endpoint)} {port : UInt16} {id : EndpointId}
    {e : Endpoint} (h : operations events = pre ++ .put port id e :: post) :
    ∃ before protocol after, events = before ++ (id.endpointDiscoveryName,
      .add id.uid e.isAvailable port protocol e.address e.protocol) :: after ∧
      operations after = post := by
  obtain ⟨before, rest, rfl, -, hrest⟩ := List.map_eq_append_iff.mp h
  obtain ⟨event, after, rfl, hput, hafter⟩ := List.map_eq_cons_iff.mp hrest
  obtain ⟨discovery, event⟩ := event
  obtain ⟨protocol, hevent⟩ := op_eq_put hput
  exact ⟨before, protocol, after, by rw [hevent], hafter⟩

section Tables

variable {events : List (String × EndpointEvent)}

/-- An entry that the events of a history leave comes from its last `Add`. -/
theorem lastAdd_of_table {id : EndpointId} {port : UInt16} {e : Endpoint}
    (h : TableOp.run (operations events) TableOp.empty port id = some e) :
    ∃ flag post, LastAdd events id port flag e.address e.protocol post ∧
      e.isAvailable = (post.filterMap (availabilityGiven id)).getLastD flag := by
  obtain ⟨pre, e₀, post, hops, hkeeps, rfl⟩ := TableOp.run_eq_some h
  obtain ⟨before, protocol, after, rfl, rfl⟩ := operations_eq_append_put hops
  rw [foldl_changed]
  exact ⟨e₀.isAvailable, after, ⟨⟨before, protocol, rfl⟩, not_mem_delete_of_keeps hkeeps,
    not_mem_add_of_keeps hkeeps⟩, rfl⟩

/-- The events of a history leave an entry exactly for the endpoints still added. -/
theorem stillAdded_iff_table (id : EndpointId) (port : UInt16) :
    StillAdded events id port ↔
      (TableOp.run (operations events) TableOp.empty port id).isSome := by
  constructor
  · rintro ⟨pre, flag, protocol, address, backendProtocol, post, rfl, hdelete⟩
    rw [operations_append]
    refine TableOp.run_isSome_of_put (fun op hop hdrop => ?_) _
    obtain ⟨⟨discovery, event⟩, hmem, rfl⟩ := List.mem_map.mp hop
    rw [op_eq_drop hdrop] at hmem
    exact hdelete hmem
  · intro h
    obtain ⟨e, he⟩ := Option.isSome_iff_exists.mp h
    obtain ⟨flag, post, ⟨⟨pre, protocol, hevents⟩, hdelete, -⟩, -⟩ := lastAdd_of_table he
    exact ⟨pre, flag, protocol, e.address, e.protocol, post, hevents, hdelete⟩

end Tables

section FromEmpty

variable {m m' : ServiceManager} {events : List (String × EndpointEvent)}

theorem Run.endpointAt_of_empty (run : Run m events m') (hempty : m.portServiceMap = ∅) :
    Backend.endpointAt m'.portServiceMap = TableOp.run (operations events) TableOp.empty := by
  rw [run.endpointAt, hempty, endpointAt_empty]

theorem Run.wellFormed_of_empty (run : Run m events m') (hempty : m.portServiceMap = ∅) :
    WellFormed m'.portServiceMap :=
  run.wellFormed (by rw [hempty]; exact wellFormed_empty)

theorem Run.lastAdd (run : Run m events m') (hempty : m.portServiceMap = ∅) {id : EndpointId}
    {port : UInt16} {e : Endpoint} (h : Backend.endpointAt m'.portServiceMap port id = some e) :
    ∃ flag post, LastAdd events id port flag e.address e.protocol post ∧
      e.isAvailable = (post.filterMap (availabilityGiven id)).getLastD flag := by
  rw [run.endpointAt_of_empty hempty] at h
  exact lastAdd_of_table h

theorem Run.stillAdded_iff (run : Run m events m') (hempty : m.portServiceMap = ∅)
    (id : EndpointId) (port : UInt16) :
    StillAdded events id port ↔ (Backend.endpointAt m'.portServiceMap port id).isSome := by
  rw [run.endpointAt_of_empty hempty]
  exact stillAdded_iff_table id port

theorem Run.mem_iff_stillAdded (run : Run m events m') (hempty : m.portServiceMap = ∅)
    (port : UInt16) : port ∈ m'.portServiceMap ↔ ∃ id, StillAdded events id port := by
  rw [(run.wellFormed_of_empty hempty).occupied_iff]
  exact exists_congr fun id => (run.stillAdded_iff hempty id port).symm

/-- A service that an event leaves on a port has kept its protocol. -/
theorem protocol_kept {order : IterOrder UInt16} {discovery : String} {event : EndpointEvent}
    {map : ServiceMap} {port : UInt16} {s₀ s : Service} (hs₀ : map.lookup port = some s₀)
    (hs : (effect order discovery event map).map.lookup port = some s) :
    s.protocol = s₀.protocol := by
  have hp := protocolAt_effect order discovery map event port
  rw [if_pos (Finmap.mem_iff.mpr ⟨s, hs⟩), if_pos (Finmap.mem_iff.mpr ⟨s₀, hs₀⟩), protocolAt,
    protocolAt, hs, hs₀] at hp
  simpa using hp

/-- An event that opens a port is an `Add` on it, whose protocol the service gets. -/
theorem opened_by_add {order : IterOrder UInt16} {discovery : String} {event : EndpointEvent}
    {map : ServiceMap} {port : UInt16} {s : Service} (hbefore : port ∉ map)
    (hafter : (effect order discovery event map).map.lookup port = some s) :
    ∃ uid flag address backendProtocol,
      event = .add uid flag port s.protocol address backendProtocol := by
  have hp : protocolAt (effect order discovery event map).map port = some s.protocol := by
    rw [protocolAt, hafter, Option.map_some]
  rw [protocolAt_effect, if_pos (Finmap.mem_iff.mpr ⟨s, hafter⟩), if_neg hbefore] at hp
  cases event with
  | add uid flag port' protocol address backendProtocol =>
    obtain rfl : protocol = s.protocol := by simpa using hp
    have hport : port = port' := by
      by_contra hne
      cases hl : map.lookup port' <;>
        simp only [effect, hl] at hafter <;>
        rw [Finmap.lookup_insert_of_ne _ hne] at hafter <;>
        exact hbefore (Finmap.mem_iff.mpr ⟨s, hafter⟩)
    exact ⟨uid, flag, address, backendProtocol, by rw [hport]⟩
  | delete => cases hp
  | suspend => cases hp
  | resume => cases hp

/-- The protocol of a service is that of the `Add` that took its port from no endpoint to one and
since which it has always had one. -/
theorem Run.openedBy (run : Run m events m') (hempty : m.portServiceMap = ∅) {port : UInt16}
    {s : Service} (hs : m'.portServiceMap.lookup port = some s) :
    ∃ pre discovery uid flag address backendProtocol post,
      events = pre ++ (discovery, .add uid flag port s.protocol address backendProtocol) :: post ∧
      (∀ id, ¬StillAdded pre id port) ∧ ∀ post', post' <+: post → ∃ id, StillAdded
        (pre ++ (discovery, .add uid flag port s.protocol address backendProtocol) :: post')
        id port := by
  induction run generalizing s with
  | nil => rw [hempty, Finmap.lookup_empty] at hs; cases hs
  | @snoc m₁ m₂ events discovery event order before step ih =>
    have hall := before.snoc order step
    have hadded : ∃ id, StillAdded (events ++ [(discovery, event)]) id port :=
      (hall.mem_iff_stillAdded hempty port).mp (Finmap.mem_iff.mpr ⟨s, hs⟩)
    obtain ⟨sender, -, rfl⟩ := processEvent_ok.mp step
    by_cases hbefore : port ∈ m₁.portServiceMap
    · obtain ⟨s₁, hs₁⟩ := Finmap.mem_iff.mp hbefore
      have hprotocol : s.protocol = s₁.protocol := protocol_kept hs₁ hs
      obtain ⟨pre, d, uid, flag, address, backendProtocol, post, rfl, hpre, hpost⟩ := ih hs₁
      rw [hprotocol]
      refine ⟨pre, d, uid, flag, address, backendProtocol, post ++ [(discovery, event)], by simp,
        hpre, fun post' hprefix => ?_⟩
      rcases List.prefix_concat_iff.mp hprefix with rfl | hprefix
      · simpa using hadded
      · exact hpost post' hprefix
    · obtain ⟨uid, flag, address, backendProtocol, rfl⟩ := opened_by_add hbefore hs
      refine ⟨events, discovery, uid, flag, address, backendProtocol, [], rfl, fun id hid => ?_,
        fun post' hprefix => ?_⟩
      · exact hbefore ((before.mem_iff_stillAdded hempty port).mpr ⟨id, hid⟩)
      · obtain rfl : post' = [] := List.prefix_nil.mp hprefix
        exact hadded

/-- The service map is determined by the history of events. -/
theorem service_map_of_history (run : Run m events m') (hempty : m.portServiceMap = ∅)
    (port : UInt16) :
    (∀ id, (Backend.endpointAt m'.portServiceMap port id).isSome ↔ StillAdded events id port) ∧
    (∀ id e, Backend.endpointAt m'.portServiceMap port id = some e → ∃ flag post,
      LastAdd events id port flag e.address e.protocol post ∧
      e.isAvailable = (post.filterMap (availabilityGiven id)).getLastD flag) ∧
    (∀ s, m'.portServiceMap.lookup port = some s →
      ∃ pre discovery uid flag address backendProtocol post,
        events = pre ++ (discovery, .add uid flag port s.protocol address backendProtocol) :: post ∧
        (∀ id, ¬StillAdded pre id port) ∧ ∀ post', post' <+: post → ∃ id, StillAdded
          (pre ++ (discovery, .add uid flag port s.protocol address backendProtocol) :: post')
          id port) ∧
    (∀ order index found, getEndpointFor order m'.portServiceMap port index = .ok (some found) →
      ∃ id flag post, StillAdded events id port ∧
        LastAdd events id port flag found.1 found.2 post ∧
        (post.filterMap (availabilityGiven id)).getLastD flag = true) := by
  refine ⟨fun id => (run.stillAdded_iff hempty id port).symm, fun id e he => run.lastAdd hempty he,
    fun s hs => run.openedBy hempty hs, fun order index found hfound => ?_⟩
  obtain ⟨id, e, he, havailable, rfl⟩ := getEndpointFor_eq_some hfound
  obtain ⟨flag, post, hlast, hflag⟩ := run.lastAdd hempty he
  have hadded : StillAdded events id port :=
    (run.stillAdded_iff hempty id port).mpr (by rw [he]; rfl)
  exact ⟨id, flag, post, hadded, hlast, by rw [← hflag, havailable]⟩

theorem service_map_of_one_add :
    let events := [("pods", EndpointEvent.add "u" false 80 "http" (.v4 ⟨10, 0, 0, 1⟩ 8080) "ssh"),
      ("pods", .resume "u")]
    ∃ m', Run .new events m' ∧
      ((Backend.endpointAt m'.portServiceMap 80 ⟨"pods", "u"⟩).isSome ↔
        StillAdded events ⟨"pods", "u"⟩ 80) :=
  have run := ((Run.nil ServiceManager.new).snoc ascending rfl).snoc ascending rfl
  ⟨_, run, (service_map_of_history run rfl 80).1 ⟨"pods", "u"⟩⟩

theorem erase_eq_empty_iff {s : Service} (hs : s.endpoints ≠ ∅) (id : EndpointId) :
    s.endpoints.erase id = ∅ ↔ s.endpoints.keys = {id} := by
  constructor
  · intro h
    have honly : ∀ k ∈ s.endpoints.keys, k = id := by
      intro k hk
      obtain ⟨e, he⟩ := mem_keys_iff.mp hk
      by_contra hne
      rw [← Finmap.lookup_erase_ne hne, h, Finmap.lookup_empty] at he
      cases he
    obtain ⟨k, e, he⟩ := ne_empty_iff.mp hs
    have hk : k ∈ s.endpoints.keys := mem_keys_iff.mpr ⟨e, he⟩
    exact Finset.eq_singleton_iff_unique_mem.mpr ⟨honly k hk ▸ hk, honly⟩
  · intro h
    refine Finmap.ext_lookup fun k => ?_
    rw [lookup_erase_eq, Finmap.lookup_empty]
    split
    · rfl
    · rename_i hne
      rw [Finmap.lookup_eq_none, ← Finmap.mem_keys, h, Finset.mem_singleton]
      exact hne

/-- In every reachable state the services satisfy the invariant, hence no call panics and a
`Delete` closes exactly the ports that its endpoint served alone. -/
theorem reachable_services_safe (run : Run m events m') (hempty : m.portServiceMap = ∅) :
    (∀ port s, m'.portServiceMap.lookup port = some s →
      s.port = port ∧ 1 ≤ s.endpoints.keys.card) ∧
    (∀ order port index, ∃ result, getEndpointFor order m'.portServiceMap port index = .ok result) ∧
    (∀ order discovery event e m'', processEvent order discovery event m' = .error e m'' →
      e = .cannotSendPortEvent) ∧
    (∀ order discovery uid sender m'', m'.portEventSender = some sender →
      processEvent order discovery (.delete uid) m' = .ok () m'' →
      ∃ (ports : List UInt16) (sender' : Sender PortEvent), m''.portEventSender = some sender' ∧
        sender'.sent = sender.sent ++ ports.map .closePort ∧ ports.Nodup ∧
        ∀ port, port ∈ ports ↔ ∃ s, m'.portServiceMap.lookup port = some s ∧
          s.endpoints.keys = {⟨discovery, uid⟩}) := by
  have wf := run.wellFormed_of_empty hempty
  refine ⟨fun port s hs => ⟨wf.port hs, ?_⟩, getEndpointFor_returns wf,
    fun _ _ _ _ _ h => processEvent_error h, ?_⟩
  · have := card_pos_of_occupied (wf.occupied hs)
    omega
  · intro order discovery uid sender m'' hsender hstep
    obtain ⟨sender₁, hdeliver, rfl⟩ := processEvent_ok.mp hstep
    rw [hsender] at hdeliver
    obtain ⟨sender', rfl, hsent⟩ := deliver_sent hdeliver
    refine ⟨_, sender', rfl, hsent, scan_todo_nodup _ _ _, fun port => ?_⟩
    rw [mem_scan_todo]
    exact exists_congr fun s => and_congr_right fun hs => erase_eq_empty_iff (wf.occupied hs) _

theorem reachable_services_safe_of_two_ports :
    ∃ m', Run ⟨∅, some .new, []⟩
        [("pods", .add "u" true 80 "http" (.v4 ⟨10, 0, 0, 1⟩ 80) "http"),
          ("pods", .add "u" true 443 "https" (.v4 ⟨10, 0, 0, 1⟩ 443) "http"),
          ("files", .add "u" true 443 "https" (.v4 ⟨10, 0, 0, 2⟩ 443) "http")] m' ∧
      ∀ order port index, ∃ result,
        getEndpointFor order m'.portServiceMap port index = .ok result :=
  have run := (((Run.nil ⟨∅, some .new, []⟩).snoc ascending rfl).snoc ascending rfl).snoc ascending rfl
  ⟨_, run, (reachable_services_safe run rfl).2.1⟩

end FromEmpty

/-! ### Histories that agree on every endpoint -/

/-- The event carries the identity `id`. -/
def carries (id : EndpointId) (event : String × EndpointEvent) : Bool :=
  (⟨event.1, event.2.uid⟩ : EndpointId) = id

theorem operations_filter (events : List (String × EndpointEvent)) (id : EndpointId) :
    ((operations events).filter fun op => op.id = id) = operations (events.filter (carries id)) := by
  unfold operations
  rw [List.filter_map]
  congr 1
  refine List.filter_congr fun event _ => ?_
  simp only [Function.comp_apply, EndpointEvent.op_id, carries]

/-- The endpoints of a discovery are those that its own events leave. -/
theorem run_operations_own (events : List (String × EndpointEvent)) (name : String) (port : UInt16)
    (uid : String) :
    TableOp.run (operations events) TableOp.empty port ⟨name, uid⟩ =
      TableOp.run (operations (events.filter fun e => e.1 = name)) TableOp.empty port
        ⟨name, uid⟩ := by
  have hown : (events.filter fun e => e.1 = name).filter (carries ⟨name, uid⟩) =
      events.filter (carries ⟨name, uid⟩) := by
    rw [List.filter_filter]
    refine List.filter_congr fun e _ => ?_
    by_cases hname : e.1 = name <;> simp [carries, hname]
  rw [TableOp.run_filter (operations events) _ (fun _ => rfl), operations_filter, ← hown,
    ← operations_filter, ← TableOp.run_filter (operations _) _ (fun _ => rfl)]

theorem mem_of_filter_eq {events more : List (String × EndpointEvent)}
    (h : ∀ id, events.filter (carries id) = more.filter (carries id)) {event : String × EndpointEvent}
    (hmem : event ∈ events) : event ∈ more := by
  have hcarries : carries ⟨event.1, event.2.uid⟩ event = true := by simp [carries]
  have hfilter := List.mem_filter.mpr ⟨hmem, hcarries⟩
  rw [h] at hfilter
  exact (List.mem_filter.mp hfilter).1

/-- Every `Add` on one port asks for one external protocol. -/
def SameProtocols (events : List (String × EndpointEvent)) : Prop :=
  ∀ d u f p q a b d' u' f' q' a' b', (d, EndpointEvent.add u f p q a b) ∈ events →
    (d', EndpointEvent.add u' f' p q' a' b') ∈ events → q = q'

theorem lookup_endpoints_eq {map map' : ServiceMap} (wf : WellFormed map) (wf' : WellFormed map')
    (h : endpointAt map = endpointAt map') (port : UInt16) :
    (map.lookup port).map (·.endpoints) = (map'.lookup port).map (·.endpoints) := by
  have hmem : port ∈ map ↔ port ∈ map' := by rw [wf.occupied_iff, wf'.occupied_iff, h]
  cases hs : map.lookup port with
  | none =>
    have hnot : port ∉ map' := fun hm => Finmap.lookup_eq_none.mp hs (hmem.mpr hm)
    rw [Finmap.lookup_eq_none.mpr hnot]
  | some s =>
    obtain ⟨s', hs'⟩ := Finmap.mem_iff.mp (hmem.mp (Finmap.mem_iff.mpr ⟨s, hs⟩))
    rw [hs', Option.map_some, Option.map_some, Option.some.injEq]
    refine Finmap.ext_lookup fun id => ?_
    have hid := congrFun (congrFun h port) id
    simpa [endpointAt, hs, hs'] using hid

/-- Events of different endpoints commute: what a run leaves depends only on the events of each
endpoint, in their order. -/
theorem events_of_endpoints_commute {m₁ m₁' m₂ m₂' : ServiceManager}
    {events₁ events₂ : List (String × EndpointEvent)} (run₁ : Run m₁ events₁ m₁')
    (run₂ : Run m₂ events₂ m₂') (hempty₁ : m₁.portServiceMap = ∅) (hempty₂ : m₂.portServiceMap = ∅)
    (hsame : ∀ id, events₁.filter (carries id) = events₂.filter (carries id)) :
    m₁'.portServiceMap.keys = m₂'.portServiceMap.keys ∧
    (∀ port, (m₁'.portServiceMap.lookup port).map (·.endpoints) =
      (m₂'.portServiceMap.lookup port).map (·.endpoints)) ∧
    (SameProtocols events₁ → m₁'.portServiceMap = m₂'.portServiceMap) := by
  have wf₁ := run₁.wellFormed_of_empty hempty₁
  have wf₂ := run₂.wellFormed_of_empty hempty₂
  have htable : endpointAt m₁'.portServiceMap = endpointAt m₂'.portServiceMap := by
    rw [run₁.endpointAt_of_empty hempty₁, run₂.endpointAt_of_empty hempty₂]
    refine TableOp.run_eq_of_filter_eq (fun id => ?_) _
    rw [operations_filter, operations_filter, hsame]
  have hendpoints := lookup_endpoints_eq wf₁ wf₂ htable
  refine ⟨?_, hendpoints, fun hprotocols => Finmap.ext_lookup fun port => ?_⟩
  · ext port
    rw [Finmap.mem_keys, Finmap.mem_keys, wf₁.occupied_iff, wf₂.occupied_iff, htable]
  · have hport := hendpoints port
    cases hs₁ : m₁'.portServiceMap.lookup port with
    | none =>
      rw [hs₁] at hport
      exact (Option.map_eq_none_iff.mp hport.symm).symm
    | some s₁ =>
      rw [hs₁] at hport
      obtain ⟨s₂, hs₂, hendpoints₂⟩ := Option.map_eq_some_iff.mp hport.symm
      obtain ⟨pre₁, d₁, u₁, f₁, a₁, b₁, post₁, hevents₁, -⟩ := run₁.openedBy hempty₁ hs₁
      obtain ⟨pre₂, d₂, u₂, f₂, a₂, b₂, post₂, hevents₂, -⟩ := run₂.openedBy hempty₂ hs₂
      have hmem₁ : (d₁, EndpointEvent.add u₁ f₁ port s₁.protocol a₁ b₁) ∈ events₁ := by
        rw [hevents₁]; simp
      have hmem₂ : (d₂, EndpointEvent.add u₂ f₂ port s₂.protocol a₂ b₂) ∈ events₁ :=
        mem_of_filter_eq (fun id => (hsame id).symm) (by rw [hevents₂]; simp)
      have hprotocol := hprotocols _ _ _ _ _ _ _ _ _ _ _ _ _ hmem₁ hmem₂
      have hport₁ := wf₁.port hs₁
      have hport₂ := wf₂.port hs₂
      rw [hs₂]
      obtain ⟨port₁, protocol₁, endpoints₁⟩ := s₁
      obtain ⟨port₂, protocol₂, endpoints₂⟩ := s₂
      simp_all

theorem events_of_two_discoveries_commute :
    let add (d : String) (a : UInt8) : String × EndpointEvent :=
      (d, .add "u" true 80 "http" (.v4 ⟨10, 0, 0, a⟩ 80) "http")
    ∃ m₁' m₂', Run .new [add "pods" 1, add "files" 2] m₁' ∧
      Run .new [add "files" 2, add "pods" 1] m₂' ∧ m₁'.portServiceMap.keys = m₂'.portServiceMap.keys :=
  have run₁ := ((Run.nil ServiceManager.new).snoc ascending rfl).snoc ascending rfl
  have run₂ := ((Run.nil ServiceManager.new).snoc ascending rfl).snoc ascending rfl
  ⟨_, _, run₁, run₂, (events_of_endpoints_commute run₁ run₂ rfl rfl fun id => by
    by_cases h : id = ⟨"pods", "u"⟩
    · subst h; decide
    · by_cases h' : id = ⟨"files", "u"⟩
      · subst h'; decide
      · simp [carries, EndpointEvent.uid, Ne.symm h, Ne.symm h']).1⟩

end StateProxy.Backend
