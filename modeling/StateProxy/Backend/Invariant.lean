import StateProxy.Backend.Effect
import StateProxy.ProofKit.Table
import Mathlib.Data.List.Induction

/-! The service map as a table of endpoints by port and identity, and its invariant: every service
is stored under its own port and has an endpoint.  Each event acts on the table as one operation of
its endpoint's identity and keeps the invariant, hence so does every run. -/

namespace StateProxy.Backend

open Net ProofKit ServiceManager

/-- The endpoint `id` of the service on a port. -/
def endpointAt (map : ServiceMap) : Table UInt16 EndpointId Endpoint :=
  fun port id => (map.lookup port).bind fun service => service.endpoints.lookup id

/-- The protocol of the service on a port. -/
def protocolAt (map : ServiceMap) (port : UInt16) : Option String :=
  (map.lookup port).map (·.protocol)

structure WellFormed (map : ServiceMap) : Prop where
  port : ∀ {p s}, map.lookup p = some s → s.port = p
  occupied : ∀ {p s}, map.lookup p = some s → s.endpoints ≠ ∅

/-- What an event from `discovery` does to the table of endpoints. -/
def EndpointEvent.op (discovery : String) : EndpointEvent → TableOp UInt16 EndpointId Endpoint
  | .add uid isAvailable port _ address protocol =>
    .put port ⟨discovery, uid⟩ ⟨isAvailable, address, protocol⟩
  | .delete uid => .drop ⟨discovery, uid⟩
  | .suspend uid => .update ⟨discovery, uid⟩ fun endpoint => { endpoint with isAvailable := false }
  | .resume uid => .update ⟨discovery, uid⟩ fun endpoint => { endpoint with isAvailable := true }

theorem EndpointEvent.op_id (discovery : String) (event : EndpointEvent) :
    (event.op discovery).id = ⟨discovery, event.uid⟩ := by
  cases event <;> rfl

theorem endpointAt_empty : endpointAt ∅ = TableOp.empty := by
  funext port id
  simp [endpointAt, TableOp.empty]

theorem wellFormed_empty : WellFormed ∅ := by
  constructor <;> intro p s h <;> simp at h

/-- A port has a service exactly when it has an endpoint. -/
theorem WellFormed.occupied_iff {map : ServiceMap} (wf : WellFormed map) (p : UInt16) :
    p ∈ map ↔ ∃ id, (endpointAt map p id).isSome := by
  rw [Finmap.mem_iff]
  constructor
  · rintro ⟨s, hs⟩
    obtain ⟨id, e, he⟩ := ne_empty_iff.mp (wf.occupied hs)
    exact ⟨id, by simp [endpointAt, hs, he]⟩
  · rintro ⟨id, h⟩
    cases hs : map.lookup p with
    | none => simp [endpointAt, hs] at h
    | some s => exact ⟨s, rfl⟩

theorem lookup_available (isAvailable : Bool) (id j : EndpointId) (s : Service) :
    (available isAvailable id s).endpoints.lookup j =
      if j = id then (s.endpoints.lookup j).map fun e => { e with isAvailable }
      else s.endpoints.lookup j := by
  cases he : s.endpoints.lookup id with
  | none =>
    simp only [available, he]
    split
    · rename_i h
      rw [h, he, Option.map_none]
    · rfl
  | some e =>
    simp only [available, he]
    rw [lookup_insert_eq]
    split
    · rename_i h
      rw [h, he, Option.map_some]
    · rfl

theorem available_port (isAvailable : Bool) (id : EndpointId) (s : Service) :
    (available isAvailable id s).port = s.port := by
  unfold available
  split <;> rfl

theorem available_protocol (isAvailable : Bool) (id : EndpointId) (s : Service) :
    (available isAvailable id s).protocol = s.protocol := by
  unfold available
  split <;> rfl

theorem available_occupied {isAvailable : Bool} {id : EndpointId} {s : Service}
    (h : s.endpoints ≠ ∅) : (available isAvailable id s).endpoints ≠ ∅ := by
  obtain ⟨j, e, he⟩ := ne_empty_iff.mp h
  refine ne_empty_iff.mpr ⟨j, if j = id then { e with isAvailable } else e, ?_⟩
  rw [lookup_available, he]
  split <;> rfl

section Effects

variable (order : IterOrder UInt16) (discovery uid : String) (map : ServiceMap)

theorem lookup_effect_delete (p : UInt16) :
    (effect order discovery (.delete uid) map).map.lookup p = (map.lookup p).bind fun s =>
      if s.endpoints.erase ⟨discovery, uid⟩ = ∅ then none
      else some { s with endpoints := s.endpoints.erase ⟨discovery, uid⟩ } := by
  simp only [effect]
  rw [lookup_eraseAll, lookup_scan]
  cases hs : map.lookup p with
  | none => simp
  | some s =>
    by_cases he : s.endpoints.erase ⟨discovery, uid⟩ = ∅
    · have hmem : p ∈ (scan order ⟨discovery, uid⟩ map).2.2 := mem_scan_todo.mpr ⟨s, hs, he⟩
      simp [hmem, he]
    · have hmem : p ∉ (scan order ⟨discovery, uid⟩ map).2.2 := by
        intro h
        obtain ⟨s', hs', he'⟩ := mem_scan_todo.mp h
        rw [hs] at hs'
        cases hs'
        exact he he'
      simp [hmem, he]

theorem endpointAt_toggle (isAvailable : Bool) (p : UInt16) (id j : EndpointId) :
    endpointAt (toggle order isAvailable id map).1 p j =
      if j = id then (endpointAt map p j).map fun e => { e with isAvailable }
      else endpointAt map p j := by
  unfold endpointAt
  rw [lookup_toggle]
  cases hs : map.lookup p with
  | none => simp
  | some s => exact lookup_available isAvailable id j s

/-- An event acts on the table of endpoints as the one operation of its endpoint. -/
theorem endpointAt_effect (event : EndpointEvent) :
    endpointAt (effect order discovery event map).map =
      (event.op discovery).apply (endpointAt map) := by
  funext p j
  cases event with
  | add uid isAvailable port protocol address backendProtocol =>
    cases hs : map.lookup port with
    | none =>
      simp only [effect, hs, endpointAt, EndpointEvent.op, TableOp.apply]
      rw [lookup_insert_eq]
      by_cases hp : p = port
      · subst hp
        simp only [if_true, Option.bind_some, true_and, hs, Option.bind_none]
        rw [lookup_insert_eq, Finmap.lookup_empty]
      · simp [hp]
    | some s =>
      simp only [effect, hs, endpointAt, EndpointEvent.op, TableOp.apply]
      rw [lookup_insert_eq]
      by_cases hp : p = port
      · subst hp
        simp only [if_true, Option.bind_some, true_and, hs]
        rw [lookup_insert_eq]
      · simp [hp]
  | delete uid =>
    simp only [endpointAt, EndpointEvent.op, TableOp.apply]
    rw [lookup_effect_delete]
    cases hs : map.lookup p with
    | none => simp
    | some s =>
      have herase := lookup_erase_eq s.endpoints ⟨discovery, uid⟩ j
      by_cases he : s.endpoints.erase ⟨discovery, uid⟩ = ∅
      · rw [he, Finmap.lookup_empty] at herase
        simpa [he] using herase
      · simpa [he] using herase
  | suspend uid => exact endpointAt_toggle order map false p ⟨discovery, uid⟩ j
  | resume uid => exact endpointAt_toggle order map true p ⟨discovery, uid⟩ j

theorem any_visit_iff (id : EndpointId) :
    ((order.visit map.keys).any fun p => (endpointAt map p id).isSome) = true ↔
      ∃ p, (endpointAt map p id).isSome := by
  rw [List.any_eq_true]
  constructor
  · rintro ⟨p, -, h⟩
    exact ⟨p, h⟩
  · rintro ⟨p, h⟩
    refine ⟨p, (order.mem _ _).mpr ?_, h⟩
    obtain ⟨e, he⟩ := Option.isSome_iff_exists.mp h
    obtain ⟨s, hs, -⟩ := Option.bind_eq_some_iff.mp he
    exact mem_keys_iff.mpr ⟨s, hs⟩

/-- The first loop of the `Delete` branch finds the endpoint when a service has it. -/
theorem scan_found (id : EndpointId) :
    (scan order id map).2.1 = true ↔ ∃ p, (endpointAt map p id).isSome := by
  have hloop : ∀ (keys : List UInt16) (vars : Bool × List UInt16),
      (keys.foldl (fun s k => (map.lookup k).elim s fun v => (removeEndpoint id k v s).2) vars).1 =
        (vars.1 || keys.any fun p => (endpointAt map p id).isSome) := by
    intro keys
    induction keys with
    | nil => simp
    | cons key keys ih =>
      intro vars
      rw [List.foldl_cons, ih]
      cases hv : map.lookup key with
      | none => simp [endpointAt, hv]
      | some service => simp [endpointAt, hv, removeEndpoint, Bool.or_assoc]
  rw [scan, iterMut_locals _ (order.nodup _), hloop, Bool.false_or, any_visit_iff]

/-- So does the loop of the `Suspend` and `Resume` branches. -/
theorem toggle_found (isAvailable : Bool) (id : EndpointId) :
    (toggle order isAvailable id map).2 = true ↔ ∃ p, (endpointAt map p id).isSome := by
  have hloop : ∀ (keys : List UInt16) (found : Bool),
      keys.foldl (fun s k => (map.lookup k).elim s fun v =>
        (setAvailability isAvailable id k v s).2) found =
        (found || keys.any fun p => (endpointAt map p id).isSome) := by
    intro keys
    induction keys with
    | nil => simp
    | cons key keys ih =>
      intro found
      rw [List.foldl_cons, ih]
      cases hv : map.lookup key with
      | none => simp [endpointAt, hv]
      | some service =>
        cases he : service.endpoints.lookup id with
        | none => simp [endpointAt, hv, he, setAvailability]
        | some endpoint => simp [endpointAt, hv, he, setAvailability]
  rw [toggle, iterMut_locals _ (order.nodup _), hloop, Bool.false_or, any_visit_iff]

/-- An event is warned about only when it is no `Add` and no service has its endpoint. -/
theorem effect_warnings {event : EndpointEvent}
    (h : event.isAdd = true ∨ ∃ p, (endpointAt map p ⟨discovery, event.uid⟩).isSome) :
    (effect order discovery event map).warnings = [] := by
  cases event with
  | add uid flag port protocol address backendProtocol =>
    simp only [effect]
    split <;> rfl
  | delete uid =>
    have hfound := (scan_found order map _).mpr (h.resolve_left (by simp [EndpointEvent.isAdd]))
    rw [EndpointEvent.uid] at hfound
    simp only [effect, hfound, if_true]
  | suspend uid =>
    have hfound := (toggle_found order map false _).mpr
      (h.resolve_left (by simp [EndpointEvent.isAdd]))
    rw [EndpointEvent.uid] at hfound
    simp only [effect, hfound, if_true]
  | resume uid =>
    have hfound := (toggle_found order map true _).mpr
      (h.resolve_left (by simp [EndpointEvent.isAdd]))
    rw [EndpointEvent.uid] at hfound
    simp only [effect, hfound, if_true]

theorem toggle_wellFormed {map : ServiceMap} (wf : WellFormed map) (isAvailable : Bool)
    (id : EndpointId) : WellFormed (toggle order isAvailable id map).1 := by
  constructor <;> intro p s h <;> rw [lookup_toggle, Option.map_eq_some_iff] at h <;>
    obtain ⟨s₀, hs₀, rfl⟩ := h
  · rw [available_port, wf.port hs₀]
  · exact available_occupied (wf.occupied hs₀)

/-- Every event keeps the invariant. -/
theorem effect_wellFormed {map : ServiceMap} (wf : WellFormed map) (event : EndpointEvent) :
    WellFormed (effect order discovery event map).map := by
  cases event with
  | add uid isAvailable port protocol address backendProtocol =>
    cases hs : map.lookup port with
    | none =>
      simp only [effect, hs]
      constructor <;> intro p s h <;> rw [lookup_insert_eq] at h <;> split at h
      · rename_i hp
        cases h
        exact hp.symm
      · exact wf.port h
      · cases h
        exact ne_empty_iff.mpr ⟨_, _, Finmap.lookup_insert _⟩
      · exact wf.occupied h
    | some s₀ =>
      simp only [effect, hs]
      constructor <;> intro p s h <;> rw [lookup_insert_eq] at h <;> split at h
      · rename_i hp
        cases h
        have hport := wf.port hs
        rw [hp]
        exact hport
      · exact wf.port h
      · cases h
        exact ne_empty_iff.mpr ⟨_, _, Finmap.lookup_insert _⟩
      · exact wf.occupied h
  | delete uid =>
    constructor <;> intro p s h <;> rw [lookup_effect_delete, Option.bind_eq_some_iff] at h <;>
      obtain ⟨s₀, hs₀, h⟩ := h <;> split at h <;> cases h
    · have hport := wf.port hs₀
      exact hport
    · assumption
  | suspend uid => exact toggle_wellFormed order wf false _
  | resume uid => exact toggle_wellFormed order wf true _

theorem protocolAt_toggle {order : IterOrder UInt16} {map : ServiceMap} {isAvailable : Bool}
    {id : EndpointId} {p : UInt16} {q : Option String}
    (h : p ∈ (toggle order isAvailable id map).1) :
    protocolAt (toggle order isAvailable id map).1 p = if p ∈ map then protocolAt map p else q := by
  obtain ⟨s, hs⟩ := Finmap.mem_iff.mp h
  rw [protocolAt, hs]
  rw [lookup_toggle, Option.map_eq_some_iff] at hs
  obtain ⟨s₀, hs₀, rfl⟩ := hs
  have hmem : p ∈ map := Finmap.mem_iff.mpr ⟨s₀, hs₀⟩
  simp [hmem, protocolAt, hs₀, available_protocol]

/-- An event changes the protocol of a port only when it opens the port or closes it. -/
theorem protocolAt_effect (event : EndpointEvent) (p : UInt16) :
    protocolAt (effect order discovery event map).map p =
      if p ∈ (effect order discovery event map).map then
        if p ∈ map then protocolAt map p
        else match event with
          | .add _ _ _ protocol _ _ => some protocol
          | _ => none
      else none := by
  split
  · rename_i hafter
    cases event with
    | add uid isAvailable port protocol address backendProtocol =>
      cases hs : map.lookup port with
      | none =>
        simp only [effect, hs, protocolAt] at hafter ⊢
        rw [lookup_insert_eq]
        by_cases hp : p = port
        · subst hp
          simp [Finmap.lookup_eq_none.mp hs]
        · have hmem : p ∈ map := (Finmap.mem_insert.mp hafter).resolve_left hp
          simp [hp, hmem]
      | some s =>
        have hport : port ∈ map := Finmap.mem_iff.mpr ⟨s, hs⟩
        simp only [effect, hs, protocolAt] at hafter ⊢
        rw [lookup_insert_eq]
        by_cases hp : p = port
        · subst hp
          simp [hport, hs]
        · have hmem : p ∈ map := (Finmap.mem_insert.mp hafter).resolve_left hp
          simp [hp, hmem]
    | delete uid =>
      obtain ⟨s, hs⟩ := Finmap.mem_iff.mp hafter
      rw [protocolAt, hs]
      rw [lookup_effect_delete, Option.bind_eq_some_iff] at hs
      obtain ⟨s₀, hs₀, hs⟩ := hs
      have hmem : p ∈ map := Finmap.mem_iff.mpr ⟨s₀, hs₀⟩
      split at hs <;> cases hs
      simp [hmem, protocolAt, hs₀]
    | suspend uid => exact protocolAt_toggle hafter
    | resume uid => exact protocolAt_toggle hafter
  · rename_i hafter
    rw [protocolAt, Finmap.lookup_eq_none.mpr hafter, Option.map_none]

theorem toggle_of_unchanged {map : ServiceMap} {flag : Bool} {uid : String}
    (h : (TableOp.update ⟨discovery, uid⟩ fun e : Endpoint => { e with isAvailable := flag }).apply
      (endpointAt map) = endpointAt map) :
    (toggle order flag ⟨discovery, uid⟩ map).1 = map := by
  refine Finmap.ext_lookup fun p => ?_
  rw [lookup_toggle]
  cases hs : map.lookup p with
  | none => rfl
  | some s =>
    have hentry := congrFun (congrFun h p) ⟨discovery, uid⟩
    simp only [TableOp.apply, if_true, endpointAt, hs, Option.bind_some] at hentry
    cases he : s.endpoints.lookup ⟨discovery, uid⟩ with
    | none => simp [available, he]
    | some e =>
      rw [he, Option.map_some, Option.some.injEq] at hentry
      have hinsert : s.endpoints.insert ⟨discovery, uid⟩ e = s.endpoints := by
        refine Finmap.ext_lookup fun id => ?_
        rw [lookup_insert_eq]
        split
        · rename_i hid
          rw [hid, he]
        · rfl
      simp only [available, he, Option.map_some]
      rw [hentry, hinsert]

theorem delete_of_unchanged {map : ServiceMap} (wf : WellFormed map) {uid : String}
    (h : (TableOp.drop ⟨discovery, uid⟩).apply (endpointAt map) = endpointAt map) :
    (effect order discovery (.delete uid) map).map = map ∧
      (effect order discovery (.delete uid) map).portEvents = [] := by
  have herase : ∀ p s, map.lookup p = some s → s.endpoints.erase ⟨discovery, uid⟩ = s.endpoints := by
    intro p s hs
    have hentry := congrFun (congrFun h p) ⟨discovery, uid⟩
    simp only [TableOp.apply, if_true, endpointAt, hs, Option.bind_some] at hentry
    refine Finmap.ext_lookup fun id => ?_
    rw [lookup_erase_eq]
    split
    · rename_i hid
      rw [hid, hentry]
    · rfl
  have htodo : (scan order ⟨discovery, uid⟩ map).2.2 = [] := by
    refine List.eq_nil_iff_forall_not_mem.mpr fun p hp => ?_
    obtain ⟨s, hs, hempty⟩ := mem_scan_todo.mp hp
    rw [herase p s hs] at hempty
    exact wf.occupied hs hempty
  refine ⟨?_, by simp [effect, htodo]⟩
  refine Finmap.ext_lookup fun p => ?_
  rw [lookup_effect_delete]
  cases hs : map.lookup p with
  | none => rfl
  | some s => rw [Option.bind_some, herase p s hs, if_neg (wf.occupied hs)]

/-- An event that is no `Add` and leaves the table of endpoints as it is leaves the service map as it
is and sends no port event. -/
theorem effect_of_unchanged {map : ServiceMap} (wf : WellFormed map) {event : EndpointEvent}
    (hadd : event.isAdd = false)
    (h : (event.op discovery).apply (endpointAt map) = endpointAt map) :
    (effect order discovery event map).map = map ∧
      (effect order discovery event map).portEvents = [] := by
  cases event with
  | add uid flag port protocol address backendProtocol => cases hadd
  | delete uid => exact delete_of_unchanged order discovery wf h
  | suspend uid => exact ⟨toggle_of_unchanged order discovery h, rfl⟩
  | resume uid => exact ⟨toggle_of_unchanged order discovery h, rfl⟩

end Effects

/-! ### Runs -/

/-- `m` processes the events `events`, each with the name of the discovery task it comes from, and
becomes `m'`.  Every port event on the way is sent, and every event's loops may visit the service
map in an order of their own. -/
inductive Run : ServiceManager → List (String × EndpointEvent) → ServiceManager → Prop
  | nil (m : ServiceManager) : Run m [] m
  | snoc {m m₁ m₂ : ServiceManager} {events : List (String × EndpointEvent)} {discovery : String}
      {event : EndpointEvent} (order : IterOrder UInt16) : Run m events m₁ →
      processEvent order discovery event m₁ = .ok () m₂ → Run m (events ++ [(discovery, event)]) m₂

/-- The order of iteration that visits the ports from the least on. -/
def ascending : IterOrder UInt16 :=
  .sortedBy UInt16.toNat fun _ _ h => UInt16.toNat_inj.mp h

/-- The operations of a history on the table of endpoints. -/
def operations (events : List (String × EndpointEvent)) :
    List (TableOp UInt16 EndpointId Endpoint) :=
  events.map fun e => e.2.op e.1

theorem operations_append (events more : List (String × EndpointEvent)) :
    operations (events ++ more) = operations events ++ operations more :=
  List.map_append

/-- The manager after the events `events`, with one order of iteration for all of them. -/
def processAll (order : IterOrder UInt16) (m : ServiceManager) :
    List (String × EndpointEvent) → Option ServiceManager
  | [] => some m
  | (discovery, event) :: events =>
    match processEvent order discovery event m with
    | .ok _ m' => processAll order m' events
    | .error _ _ => none

theorem Run.extend {m m₁ m₂ : ServiceManager} {events more : List (String × EndpointEvent)}
    (run : Run m events m₁) {order : IterOrder UInt16}
    (h : processAll order m₁ more = some m₂) : Run m (events ++ more) m₂ := by
  induction more generalizing events m₁ with
  | nil =>
    cases h
    rwa [List.append_nil]
  | cons e more ih =>
    obtain ⟨discovery, event⟩ := e
    simp only [processAll] at h
    split at h
    · rename_i m' step
      have hmore := ih (run.snoc order step) h
      rwa [List.append_assoc] at hmore
    · cases h

/-- A run acts on the table of endpoints as its history of operations. -/
theorem Run.endpointAt {m m' : ServiceManager} {events : List (String × EndpointEvent)}
    (run : Run m events m') :
    endpointAt m'.portServiceMap =
      TableOp.run (operations events) (endpointAt m.portServiceMap) := by
  induction run with
  | nil => rfl
  | snoc order _ step ih =>
    obtain ⟨sender, -, rfl⟩ := processEvent_ok.mp step
    rw [operations_append, TableOp.run_append, ← ih]
    exact endpointAt_effect order _ _ _

/-- Events that are no `Add`s and leave the table of endpoints as it is can be processed, and leave
the service map and the port events sent as they are. -/
theorem Run.of_unchanged {m m' : ServiceManager} {events : List (String × EndpointEvent)}
    (wf : WellFormed m.portServiceMap)
    (hadd : ∀ e ∈ events, e.2.isAdd = false)
    (h : ∀ e ∈ events, (e.2.op e.1).apply (Backend.endpointAt m.portServiceMap) =
      Backend.endpointAt m.portServiceMap) (run : Run m events m') :
    m'.portServiceMap = m.portServiceMap ∧ m'.portEventSender = m.portEventSender := by
  induction run with
  | nil => exact ⟨rfl, rfl⟩
  | @snoc m₁ m₂ events discovery event order _ step ih =>
    obtain ⟨hmap, hsender⟩ := ih (fun e he => hadd e (List.mem_append_left _ he))
      fun e he => h e (List.mem_append_left _ he)
    obtain ⟨sender, hdeliver, rfl⟩ := processEvent_ok.mp step
    rw [hmap] at hdeliver ⊢
    obtain ⟨hsame, hnone⟩ := effect_of_unchanged order discovery wf
      (hadd (discovery, event) (by simp)) (h (discovery, event) (by simp))
    rw [hnone] at hdeliver
    cases hdeliver
    exact ⟨hsame, hsender⟩

theorem Run.exists_of_unchanged {m : ServiceManager} {events : List (String × EndpointEvent)}
    (wf : WellFormed m.portServiceMap)
    (hadd : ∀ e ∈ events, e.2.isAdd = false)
    (h : ∀ e ∈ events, (e.2.op e.1).apply (Backend.endpointAt m.portServiceMap) =
      Backend.endpointAt m.portServiceMap) : ∃ m', Run m events m' := by
  induction events using List.reverseRecOn with
  | nil => exact ⟨m, .nil m⟩
  | append_singleton events e ih =>
    obtain ⟨discovery, event⟩ := e
    have hadd' := fun e he => hadd e (List.mem_append_left _ he)
    have h' := fun e he => h e (List.mem_append_left _ he)
    obtain ⟨m₁, run⟩ := ih hadd' h'
    obtain ⟨hmap, -⟩ := run.of_unchanged wf hadd' h'
    obtain ⟨-, hnone⟩ := effect_of_unchanged ascending discovery wf
      (hadd (discovery, event) (by simp)) (h (discovery, event) (by simp))
    rw [← hmap] at hnone
    exact ⟨_, run.snoc ascending (processEvent_ok.mpr ⟨m₁.portEventSender, by rw [hnone]; rfl, rfl⟩)⟩

/-- Without a consumer every event can be processed. -/
theorem Run.exists_of_no_consumer {m : ServiceManager} (hnone : m.portEventSender = none)
    (events : List (String × EndpointEvent)) :
    ∃ m', Run m events m' ∧ m'.portEventSender = none := by
  induction events using List.reverseRecOn with
  | nil => exact ⟨m, .nil m, hnone⟩
  | append_singleton events e ih =>
    obtain ⟨discovery, event⟩ := e
    obtain ⟨m₁, run, hnone₁⟩ := ih
    refine ⟨_, run.snoc ascending (processEvent_ok.mpr ⟨none, ?_, rfl⟩), rfl⟩
    rw [hnone₁]
    exact deliver_none _

theorem Run.wellFormed {m m' : ServiceManager} {events : List (String × EndpointEvent)}
    (run : Run m events m') (wf : WellFormed m.portServiceMap) : WellFormed m'.portServiceMap := by
  induction run with
  | nil => exact wf
  | snoc order _ step ih =>
    obtain ⟨sender, -, rfl⟩ := processEvent_ok.mp step
    exact effect_wellFormed order _ ih _

end StateProxy.Backend
