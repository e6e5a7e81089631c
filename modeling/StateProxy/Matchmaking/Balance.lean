import StateProxy.Matchmaking.Connections

/-! How the requests of a port are spread over its endpoints.  While the manager processes no event and
every endpoint of the port is available, the task with the number `i` selects the endpoint whose turn `i`
is, whenever it takes its steps, so the numbering of the requests decides where the connections go. -/

namespace StateProxy.Matchmaking

open Backend Net ProofKit ServiceManager

variable {C : Type}

/-- The address that `get_endpoint_for` has returned to the task. -/
def Stage.address? : Stage C → Option SocketAddr
  | .connecting address _ | .connected _ address _ | .noClient address _ => some address
  | .selecting | .noEndpoint | .panicked _ => none

namespace Connections

def Action.isRequest (number : Nat) : Action C → Bool
  | .request listener => listener == number
  | _ => false

/-- The tasks that a listener has spawned, but for the first `skip` tasks of all. -/
def spawned (number skip : Nat) (c : Connections C) : List (ConnectionTask C) :=
  (c.tasks.drop skip).filter (·.listener = number)

/-- The numbers of the tasks do not depend on their stages. -/
theorem spawned_indices (number skip : Nat) (c : Connections C) :
    (c.spawned number skip).map (·.i) =
      (((c.tasks.map fun task => (task.listener, task.i)).drop skip).filter (·.1 = number)).map (·.2) := by
  rw [spawned, ← List.map_drop, List.filter_map, List.map_map]
  rfl

variable {start c c' : Connections C} {number : Nat} {listener : Listener} {values : List Endpoint}
  {k : Nat}

/-- After `k` requests to a listener: the tasks that it has spawned since the start have the next `k`
numbers, and those that have selected an endpoint have the one whose turn it was. -/
structure Spread (start : Connections C) (number : Nat) (listener : Listener) (values : List Endpoint)
    (k : Nat) (c : Connections C) : Prop where
  manager : c.manager = start.manager
  counter : c.listeners[number]? = some ⟨listener.port, listener.i + k⟩
  length : start.tasks.length ≤ c.tasks.length
  indices : (c.spawned number start.tasks.length).map (·.i) = List.range' (listener.i + 1) k
  tasks : ∀ t task, start.tasks.length ≤ t → c.tasks[t]? = some task → task.listener = number →
    task.port = listener.port ∧ (task.stage = .selecting ∨
      task.stage.address? = (values[task.i % values.length]?).map (·.address))

theorem Spread.initial (hlistener : start.listeners[number]? = some listener) :
    Spread start number listener values 0 start := by
  refine ⟨rfl, hlistener, Nat.le_refl _, ?_, ?_⟩
  · rw [spawned, List.drop_length]
    rfl
  · intro t task hle htask
    rw [List.getElem?_eq_none hle] at htask
    cases htask

/-- A step that changes no task. -/
theorem Spread.of_same (spread : Spread start number listener values k c)
    (hmanager : c'.manager = c.manager) (hlistener : c'.listeners[number]? = c.listeners[number]?)
    (htasks : c'.tasks = c.tasks) : Spread start number listener values k c' := by
  refine ⟨hmanager.trans spread.manager, hlistener.trans spread.counter, ?_, ?_, ?_⟩
  · rw [htasks]
    exact spread.length
  · rw [spawned, htasks]
    exact spread.indices
  · rw [htasks]
    exact spread.tasks

/-- A request to another listener. -/
theorem Spread.other (spread : Spread start number listener values k c) {other : Nat}
    (hne : other ≠ number) {listener' : Listener} {task : ConnectionTask C}
    (htask : task.listener = other) (hlisteners : c'.listeners = c.listeners.set other listener')
    (hmanager : c'.manager = c.manager) (htasks : c'.tasks = c.tasks ++ [task]) :
    Spread start number listener values k c' := by
  refine ⟨hmanager.trans spread.manager, ?_, ?_, ?_, ?_⟩
  · rw [hlisteners, List.getElem?_set_ne hne]
    exact spread.counter
  · rw [htasks, List.length_append]
    exact Nat.le_add_right_of_le spread.length
  · have hsame : c'.spawned number start.tasks.length = c.spawned number start.tasks.length := by
      rw [spawned, htasks, List.drop_append_of_le_length spread.length, List.filter_append]
      simp [spawned, htask, hne]
    rw [hsame]
    exact spread.indices
  · intro t task' hle htask' hlistener
    rw [htasks, List.getElem?_append] at htask'
    split at htask'
    · exact spread.tasks t task' hle htask' hlistener
    · cases List.mem_singleton.mp (List.mem_of_getElem? htask')
      exact absurd (htask.symm.trans hlistener) hne

/-- A request to the listener, whose number does not wrap around. -/
theorem Spread.request (spread : Spread start number listener values k c)
    (hbound : listener.i + (k + 1) < 2 ^ 64) (h : c.step (.request number) = some c') :
    Spread start number listener values (k + 1) c' := by
  obtain ⟨found, hfound, rfl⟩ := request_step h
  rw [spread.counter] at hfound
  cases hfound
  have hnumber : (listener.i + k + 1) % 2 ^ 64 = listener.i + (k + 1) := by omega
  have hlt := (List.getElem?_eq_some_iff.mp spread.counter).1
  refine ⟨spread.manager, ?_, ?_, ?_, ?_⟩
  · rw [List.getElem?_set_self hlt, hnumber]
  · rw [List.length_append]
    exact Nat.le_add_right_of_le spread.length
  · have hindices := spread.indices
    rw [spawned] at hindices ⊢
    rw [List.drop_append_of_le_length spread.length, List.filter_append, List.map_append, hindices,
      List.range'_1_concat, hnumber]
    simp only [List.filter_cons, decide_true, if_true, List.filter_nil, List.map_cons, List.map_nil]
    congr 2
    omega
  · intro t task hle htask hlistener
    rw [List.getElem?_append] at htask
    split at htask
    · exact spread.tasks t task hle htask hlistener
    · cases List.mem_singleton.mp (List.mem_of_getElem? htask)
      exact ⟨rfl, .inl rfl⟩

section Turns

variable {order : IterOrder EndpointId}

/-- A step of a task, where the selection for `i` is the endpoint whose turn it is. -/
theorem Spread.advance (spread : Spread start number listener values k c)
    (hturn : ∀ i, getEndpointFor order start.manager.portServiceMap listener.port i =
      .ok ((values[i % values.length]?).map fun e => (e.address, e.protocol)))
    {t : Nat} (h : c.step (.advance t order) = some c') :
    Spread start number listener values k c' := by
  obtain ⟨task, stage, htask, hstage, rfl⟩ := advance_step h
  refine ⟨spread.manager, spread.counter, ?_, ?_, ?_⟩
  · rw [List.length_set]
    exact spread.length
  · have hindices := spread.indices
    rw [spawned_indices] at hindices ⊢
    have hlabel : (c.tasks.map fun task => (task.listener, task.i))[t]? = some (task.listener, task.i) := by
      rw [List.getElem?_map, htask]
      rfl
    obtain ⟨_, hlabel⟩ := List.getElem?_eq_some_iff.mp hlabel
    rw [List.map_set, ← hlabel, List.set_getElem_self]
    exact hindices
  · intro t' task' hle htask' hlistener
    by_cases heq : t = t'
    · subst heq
      have hlt := (List.getElem?_eq_some_iff.mp htask).1
      rw [List.getElem?_set_self hlt] at htask'
      cases htask'
      obtain ⟨hport, hbefore⟩ := spread.tasks t task hle htask hlistener
      refine ⟨hport, .inr ?_⟩
      rcases nextStage_cases hstage with ⟨-, found, hfound, hcases⟩ | ⟨address, protocol, hat, hcases⟩
      · rw [spread.manager, hport, hturn] at hfound
        subst hfound
        rcases hcases with ⟨address, protocol, hfound, rfl⟩ | ⟨hfound, rfl⟩ | ⟨panic, hfound, -⟩
        · obtain ⟨e, he, heq⟩ := Option.map_eq_some_iff.mp (Except.ok.inj hfound)
          cases heq
          simp [Stage.address?, he]
        · have hnone := Option.map_eq_none_iff.mp (Except.ok.inj hfound)
          simp [Stage.address?, hnone]
        · cases hfound
      · have haddress : stage.address? = task.stage.address? := by
          rcases hcases with ⟨client, -, rfl⟩ | ⟨-, rfl⟩
          · rw [hat]
            rfl
          · rw [hat]
            rfl
        rcases hbefore with hselecting | hbefore
        · rw [hat] at hselecting
          cases hselecting
        · exact haddress.trans hbefore
    · rw [List.getElem?_set_ne heq] at htask'
      exact spread.tasks t' task' hle htask' hlistener

variable {actions : List (Action C)}

theorem Reaches.spread (reaches : Reaches start actions c)
    (hquiet : ∀ order discovery event, .event order discovery event ∉ actions)
    (horder : ∀ task order', .advance task order' ∈ actions → order' = order)
    (hturn : ∀ i, getEndpointFor order start.manager.portServiceMap listener.port i =
      .ok ((values[i % values.length]?).map fun e => (e.address, e.protocol)))
    (hlistener : start.listeners[number]? = some listener)
    (hbound : listener.i + actions.countP (Action.isRequest number) < 2 ^ 64) :
    Spread start number listener values (actions.countP (Action.isRequest number)) c := by
  induction reaches with
  | nil => exact Spread.initial hlistener
  | @snoc actions action c c' reaches hstep ih =>
    rw [List.countP_append] at hbound ⊢
    have spread := ih (fun order discovery event hmem =>
        hquiet order discovery event (List.mem_append_left _ hmem))
      (fun task order' hmem => horder task order' (List.mem_append_left _ hmem)) (by omega)
    cases action with
    | event order discovery event =>
      exact absurd (List.mem_append_right _ (List.mem_singleton.mpr rfl))
        (hquiet order discovery event)
    | registerClient protocol client =>
      obtain ⟨hmanager, hlisteners, htasks⟩ := registerClient_step hstep
      exact spread.of_same hmanager (by rw [hlisteners]) htasks
    | listen port =>
      cases hstep
      have hlt := (List.getElem?_eq_some_iff.mp spread.counter).1
      exact spread.of_same rfl (List.getElem?_append_left hlt) rfl
    | request other =>
      by_cases heq : other = number
      · subst heq
        have hone : [Action.request other].countP (Action.isRequest (C := C) other) = 1 := by
          simp [Action.isRequest]
        rw [hone] at hbound ⊢
        exact spread.request (by omega) hstep
      · have hzero : [Action.request other].countP (Action.isRequest (C := C) number) = 0 := by
          simp [Action.isRequest, heq]
        rw [hzero]
        obtain ⟨found, -, rfl⟩ := request_step hstep
        exact spread.other heq rfl rfl rfl rfl
    | advance task order' =>
      cases horder task order' (List.mem_append_right _ (List.mem_singleton.mpr rfl))
      exact spread.advance hturn hstep

/-- The selection for an index is the endpoint whose turn it is. -/
theorem getEndpointFor_turn {map : ServiceMap} {port : UInt16} {service : Service}
    (hs : map.lookup port = some service) (hoccupied : service.endpoints ≠ ∅)
    (havailable : ∀ id e, endpointAt map port id = some e → e.isAvailable = true) (i : Nat) :
    getEndpointFor order map port i =
      .ok (((endpointValues order service)[i % (endpointValues order service).length]?).map
        fun e => (e.address, e.protocol)) := by
  have hvalues : ∀ e ∈ endpointValues order service, e.isAvailable = true := by
    intro e he
    obtain ⟨id, hid⟩ := mem_endpointValues he
    exact havailable id e (by simp [endpointAt, hs, hid])
  rw [getEndpointFor_selectedPosition hs hoccupied, selectedPosition_of_available hoccupied hvalues,
    Option.bind_some, length_endpointValues]

/-- A task that was given an address was given that of the endpoint whose turn it was. -/
theorem Spread.mem_spawned (spread : Spread start number listener values k c)
    {task : ConnectionTask C} (hmem : task ∈ c.spawned number start.tasks.length) :
    task.stage = .selecting ∨
      task.stage.address? = (values[task.i % values.length]?).map (·.address) := by
  obtain ⟨hmem, hlistener⟩ := List.mem_filter.mp hmem
  obtain ⟨t, htask⟩ := List.mem_iff_getElem?.mp hmem
  rw [List.getElem?_drop] at htask
  exact (spread.tasks _ task (Nat.le_add_right _ t) htask (by simpa using hlistener)).2

/-- The tasks whose turn it was to take an address, as turns. -/
theorem Spread.countP_turn (spread : Spread start number listener values k c) (q : Endpoint → Bool) :
    (c.spawned number start.tasks.length).countP (fun task => turn q values task.i) =
      (List.range' (listener.i + 1) k).countP (turn q values) := by
  rw [← spread.indices, List.countP_map]
  rfl

/-- While no event is processed and all `n` endpoints of a port are available: of `k` requests to a
listener of the port, whose numbers do not wrap around, each leads to one task, and whatever the order of
all steps, an address that `holders` of the endpoints have is given to at most `holders` times `k / n`
tasks, rounded up, and to at least as many, rounded down, once all of them have selected. -/
theorem connections_are_spread (reaches : Reaches start actions c)
    (hquiet : ∀ order discovery event, .event order discovery event ∉ actions)
    (horder : ∀ task order', .advance task order' ∈ actions → order' = order)
    (hlistener : start.listeners[number]? = some listener) {service : Service}
    (hs : start.manager.portServiceMap.lookup listener.port = some service)
    (hoccupied : service.endpoints ≠ ∅)
    (havailable : ∀ id e, endpointAt start.manager.portServiceMap listener.port id = some e →
      e.isAvailable = true)
    (hbound : listener.i + actions.countP (Action.isRequest number) < 2 ^ 64)
    (address : SocketAddr) :
    let k := actions.countP (Action.isRequest number)
    let n := service.endpoints.keys.card
    let tasks := c.spawned number start.tasks.length
    let given := tasks.countP (·.stage.address? = some address)
    let holders := (endpointValues order service).countP (·.address = address)
    tasks.length = k ∧ given ≤ holders * (k ⌈/⌉ n) ∧
      ((∀ task ∈ tasks, task.stage ≠ .selecting) → holders * (k / n) ≤ given) := by
  intro k n tasks given holders
  have spread := reaches.spread hquiet horder (getEndpointFor_turn hs hoccupied havailable) hlistener hbound
  have hne : endpointValues order service ≠ [] := by
    rw [← List.length_pos_iff, length_endpointValues]
    exact Nat.pos_of_ne_zero (card_pos_of_occupied hoccupied)
  obtain ⟨hleast, hmost⟩ := countP_turn (·.address = address) hne (listener.i + 1) k
  rw [← spread.countP_turn, length_endpointValues] at hleast hmost
  refine ⟨?_, ?_, fun hselected => ?_⟩
  · have hlength := congrArg List.length spread.indices
    rwa [List.length_map, List.length_range'] at hlength
  · refine (List.countP_mono_left fun task hmem hgiven => ?_).trans hmost
    rw [decide_eq_true_eq] at hgiven
    rcases spread.mem_spawned hmem with hselecting | haddress
    · rw [hselecting] at hgiven
      cases hgiven
    · rw [hgiven] at haddress
      obtain ⟨e, he, heq⟩ := Option.map_eq_some_iff.mp haddress.symm
      simp [turn, he, heq]
  · refine hleast.trans (List.countP_mono_left fun task hmem hturn => ?_)
    rw [decide_eq_true_eq]
    rcases spread.mem_spawned hmem with hselecting | haddress
    · exact absurd hselecting (hselected task hmem)
    · rw [turn, Option.any_eq_true] at hturn
      obtain ⟨e, he, heq⟩ := hturn
      rw [haddress, he, Option.map_some, of_decide_eq_true heq]

end Turns

/-- Four requests to a listener, with the steps of their tasks in between. -/
def fourRequests : List (Action String) :=
  [.request 0, .request 0, .advance 1 byName, .request 0, .advance 2 byName, .advance 0 byName,
    .request 0, .advance 3 byName]

/-- One listener on a port with three endpoints. -/
def oneListener (manager : ServiceManager) : Connections String := ⟨manager, ∅, [⟨80, 0⟩], []⟩

theorem fourRequests_are_spread :
    ∃ m c, Run .new allThree m ∧ Reaches (oneListener m) fourRequests c ∧
      (c.spawned 0 0).length = 4 ∧
      (c.spawned 0 0).countP (·.stage.address? = some (.v4 ⟨10, 0, 0, 2⟩ 8080)) ≤ 2 ∧
      1 ≤ (c.spawned 0 0).countP (·.stage.address? = some (.v4 ⟨10, 0, 0, 2⟩ 8080)) := by
  have hresult : (processAll ascending .new allThree).bind (fun m =>
      (fourRequests.foldlM step (oneListener m)).bind fun c =>
        (m.portServiceMap.lookup 80).map fun service =>
          (service.endpoints.keys.card, (endpointValues byName service).all (·.isAvailable),
            (endpointValues byName service).countP (·.address = .v4 ⟨10, 0, 0, 2⟩ 8080),
            (c.spawned 0 0).all (·.stage ≠ .selecting))) = some (3, true, 1, true) := by decide +kernel
  obtain ⟨m, hm, hresult⟩ := Option.bind_eq_some_iff.mp hresult
  obtain ⟨c, hc, hresult⟩ := Option.bind_eq_some_iff.mp hresult
  obtain ⟨service, hs, hresult⟩ := Option.map_eq_some_iff.mp hresult
  obtain ⟨hcard, hresult⟩ := Prod.mk.inj hresult
  obtain ⟨hall, hresult⟩ := Prod.mk.inj hresult
  obtain ⟨hholders, hselected⟩ := Prod.mk.inj hresult
  have run : Run .new allThree m := (Run.nil ServiceManager.new).extend hm
  have wf : WellFormed (oneListener m).manager.portServiceMap := run.wellFormed wellFormed_empty
  have reaches : Reaches (oneListener m) fourRequests c := Reaches.nil.extend hc
  have hlistener : (oneListener m).listeners[0]? = some ⟨80, 0⟩ := rfl
  have horder : ∀ task order', .advance task order' ∈ fourRequests → order' = byName := by
    intro task order' hmem
    have hcases : task = 1 ∧ order' = byName ∨ task = 2 ∧ order' = byName ∨
        task = 0 ∧ order' = byName ∨ task = 3 ∧ order' = byName := by
      simpa [fourRequests] using hmem
    rcases hcases with ⟨-, h⟩ | ⟨-, h⟩ | ⟨-, h⟩ | ⟨-, h⟩
    all_goals exact h
  have havailable : ∀ id e, endpointAt m.portServiceMap 80 id = some e → e.isAvailable = true := by
    intro id e he
    have hid : service.endpoints.lookup id = some e := by simpa [endpointAt, hs] using he
    exact List.all_eq_true.mp hall e (mem_endpointValues_iff.mpr ⟨id, hid⟩)
  obtain ⟨hlength, hmost, hleast⟩ := connections_are_spread reaches (by simp [fourRequests]) horder
    hlistener hs (wf.occupied hs) havailable (by decide) (.v4 ⟨10, 0, 0, 2⟩ 8080)
  rw [hcard, hholders] at hmost hleast
  refine ⟨m, c, run, reaches, hlength, hmost, hleast fun task hmem => ?_⟩
  exact of_decide_eq_true (List.all_eq_true.mp hselected task hmem)

end Connections

end StateProxy.Matchmaking
