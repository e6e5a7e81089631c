import StateProxy.Backend.Selection
import StateProxy.ProofKit.Registry
import StateProxy.ProofKit.Turns

/-! The connection requests of the matchmaker.  `new_connection_sender` spawns a task for a port that
numbers the requests it receives and spawns for each another task, which selects an endpoint, looks up the
client of its protocol and lets it connect; there the source ends in `unimplemented!()`.  A client is a
value of any type.  The tasks take their steps in any order, between each other and between the events that
the service manager processes: a step is what a task does from one lock to the next. -/

namespace StateProxy.Matchmaking

open Backend Net ProofKit ServiceManager

variable {C : Type}

/-- Where the task of a request stands. -/
inductive Stage (C : Type)
  /-- Before `get_endpoint_for`. -/
  | selecting
  /-- Before the lookup of the client. -/
  | connecting (address : SocketAddr) (protocol : String)
  /-- `connect` was called; `unimplemented!()` has ended the task. -/
  | connected (client : C) (address : SocketAddr) (protocol : String)
  /-- The `unwrap` of the endpoint has ended the task. -/
  | noEndpoint
  /-- The `unwrap` of the client has ended the task. -/
  | noClient (address : SocketAddr) (protocol : String)
  /-- A panic of `get_endpoint_for` has ended the task. -/
  | panicked (panic : Panic)
deriving DecidableEq

/-- The task of a request: the number of the listener that spawned it, and what it was spawned with. -/
structure ConnectionTask (C : Type) where
  listener : Nat
  port : UInt16
  i : Nat
  stage : Stage C

/-- The task that `new_connection_sender` spawns. -/
structure Listener where
  port : UInt16
  i : Nat

structure Connections (C : Type) where
  manager : ServiceManager
  protocolClients : HashMap String C
  listeners : List Listener
  tasks : List (ConnectionTask C)

namespace Connections

def new (manager : ServiceManager) : Connections C := ⟨manager, ∅, [], []⟩

/-- `register_client`, for a client whose protocol has the given name. -/
def registerClient (protocol : String) (client : C) : EStateM String (Connections C) Unit := do
  let c ← get
  match c.protocolClients.lookup protocol with
  | none => set { c with protocolClients := c.protocolClients.insert protocol client }
  | some _ => throw s!"a client for the {protocol} protocol is already registered"

/-- `new_connection_sender`. -/
def newConnectionSender (port : UInt16) (c : Connections C) : Connections C :=
  { c with listeners := c.listeners ++ [⟨port, 0⟩] }

/-- The body of the loop over the requests; `usize` has 64 bits. -/
def receiveRequest (number : Nat) (c : Connections C) : Option (Connections C) := do
  let listener ← c.listeners[number]?
  -- `i.overflowing_add(1).0`
  let i := (listener.i + 1) % 2 ^ 64
  return { c with
    listeners := c.listeners.set number { listener with i }
    tasks := c.tasks ++ [⟨number, listener.port, i, .selecting⟩] }

/-- The next step of a task, if it has not ended. -/
def nextStage (order : IterOrder EndpointId) (c : Connections C) (task : ConnectionTask C) :
    Option (Stage C) :=
  match task.stage with
  | .selecting =>
    match getEndpointFor order c.manager.portServiceMap task.port task.i with
    | .ok (some (address, protocol)) => some (.connecting address protocol)
    | .ok none => some .noEndpoint
    | .error panic => some (.panicked panic)
  | .connecting address protocol =>
    match c.protocolClients.lookup protocol with
    | some client => some (.connected client address protocol)
    | none => some (.noClient address protocol)
  | _ => none

def advance (number : Nat) (order : IterOrder EndpointId) (c : Connections C) :
    Option (Connections C) := do
  let task ← c.tasks[number]?
  let stage ← nextStage order c task
  return { c with tasks := c.tasks.set number { task with stage } }

inductive Action (C : Type)
  /-- The manager processes an event; if that panics, its state stays as it was reached. -/
  | event (order : IterOrder UInt16) (discovery : String) (event : EndpointEvent)
  | registerClient (protocol : String) (client : C)
  | listen (port : UInt16)
  | request (listener : Nat)
  | advance (task : Nat) (order : IterOrder EndpointId)

def step (c : Connections C) : Action C → Option (Connections C)
  | .event order discovery event =>
    some { c with manager := (outcome (processEvent order discovery event c.manager)).2 }
  | .registerClient protocol client => some (outcome (registerClient protocol client c)).2
  | .listen port => some (c.newConnectionSender port)
  | .request listener => c.receiveRequest listener
  | .advance task order => c.advance task order

/-- The actions lead from one state to the other. -/
inductive Reaches (start : Connections C) : List (Action C) → Connections C → Prop
  | nil : Reaches start [] start
  | snoc {actions : List (Action C)} {action : Action C} {c c' : Connections C} :
      Reaches start actions c → c.step action = some c' → Reaches start (actions ++ [action]) c'

/-! ### What a step changes -/

variable {c c' : Connections C} {start : Connections C} {actions : List (Action C)}

theorem registerClient_registers : Registers
    (fun entry : String × C => Connections.registerClient entry.1 entry.2) Connections.protocolClients
    (fun c protocolClients => { c with protocolClients }) Prod.fst Prod.snd
    (fun entry => s!"a client for the {entry.1} protocol is already registered") := by
  refine ⟨fun _ _ => rfl, ?_, ?_⟩
  · intro entry c hfree
    have hget : (get : EStateM String (Connections C) _) c = .ok c c := rfl
    simp only [registerClient, bind_of_ok hget, hfree]
    rfl
  · intro entry c htaken
    have hget : (get : EStateM String (Connections C) _) c = .ok c c := rfl
    obtain ⟨held, hheld⟩ := Option.ne_none_iff_exists'.mp htaken
    simp only [registerClient, bind_of_ok hget, hheld]
    rfl

/-- A registration leaves everything but the clients as it was. -/
theorem registerClient_step {protocol : String} {client : C}
    (h : c.step (.registerClient protocol client) = some c') :
    c'.manager = c.manager ∧ c'.listeners = c.listeners ∧ c'.tasks = c.tasks := by
  obtain rfl := Option.some.inj h
  rcases registerClient_registers.outcome_cases (protocol, client) c with ⟨-, hcall⟩ | ⟨-, hcall⟩
  · dsimp only at hcall
    rw [hcall]
    exact ⟨rfl, rfl, rfl⟩
  · dsimp only at hcall
    rw [hcall]
    exact ⟨rfl, rfl, rfl⟩

theorem request_step {number : Nat} (h : c.step (.request number) = some c') :
    ∃ listener, c.listeners[number]? = some listener ∧
      c' = { c with
        listeners := c.listeners.set number { listener with i := (listener.i + 1) % 2 ^ 64 }
        tasks := c.tasks ++ [⟨number, listener.port, (listener.i + 1) % 2 ^ 64, .selecting⟩] } := by
  obtain ⟨listener, hlistener, h⟩ := Option.bind_eq_some_iff.mp h
  exact ⟨listener, hlistener, (Option.some.inj h).symm⟩

theorem advance_step {number : Nat} {order : IterOrder EndpointId}
    (h : c.step (.advance number order) = some c') :
    ∃ task stage, c.tasks[number]? = some task ∧ nextStage order c task = some stage ∧
      c' = { c with tasks := c.tasks.set number { task with stage } } := by
  obtain ⟨task, htask, h⟩ := Option.bind_eq_some_iff.mp h
  obtain ⟨stage, hstage, h⟩ := Option.bind_eq_some_iff.mp h
  exact ⟨task, stage, htask, hstage, (Option.some.inj h).symm⟩

theorem nextStage_cases {order : IterOrder EndpointId} {task : ConnectionTask C} {stage : Stage C}
    (h : nextStage order c task = some stage) :
    (task.stage = .selecting ∧ ∃ found,
      getEndpointFor order c.manager.portServiceMap task.port task.i = found ∧
      ((∃ address protocol, found = .ok (some (address, protocol)) ∧
          stage = .connecting address protocol) ∨
        (found = .ok none ∧ stage = .noEndpoint) ∨
        ∃ panic, found = .error panic ∧ stage = .panicked panic)) ∨
    ∃ address protocol, task.stage = .connecting address protocol ∧
      ((∃ client, c.protocolClients.lookup protocol = some client ∧
          stage = .connected client address protocol) ∨
        (c.protocolClients.lookup protocol = none ∧ stage = .noClient address protocol)) := by
  unfold nextStage at h
  cases hstage : task.stage with
  | selecting =>
    rw [hstage] at h
    refine .inl ⟨rfl, _, rfl, ?_⟩
    cases hfound : getEndpointFor order c.manager.portServiceMap task.port task.i with
    | error panic =>
      rw [hfound] at h
      exact .inr (.inr ⟨panic, rfl, (Option.some.inj h).symm⟩)
    | ok found =>
      rw [hfound] at h
      cases found with
      | none => exact .inr (.inl ⟨rfl, (Option.some.inj h).symm⟩)
      | some found => exact .inl ⟨found.1, found.2, rfl, (Option.some.inj h).symm⟩
  | connecting address protocol =>
    rw [hstage] at h
    refine .inr ⟨address, protocol, rfl, ?_⟩
    cases hclient : c.protocolClients.lookup protocol with
    | some client =>
      simp only [hclient] at h
      exact .inl ⟨client, rfl, (Option.some.inj h).symm⟩
    | none =>
      simp only [hclient] at h
      exact .inr ⟨rfl, (Option.some.inj h).symm⟩
  | connected client address protocol =>
    rw [hstage] at h
    cases h
  | noEndpoint =>
    rw [hstage] at h
    cases h
  | noClient address protocol =>
    rw [hstage] at h
    cases h
  | panicked panic =>
    rw [hstage] at h
    cases h

/-! ### Where the connections go -/

/-- The clients that the actions register, with their protocols. -/
def registrations : List (Action C) → List (String × C)
  | [] => []
  | .registerClient protocol client :: actions => (protocol, client) :: registrations actions
  | _ :: actions => registrations actions

theorem registrations_append (actions more : List (Action C)) :
    registrations (actions ++ more) = registrations actions ++ registrations more := by
  induction actions with
  | nil => rfl
  | cons action actions ih =>
    cases action with
    | registerClient protocol client => simp only [List.cons_append, registrations, ih]
    | _ => simpa only [List.cons_append, registrations] using ih

/-- The first client that the actions register for a protocol. -/
def firstClient (actions : List (Action C)) (protocol : String) : Option C :=
  ((registrations actions).find? (·.1 = protocol)).map (·.2)

/-- In a state on the way the task was selecting, and its next step has selected the endpoint. -/
def Selected (manager : ServiceManager) (actions : List (Action C)) (number : Nat)
    (task : ConnectionTask C) (address : SocketAddr) (protocol : String) : Prop :=
  ∃ before order after c, actions = before ++ .advance number order :: after ∧
    Reaches (new manager) before c ∧ c.tasks[number]? = some { task with stage := .selecting } ∧
    getEndpointFor order c.manager.portServiceMap task.port task.i = .ok (some (address, protocol))

/-- What a stage of a task says about the actions. -/
def Traced (manager : ServiceManager) (actions : List (Action C)) (number : Nat)
    (task : ConnectionTask C) : Stage C → Prop
  | .connecting address protocol | .noClient address protocol =>
    Selected manager actions number task address protocol
  | .connected client address protocol =>
    Selected manager actions number task address protocol ∧ firstClient actions protocol = some client
  | _ => True

variable {manager : ServiceManager} {number : Nat} {task : ConnectionTask C}

theorem firstClient_append {protocol : String} {client : C}
    (h : firstClient actions protocol = some client) (more : List (Action C)) :
    firstClient (actions ++ more) protocol = some client := by
  rw [firstClient, registrations_append, List.find?_append, Option.map_or]
  rw [firstClient] at h
  rw [h, Option.some_or]

theorem Selected.append {address : SocketAddr} {protocol : String}
    (h : Selected manager actions number task address protocol) (more : List (Action C)) :
    Selected manager (actions ++ more) number task address protocol := by
  obtain ⟨before, order, after, c, rfl, reaches, hselecting, hfound⟩ := h
  refine ⟨before, order, after ++ more, c, ?_, reaches, hselecting, hfound⟩
  rw [List.append_assoc, List.cons_append]

theorem Traced.append {stage : Stage C} (h : Traced manager actions number task stage)
    (more : List (Action C)) : Traced manager (actions ++ more) number task stage := by
  cases stage with
  | connecting address protocol => exact Selected.append h more
  | noClient address protocol => exact Selected.append h more
  | connected client address protocol =>
    exact ⟨Selected.append h.1 more, firstClient_append h.2 more⟩
  | selecting => exact trivial
  | noEndpoint => exact trivial
  | panicked panic => exact trivial

/-- The clients are the first ones registered, and the stages of the tasks say what happened. -/
structure History (manager : ServiceManager) (actions : List (Action C)) (c : Connections C) :
    Prop where
  clients : FirstOf (registrations actions) c.protocolClients
  tasks : ∀ number task, c.tasks[number]? = some task →
    Traced manager actions number task task.stage

/-- An action that registers no client and changes no task. -/
theorem History.of_same {action : Action C} (history : History manager actions c)
    (hnone : registrations [action] = []) (hclients : c'.protocolClients = c.protocolClients)
    (htasks : c'.tasks = c.tasks) : History manager (actions ++ [action]) c' := by
  constructor
  · rw [registrations_append, hnone, List.append_nil, hclients]
    exact history.clients
  · intro number task htask
    rw [htasks] at htask
    exact (history.tasks number task htask).append _

/-- The stage that a task goes to. -/
theorem History.nextStage (history : History manager actions c)
    (reaches : Reaches (new manager) actions c) {order : IterOrder EndpointId} {stage : Stage C}
    (htask : c.tasks[number]? = some task) (hstage : nextStage order c task = some stage) :
    Traced manager (actions ++ [.advance number order]) number task stage := by
  rcases nextStage_cases hstage with ⟨hat, found, hfound, hcases⟩ | ⟨address, protocol, hat, hcases⟩
  · rcases hcases with ⟨address, protocol, rfl, rfl⟩ | ⟨-, rfl⟩ | ⟨panic, -, rfl⟩
    · refine ⟨actions, order, [], c, rfl, reaches, ?_, hfound⟩
      rw [htask, ← hat]
    · exact trivial
    · exact trivial
  · have htraced := history.tasks number task htask
    rw [hat] at htraced
    have hselected := Selected.append htraced [.advance number order]
    rcases hcases with ⟨client, hclient, rfl⟩ | ⟨-, rfl⟩
    · refine ⟨hselected, firstClient_append ?_ _⟩
      rw [firstClient, ← history.clients, hclient]
    · exact hselected

theorem History.step {action : Action C} (history : History manager actions c)
    (reaches : Reaches (new manager) actions c) (h : c.step action = some c') :
    History manager (actions ++ [action]) c' := by
  cases action with
  | event order discovery event =>
    cases h
    exact history.of_same rfl rfl rfl
  | registerClient protocol client =>
    obtain ⟨-, -, htasks⟩ := registerClient_step h
    constructor
    · rw [registrations_append, ← Option.some.inj h]
      exact registerClient_registers.firstOf history.clients (protocol, client)
    · intro number task htask
      rw [htasks] at htask
      exact (history.tasks number task htask).append _
  | listen port =>
    cases h
    exact history.of_same rfl rfl rfl
  | request number =>
    obtain ⟨listener, -, rfl⟩ := request_step h
    constructor
    · rw [registrations_append]
      simpa only [registrations, List.append_nil] using history.clients
    · intro number' task htask
      rw [List.getElem?_append] at htask
      split at htask
      · exact (history.tasks number' task htask).append _
      · cases List.mem_singleton.mp (List.mem_of_getElem? htask)
        exact trivial
  | advance number order =>
    obtain ⟨task, stage, htask, hstage, rfl⟩ := advance_step h
    have htraced := history.nextStage reaches htask hstage
    constructor
    · rw [registrations_append]
      simpa only [registrations, List.append_nil] using history.clients
    · intro number' task' htask'
      rw [List.getElem?_set] at htask'
      split at htask'
      · rename_i heq
        subst heq
        split at htask'
        · cases htask'
          exact htraced
        · cases htask'
      · exact (history.tasks number' task' htask').append _

theorem Reaches.history (reaches : Reaches (new manager) actions c) : History manager actions c := by
  induction reaches with
  | nil => exact ⟨FirstOf.empty, nofun⟩
  | snoc reaches hstep ih => exact ih.step reaches hstep

theorem Reaches.extend (reaches : Reaches start actions c) {more : List (Action C)}
    (h : more.foldlM step c = some c') : Reaches start (actions ++ more) c' := by
  induction more generalizing actions c with
  | nil =>
    cases h
    rwa [List.append_nil]
  | cons action more ih =>
    rw [List.foldlM_cons] at h
    obtain ⟨c₁, hstep, h⟩ := Option.bind_eq_some_iff.mp h
    have hmore := ih (reaches.snoc hstep) h
    rwa [List.append_assoc] at hmore

/-- However requests, registrations, events and the steps of the tasks interleave: when the task of a
request has called `connect`, then in a state on the way the task was selecting, its step has selected the
address and the protocol of an endpoint that was available there on its port, and the client is the first
that was registered for the protocol. -/
theorem connections_go_to_available_endpoints (reaches : Reaches (new manager) actions c)
    (htask : c.tasks[number]? = some task) {client : C} {address : SocketAddr} {protocol : String}
    (hstage : task.stage = .connected client address protocol) :
    (∃ before order after c₁ id e, actions = before ++ .advance number order :: after ∧
      Reaches (new manager) before c₁ ∧
      c₁.tasks[number]? = some { task with stage := .selecting } ∧
      getEndpointFor order c₁.manager.portServiceMap task.port task.i = .ok (some (address, protocol)) ∧
      endpointAt c₁.manager.portServiceMap task.port id = some e ∧
      e.isAvailable = true ∧ e.address = address ∧ e.protocol = protocol) ∧
    ((registrations actions).find? (·.1 = protocol)).map (·.2) = some client := by
  have htraced := reaches.history.tasks number task htask
  rw [hstage] at htraced
  obtain ⟨⟨before, order, after, c₁, hactions, hbefore, hselecting, hfound⟩, hclient⟩ := htraced
  refine ⟨?_, hclient⟩
  obtain ⟨id, e, hat, havailable, heq⟩ := getEndpointFor_eq_some hfound
  obtain ⟨haddress, hprotocol⟩ := Prod.mk.inj heq
  exact ⟨before, order, after, c₁, id, e, hactions, hbefore, hselecting, hfound, hat, havailable,
    haddress.symm, hprotocol.symm⟩

/-- A manager whose consumer of port events is gone. -/
def noConsumer : ServiceManager := { ServiceManager.new with portEventSender := some ⟨[], some 0⟩ }

/-- One request on a port with one endpoint, with a second client for the protocol.  The endpoint was added
by a call that then panicked, and is suspended before the client connects. -/
def oneRequest : List (Action String) :=
  [.event ascending "pods" (.add "a" true 80 "http" (.v4 ⟨10, 0, 0, 1⟩ 8080) "http"),
    .registerClient "http" "first", .listen 80, .request 0, .registerClient "http" "second",
    .advance 0 byName, .event ascending "pods" (.suspend "a"), .advance 0 byName]

theorem oneRequest_goes_to_first_client :
    ∃ c task, Reaches (new noConsumer) oneRequest c ∧ c.tasks[0]? = some task ∧
      task.stage = .connected "first" (.v4 ⟨10, 0, 0, 1⟩ 8080) "http" ∧
      (endpointAt c.manager.portServiceMap 80 ⟨"pods", "a"⟩).map (·.isAvailable) = some false ∧
      (∃ before order after c₁ id e, oneRequest = before ++ .advance 0 order :: after ∧
        Reaches (new noConsumer) before c₁ ∧
        c₁.tasks[0]? = some { task with stage := .selecting } ∧
        endpointAt c₁.manager.portServiceMap task.port id = some e ∧ e.isAvailable = true) ∧
      ((registrations oneRequest).find? (·.1 = "http")).map (·.2) = some "first" := by
  have hresult : ((oneRequest.foldlM step (new noConsumer)).bind fun c => (c.tasks[0]?).map fun task =>
      (task.stage, (endpointAt c.manager.portServiceMap 80 ⟨"pods", "a"⟩).map (·.isAvailable))) =
      some (.connected "first" (.v4 ⟨10, 0, 0, 1⟩ 8080) "http", some false) := by decide +kernel
  obtain ⟨c, hrun, hresult⟩ := Option.bind_eq_some_iff.mp hresult
  obtain ⟨task, htask, hresult⟩ := Option.map_eq_some_iff.mp hresult
  obtain ⟨hstage, hsuspended⟩ := Prod.mk.inj hresult
  have reaches : Reaches (new noConsumer) oneRequest c := Reaches.nil.extend hrun
  obtain ⟨⟨before, order, after, c₁, id, e, hactions, hbefore, hselecting, -, hat, havailable, -⟩,
    hclient⟩ := connections_go_to_available_endpoints reaches htask hstage
  exact ⟨c, task, reaches, htask, hstage, hsuspended,
    ⟨before, order, after, c₁, id, e, hactions, hbefore, hselecting, hat, havailable⟩, hclient⟩

end Connections

end StateProxy.Matchmaking
