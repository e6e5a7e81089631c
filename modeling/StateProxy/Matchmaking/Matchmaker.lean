import StateProxy.Backend.Mirror
import StateProxy.ProofKit.Registry

/-! The matchmaker, which lets the protocol servers listen on the ports that the service manager opens.
A protocol server is a value of any type; what the matchmaker asks of the servers is kept as the list of
its calls.  The `Close` branch takes the server of a port out of `open_ports`, but no branch puts one in:
so no server is ever muted, and the listeners match the open ports only before the first `Open`. -/

namespace StateProxy.Matchmaking

open Backend Net ProofKit

variable {S : Type}

/-- A call of a method of a protocol server. -/
inductive ServerCall (S : Type)
  | listen (server : S) (bindTo : SocketAddr)
  | mute (server : S) (port : UInt16)
deriving DecidableEq, Repr

structure Matchmaker (S : Type) where
  protocolServers : HashMap String S
  openPorts : HashMap UInt16 S
  /-- The calls of the servers' methods so far. -/
  calls : List (ServerCall S)
  /-- The warnings logged so far. -/
  warnings : List String

inductive Failure
  /-- An `Err`, with its message. -/
  | err (message : String)
  /-- `assert!(self.open_ports.read().await.get(&port).is_none())`. -/
  | assertionFailed
deriving DecidableEq, Repr

abbrev MatchmakerM (S : Type) := EStateM Failure (Matchmaker S)

namespace Matchmaker

def new : Matchmaker S := ⟨∅, ∅, [], []⟩

/-- `register_server`, for a server whose protocol has the given name. -/
def registerServer (protocol : String) (server : S) : MatchmakerM S Unit := do
  let m ← get
  match m.protocolServers.lookup protocol with
  | none => set { m with protocolServers := m.protocolServers.insert protocol server }
  | some _ => throw (.err s!"a server for the {protocol} protocol is already registered")

def callServer (call : ServerCall S) : MatchmakerM S Unit :=
  modify fun m => { m with calls := m.calls ++ [call] }

def warn (line : String) : MatchmakerM S Unit :=
  modify fun m => { m with warnings := m.warnings ++ [line] }

def handlePortEvent : PortEvent → MatchmakerM S Unit
  | .openPort port protocol => do
    let m ← get
    match m.protocolServers.lookup protocol with
    | none => throw (.err s!"unknown protocol: {protocol}")
    | some protocolServer =>
      if (m.openPorts.lookup port).isSome then throw .assertionFailed
      callServer (.listen protocolServer (.v4 ⟨0, 0, 0, 0⟩ port))
  | .closePort port => do
    let m ← get
    match m.openPorts.lookup port with
    | none => warn s!"Received a close port event for a port that is not open: {port}"
    | some protocolServer =>
      set { m with openPorts := m.openPorts.erase port }
      callServer (.mute protocolServer port)

/-- The loop of `run`, up to the first event that is not handled with `Ok`. -/
def handlePortEvents : List PortEvent → MatchmakerM S Unit
  | [] => pure ()
  | event :: events => do
    handlePortEvent event
    handlePortEvents events

/-- No port event was handled yet. -/
structure Fresh (m : Matchmaker S) : Prop where
  openPorts : m.openPorts = ∅
  calls : m.calls = []

end Matchmaker

open Matchmaker

/-- `listen` was called on the server for the port, and `mute` not since. -/
def Listening (calls : List (ServerCall S)) (server : S) (port : UInt16) : Prop :=
  ∃ before bindTo after, calls = before ++ .listen server bindTo :: after ∧ bindTo.port = port ∧
    .mute server port ∉ after

/-- The servers listen on the open ports, which `open_ports` maps to the servers of their
protocols. -/
structure ListenersMatch (ports : UInt16 → Option String) (m : Matchmaker S) : Prop where
  listening : ∀ port, (∃ server, Listening m.calls server port) ↔ ports port ≠ none
  keys : ∀ port, port ∈ m.openPorts ↔ ports port ≠ none
  server : ∀ port protocol, ports port = some protocol →
    m.openPorts.lookup port = m.protocolServers.lookup protocol

/-- The call that an event leads to. -/
def listenCall (servers : HashMap String S) : PortEvent → Option (ServerCall S)
  | .openPort port protocol =>
    (servers.lookup protocol).map fun server => .listen server (.v4 ⟨0, 0, 0, 0⟩ port)
  | .closePort _ => none

/-- Every `Open` names the protocol of a registered server. -/
def Registered (servers : HashMap String S) (events : List PortEvent) : Prop :=
  ∀ port protocol, .openPort port protocol ∈ events → protocol ∈ servers

theorem registerServer_registers : Registers
    (fun entry : String × S => Matchmaker.registerServer entry.1 entry.2) Matchmaker.protocolServers
    (fun m protocolServers => { m with protocolServers }) Prod.fst Prod.snd
    (fun entry => .err s!"a server for the {entry.1} protocol is already registered") := by
  refine ⟨fun _ _ => rfl, ?_, ?_⟩
  · intro entry m hfree
    have hget : (get : MatchmakerM S _) m = .ok m m := rfl
    simp only [registerServer, bind_of_ok hget, hfree]
    rfl
  · intro entry m htaken
    have hget : (get : MatchmakerM S _) m = .ok m m := rfl
    obtain ⟨held, hheld⟩ := Option.ne_none_iff_exists'.mp htaken
    simp only [registerServer, bind_of_ok hget, hheld]
    rfl

theorem registerServer_fresh {protocol : String} {server : S} {m m' : Matchmaker S} {a : Unit}
    (h : registerServer protocol server m = .ok a m') (fresh : m.Fresh) : m'.Fresh := by
  rcases registerServer_registers.outcome_cases (protocol, server) m with ⟨-, hcall⟩ | ⟨-, hcall⟩
  · dsimp only at hcall
    rw [h] at hcall
    obtain ⟨-, rfl⟩ := Prod.mk.inj hcall
    exact ⟨fresh.openPorts, fresh.calls⟩
  · dsimp only at hcall
    rw [h] at hcall
    cases (Prod.mk.inj hcall).1

/-- While `open_ports` is empty, an event is handled with `Ok` and leaves it empty. -/
theorem handlePortEvent_ok {event : PortEvent} {m : Matchmaker S} (hopen : m.openPorts = ∅)
    (hregistered : Registered m.protocolServers [event]) :
    ∃ m', handlePortEvent event m = .ok () m' ∧ m'.openPorts = ∅ ∧
      m'.protocolServers = m.protocolServers ∧
      m'.calls = m.calls ++ (listenCall m.protocolServers event).toList := by
  have hget : (get : MatchmakerM S _) m = .ok m m := rfl
  cases event with
  | openPort port protocol =>
    obtain ⟨server, hserver⟩ := Finmap.mem_iff.mp (hregistered port protocol List.mem_cons_self)
    have hnone : m.openPorts.lookup port = none := by rw [hopen, Finmap.lookup_empty]
    refine ⟨{ m with calls := m.calls ++ [.listen server (.v4 ⟨0, 0, 0, 0⟩ port)] }, ?_, hopen, rfl, ?_⟩
    · simp only [handlePortEvent, bind_of_ok hget, hserver, hnone]
      rfl
    · simp [listenCall, hserver]
  | closePort port =>
    have hnone : m.openPorts.lookup port = none := by rw [hopen, Finmap.lookup_empty]
    refine ⟨{ m with warnings := m.warnings ++
      [s!"Received a close port event for a port that is not open: {port}"] }, ?_, hopen, rfl, ?_⟩
    · simp only [handlePortEvent, bind_of_ok hget, hnone]
      rfl
    · simp [listenCall]

/-- So are all events of a run, and every `Open` among them has led to a `listen` and no `Close` to a
`mute`. -/
theorem handlePortEvents_ok {events : List PortEvent} {m : Matchmaker S} (hopen : m.openPorts = ∅)
    (hregistered : Registered m.protocolServers events) :
    ∃ m', handlePortEvents events m = .ok () m' ∧ m'.openPorts = ∅ ∧
      m'.calls = m.calls ++ events.filterMap (listenCall m.protocolServers) := by
  induction events generalizing m with
  | nil => exact ⟨m, rfl, hopen, by simp⟩
  | cons event events ih =>
    have hfirst : Registered m.protocolServers [event] := by
      intro port protocol hmem
      exact hregistered port protocol (List.mem_cons.mpr (.inl (List.mem_singleton.mp hmem)))
    obtain ⟨m₁, hok, hopen₁, hservers, hcalls⟩ := handlePortEvent_ok hopen hfirst
    have hrest : Registered m₁.protocolServers events := by
      intro port protocol hmem
      rw [hservers]
      exact hregistered port protocol (List.mem_cons_of_mem _ hmem)
    obtain ⟨m', hok', hopen', hcalls'⟩ := ih hopen₁ hrest
    refine ⟨m', bind_ok.mpr ⟨(), m₁, hok, hok'⟩, hopen', ?_⟩
    rw [hcalls', hcalls, hservers, List.append_assoc]
    cases hcall : listenCall m.protocolServers event <;> simp [hcall]

/-- The first event of a legal sequence opens a port. -/
theorem first_of_replay {event : PortEvent} {events : List PortEvent}
    {ports : UInt16 → Option String} (h : replay (event :: events) (fun _ => none) = some ports) :
    ∃ port protocol, event = .openPort port protocol := by
  cases event with
  | openPort port protocol => exact ⟨port, protocol, rfl⟩
  | closePort port => cases h

/-- The matchmaker handles every sequence of port events in which the events of each port alternate and
every `Open` names a registered protocol; but after it the listeners match the open ports exactly when
the sequence is empty. -/
theorem listeners_match_iff {m : Matchmaker S} (fresh : m.Fresh) {events : List PortEvent}
    {ports : UInt16 → Option String} (legal : replay events (fun _ => none) = some ports)
    (hregistered : Registered m.protocolServers events) :
    ∃ m', handlePortEvents events m = .ok () m' ∧ (ListenersMatch ports m' ↔ events = []) := by
  obtain ⟨m', hok, hopen, hcalls⟩ := handlePortEvents_ok fresh.openPorts hregistered
  refine ⟨m', hok, fun hmatch => ?_, ?_⟩
  · by_contra hne
    obtain ⟨event, rest, rfl⟩ := List.exists_cons_of_ne_nil hne
    obtain ⟨port, protocol, rfl⟩ := first_of_replay legal
    obtain ⟨server, hserver⟩ := Finmap.mem_iff.mp (hregistered port protocol List.mem_cons_self)
    have hlistening : Listening m'.calls server port := by
      refine ⟨[], .v4 ⟨0, 0, 0, 0⟩ port, rest.filterMap (listenCall m.protocolServers), ?_, rfl, ?_⟩
      · rw [hcalls, fresh.calls, List.nil_append, List.nil_append,
          List.filterMap_cons_some (by rw [listenCall, hserver]; rfl)]
      · intro hmem
        obtain ⟨later, -, hlater⟩ := List.mem_filterMap.mp hmem
        cases later with
        | openPort port' protocol' =>
          obtain ⟨server', -, heq⟩ := Option.map_eq_some_iff.mp hlater
          cases heq
        | closePort port' => cases hlater
    have hkey : port ∈ m'.openPorts :=
      (hmatch.keys port).mpr ((hmatch.listening port).mp ⟨server, hlistening⟩)
    rw [hopen] at hkey
    exact Finmap.notMem_empty hkey
  · rintro rfl
    cases legal
    rw [List.filterMap_nil, List.append_nil, fresh.calls] at hcalls
    refine ⟨fun port => ?_, fun port => ?_, fun port protocol h => nomatch h⟩
    · rw [hcalls]
      simp [Listening]
    · rw [hopen]
      simp [Finmap.notMem_empty]

/-- A matchmaker with one server. -/
def oneServer : Matchmaker String :=
  ⟨(∅ : HashMap String String).insert "http" "server", ∅, [], []⟩

theorem listeners_match_openedAndClosed :
    registerServer "http" "server" .new = .ok () oneServer ∧
    ∃ m', handlePortEvents [.openPort 80 "http", .closePort 80] oneServer = .ok () m' ∧
      ∃ ports, replay [.openPort 80 "http", .closePort 80] (fun _ => none) = some ports ∧
        ¬ ListenersMatch ports m' := by
  have hregister : registerServer "http" "server" .new = .ok () oneServer := rfl
  have hregistered : Registered oneServer.protocolServers [.openPort 80 "http", .closePort 80] := by
    intro port protocol hmem
    obtain ⟨-, rfl⟩ : port = 80 ∧ protocol = "http" := by simpa using hmem
    decide
  obtain ⟨m', hok, hmatch⟩ := listeners_match_iff (registerServer_fresh hregister ⟨rfl, rfl⟩) rfl
    hregistered
  exact ⟨hregister, m', hok, _, rfl, fun h => by cases hmatch.mp h⟩

/-- Already the first `Open` breaks the match: its port is not put into `open_ports`. -/
theorem not_listeners_match_opened :
    ¬ ∀ (m m' : Matchmaker String) (events : List PortEvent) (ports : UInt16 → Option String),
      m.Fresh → replay events (fun _ => none) = some ports → Registered m.protocolServers events →
      handlePortEvents events m = .ok () m' → ListenersMatch ports m' := by
  intro hall
  have hregistered : Registered oneServer.protocolServers [.openPort 80 "http"] := by
    intro port protocol hmem
    obtain ⟨-, rfl⟩ : port = 80 ∧ protocol = "http" := by simpa using hmem
    decide
  obtain ⟨m', hok, hopen, -⟩ := handlePortEvents_ok (m := oneServer) rfl hregistered
  have hmatch := hall oneServer m' _ _ ⟨rfl, rfl⟩ rfl hregistered hok
  have hkey : (80 : UInt16) ∈ m'.openPorts := (hmatch.keys 80).mpr (by simp)
  rw [hopen] at hkey
  exact Finmap.notMem_empty hkey

end StateProxy.Matchmaking
