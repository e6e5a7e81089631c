import StateProxy.Backend.PortStreams
import StateProxy.Matchmaking.Matchmaker

/-! The manager and the matchmaker together.  The matchmaker is the consumer of the manager's port
events, and servers are registered while it handles them.  It goes on as long as every `Open` comes after
the registration of a server for its protocol; and although it mutes nobody, no open port is without its
listener once it has received everything. -/

namespace StateProxy.Matchmaking

open Backend Net ProofKit Matchmaker

variable {S : Type}

namespace Matchmaker

inductive Action (S : Type)
  | registerServer (protocol : String) (server : S)
  /-- The loop of `run` handles the next event that it has received. -/
  | handle (event : PortEvent)

/-- `none` when `run` panics.  The `Open` branch keeps its guard on the servers to its end. -/
def step (m : Matchmaker S) : Action S → Option (Matchmaker S)
  | .registerServer protocol server => some (outcome (registerServer protocol server m)).2
  | .handle event =>
    match handlePortEvent event m with
    | .ok _ m' => some m'
    | .error _ _ => none

/-- A new matchmaker after the actions. -/
def run (actions : List (Action S)) : Option (Matchmaker S) :=
  actions.foldlM step new

/-- The events that were handled. -/
def handled (actions : List (Action S)) : List PortEvent :=
  actions.filterMap fun
    | .handle event => some event
    | .registerServer .. => none

/-- The servers that were registered, or rejected, with their protocols. -/
def registrations (actions : List (Action S)) : List (String × S) :=
  actions.filterMap fun
    | .registerServer protocol server => some (protocol, server)
    | .handle _ => none

/-- The first server that was registered for a protocol. -/
def firstServer (actions : List (Action S)) (protocol : String) : Option S :=
  ((registrations actions).find? (·.1 = protocol)).map (·.2)

/-- Every `Open` comes after the registration of a server for its protocol. -/
def Timely (actions : List (Action S)) : Prop :=
  ∀ before port protocol after, actions = before ++ .handle (.openPort port protocol) :: after →
    protocol ∈ (registrations before).map (·.1)

end Matchmaker

/-- A port that is open after an event was opened by it or was open before. -/
theorem open_of_apply {event : PortEvent} {before after : UInt16 → Option String}
    (h : event.apply before = some after) {port : UInt16} {protocol : String}
    (hopen : after port = some protocol) :
    event = .openPort port protocol ∨ before port = some protocol := by
  cases event with
  | openPort port' protocol' =>
    simp only [PortEvent.apply] at h
    split_ifs at h
    cases h
    by_cases hport : port = port'
    · subst hport
      rw [Function.update_self] at hopen
      cases hopen
      exact .inl rfl
    · rw [Function.update_of_ne hport] at hopen
      exact .inr hopen
  | closePort port' =>
    simp only [PortEvent.apply] at h
    split_ifs at h
    cases h
    by_cases hport : port = port'
    · subst hport
      rw [Function.update_self] at hopen
      cases hopen
    · rw [Function.update_of_ne hport] at hopen
      exact .inr hopen

theorem open_mem_of_replay {events : List PortEvent} {ports : UInt16 → Option String}
    (h : replay events (fun _ => none) = some ports) {port : UInt16} {protocol : String}
    (hopen : ports port = some protocol) : .openPort port protocol ∈ events := by
  induction events using List.reverseRecOn generalizing ports with
  | nil =>
    cases h
    cases hopen
  | append_singleton events event ih =>
    rw [replay_append] at h
    obtain ⟨before, hbefore, hlast⟩ := Option.bind_eq_some_iff.mp h
    rw [replay_cons] at hlast
    obtain ⟨after, happly, hnil⟩ := Option.bind_eq_some_iff.mp hlast
    cases hnil
    rcases open_of_apply happly hopen with rfl | hopen
    · simp
    · exact List.mem_append_left _ (ih hbefore hopen)

/-- An event that the matchmaker handles names a protocol with a server, if it names one. -/
theorem registered_of_handled {event : PortEvent} {m m' : Matchmaker S} {a : Unit}
    (h : handlePortEvent event m = .ok a m') : Registered m.protocolServers [event] := by
  intro port protocol hmem
  rw [← List.mem_singleton.mp hmem] at h
  have hget : (get : MatchmakerM S _) m = .ok m m := rfl
  simp only [handlePortEvent, bind_of_ok hget] at h
  cases hserver : m.protocolServers.lookup protocol with
  | none =>
    rw [hserver] at h
    cases h
  | some server => exact Finmap.mem_iff.mpr ⟨server, hserver⟩

/-- What a matchmaker holds after the actions. -/
structure Serves (actions : List (Matchmaker.Action S)) (m : Matchmaker S) : Prop where
  openPorts : m.openPorts = ∅
  servers : FirstOf (registrations actions) m.protocolServers
  registered : Registered m.protocolServers (handled actions)
  calls : m.calls = (handled actions).filterMap (listenCall m.protocolServers)

section Serves

variable {actions : List (Matchmaker.Action S)} {m m' : Matchmaker S}

theorem serves_new : Serves [] (new : Matchmaker S) :=
  ⟨rfl, FirstOf.empty, nofun, rfl⟩

theorem Serves.mem_iff (serves : Serves actions m) (protocol : String) :
    protocol ∈ m.protocolServers ↔ protocol ∈ (registrations actions).map (·.1) := by
  rw [← not_iff_not, ← Finmap.lookup_eq_none]
  exact serves.servers.lookup_eq_none protocol

/-- A registration, accepted or rejected. -/
theorem Serves.registerServer (serves : Serves actions m) {protocol : String} {server : S}
    (h : m.step (.registerServer protocol server) = some m') :
    Serves (actions ++ [.registerServer protocol server]) m' := by
  have hhandled : handled (actions ++ [.registerServer protocol server]) = handled actions := by
    simp [handled]
  have hregistrations : registrations (actions ++ [.registerServer protocol server]) =
      registrations actions ++ [(protocol, server)] := by
    simp [registrations]
  obtain rfl := Option.some.inj h
  have hservers := registerServer_registers.firstOf serves.servers (protocol, server)
  rw [← hregistrations] at hservers
  rcases registerServer_registers.outcome_cases (protocol, server) m with ⟨hfree, hcall⟩ | ⟨-, hcall⟩
  · have hother : ∀ protocol' ∈ m.protocolServers, protocol' ≠ protocol := by
      rintro protocol' hmem rfl
      exact Finmap.lookup_eq_none.mp hfree hmem
    dsimp only at hcall hservers
    rw [hcall] at hservers ⊢
    refine ⟨serves.openPorts, hservers, ?_, ?_⟩
    · intro port protocol' hmem
      rw [hhandled] at hmem
      exact Finmap.mem_insert.mpr (.inr (serves.registered port protocol' hmem))
    · rw [hhandled]
      refine serves.calls.trans (List.filterMap_congr fun event hmem => ?_)
      cases event with
      | closePort port => rfl
      | openPort port protocol' =>
        have hne := hother protocol' (serves.registered port protocol' hmem)
        rw [listenCall, listenCall, lookup_insert_eq, if_neg hne]
  · dsimp only at hcall hservers
    rw [hcall] at hservers ⊢
    exact ⟨serves.openPorts, hservers, hhandled ▸ serves.registered, hhandled ▸ serves.calls⟩

/-- The matchmaker goes on after an event exactly when the event names a protocol with a server, if it
names one. -/
theorem Serves.handle (serves : Serves actions m) (event : PortEvent) :
    (∀ m', m.step (.handle event) = some m' → Serves (actions ++ [.handle event]) m') ∧
      ((m.step (.handle event)).isSome ↔ Registered m.protocolServers [event]) := by
  have hhandled : handled (actions ++ [.handle event]) = handled actions ++ [event] := by
    simp [handled]
  have hregistrations : registrations (actions ++ [.handle event]) = registrations actions := by
    simp [registrations]
  cases hcall : handlePortEvent event m with
  | error failure m₁ =>
    have hstep : m.step (.handle event) = none := by simp only [step, hcall]
    refine ⟨fun m' h => (nomatch hstep.symm.trans h), ?_⟩
    rw [hstep]
    refine ⟨nofun, fun hregistered => ?_⟩
    obtain ⟨m', hok, -⟩ := handlePortEvent_ok serves.openPorts hregistered
    cases hcall.symm.trans hok
  | ok a m₁ =>
    have hstep : m.step (.handle event) = some m₁ := by simp only [step, hcall]
    have hregistered := registered_of_handled hcall
    rw [hstep]
    refine ⟨fun m' h => ?_, fun _ => hregistered, fun _ => rfl⟩
    cases h
    obtain ⟨m', hok, hopen, hservers, hcalls⟩ := handlePortEvent_ok serves.openPorts hregistered
    cases hcall.symm.trans hok
    refine ⟨hopen, ?_, ?_, ?_⟩
    · rw [hregistrations, hservers]
      exact serves.servers
    · intro port protocol hmem
      rw [hservers]
      rw [hhandled] at hmem
      rcases List.mem_append.mp hmem with hmem | hmem
      · exact serves.registered port protocol hmem
      · exact hregistered port protocol hmem
    · rw [hcalls, hhandled, hservers, serves.calls, List.filterMap_append]
      cases hlisten : listenCall m.protocolServers event <;> simp [hlisten]

theorem serves_of_run (h : run actions = some m) : Serves actions m := by
  induction actions using List.reverseRecOn generalizing m with
  | nil =>
    cases h
    exact serves_new
  | append_singleton actions action ih =>
    rw [run, List.foldlM_append] at h
    obtain ⟨m₁, hbefore, h⟩ := Option.bind_eq_some_iff.mp h
    rw [List.foldlM_cons] at h
    obtain ⟨m₂, hstep, h⟩ := Option.bind_eq_some_iff.mp h
    cases h
    have serves := ih hbefore
    cases action with
    | registerServer protocol server => exact serves.registerServer hstep
    | handle event => exact (serves.handle event).1 m hstep

theorem timely_snoc {action : Matchmaker.Action S} : Timely (actions ++ [action]) ↔
    Timely actions ∧ ∀ port protocol, action = .handle (.openPort port protocol) →
      protocol ∈ (registrations actions).map (·.1) := by
  refine ⟨fun timely => ⟨fun before port protocol after h => ?_, fun port protocol h => ?_⟩,
    fun ⟨timely, hlast⟩ before port protocol after h => ?_⟩
  · refine timely before port protocol (after ++ [action]) ?_
    rw [h, List.append_assoc, List.cons_append]
  · exact timely actions port protocol [] (by rw [h])
  · rcases List.eq_nil_or_concat after with rfl | ⟨after, last, rfl⟩
    · obtain ⟨rfl, hlist⟩ := List.append_inj' h rfl
      exact hlast port protocol (List.cons.inj hlist).1
    · rw [List.concat_eq_append, ← List.cons_append, ← List.append_assoc] at h
      obtain ⟨hactions, -⟩ := List.append_inj' h rfl
      exact timely before port protocol after hactions

/-- The matchmaker goes through its events exactly when every `Open` comes after the registration of a
server for its protocol. -/
theorem run_iff_timely (actions : List (Matchmaker.Action S)) :
    (run actions).isSome ↔ Timely actions := by
  induction actions using List.reverseRecOn with
  | nil => exact ⟨fun _ before port protocol after h => by simp at h, fun _ => rfl⟩
  | append_singleton actions action ih =>
    rw [timely_snoc, ← ih, run, List.foldlM_append]
    change ((run actions).bind _).isSome ↔ _
    cases hbefore : run actions with
    | none => simp
    | some m =>
      have serves := serves_of_run hbefore
      have hsingle : List.foldlM step m [action] = m.step action := by
        rw [List.foldlM_cons]
        cases m.step action <;> rfl
      rw [Option.bind_some, hsingle]
      simp only [Option.isSome_some, true_and]
      cases action with
      | registerServer protocol server => exact ⟨fun _ => nofun, fun _ => rfl⟩
      | handle event =>
        rw [(serves.handle event).2]
        refine ⟨fun h port protocol heq => ?_, fun h port protocol hmem => ?_⟩
        · cases heq
          exact (serves.mem_iff protocol).mp (h port protocol List.mem_cons_self)
        · rw [← List.mem_singleton.mp hmem] at h
          exact (serves.mem_iff protocol).mpr (h port protocol rfl)

/-- The servers that listen on a port are the first ones of the protocols with which it was opened. -/
theorem Serves.listening_iff (serves : Serves actions m) (server : S) (port : UInt16) :
    Listening m.calls server port ↔
      ∃ protocol, .openPort port protocol ∈ handled actions ∧ firstServer actions protocol = some server := by
  have hfirst : ∀ protocol, firstServer actions protocol = m.protocolServers.lookup protocol :=
    fun protocol => (serves.servers protocol).symm
  rw [serves.calls]
  constructor
  · rintro ⟨before, bindTo, after, hcalls, rfl, -⟩
    obtain ⟨event, hmem, hcall⟩ := List.mem_filterMap.mp
      (hcalls ▸ List.mem_append_right before List.mem_cons_self)
    cases event with
    | closePort port => cases hcall
    | openPort port protocol =>
      obtain ⟨server', hserver, heq⟩ := Option.map_eq_some_iff.mp hcall
      cases heq
      exact ⟨protocol, hmem, (hfirst protocol).trans hserver⟩
  · rintro ⟨protocol, hmem, hserver⟩
    rw [hfirst] at hserver
    have hcall : ServerCall.listen server (.v4 ⟨0, 0, 0, 0⟩ port) ∈
        (handled actions).filterMap (listenCall m.protocolServers) := by
      refine List.mem_filterMap.mpr ⟨_, hmem, ?_⟩
      rw [listenCall, hserver]
      rfl
    obtain ⟨before, after, hcalls⟩ := List.append_of_mem hcall
    refine ⟨before, _, after, hcalls, rfl, fun hmute => ?_⟩
    obtain ⟨event, -, hevent⟩ := List.mem_filterMap.mp
      (hcalls ▸ List.mem_append_right before (List.mem_cons_of_mem _ hmute))
    cases event with
    | closePort port => cases hevent
    | openPort port' protocol' =>
      obtain ⟨server', -, heq⟩ := Option.map_eq_some_iff.mp hevent
      cases heq

end Serves

/-- In every execution of the manager whose consumer is a matchmaker, with servers registered at any time:
when the calls to `process_event` and `send_port_events_to` have ended and the matchmaker has handled all
events, it has come through exactly when every `Open` came after the registration of a server for its
protocol; and then the servers that listen on a port are exactly the first ones of the protocols with
which the port was opened, among them that of the protocol that the manager serves there. -/
theorem served_ports_are_listened_on {actions : List Backend.Action} {config : Config}
    (execution : Execution actions config) (own : (actions.filterMap Action.passes).Nodup)
    (hquiet : ∀ t, (config.calls t).isQuiet) {c : Nat}
    (hinstalled : config.shared.portEventSender = some c) {channel : Channel PortEvent}
    (hchannel : config.channels c = some channel) (halive : channel.receiverAlive)
    (hempty : channel.buffer = []) {steps : List (Matchmaker.Action S)}
    (hhandled : handled steps = channel.received) :
    ((run steps).isSome ↔ Timely steps) ∧
    ∀ m, run steps = some m →
      (∀ server port, Listening m.calls server port ↔ ∃ protocol,
        .openPort port protocol ∈ channel.received ∧ firstServer steps protocol = some server) ∧
      ∀ port service, config.shared.portServiceMap.lookup port = some service →
        ∃ server, firstServer steps service.protocol = some server ∧ Listening m.calls server port := by
  refine ⟨run_iff_timely steps, fun m hrun => ?_⟩
  have serves := serves_of_run hrun
  rw [← hhandled]
  refine ⟨serves.listening_iff, fun port service hservice => ?_⟩
  have hmirrored := execution.mirrored own hquiet hinstalled hchannel halive
  rw [Mirrored, Channel.log, hempty, List.append_nil, ← hhandled] at hmirrored
  have hopen : protocolAt config.shared.portServiceMap port = some service.protocol := by
    rw [protocolAt, hservice]
    rfl
  have hmem := open_mem_of_replay hmirrored hopen
  obtain ⟨server, hserver⟩ := Finmap.mem_iff.mp (serves.registered port service.protocol hmem)
  have hfirst : firstServer steps service.protocol = some server :=
    (serves.servers service.protocol).symm.trans hserver
  exact ⟨server, hfirst, (serves.listening_iff server port).mpr ⟨service.protocol, hmem, hfirst⟩⟩

/-- A service is added, and the matchmaker receives its port. -/
def servedPort : List Backend.Action :=
  [.channel 0 1, .call 1 (.sendPortEventsTo 0), .acquire 1 .ascending, .acquire 1 .ascending,
    .release 1, .release 1, .call 0 (.processEvent "kubernetes" (.add "pod" true 80 "http"
      (.v4 ⟨10, 0, 0, 1⟩ 8080) "http")), .acquire 0 .ascending, .acquire 0 .ascending, .send 0,
    .release 0, .release 0, .receive 0]

/-- A server is registered in time, and another one is rejected after the port was opened. -/
def twoRegistrations : List (Matchmaker.Action String) :=
  [.registerServer "http" "first", .handle (.openPort 80 "http"), .registerServer "http" "second"]

theorem servedPort_is_listened_on :
    ∃ config m, Execution servedPort config ∧ run twoRegistrations = some m ∧
      (config.shared.portServiceMap.lookup 80).isSome ∧
      (∀ server, Listening m.calls server 80 ↔ server = "first") := by
  obtain ⟨config, hrun, hquiet, hsender, hsome, channel, hchannel, halive, hempty, hreceived⟩ :
      ∃ config, servedPort.foldlM Config.step .initial = some config ∧
        (∀ t, (config.calls t).isQuiet) ∧ config.shared.portEventSender = some 0 ∧
        (config.shared.portServiceMap.lookup 80).isSome ∧ ∃ channel,
          config.channels 0 = some channel ∧ channel.receiverAlive ∧ channel.buffer = [] ∧
          channel.received = [.openPort 80 "http"] :=
    ⟨_, rfl, fun t => by rcases t with _ | _ | t <;> rfl, rfl, rfl, _, rfl, rfl, rfl, rfl⟩
  have execution : Execution servedPort config := Execution.nil.trans hrun
  have own : (servedPort.filterMap Action.passes).Nodup := by decide
  have hhandled : handled twoRegistrations = channel.received := hreceived.symm
  obtain ⟨m, hm⟩ := Option.isSome_iff_exists.mp
    (show (run twoRegistrations).isSome from rfl)
  obtain ⟨hlistening, -⟩ := (served_ports_are_listened_on execution own hquiet hsender hchannel halive
    hempty hhandled).2 m hm
  refine ⟨config, m, execution, hm, hsome, fun server => ?_⟩
  rw [hlistening, hreceived]
  refine ⟨?_, ?_⟩
  · rintro ⟨protocol, hmem, hfirst⟩
    cases List.mem_singleton.mp hmem
    exact (Option.some.inj hfirst).symm
  · rintro rfl
    exact ⟨"http", List.mem_cons_self, rfl⟩

end StateProxy.Matchmaking
