import StateProxy.Backend.Delivery

/-! What holds of the manager with its discovery tasks however they are scheduled.  The endpoints of
each discovery are determined by the events that it has sent: they do not depend on the other
discoveries, nor on the order in which the listeners get the service map.  A discovery whose listener
has ended keeps its name and its endpoints for good. -/

namespace StateProxy.Backend

open Net ProofKit ServiceManager

theorem System.Reaches.trans {start middle system : System}
    {taken more : List (String × EndpointEvent)} (first : start.Reaches taken middle)
    (second : middle.Reaches more system) : start.Reaches (taken ++ more) system := by
  induction second with
  | refl => rwa [List.append_nil]
  | step _ step ih =>
    rw [← List.append_assoc]
    exact ih.step step

/-- A system that was reached, as the start of what follows. -/
theorem System.Reaches.self {start system : System} {taken : List (String × EndpointEvent)}
    (_ : start.Reaches taken system) : system.Reaches [] system := .refl

/-- The endpoints of a discovery after the events `taken` are those that its own events leave. -/
theorem run_ownEvents (taken : List (String × EndpointEvent)) (name : String) (port : UInt16)
    (uid : String) :
    TableOp.run (operations taken) TableOp.empty port ⟨name, uid⟩ =
      TableOp.run ((ownEvents name taken).map (·.op name)) TableOp.empty port ⟨name, uid⟩ := by
  have hown : operations (taken.filter fun e => e.1 = name) =
      (ownEvents name taken).map (·.op name) := by
    rw [operations, ownEvents, List.map_map]
    refine List.map_congr_left fun e he => ?_
    have hname : e.1 = name := by simpa using (List.mem_filter.mp he).2
    rw [hname]
    rfl
  rw [run_operations_own, hown]

theorem System.Reaches.act {start system : System} {taken : List (String × EndpointEvent)}
    (reaches : start.Reaches taken system) (action : Action) (spawned : Nat) {config' : Config}
    (hallows : system.Allows action)
    (hfree : system.listeners spawned = none ∧ (system.config.calls spawned).isFinished)
    (hstep : system.config.step action = some config') :
    start.Reaches (taken ++ system.config.takes action)
      { system with config := config', listeners := system.listenersAfter action spawned } :=
  reaches.step (.manager hallows (fun _ => hfree) hstep)

/-- An endpoint on port 80. -/
def sampleAdd (uid : String) : EndpointEvent :=
  .add uid true 80 "http" (.v4 ⟨10, 0, 0, 1⟩ 8080) "http"

/-- A discovery registers, sends one event, which takes effect, and disconnects. -/
theorem reaches_disconnected :
    ∃ system l, System.initial.Reaches [("pods", sampleAdd "pod")] system ∧
      system.listeners 1 = some l ∧ l.name = "pods" ∧ l.ended = some .disconnected := by
  have start : System.initial.Reaches [] .initial := .refl
  have called := start.act (.call 0 (.registerEndpointDiscovery "pods")) 1 ⟨rfl, rfl, rfl⟩
    ⟨rfl, rfl⟩ rfl
  have registered := (called.act (.acquire 0 .ascending) 1 trivial ⟨rfl, rfl⟩ rfl).act
    (.acquire 0 .ascending) 1 trivial ⟨rfl, rfl⟩ rfl
  have sent := registered.step (@System.Step.send _ 1 _ (sampleAdd "pod") _ rfl rfl rfl rfl)
  have received := sent.step
    (@System.Step.listen _ 1 _ (sampleAdd "pod") [] _ _ rfl rfl rfl rfl (.inl rfl) rfl)
  have taken := (received.act (.acquire 1 .ascending) 2 trivial ⟨rfl, rfl⟩ rfl).act
    (.acquire 1 .ascending) 2 trivial ⟨rfl, rfl⟩ rfl
  have done := (taken.act (.release 1) 2 trivial ⟨rfl, rfl⟩ rfl).act (.release 1) 2 trivial
    ⟨rfl, rfl⟩ rfl
  have closed := (done.step (@System.Step.disconnect _ 1 _ rfl)).step
    (@System.Step.close _ 1 _ rfl rfl rfl rfl rfl)
  exact ⟨_, _, closed, rfl, rfl, rfl⟩

/-- Two discoveries register and send an event each, which take effect.  Then the one disconnects, and
the other one sends another event, which takes effect in the second of the two systems only. -/
theorem reaches_disconnected_beside_another :
    ∃ system system' pods files, System.initial.Reaches
        [("pods", sampleAdd "pod"), ("files", sampleAdd "file")] system ∧
      system.Reaches [("files", .suspend "file")] system' ∧
      system.listeners 1 = some pods ∧ pods.name = "pods" ∧ pods.ended = some .disconnected ∧
      system.listeners 2 = some files ∧ files.name = "files" ∧
      files.channel.buffer = [.suspend "file"] := by
  have start : System.initial.Reaches [] .initial := .refl
  have first := ((start.act (.call 0 (.registerEndpointDiscovery "pods")) 1 ⟨rfl, rfl, rfl⟩
    ⟨rfl, rfl⟩ rfl).act (.acquire 0 .ascending) 1 trivial ⟨rfl, rfl⟩ rfl).act
    (.acquire 0 .ascending) 1 trivial ⟨rfl, rfl⟩ rfl
  have idle := (first.act (.release 0) 2 trivial ⟨rfl, rfl⟩ rfl).act (.release 0) 2 trivial
    ⟨rfl, rfl⟩ rfl
  have second := ((idle.act (.call 0 (.registerEndpointDiscovery "files")) 2 ⟨rfl, rfl, rfl⟩
    ⟨rfl, rfl⟩ rfl).act (.acquire 0 .ascending) 2 trivial ⟨rfl, rfl⟩ rfl).act
    (.acquire 0 .ascending) 2 trivial ⟨rfl, rfl⟩ rfl
  have sent := (second.step (@System.Step.send _ 1 _ (sampleAdd "pod") _ rfl rfl rfl rfl)).step
    (@System.Step.send _ 2 _ (sampleAdd "file") _ rfl rfl rfl rfl)
  have waiting := (sent.step
    (@System.Step.listen _ 1 _ (sampleAdd "pod") [] _ _ rfl rfl rfl rfl (.inl rfl) rfl)).step
    (@System.Step.listen _ 2 _ (sampleAdd "file") [] _ _ rfl rfl rfl rfl (.inl rfl) rfl)
  have podsTaken := (((waiting.act (.acquire 1 .ascending) 3 trivial ⟨rfl, rfl⟩ rfl).act
    (.acquire 1 .ascending) 3 trivial ⟨rfl, rfl⟩ rfl).act (.release 1) 3 trivial ⟨rfl, rfl⟩
    rfl).act (.release 1) 3 trivial ⟨rfl, rfl⟩ rfl
  have filesTaken := (podsTaken.act (.acquire 2 .ascending) 3 trivial ⟨rfl, rfl⟩ rfl).act (.release 2) 3
    trivial ⟨rfl, rfl⟩ rfl
  have disconnected := ((filesTaken.step
    (@System.Step.send _ 2 _ (.suspend "file") _ rfl rfl rfl rfl)).step
    (@System.Step.disconnect _ 1 _ rfl)).step (@System.Step.close _ 1 _ rfl rfl rfl rfl rfl)
  have goesOn := disconnected.self.step
    (@System.Step.listen _ 2 _ (.suspend "file") [] _ _ rfl rfl rfl rfl (.inl rfl) rfl)
  have suspended := goesOn.act (.acquire 2 .ascending) 3 trivial ⟨rfl, rfl⟩ rfl
  exact ⟨_, _, _, _, disconnected, suspended, rfl, rfl, rfl, rfl, rfl, rfl⟩

section Reached

variable {taken : List (String × EndpointEvent)} {system : System}

theorem System.Reaches.endpointAt (reaches : System.initial.Reaches taken system)
    (name : String) (port : UInt16) (uid : String) :
    Backend.endpointAt system.config.shared.portServiceMap port ⟨name, uid⟩ =
      TableOp.run ((ownEvents name taken).map (·.op name)) TableOp.empty port ⟨name, uid⟩ := by
  obtain ⟨⟨actions, recorded⟩, -⟩ := reaches.invariant
  rw [recorded.holds.table, run_ownEvents]

/-- An endpoint belongs to a registered discovery. -/
theorem System.Reaches.registered_of_endpoint (reaches : System.initial.Reaches taken system)
    {port : UInt16} {id : EndpointId}
    (h : (Backend.endpointAt system.config.shared.portServiceMap port id).isSome) :
    id.endpointDiscoveryName ∈ system.config.shared.registeredEndpointDiscoveryNames := by
  obtain ⟨⟨actions, recorded⟩, listens⟩ := reaches.invariant
  rw [recorded.holds.table, ← stillAdded_iff_table] at h
  obtain ⟨pre, flag, protocol, address, backendProtocol, post, hevents, -⟩ := h
  exact listens.known (id.endpointDiscoveryName,
    .add id.uid flag port protocol address backendProtocol) (by rw [hevents]; simp)

/-- The events of a discovery take effect once each and in the order in which they were sent; after
them comes the one that waits for the service map, one more that is lost when the manager is gone, and
those in the buffer.  A listener that ends because its discovery disconnects has lost none.  The
endpoints of the discovery are those that its own events have left so far. -/
theorem events_take_effect_once_in_order (reaches : System.initial.Reaches taken system) {t : Nat}
    {l : Listener} (hlistener : system.listeners t = some l) :
    (∃ lost, l.channel.log = ownEvents l.name taken ++ (system.config.calls t).waiting ++ lost ++
        l.channel.buffer ∧ lost.length = l.losses) ∧
    (l.ended = some .disconnected → ownEvents l.name taken = l.channel.log) ∧
    ∀ port uid, endpointAt system.config.shared.portServiceMap port ⟨l.name, uid⟩ =
      TableOp.run ((ownEvents l.name taken).map (·.op l.name)) TableOp.empty port ⟨l.name, uid⟩ := by
  obtain ⟨-, listens⟩ := reaches.invariant
  obtain ⟨lost, hreceived, hlost⟩ := listens.received t l hlistener
  refine ⟨⟨lost, by rw [Channel.log, hreceived], hlost⟩, fun hended => ?_,
    reaches.endpointAt l.name⟩
  have hwaiting := Call.waiting_of_isOver
    (listens.settled t l hlistener (by rw [hended]; simp))
  have hnone : lost = [] := List.length_eq_zero_iff.mp (by rw [hlost]; simp [Listener.losses, hended])
  rw [Channel.log, listens.emptied t l hlistener hended, hreceived, hwaiting, hnone]
  simp

theorem listeners_took_their_events :
    ∃ system pods files, System.initial.Reaches
        [("pods", sampleAdd "pod"), ("files", sampleAdd "file")] system ∧
      system.listeners 1 = some pods ∧ pods.channel.log = [sampleAdd "pod"] ∧
      system.listeners 2 = some files ∧ ∃ lost, files.channel.log =
        [sampleAdd "file"] ++ (system.config.calls 2).waiting ++ lost ++ [.suspend "file"] := by
  obtain ⟨system, -, pods, files, reaches, -, hpods, hpodsName, hended, hfiles, hfilesName, hbuffer⟩ :=
    reaches_disconnected_beside_another
  have hlog := (events_take_effect_once_in_order reaches hpods).2.1 hended
  obtain ⟨⟨lost, hfilesLog, -⟩, -⟩ := events_take_effect_once_in_order reaches hfiles
  rw [hpodsName] at hlog
  rw [hfilesName, hbuffer] at hfilesLog
  exact ⟨system, pods, files, reaches, hpods, hlog.symm, hfiles, lost, hfilesLog⟩

/-- Every registered name has one listener and one entry of the metrics, also when several tasks
register at the same time; and every endpoint in the service map belongs to a registered name. -/
theorem registered_names_have_one_listener (reaches : System.initial.Reaches taken system) :
    (∀ name, name ∈ system.config.shared.registeredEndpointDiscoveryNames →
      ∃! t, ∃ l, system.listeners t = some l ∧ l.name = name) ∧
    (∀ t l, system.listeners t = some l →
      l.name ∈ system.config.shared.registeredEndpointDiscoveryNames) ∧
    system.config.shared.endpointDiscoveryMetrics =
      system.config.shared.registeredEndpointDiscoveryNames ∧
    ∀ port id, (endpointAt system.config.shared.portServiceMap port id).isSome →
      id.endpointDiscoveryName ∈ system.config.shared.registeredEndpointDiscoveryNames := by
  obtain ⟨-, listens⟩ := reaches.invariant
  refine ⟨fun name hname => ?_, fun t l h => (listens.registered l.name).mpr ⟨t, l, h, rfl⟩,
    listens.metrics, fun port id h => ?_⟩
  · obtain ⟨t, l, hl, rfl⟩ := (listens.registered name).mp hname
    refine ⟨t, ⟨l, hl, rfl⟩, ?_⟩
    rintro t' ⟨l', hl', hsame⟩
    exact listens.unique t' t l' l hl' hl hsame
  · exact reaches.registered_of_endpoint h

theorem registered_names_of_two_discoveries :
    ∃ system, System.initial.Reaches
        [("pods", sampleAdd "pod"), ("files", sampleAdd "file")] system ∧
      (∃! t, ∃ l, system.listeners t = some l ∧ l.name = "pods") ∧
      ∃! t, ∃ l, system.listeners t = some l ∧ l.name = "files" := by
  obtain ⟨system, -, pods, files, reaches, -, hpods, hpodsName, -, hfiles, hfilesName, -⟩ :=
    reaches_disconnected_beside_another
  obtain ⟨hunique, hregistered, -⟩ := registered_names_have_one_listener reaches
  have hpodsMem := hregistered 1 pods hpods
  have hfilesMem := hregistered 2 files hfiles
  rw [hpodsName] at hpodsMem
  rw [hfilesName] at hfilesMem
  exact ⟨system, reaches, hunique "pods" hpodsMem, hunique "files" hfilesMem⟩

/-- A listener that has ended stays as it is, up to the sender of its discovery. -/
theorem System.Step.ended {works : Bool} {more : List (String × EndpointEvent)} {system' : System}
    (step : system.Step works more system') (listens : system.Listens taken) {t : Nat} {l : Listener}
    (hlistener : system.listeners t = some l) (hended : l.ended ≠ none) :
    ∃ l', system'.listeners t = some l' ∧ l'.name = l.name ∧ l'.channel = l.channel ∧
      l'.ended = l.ended := by
  have hother : ∀ {t' : Nat} {listeners : Option Listener}, t' ≠ t →
      ∃ l', Function.update system.listeners t' listeners t = some l' ∧ l'.name = l.name ∧
        l'.channel = l.channel ∧ l'.ended = l.ended := by
    intro t' listener ht
    exact ⟨l, by rwa [Function.update_of_ne (Ne.symm ht)], rfl, rfl, rfl⟩
  have hrunning : ∀ {t' : Nat} {l' : Listener}, system.listeners t' = some l' → l'.ended = none →
      t' ≠ t := by
    rintro t' l' h hnone rfl
    rw [hlistener] at h
    cases h
    exact hended hnone
  cases step with
  | @manager action config' spawned hallows hfree hstep =>
    cases hregisters : system.config.registers action with
    | some name =>
      refine ⟨l, ?_, rfl, rfl, rfl⟩
      obtain ⟨hnone, -⟩ := hfree (by rw [hregisters]; rfl)
      have ht : t ≠ spawned := by
        rintro rfl
        rw [hnone] at hlistener
        cases hlistener
      simp only [System.listenersAfter_of_registers hregisters]
      rwa [Function.update_of_ne ht]
    | none =>
      cases hfailing : system.config.failing action with
      | none =>
        refine ⟨l, ?_, rfl, rfl, rfl⟩
        simpa only [System.listenersAfter_of_none hregisters hfailing] using hlistener
      | some t' =>
        obtain ⟨c, event, hsending, -⟩ := (transition_of_step hstep).isOver_of_failing hfailing
        have ht : t' ≠ t := by
          rintro rfl
          have hover := listens.settled t' l hlistener hended
          rw [(Call.of_isOver hover).2.1] at hsending
          cases hsending
        simp only [System.listenersAfter_of_failing hregisters hfailing]
        exact hother ht
  | @send t' l' event channel hlistener' hsender hreceiver hpush =>
    exact hother (hrunning hlistener' ((listens.open_iff t' l' hlistener').mp hreceiver))
  | @disconnect t' l' hlistener' =>
    by_cases ht : t' = t
    · subst ht
      rw [hlistener] at hlistener'
      cases hlistener'
      exact ⟨_, Function.update_self _ _ _, rfl, rfl, rfl⟩
    · exact hother ht
  | listen hlistener' hnone => exact hother (hrunning hlistener' hnone)
  | dismiss hlistener' hnone => exact hother (hrunning hlistener' hnone)
  | close hlistener' hnone => exact hother (hrunning hlistener' hnone)
  | dropManager => exact ⟨l, hlistener, rfl, rfl, rfl⟩

theorem System.Reaches.ended (reaches : System.initial.Reaches taken system) {t : Nat}
    {l : Listener} (hlistener : system.listeners t = some l) (hended : l.ended ≠ none)
    {more : List (String × EndpointEvent)} {system' : System}
    (later : system.Reaches more system') :
    ∃ l', system'.listeners t = some l' ∧ l'.name = l.name ∧ l'.channel = l.channel ∧
      l'.ended = l.ended := by
  induction later with
  | refl => exact ⟨l, hlistener, rfl, rfl, rfl⟩
  | step before step ih =>
    obtain ⟨l₁, hlistener₁, hname₁, hchannel₁, hended₁⟩ := ih
    obtain ⟨-, listens⟩ := (reaches.trans before).invariant
    obtain ⟨l₂, hlistener₂, hname₂, hchannel₂, hended₂⟩ :=
      step.ended listens hlistener₁ (by rwa [hended₁])
    exact ⟨l₂, hlistener₂, hname₂.trans hname₁, hchannel₂.trans hchannel₁, hended₂.trans hended₁⟩

/-- What a discovery had in the service map when its listener ended stays there: none of its events
takes effect any more, whatever the rest of the system does, and its name cannot be registered
again. -/
theorem ended_discovery_is_frozen (reaches : System.initial.Reaches taken system) {t : Nat}
    {l : Listener} (hlistener : system.listeners t = some l) (hended : l.ended ≠ none)
    {more : List (String × EndpointEvent)} {system' : System}
    (later : system.Reaches more system') :
    ownEvents l.name more = [] ∧
    (∀ port uid, endpointAt system'.config.shared.portServiceMap port ⟨l.name, uid⟩ =
      endpointAt system.config.shared.portServiceMap port ⟨l.name, uid⟩) ∧
    ∀ action, system'.config.registers action ≠ some l.name := by
  obtain ⟨-, listens⟩ := reaches.invariant
  have reaches' := reaches.trans later
  obtain ⟨-, listens'⟩ := reaches'.invariant
  obtain ⟨l', hlistener', hname, hchannel, hsame⟩ := reaches.ended hlistener hended later
  have hnone : ownEvents l.name more = [] := by
    obtain ⟨lost, hreceived, hlost⟩ := listens.received t l hlistener
    obtain ⟨lost', hreceived', hlost'⟩ := listens'.received t l' hlistener'
    have hwaiting := Call.waiting_of_isOver (listens.settled t l hlistener hended)
    have hwaiting' := Call.waiting_of_isOver
      (listens'.settled t l' hlistener' (by rwa [hsame]))
    rw [hchannel, hreceived, hwaiting, hwaiting', hname, ownEvents_append, List.append_nil,
      List.append_nil, List.append_assoc] at hreceived'
    have hlengths := congrArg List.length (List.append_cancel_left hreceived')
    have hequal : lost.length = lost'.length := by
      rw [hlost, hlost', Listener.losses, Listener.losses, hsame]
    rw [List.length_append] at hlengths
    exact List.length_eq_zero_iff.mp (by omega)
  refine ⟨hnone, fun port uid => ?_, fun action hregisters => ?_⟩
  · rw [reaches'.endpointAt, reaches.endpointAt, ownEvents_append, hnone, List.append_nil]
  · obtain ⟨-, hnew⟩ := Option.filter_eq_some_iff.mp hregisters
    have hmem := (listens'.registered l.name).mpr ⟨t, l', hlistener', hname⟩
    simp [hmem] at hnew

theorem disconnected_discovery_is_frozen :
    ∃ system system', System.initial.Reaches
        [("pods", sampleAdd "pod"), ("files", sampleAdd "file")] system ∧
      system.Reaches [("files", .suspend "file")] system' ∧
      endpointAt system'.config.shared.portServiceMap 80 ⟨"pods", "pod"⟩ =
        endpointAt system.config.shared.portServiceMap 80 ⟨"pods", "pod"⟩ ∧
      ∀ action, system'.config.registers action ≠ some "pods" := by
  obtain ⟨system, system', pods, -, reaches, later, hpods, hname, hended, -⟩ :=
    reaches_disconnected_beside_another
  obtain ⟨-, hfrozen, hreserved⟩ := ended_discovery_is_frozen reaches hpods (by rw [hended]; simp) later
  rw [hname] at hfrozen hreserved
  exact ⟨system, system', reaches, later, hfrozen 80 "pod", hreserved⟩

/-- Every event that a discovery has sent has taken effect. -/
def System.Drained (system : System) : Prop :=
  ∀ t l, system.listeners t = some l → (system.config.calls t).waiting = [] ∧
    l.channel.buffer = [] ∧ l.ended ≠ some .managerDropped

/-- The discovery of the given name has sent the given events. -/
def System.Sent (system : System) (name : String) (events : List EndpointEvent) : Prop :=
  ∃ t l, system.listeners t = some l ∧ l.name = name ∧ l.channel.log = events

theorem System.Reaches.ownEvents_of_drained (reaches : System.initial.Reaches taken system)
    (drained : system.Drained) {name : String} {events : List EndpointEvent}
    (hsent : system.Sent name events) : ownEvents name taken = events := by
  obtain ⟨t, l, hlistener, rfl, rfl⟩ := hsent
  obtain ⟨-, listens⟩ := reaches.invariant
  obtain ⟨lost, hreceived, hlost⟩ := listens.received t l hlistener
  obtain ⟨hwaiting, hbuffer, hended⟩ := drained t l hlistener
  have hnone : lost = [] := List.length_eq_zero_iff.mp (by rw [hlost]; simp [Listener.losses, hended])
  rw [Channel.log, hbuffer, hreceived, hwaiting, hnone]
  simp

/-- A discovery that has sent nothing has brought nothing. -/
theorem System.Reaches.ownEvents_of_nothing_sent (reaches : System.initial.Reaches taken system)
    (drained : system.Drained) {name : String}
    (hsent : ¬ ∃ events, events ≠ [] ∧ system.Sent name events) : ownEvents name taken = [] := by
  obtain ⟨-, listens⟩ := reaches.invariant
  by_cases hname : name ∈ system.config.shared.registeredEndpointDiscoveryNames
  · obtain ⟨t, l, hlistener, rfl⟩ := (listens.registered name).mp hname
    have hlog : l.channel.log = [] := by
      by_contra hne
      exact hsent ⟨l.channel.log, hne, t, l, hlistener, rfl, rfl⟩
    rw [reaches.ownEvents_of_drained drained ⟨t, l, hlistener, rfl, rfl⟩, hlog]
  · refine ownEvents_eq_nil fun e he heq => hname ?_
    rw [← heq]
    exact listens.known e he

/-- The schedule does not matter: two systems whose discoveries have sent the same events, and in
which all of them have taken effect, hold the same endpoints. -/
theorem drained_systems_hold_the_same_endpoints {taken' : List (String × EndpointEvent)}
    {system' : System} (reaches : System.initial.Reaches taken system)
    (reaches' : System.initial.Reaches taken' system') (drained : system.Drained)
    (drained' : system'.Drained)
    (hsame : ∀ name events, events ≠ [] → (system.Sent name events ↔ system'.Sent name events)) :
    endpointAt system.config.shared.portServiceMap =
      endpointAt system'.config.shared.portServiceMap := by
  funext port id
  obtain ⟨name, uid⟩ := id
  have hown : ownEvents name taken = ownEvents name taken' := by
    by_cases hsent : ∃ events, events ≠ [] ∧ system.Sent name events
    · obtain ⟨events, hne, hsent⟩ := hsent
      rw [reaches.ownEvents_of_drained drained hsent,
        reaches'.ownEvents_of_drained drained' ((hsame name events hne).mp hsent)]
    · have hsent' : ¬ ∃ events, events ≠ [] ∧ system'.Sent name events := by
        rintro ⟨events, hne, hsent'⟩
        exact hsent ⟨events, hne, (hsame name events hne).mpr hsent'⟩
      rw [reaches.ownEvents_of_nothing_sent drained hsent,
        reaches'.ownEvents_of_nothing_sent drained' hsent']
  rw [reaches.endpointAt, reaches'.endpointAt, hown]

end Reached

/-- Two discoveries register and send one event each, which take effect in the one order or in the
other. -/
theorem reaches_drained_in_both_orders :
    ∃ system system', System.initial.Reaches
        [("pods", sampleAdd "pod"), ("files", sampleAdd "file")] system ∧
      System.initial.Reaches [("files", sampleAdd "file"), ("pods", sampleAdd "pod")] system' ∧
      system.Drained ∧ system'.Drained ∧
      system.listeners = system'.listeners := by
  have start : System.initial.Reaches [] .initial := .refl
  have first := ((start.act (.call 0 (.registerEndpointDiscovery "pods")) 1 ⟨rfl, rfl, rfl⟩
    ⟨rfl, rfl⟩ rfl).act (.acquire 0 .ascending) 1 trivial ⟨rfl, rfl⟩ rfl).act
    (.acquire 0 .ascending) 1 trivial ⟨rfl, rfl⟩ rfl
  have idle := (first.act (.release 0) 2 trivial ⟨rfl, rfl⟩ rfl).act (.release 0) 2 trivial
    ⟨rfl, rfl⟩ rfl
  have second := ((idle.act (.call 0 (.registerEndpointDiscovery "files")) 2 ⟨rfl, rfl, rfl⟩
    ⟨rfl, rfl⟩ rfl).act (.acquire 0 .ascending) 2 trivial ⟨rfl, rfl⟩ rfl).act
    (.acquire 0 .ascending) 2 trivial ⟨rfl, rfl⟩ rfl
  have sent := (second.step (@System.Step.send _ 1 _ (sampleAdd "pod") _ rfl rfl rfl rfl)).step
    (@System.Step.send _ 2 _ (sampleAdd "file") _ rfl rfl rfl rfl)
  -- both listeners have received their event and wait for the service map
  have waiting := (sent.step
    (@System.Step.listen _ 1 _ (sampleAdd "pod") [] _ _ rfl rfl rfl rfl (.inl rfl) rfl)).step
    (@System.Step.listen _ 2 _ (sampleAdd "file") [] _ _ rfl rfl rfl rfl (.inl rfl) rfl)
  have podsFirst := (((waiting.act (.acquire 1 .ascending) 3 trivial ⟨rfl, rfl⟩ rfl).act
    (.acquire 1 .ascending) 3 trivial ⟨rfl, rfl⟩ rfl).act (.release 1) 3 trivial ⟨rfl, rfl⟩
    rfl).act (.release 1) 3 trivial ⟨rfl, rfl⟩ rfl
  have filesFirst := (((waiting.act (.acquire 2 .ascending) 3 trivial ⟨rfl, rfl⟩ rfl).act
    (.acquire 2 .ascending) 3 trivial ⟨rfl, rfl⟩ rfl).act (.release 2) 3 trivial ⟨rfl, rfl⟩
    rfl).act (.release 2) 3 trivial ⟨rfl, rfl⟩ rfl
  have podsThenFiles := podsFirst.act (.acquire 2 .ascending) 3 trivial ⟨rfl, rfl⟩ rfl
  have filesThenPods := filesFirst.act (.acquire 1 .ascending) 3 trivial ⟨rfl, rfl⟩ rfl
  refine ⟨_, _, podsThenFiles, filesThenPods, ?_, ?_, ?_⟩
  · intro t l h
    rcases t with _ | _ | _ | t <;> cases h <;> exact ⟨rfl, rfl, fun hended => by cases hended⟩
  · intro t l h
    rcases t with _ | _ | _ | t <;> cases h <;> exact ⟨rfl, rfl, fun hended => by cases hended⟩
  · rfl

theorem both_orders_hold_the_same_endpoints :
    ∃ system system', System.initial.Reaches
        [("pods", sampleAdd "pod"), ("files", sampleAdd "file")] system ∧
      System.initial.Reaches [("files", sampleAdd "file"), ("pods", sampleAdd "pod")] system' ∧
      endpointAt system.config.shared.portServiceMap =
        endpointAt system'.config.shared.portServiceMap := by
  obtain ⟨system, system', reaches, reaches', drained, drained', hsame⟩ :=
    reaches_drained_in_both_orders
  refine ⟨system, system', reaches, reaches',
    drained_systems_hold_the_same_endpoints reaches reaches' drained drained' fun name events _ => ?_⟩
  simp only [System.Sent, hsame]

end StateProxy.Backend
