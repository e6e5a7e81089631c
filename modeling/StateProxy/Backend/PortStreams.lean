import StateProxy.Backend.Linearization

/-! What the consumers of port events get, when each call to `send_port_events_to` brings a channel of
its own.  At every moment, and for every consumer, also one that is being registered, that was replaced by
another or that went away, the events sent so far open only ports that are closed and close only ports
that are open.  A send that fails leaves services without endpoints behind; but the consumer that missed
the event gets no other, and the next one is told of these services first. -/

namespace StateProxy.Backend

open Net ProofKit ServiceManager

/-! ### Services under their ports -/

namespace Keyed

variable {map : ServiceMap}

theorem insert (keyed : Keyed map) {port : UInt16} {service : Service} (hport : service.port = port) :
    Keyed (map.insert port service) := by
  intro p s hs
  rw [lookup_insert_eq] at hs
  split at hs
  · rename_i hp
    cases hs
    exact hport.trans hp.symm
  · exact keyed p s hs

theorem erase (keyed : Keyed map) (port : UInt16) : Keyed (map.erase port) := by
  intro p s hs
  rw [lookup_erase_eq] at hs
  split at hs
  · cases hs
  · exact keyed p s hs

theorem eraseAll (keyed : Keyed map) (ports : List UInt16) : Keyed (ProofKit.eraseAll map ports) := by
  intro p s hs
  rw [lookup_eraseAll] at hs
  split at hs
  · cases hs
  · exact keyed p s hs

/-- Every service is changed, but not its port. -/
theorem mapped (keyed : Keyed map) {map' : ServiceMap} {f : Service → Service}
    (hmap : ∀ p, map'.lookup p = (map.lookup p).map f) (hport : ∀ s, (f s).port = s.port) :
    Keyed map' := by
  intro p s hs
  obtain ⟨s₀, hs₀, rfl⟩ := Option.map_eq_some_iff.mp ((hmap p).symm.trans hs)
  exact (hport s₀).trans (keyed p s₀ hs₀)

variable {shared : Shared}

theorem closeServices (keyed : Keyed shared.portServiceMap) (ports : List UInt16) :
    Keyed (shared.closeServices ports).1.portServiceMap := by
  induction ports generalizing shared with
  | nil => exact keyed
  | cons port ports ih =>
    have hremoved := keyed.erase port
    simp only [Shared.closeServices]
    split
    · exact ih hremoved
    · exact hremoved

theorem enter (keyed : Keyed shared.portServiceMap) (orders : Orders) (call : Call) :
    Keyed (shared.enter orders call).1.portServiceMap := by
  cases call with
  | processEvent discovery event =>
    cases event with
    | add uid isAvailable port protocol address backendProtocol =>
      simp only [Shared.enter]
      split
      · exact keyed.insert rfl
      · rename_i service hservice
        exact keyed.insert (keyed port service hservice)
    | delete uid => exact keyed.mapped (lookup_scan orders.ports _ _) fun _ => rfl
    | suspend uid => exact keyed.mapped (lookup_toggle orders.ports _ _ _) (available_port _ _)
    | resume uid => exact keyed.mapped (lookup_toggle orders.ports _ _ _) (available_port _ _)
  | openPort port protocol =>
    simp only [Shared.enter]
    split <;> exact keyed
  | closePorts ports => exact keyed.closeServices ports
  | lockMetrics name =>
    simp only [Shared.enter]
    split <;> exact keyed
  | _ => exact keyed

theorem sent (keyed : Keyed shared.portServiceMap) (call : Call) :
    Keyed (shared.sent call).1.portServiceMap := by
  cases call with
  | sendEvent c event ports => exact keyed.closeServices ports
  | _ => exact keyed

end Keyed

theorem Execution.keyed {actions : List Action} {config : Config} (execution : Execution actions config) :
    Keyed config.shared.portServiceMap := by
  induction execution with
  | nil => exact wellFormed_empty.keyed
  | snoc action before step ih =>
    cases transition_of_step step with
    | acquire => exact ih.enter _ _
    | grant => exact ih.enter _ _
    | send => exact ih.sent _
    | _ => exact ih

/-! ### While the consumer is there -/

/-- The installed consumer, if there is one, has not gone away. -/
def Config.Heard (config : Config) : Prop :=
  ∀ c channel, config.shared.portEventSender = some c → config.channels c = some channel →
    channel.receiverAlive

theorem Config.heard_of_alive {config : Config} {c : Nat}
    (hinstalled : config.shared.portEventSender = some c) {channel : Channel PortEvent}
    (hchannel : config.channels c = some channel) (halive : channel.receiverAlive) : config.Heard := by
  intro c' channel' hinstalled' hchannel'
  cases hinstalled.symm.trans hinstalled'
  cases hchannel.symm.trans hchannel'
  exact halive

/-- The channels stay, and a receiver that is gone does not come back. -/
theorem Transition.channel_stays {config config' : Config} {action : Action}
    (transition : Transition config action config') {c : Nat} {channel : Channel PortEvent}
    (hchannel : config.channels c = some channel) : ∃ channel', config'.channels c = some channel' ∧
      (channel'.receiverAlive → channel.receiverAlive) := by
  have hupdate : ∀ {c₁ : Nat} {channel₁ : Channel PortEvent},
      (c = c₁ → channel₁.receiverAlive → channel.receiverAlive) →
        ∃ channel', Function.update config.channels c₁ (some channel₁) c = some channel' ∧
          (channel'.receiverAlive → channel.receiverAlive) := by
    intro c₁ channel₁ halive
    by_cases hc : c = c₁
    · subst hc
      exact ⟨channel₁, Function.update_self _ _ _, halive rfl⟩
    · exact ⟨channel, (Function.update_of_ne hc _ _).trans hchannel, id⟩
  cases transition with
  | channel hfree =>
    refine hupdate fun hc => ?_
    rw [hc, hfree] at hchannel
    cases hchannel
  | send hsending hbefore halive hpush =>
    refine hupdate fun hc _ => ?_
    rw [hc, hbefore] at hchannel
    cases hchannel
    exact halive
  | receive hbefore hreceive =>
    refine hupdate fun hc halive => ?_
    rw [hc, hbefore] at hchannel
    cases hchannel
    exact (Channel.receive_some hreceive).2.symm.trans halive
  | dropReceiver => exact hupdate fun _ halive => nomatch halive
  | _ => exact ⟨channel, hchannel, id⟩

theorem Transition.heard {config config' : Config} {action : Action}
    (transition : Transition config action config')
    (hsender : config'.shared.portEventSender = config.shared.portEventSender)
    (heard : config'.Heard) : config.Heard := by
  intro c channel hinstalled hchannel
  obtain ⟨channel', hchannel', halive⟩ := transition.channel_stays hchannel
  exact halive (heard c channel' (hsender.trans hinstalled) hchannel')

/-- A send fails: the installed consumer is gone, or the manager has lost nothing. -/
theorem Config.Represents.sendFailed {config : Config} {call : Call} {m : ServiceManager}
    (represents : config.Represents call m) {passed : List Nat} (separate : config.Separate passed)
    {t c : Nat} {event : PortEvent} {channel : Channel PortEvent}
    (hsending : (config.calls t).sending = some (c, event))
    (hchannel : config.channels c = some channel) (hdropped : ¬ channel.receiverAlive)
    {config' : Config} (hconfig : config' = { config with
      calls := Function.update config.calls t (Shared.sendFailed (config.calls t)) }) :
    ∃ call' m', config'.Represents call' m' ∧ (config'.Heard → config.Heard ∧ m' = m) := by
  subst hconfig
  obtain ⟨ports, hcall⟩ | ⟨rest, hcall⟩ := Call.sending_cases hsending
  · have hfits := separate.fits t
    rw [hcall] at hfits ⊢
    refine ⟨.dropSender, ⟨config.shared.portServiceMap,
      config.shared.portEventSender.map fun c => ⟨config.log c ++ [], none⟩, []⟩,
      ⟨Writing.self List.mem_cons_self, rfl, rfl⟩, fun heard => ?_⟩
    exact (hdropped (heard c channel hfits hchannel)).elim
  · have hnot : ¬ (config.calls t).Writes := by
      rw [hcall]
      exact Call.not_writes_of_reads List.mem_cons_self
    have hnext : ¬ (Shared.sendFailed (config.calls t)).Writes := by
      rw [hcall]
      exact Call.not_writes_of_reads List.mem_cons_self
    exact ⟨call, m, represents.moved hnot hnext rfl rfl fun _ _ => rfl, fun heard => ⟨heard, rfl⟩⟩

/-- As long as the installed consumer is there, what it was sent and is still to be sent replays to the
ports of the service map. -/
theorem Execution.mirrors {actions : List Action} {config : Config}
    (execution : Execution actions config) (own : (actions.filterMap Action.passes).Nodup) :
    ∃ call m, config.Represents call m ∧ (config.Heard → m.Mirrors) := by
  induction execution with
  | nil => exact ⟨.finished, .new, Config.represents_initial, fun _ => Serial.new.mirrored.2⟩
  | @snoc actions config config' action before step ih =>
    rw [List.filterMap_append] at own
    have own := own.of_append_left
    obtain ⟨call, m, represents, mirrors⟩ := ih own
    have separate := before.separate own
    have transition := transition_of_step step
    obtain ⟨call', m', hserial, represents'⟩ | ⟨t, c, event, channel, hsending, hchannel, hdropped, h⟩ :=
      transition.represents before.locksAgree separate represents
    · refine ⟨call', m', represents', fun heard => ?_⟩
      cases hserial with
      | stay hsender => exact mirrors (transition.heard hsender heard)
      | processEvent order discovery event hsender h =>
        exact (mirrors (transition.heard hsender heard)).processEvent h
      | sendPortEventsTo order =>
        refine mirrors_sendPortEventsTo ?_ order
        rw [represents.map]
        exact before.keyed.eraseAll _
    · obtain ⟨call', m', represents', hheard⟩ :=
        represents.sendFailed separate hsending hchannel hdropped h
      refine ⟨call', m', represents', fun heard => ?_⟩
      obtain ⟨heard, rfl⟩ := hheard heard
      exact mirrors heard

/-- When no call is at work, a consumer that is there has been sent the ports of the service map. -/
theorem Execution.mirrored {actions : List Action} {config : Config}
    (execution : Execution actions config) (own : (actions.filterMap Action.passes).Nodup)
    (hquiet : ∀ t, (config.calls t).isQuiet) {c : Nat}
    (hinstalled : config.shared.portEventSender = some c) {channel : Channel PortEvent}
    (hchannel : config.channels c = some channel) (halive : channel.receiverAlive) :
    Mirrored config.shared.portServiceMap channel.log := by
  obtain ⟨call, m, represents, mirrors⟩ := execution.mirrors own
  have heard := Config.heard_of_alive hinstalled hchannel halive
  have hidle := represents.writing.eq_finished fun t => not_writes_of_isQuiet (hquiet t)
  subst hidle
  have hsender := represents.sender
  rw [hinstalled, Option.map_some, log_of_channel hchannel] at hsender
  have hmirrored := mirrors heard _ hsender
  rw [represents.map] at hmirrored
  change Mirrored config.shared.portServiceMap (channel.log ++ []) at hmirrored
  rwa [List.append_nil] at hmirrored

/-! ### Legal streams -/

/-- The events, from no open port on, open closed ports and close open ones. -/
def Legal (events : List PortEvent) : Prop :=
  ∃ ports, replay events (fun _ => none) = some ports

theorem legal_nil : Legal [] :=
  ⟨_, rfl⟩

theorem Legal.of_append {events more : List PortEvent} (h : Legal (events ++ more)) :
    Legal events := by
  obtain ⟨ports, h⟩ := h
  rw [replay_append] at h
  obtain ⟨ports', hfirst, -⟩ := Option.bind_eq_some_iff.mp h
  exact ⟨ports', hfirst⟩

/-- So are the first events with the next one. -/
theorem Legal.next {events more : List PortEvent} {event : PortEvent}
    (h : Legal (events ++ event :: more)) : Legal (events ++ [event]) := by
  have hsplit : Legal (events ++ [event] ++ more) := by rwa [List.append_assoc]
  exact hsplit.of_append

section Sending

variable {config : Config} {call : Call} {m : ServiceManager} {passed : List Nat}

/-- The events that are sent are legal with those before them. -/
theorem Config.Represents.legal_send (represents : config.Represents call m)
    (mirrors : config.Heard → m.Mirrors) (keyed : Keyed config.shared.portServiceMap)
    (agrees : config.LocksAgree) (separate : config.Separate passed) {t c : Nat} {event : PortEvent}
    (hsending : (config.calls t).sending = some (c, event)) {channel : Channel PortEvent}
    (hchannel : config.channels c = some channel) (halive : channel.receiverAlive) :
    Legal (config.log c ++ [event]) := by
  have hfits := separate.fits t
  obtain ⟨ports, hcall⟩ | ⟨rest, hcall⟩ := Call.sending_cases hsending
  · -- `send_event` tells the installed consumer what the manager has done to the map
    have hwrites : (config.calls t).Writes := by
      rw [hcall]
      exact List.mem_cons_self
    have heq := writing_eq_of_writes agrees represents.writing hwrites
    have hsender := represents.sender
    rw [hcall] at hfits heq
    rw [heq, hfits, Option.map_some] at hsender
    have heard := Config.heard_of_alive hfits hchannel halive
    exact Legal.next ⟨_, mirrors heard _ hsender⟩
  · -- `send_port_events_to` tells its own consumer of the services, while nobody changes the map
    rw [hcall] at hfits
    obtain ⟨order, hopen⟩ := hfits
    have hlegal : Legal (openEvents order config.shared.portServiceMap) :=
      ⟨_, replay_openEvents keyed order⟩
    rw [← hopen] at hlegal
    exact hlegal.next

end Sending

/-- One action keeps what was sent legal. -/
theorem Transition.legal {config config' : Config} {action : Action} {passed : List Nat}
    (transition : Transition config action config') (agrees : config.LocksAgree)
    (separate : config.Separate passed) (keyed : Keyed config.shared.portServiceMap) {call : Call}
    {m : ServiceManager} (represents : config.Represents call m) (mirrors : config.Heard → m.Mirrors)
    (legal : ∀ c, Legal (config.log c)) : ∀ c, Legal (config'.log c) := by
  have hupdate : ∀ {c : Nat} {channel : Channel PortEvent}, Legal channel.log → ∀ c',
      Legal (Config.log { config with
        channels := Function.update config.channels c (some channel) } c') := by
    intro c channel hlegal c'
    rw [log_update]
    by_cases hc : c' = c
    · rw [hc, Function.update_self]
      exact hlegal
    · rw [Function.update_of_ne hc]
      exact legal c'
  cases transition with
  | @channel c capacity hfree hpositive => exact hupdate legal_nil
  | @send t c event channel channel' hsending hchannel halive hpush =>
    refine hupdate ?_
    rw [(Channel.push_some hpush).1, ← log_of_channel hchannel]
    exact represents.legal_send mirrors keyed agrees separate hsending hchannel halive
  | @receive c channel channel' hchannel hreceive =>
    refine hupdate ?_
    rw [(Channel.receive_some hreceive).1, ← log_of_channel hchannel]
    exact legal c
  | @dropReceiver c channel hchannel =>
    refine hupdate ?_
    have hsame := legal c
    rwa [log_of_channel hchannel] at hsame
  | _ => exact legal

theorem Execution.legal {actions : List Action} {config : Config}
    (execution : Execution actions config) (own : (actions.filterMap Action.passes).Nodup) (c : Nat) :
    Legal (config.log c) := by
  induction execution generalizing c with
  | nil => exact legal_nil
  | @snoc actions config config' action before step ih =>
    rw [List.filterMap_append] at own
    have own := own.of_append_left
    obtain ⟨call, m, represents, mirrors⟩ := before.mirrors own
    exact (transition_of_step step).legal before.locksAgree (before.separate own) before.keyed represents
      mirrors (ih own) c

/-- At every moment every consumer has been sent a legal sequence of port events, and has received one
so far. -/
theorem consumers_get_legal_events {actions : List Action} {config : Config}
    (execution : Execution actions config) (own : (actions.filterMap Action.passes).Nodup) {c : Nat}
    {channel : Channel PortEvent} (hchannel : config.channels c = some channel) :
    Legal (channel.received ++ channel.buffer) ∧ Legal channel.received := by
  have hlegal := execution.legal own c
  rw [log_of_channel hchannel] at hlegal
  exact ⟨hlegal, hlegal.of_append⟩

/-- A call to `process_event` that sends one port event. -/
def sendingCall (event : EndpointEvent) : List Action :=
  [.call 1 (.processEvent "pods" event), .acquire 1 .ascending, .acquire 1 .ascending, .send 1,
    .release 1, .release 1]

/-- The consumer of a manager with two ports goes away.  Its `Close` of the first port cannot be sent,
which leaves the second port without endpoints; the next consumer is told to open it, and to close it. -/
def failedClose : List Action :=
  [.channel 0 2, .call 0 (.sendPortEventsTo 0), .acquire 0 .ascending, .acquire 0 .ascending,
    .release 0, .release 0] ++
  sendingCall (.add "pod" true 80 "http" (.v4 ⟨10, 0, 0, 1⟩ 8080) "http") ++
  sendingCall (.add "pod" true 81 "ssh" (.v4 ⟨10, 0, 0, 1⟩ 22) "ssh") ++
  [.dropReceiver 0] ++ sendingCall (.delete "pod") ++
  [.channel 1 2, .call 0 (.sendPortEventsTo 1), .acquire 0 .ascending, .send 0,
    .acquire 0 .ascending, .release 0, .release 0, .receive 1] ++
  sendingCall (.delete "pod")

theorem consumers_around_failed_close_get_legal_events :
    ∃ config channel next, Execution failedClose config ∧ config.channels 0 = some channel ∧
      channel.buffer = [.openPort 80 "http", .openPort 81 "ssh"] ∧ ¬ channel.receiverAlive ∧
      Legal (channel.received ++ channel.buffer) ∧ config.channels 1 = some next ∧
      next.received = [.openPort 81 "ssh"] ∧ next.buffer = [.closePort 81] ∧
      Legal (next.received ++ next.buffer) := by
  obtain ⟨config, hrun, channel, hchannel, hbuffer, hdropped, next, hnext, hreceived, hclosed⟩ :
      ∃ config, failedClose.foldlM Config.step .initial = some config ∧ ∃ channel,
        config.channels 0 = some channel ∧
        channel.buffer = [.openPort 80 "http", .openPort 81 "ssh"] ∧ ¬ channel.receiverAlive ∧
        ∃ next, config.channels 1 = some next ∧ next.received = [.openPort 81 "ssh"] ∧
          next.buffer = [.closePort 81] :=
    ⟨_, rfl, _, rfl, rfl, by decide, _, rfl, rfl, rfl⟩
  have execution : Execution failedClose config := Execution.nil.trans hrun
  have own : (failedClose.filterMap Action.passes).Nodup := by decide
  exact ⟨config, channel, next, execution, hchannel, hbuffer, hdropped,
    (consumers_get_legal_events execution own hchannel).1, hnext, hreceived, hclosed,
    (consumers_get_legal_events execution own hnext).1⟩

end StateProxy.Backend
