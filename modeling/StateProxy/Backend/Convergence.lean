import StateProxy.Backend.Load

/-! The system comes to rest.  When nobody calls a method, no discovery sends and no consumer goes
away, the listeners, the calls in progress and the consumers take only finitely many steps, whatever
their order, and when none is left every event that was sent has taken effect. -/

namespace StateProxy.Backend

open Net ProofKit ServiceManager

/-! ### Only finitely many tasks -/

theorem Transition.finite {config config' : Config} {action : Action}
    (transition : Transition config action config')
    (hcalls : {t | config.calls t ≠ .finished}.Finite)
    (hchannels : {c | config.channels c ≠ none}.Finite) :
    {t | config'.calls t ≠ .finished}.Finite ∧ {c | config'.channels c ≠ none}.Finite := by
  cases transition with
  | channel => exact ⟨hcalls, finite_update hchannels _ _⟩
  | call => exact ⟨finite_update hcalls _ _, hchannels⟩
  | acquire => exact ⟨finite_update hcalls _ _, hchannels⟩
  | await => exact ⟨hcalls, hchannels⟩
  | grant => exact ⟨finite_update hcalls _ _, hchannels⟩
  | send => exact ⟨finite_update hcalls _ _, finite_update hchannels _ _⟩
  | sendFailed => exact ⟨finite_update hcalls _ _, hchannels⟩
  | release => exact ⟨finite_update hcalls _ _, hchannels⟩
  | receive => exact ⟨hcalls, finite_update hchannels _ _⟩
  | dropReceiver => exact ⟨hcalls, finite_update hchannels _ _⟩

theorem System.Step.finite {system system' : System} {works : Bool}
    {more : List (String × EndpointEvent)} (step : system.Step works more system')
    (finite : system.IsFinite) : system'.IsFinite := by
  cases step with
  | @manager action config' spawned hallows hfree hstep =>
    obtain ⟨hcalls, hchannels⟩ := (transition_of_step hstep).finite finite.calls finite.channels
    refine ⟨hcalls, ?_, hchannels⟩
    cases hregisters : system.config.registers action with
    | some name =>
      simp only [System.listenersAfter_of_registers hregisters]
      exact finite_update finite.listeners _ _
    | none =>
      cases hfailing : system.config.failing action with
      | none =>
        simp only [System.listenersAfter_of_none hregisters hfailing]
        exact finite.listeners
      | some t =>
        simp only [System.listenersAfter_of_failing hregisters hfailing]
        exact finite_update finite.listeners _ _
  | send => exact ⟨finite.calls, finite_update finite.listeners _ _, finite.channels⟩
  | disconnect => exact ⟨finite.calls, finite_update finite.listeners _ _, finite.channels⟩
  | listen hlistener hrunning hbuffer hreceive halive hcall =>
    obtain ⟨hcalls, hchannels⟩ := (transition_of_step hcall).finite finite.calls finite.channels
    exact ⟨hcalls, finite_update finite.listeners _ _, hchannels⟩
  | dismiss => exact ⟨finite.calls, finite_update finite.listeners _ _, finite.channels⟩
  | close => exact ⟨finite.calls, finite_update finite.listeners _ _, finite.channels⟩
  | dropManager => exact ⟨finite.calls, finite.listeners, finite.channels⟩

theorem System.Reaches.isFinite {taken : List (String × EndpointEvent)} {system : System}
    (reaches : System.initial.Reaches taken system) : system.IsFinite := by
  induction reaches with
  | refl => constructor <;> simp [System.initial, Config.initial]
  | step _ step ih => exact step.finite ih

/-! ### Rest -/

/-- No call is in progress, no running listener has an event or a closed channel, and no consumer
has an event. -/
structure System.AtRest (system : System) : Prop where
  finished : ∀ t, (system.config.calls t).isFinished
  idle : ∀ t l, system.listeners t = some l → l.ended = none →
    l.channel.buffer = [] ∧ l.senderAlive
  consumed : ∀ c channel, system.config.channels c = some channel → channel.receiverAlive →
    channel.buffer = []

/-- While a call is in progress, some call or consumer can go on. -/
theorem Execution.exists_work {actions : List Action} {config : Config}
    (execution : Execution actions config) {t : Nat}
    (hunfinished : ¬ (config.calls t).isFinished) :
    ∃ action config', action.isWork ∧ config.step action = some config' := by
  have agrees := execution.locksAgree
  have known := execution.known
  have hrunning : ∀ t', (config.calls t').wants = none → ¬ (config.calls t').isFinished →
      ∃ action config', action.isWork ∧ config.step action = some config' := by
    intro t' hwants hnot
    obtain ⟨action, hprogress, hstep⟩ := known.running hwants hnot
    obtain ⟨config', hstep⟩ := Option.isSome_iff_exists.mp hstep
    refine ⟨action, config', ?_, hstep⟩
    cases action <;> first | rfl | exact hprogress.elim
  cases hwants : (config.calls t).wants with
  | none => exact hrunning t hwants hunfinished
  | some wanted =>
    have hbound : ∀ l : LockName, l.rank < 2 := by
      intro l
      cases l <;> decide
    rcases agrees.exists_takable_or_running LockName.rank 2 hbound rank_lt_of_wants hwants with
      ⟨l, t', mode, hnext⟩ | ⟨t', l, mode, hwants', htakable⟩ | ⟨t', l, mode, hholds, hwants'⟩
    · exact ⟨.grant l .ascending, _, rfl, by simp only [Config.step, hnext]; rfl⟩
    · exact ⟨.acquire t' .ascending, _, rfl, by simp only [Config.step, hwants']; exact if_pos htakable⟩
    · refine hrunning t' hwants' fun hfinished => ?_
      rw [of_finished hfinished] at hholds
      cases hholds

/-- A system that is not at rest has work to do. -/
theorem System.Reaches.atRest {taken : List (String × EndpointEvent)} {system : System}
    (reaches : System.initial.Reaches taken system)
    (hstuck : ∀ more system', ¬ system.Step true more system') : system.AtRest := by
  obtain ⟨⟨actions, recorded⟩, listens⟩ := reaches.invariant
  have finite := reaches.isFinite
  have hnone : ∀ action config', action.isWork → system.config.step action ≠ some config' := by
    intro action config' hwork hstep
    obtain ⟨spawned, hspawned⟩ := (finite.calls.union finite.listeners).exists_notMem
    rw [Set.mem_union, not_or] at hspawned
    have hidle : system.config.calls spawned = .finished := not_not.mp hspawned.1
    have hfree : system.listeners spawned = none := not_not.mp hspawned.2
    have hallows : system.Allows action := by
      cases action <;> trivial
    have step := @System.Step.manager system action config' spawned hallows
      (fun _ => ⟨hfree, by rw [hidle]; rfl⟩) hstep
    rw [hwork] at step
    exact hstuck _ _ step
  have hfinished : ∀ t, (system.config.calls t).isFinished := by
    intro t
    by_contra hunfinished
    obtain ⟨action, config', hwork, hstep⟩ := recorded.execution.exists_work hunfinished
    exact hnone action config' hwork hstep
  refine ⟨hfinished, fun t l hlistener hrunning => ?_, fun c channel hchannel halive => ?_⟩
  rotate_left
  · by_contra hbuffer
    obtain ⟨channel', hreceive⟩ := Channel.receive_of_ne_nil hbuffer
    refine hnone (.receive c) { system.config with
      channels := Function.update system.config.channels c (some channel') } rfl ?_
    simp [Config.step, hchannel, halive, hreceive]
  cases hbuffer : l.channel.buffer with
  | nil =>
    refine ⟨rfl, ?_⟩
    by_contra hclosed
    exact hstuck _ _ (.close hlistener hrunning (hfinished t) hbuffer (by simpa using hclosed))
  | cons event rest =>
    exfalso
    obtain ⟨channel, hreceive⟩ : ∃ channel, l.channel.receive = some channel :=
      Channel.receive_of_ne_nil (by simp [hbuffer])
    by_cases halive : system.Alive
    · have hcall : system.config.step (.call t (.processEvent l.name event)) = some
          { system.config with
            calls := Function.update system.config.calls t (.processEvent l.name event) } :=
        if_pos ⟨hfinished t, rfl, rfl⟩
      exact hstuck _ _ (.listen hlistener hrunning hbuffer hreceive halive hcall)
    · exact hstuck _ _ (.dismiss hlistener hrunning hreceive halive)

/-- A system at rest has no work to do. -/
theorem System.AtRest.not_step {system : System} (rest : system.AtRest)
    (agrees : system.config.LocksAgree) (more : List (String × EndpointEvent)) (system' : System) :
    ¬ system.Step true more system' := by
  intro step
  have hcall : ∀ t, system.config.calls t = .finished := fun t => of_finished (rest.finished t)
  generalize hworks : true = works at step
  cases step with
  | manager hallows hfree hstep =>
    have transition := transition_of_step hstep
    cases transition with
    | channel => cases hworks
    | call => cases hworks
    | acquire hwants =>
      rw [hcall] at hwants
      cases hwants
    | await hwants =>
      rw [hcall] at hwants
      cases hwants
    | grant hnext =>
      obtain ⟨rest', hqueue, -⟩ := RwLock.next_eq_some.mp hnext
      have hwants := agrees.waiting _ _ _ (by rw [hqueue]; exact List.mem_cons_self)
      rw [hcall] at hwants
      cases hwants
    | send hsending =>
      rw [hcall] at hsending
      cases hsending
    | sendFailed hsending =>
      rw [hcall] at hsending
      cases hsending
    | release hdropping =>
      rw [hcall] at hdropping
      cases hdropping
    | @receive c channel channel' hchannel hreceive =>
      have halive : channel.receiverAlive := by
        by_contra hdropped
        simp [Config.step, hchannel, hdropped] at hstep
      obtain ⟨event, hbuffer, -⟩ := Channel.receive_fields hreceive
      rw [rest.consumed c channel hchannel halive] at hbuffer
      cases hbuffer
    | dropReceiver => cases hworks
  | send => cases hworks
  | disconnect => cases hworks
  | listen hlistener hrunning hbuffer =>
    rw [(rest.idle _ _ hlistener hrunning).1] at hbuffer
    cases hbuffer
  | dismiss hlistener hrunning hreceive =>
    obtain ⟨event, hbuffer, -⟩ := Channel.receive_fields hreceive
    rw [(rest.idle _ _ hlistener hrunning).1] at hbuffer
    cases hbuffer
  | close hlistener hrunning hidle hempty hclosed =>
    rw [(rest.idle _ _ hlistener hrunning).2] at hclosed
    cases hclosed
  | dropManager => cases hworks

/-- Once its environment is quiet, the system comes to rest, in whatever order its tasks take their
steps: its own work goes on only finitely long, and it stops exactly when no call is in progress and
every listener that runs and every consumer has taken all its events. -/
theorem system_comes_to_rest {taken : List (String × EndpointEvent)} {system : System}
    (reaches : System.initial.Reaches taken system) :
    (∀ run : Nat → System, run 0 = system →
      ¬ ∀ n, ∃ more, (run n).Step true more (run (n + 1))) ∧
    ((∀ more system', ¬ system.Step true more system') ↔ system.AtRest) := by
  refine ⟨fun run hstart => ?_, reaches.atRest, fun rest => ?_⟩
  rotate_left
  · obtain ⟨⟨actions, recorded⟩, -⟩ := reaches.invariant
    exact rest.not_step recorded.execution.locksAgree
  refine not_infinite_of_lowers (fun system system' => ∃ more, system.Step true more system')
    (fun system => ∃ taken, System.initial.Reaches taken system)
    (fun system => total system.loadAt) (fun system => system.config.remaining) ?_ ?_ run
    ⟨taken, by rwa [hstart]⟩
  · rintro system system' ⟨taken, reaches⟩ ⟨more, step⟩
    exact ⟨_, reaches.step step⟩
  · rintro system system' ⟨taken, reaches⟩ ⟨more, step⟩
    obtain ⟨⟨actions, recorded⟩, -⟩ := reaches.invariant
    exact step.lowers recorded.execution.locksAgree reaches.isFinite

theorem disconnected_system_comes_to_rest :
    ∃ system, System.initial.Reaches [("pods", sampleAdd "pod")] system ∧
      ∀ run : Nat → System, run 0 = system →
        ¬ ∀ n, ∃ more, (run n).Step true more (run (n + 1)) := by
  obtain ⟨system, l, reaches, -⟩ := reaches_disconnected
  exact ⟨system, reaches, (system_comes_to_rest reaches).1⟩

/-! ### Systems that catch up -/

/-- The manager is held, every consumer is there, and no listener has ended but by the disconnection
of its discovery. -/
structure System.Healthy (system : System) : Prop where
  held : system.held
  consumers : ∀ c channel, system.config.channels c = some channel → channel.receiverAlive
  running : ∀ t l, system.listeners t = some l → l.ended = none ∨ l.ended = some .disconnected

/-- The system gets from `start` to a system by its own work. -/
inductive System.WorksTo (start : System) : List (String × EndpointEvent) → System → Prop
  | refl : WorksTo start [] start
  | step {taken more : List (String × EndpointEvent)} {system system' : System} :
      WorksTo start taken system → system.Step true more system' →
      WorksTo start (taken ++ more) system'

theorem System.WorksTo.reaches {start system : System} {taken : List (String × EndpointEvent)}
    (works : start.WorksTo taken system) : start.Reaches taken system := by
  induction works with
  | refl => exact .refl
  | step _ step ih => exact ih.step step

/-- Work drops no receiver. -/
theorem Transition.consumers {config config' : Config} {action : Action}
    (transition : Transition config action config') (hwork : action.isWork)
    (h : ∀ c channel, config.channels c = some channel → channel.receiverAlive) :
    ∀ c channel, config'.channels c = some channel → channel.receiverAlive := by
  have hupdate : ∀ {c : Nat} {channel : Channel PortEvent}, channel.receiverAlive →
      ∀ c' channel', Function.update config.channels c (some channel) c' = some channel' →
        channel'.receiverAlive := by
    intro c channel halive c' channel' hc
    by_cases heq : c' = c
    · rw [heq, Function.update_self] at hc
      cases hc
      exact halive
    · rw [Function.update_of_ne heq] at hc
      exact h c' channel' hc
  cases transition with
  | channel => cases hwork
  | send hsending hchannel halive hpush =>
    refine hupdate ?_
    rw [(Channel.push_some hpush).2]
    exact halive
  | receive hchannel hreceive =>
    refine hupdate ?_
    rw [(Channel.receive_some hreceive).2]
    exact h _ _ hchannel
  | dropReceiver => cases hwork
  | _ => exact h

/-- No send fails while every consumer is there. -/
theorem failing_eq_none {config : Config}
    (h : ∀ c channel, config.channels c = some channel → channel.receiverAlive)
    (action : Action) : config.failing action = none := by
  cases action with
  | send t =>
    cases hsending : (config.calls t).sending with
    | none => simp [Config.failing, hsending]
    | some sending =>
      obtain ⟨c, event⟩ := sending
      cases hchannel : config.channels c with
      | none => simp [Config.failing, hsending, hchannel]
      | some channel => simp [Config.failing, hsending, hchannel, h c channel hchannel]
  | _ => rfl

/-- A healthy system stays so while it works, and each of its listeners keeps its name and what its
discovery has sent. -/
theorem System.Step.healthy {system system' : System} {more : List (String × EndpointEvent)}
    (step : system.Step true more system') (healthy : system.Healthy) :
    system'.Healthy ∧ ∀ t l, system.listeners t = some l →
      ∃ l', system'.listeners t = some l' ∧ l'.name = l.name ∧ l'.channel.log = l.channel.log := by
  have hset : ∀ {t : Nat} {l l' : Listener}, system.listeners t = some l → l'.name = l.name →
      l'.channel.log = l.channel.log → (l'.ended = none ∨ l'.ended = some .disconnected) →
      (∀ t' l'', (system.set t l').listeners t' = some l'' →
        l''.ended = none ∨ l''.ended = some .disconnected) ∧
      ∀ t' l₀, system.listeners t' = some l₀ → ∃ l'', (system.set t l').listeners t' = some l'' ∧
        l''.name = l₀.name ∧ l''.channel.log = l₀.channel.log := by
    intro t l l' hlistener hname hlog hended
    refine ⟨fun t' l'' h => ?_, fun t' l₀ h => ?_⟩
    · rcases System.update_cases h with ⟨-, rfl⟩ | ⟨-, h⟩
      · exact hended
      · exact healthy.running t' l'' h
    · exact System.exists_of_set
        (R := fun l₁ l₂ => l₂.name = l₁.name ∧ l₂.channel.log = l₁.channel.log)
        (fun _ => ⟨rfl, rfl⟩) hlistener ⟨hname, hlog⟩ h
  generalize hworks : true = works at step
  cases step with
  | @manager action config' spawned hallows hfree hstep =>
    have hconsumers := (transition_of_step hstep).consumers hworks.symm healthy.consumers
    have hfailing := failing_eq_none healthy.consumers action
    cases hregisters : system.config.registers action with
    | some name =>
      obtain ⟨hnone, -⟩ := hfree (by rw [hregisters]; rfl)
      rw [System.listenersAfter_of_registers hregisters]
      refine ⟨⟨healthy.held, hconsumers, fun t l h => ?_⟩, fun t l h => ?_⟩
      · rcases System.update_cases h with ⟨-, rfl⟩ | ⟨-, h⟩
        · exact .inl rfl
        · exact healthy.running t l h
      · have ht : t ≠ spawned := by
          rintro rfl
          rw [hnone] at h
          cases h
        exact ⟨l, by simpa only [Function.update_of_ne ht] using h, rfl, rfl⟩
    | none =>
      rw [System.listenersAfter_of_none hregisters hfailing]
      exact ⟨⟨healthy.held, hconsumers, healthy.running⟩, fun t l h => ⟨l, h, rfl, rfl⟩⟩
  | send => cases hworks
  | disconnect => cases hworks
  | @listen t l event rest channel config' hlistener hrunning hbuffer hreceive halive hcall =>
    obtain ⟨hended, hkept⟩ := @hset t l { l with channel } hlistener rfl
      (Channel.receive_some hreceive).1 (.inl hrunning)
    have transition := transition_of_step hcall
    cases transition with
    | call => exact ⟨⟨healthy.held, healthy.consumers, hended⟩, hkept⟩
  | dismiss hlistener hrunning hreceive hgone => exact (hgone (.inl healthy.held)).elim
  | @close t l hlistener hrunning hidle hempty hclosed =>
    obtain ⟨hended, hkept⟩ := @hset t l (l.finish .disconnected) hlistener rfl rfl (.inr rfl)
    exact ⟨⟨healthy.held, healthy.consumers, hended⟩, hkept⟩
  | dropManager => cases hworks

theorem System.WorksTo.healthy {start system : System} {taken : List (String × EndpointEvent)}
    (works : start.WorksTo taken system) (healthy : start.Healthy) :
    system.Healthy ∧ ∀ t l, start.listeners t = some l →
      ∃ l', system.listeners t = some l' ∧ l'.name = l.name ∧ l'.channel.log = l.channel.log := by
  induction works with
  | refl => exact ⟨healthy, fun t l h => ⟨l, h, rfl, rfl⟩⟩
  | step _ step ih =>
    obtain ⟨hbefore, hkept⟩ := ih
    obtain ⟨hafter, hkept'⟩ := step.healthy hbefore
    refine ⟨hafter, fun t l h => ?_⟩
    obtain ⟨l₁, hlistener₁, hname₁, hlog₁⟩ := hkept t l h
    obtain ⟨l₂, hlistener₂, hname₂, hlog₂⟩ := hkept' t l₁ hlistener₁
    exact ⟨l₂, hlistener₂, hname₂.trans hname₁, hlog₂.trans hlog₁⟩

/-- A healthy system at rest has brought every event to the service map. -/
theorem System.AtRest.drained {system : System} {taken : List (String × EndpointEvent)}
    (rest : system.AtRest) (healthy : system.Healthy) (listens : system.Listens taken) :
    system.Drained := by
  intro t l hlistener
  have hidle : (system.config.calls t).waiting = [] := by
    rw [of_finished (rest.finished t)]
    rfl
  rcases healthy.running t l hlistener with hrunning | hended
  · exact ⟨hidle, (rest.idle t l hlistener hrunning).1, by simp [hrunning]⟩
  · exact ⟨hidle, listens.emptied t l hlistener hended, by simp [hended]⟩

/-- A healthy system catches up with its discoveries: however its tasks are scheduled, when their work
is done the endpoints of every discovery are those that all the events it has sent leave. -/
theorem healthy_system_catches_up {taken more : List (String × EndpointEvent)}
    {system system' : System} (reaches : System.initial.Reaches taken system)
    (healthy : system.Healthy) (works : system.WorksTo more system')
    (hdone : ∀ more' system'', ¬ system'.Step true more' system'') {t : Nat} {l : Listener}
    (hlistener : system.listeners t = some l) (port : UInt16) (uid : String) :
    endpointAt system'.config.shared.portServiceMap port ⟨l.name, uid⟩ =
      TableOp.run (l.channel.log.map (·.op l.name)) TableOp.empty port ⟨l.name, uid⟩ := by
  have reaches' := reaches.trans works.reaches
  obtain ⟨healthy', hkept⟩ := works.healthy healthy
  obtain ⟨-, listens⟩ := reaches'.invariant
  have drained := (reaches'.atRest hdone).drained healthy' listens
  obtain ⟨l', hlistener', hname, hlog⟩ := hkept t l hlistener
  have hown := reaches'.ownEvents_of_drained drained ⟨t, l', hlistener', hname, hlog⟩
  rw [reaches'.endpointAt, hown]

theorem System.WorksTo.act {start system : System} {taken : List (String × EndpointEvent)}
    (works : start.WorksTo taken system) (action : Action) {config' : Config}
    (hallows : system.Allows action) (hregisters : system.config.registers action = none)
    (hwork : action.isWork = true) (hstep : system.config.step action = some config') :
    start.WorksTo (taken ++ system.config.takes action)
      { system with config := config', listeners := system.listenersAfter action 0 } := by
  have step := @System.Step.manager system action config' 0 hallows
    (fun h => by rw [hregisters] at h; cases h) hstep
  rw [hwork] at step
  exact works.step step

/-- A discovery has sent an event that its listener has not received yet; the listener takes it. -/
theorem works_to_rest :
    ∃ system system' l more, System.initial.Reaches [] system ∧ system.Healthy ∧
      system.WorksTo more system' ∧ system'.AtRest ∧ system.listeners 1 = some l ∧
      l.name = "pods" ∧ l.channel.log = [sampleAdd "pod"] := by
  have start : System.initial.Reaches [] .initial := .refl
  have registered := ((start.act (.call 0 (.registerEndpointDiscovery "pods")) 1 ⟨rfl, rfl, rfl⟩
    ⟨rfl, rfl⟩ rfl).act (.acquire 0 .ascending) 1 trivial ⟨rfl, rfl⟩ rfl).act
    (.acquire 0 .ascending) 1 trivial ⟨rfl, rfl⟩ rfl
  have released := (registered.act (.release 0) 2 trivial ⟨rfl, rfl⟩ rfl).act (.release 0) 2 trivial
    ⟨rfl, rfl⟩ rfl
  have sent := released.step (@System.Step.send _ 1 _ (sampleAdd "pod") _ rfl rfl rfl rfl)
  refine ⟨_, _, _, _, sent, ?_, ((((System.WorksTo.refl.step (@System.Step.listen _ 1 _
    (sampleAdd "pod") [] _ _ rfl rfl rfl rfl (.inl rfl) rfl)).act (.acquire 1 .ascending) trivial rfl
    rfl rfl).act (.acquire 1 .ascending) trivial rfl rfl rfl).act (.release 1) trivial rfl rfl
    rfl).act (.release 1) trivial rfl rfl rfl, ?_, rfl, rfl, rfl⟩
  · refine ⟨rfl, fun c channel h => (by cases h), fun t l h => ?_⟩
    rcases t with _ | _ | t <;> cases h
    exact .inl rfl
  · refine ⟨fun t => ?_, fun t l h hrunning => ?_, fun c channel h => by cases h⟩
    · rcases t with _ | _ | t <;> rfl
    · rcases t with _ | _ | t <;> cases h
      exact ⟨rfl, rfl⟩

theorem sent_event_is_caught_up_with :
    ∃ system system' l more, System.initial.Reaches [] system ∧ system.Healthy ∧
      system.WorksTo more system' ∧ system.listeners 1 = some l ∧
      l.channel.log = [sampleAdd "pod"] ∧
      endpointAt system'.config.shared.portServiceMap 80 ⟨l.name, "pod"⟩ =
        TableOp.run (l.channel.log.map (·.op l.name)) TableOp.empty 80 ⟨l.name, "pod"⟩ := by
  obtain ⟨system, system', l, more, reaches, healthy, works, rest, hlistener, -, hlog⟩ := works_to_rest
  obtain ⟨⟨actions, recorded⟩, -⟩ := (reaches.trans works.reaches).invariant
  exact ⟨system, system', l, more, reaches, healthy, works, hlistener, hlog,
    healthy_system_catches_up reaches healthy works (rest.not_step recorded.execution.locksAgree)
      hlistener 80 "pod"⟩

end StateProxy.Backend
