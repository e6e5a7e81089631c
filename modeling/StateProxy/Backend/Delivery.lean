import StateProxy.Backend.History
import StateProxy.Backend.Listeners

/-! What the listeners bring to the service map.  Every registered name has one listener, and the
events of its discovery take effect once each, in the order in which they were sent, whatever the
other listeners, the callers and the consumers do.  A listener that has ended leaves the endpoints of
its discovery behind. -/

namespace StateProxy.Backend

open Net ProofKit ServiceManager

/-- The events of a discovery, in order. -/
def ownEvents (name : String) (taken : List (String × EndpointEvent)) : List EndpointEvent :=
  (taken.filter fun e => e.1 = name).map Prod.snd

theorem ownEvents_append (name : String) (taken more : List (String × EndpointEvent)) :
    ownEvents name (taken ++ more) = ownEvents name taken ++ ownEvents name more := by
  simp [ownEvents]

theorem ownEvents_eq_nil {name : String} {taken : List (String × EndpointEvent)}
    (h : ∀ e ∈ taken, e.1 ≠ name) : ownEvents name taken = [] := by
  rw [ownEvents, List.map_eq_nil_iff, List.filter_eq_nil_iff]
  simpa using h

/-- The event that a listener has received and that has not taken effect yet. -/
def Call.waiting (call : Call) : List EndpointEvent :=
  (call.event.map Prod.snd).toList

/-- How many events a listener has received and lost. -/
def Listener.losses (l : Listener) : Nat :=
  if l.ended = some .managerDropped then 1 else 0

theorem Listener.losses_of_running {l : Listener} (h : l.ended = none) : l.losses = 0 := by
  simp [losses, h]

/-- The listeners of a system: one for each registered name, each with the events of its discovery
that have taken effect, then the one that waits for the service map, and then those in its buffer.
One more event is lost when the manager is gone. -/
structure System.Listens (system : System) (taken : List (String × EndpointEvent)) : Prop where
  unique : ∀ t t' l l', system.listeners t = some l → system.listeners t' = some l' →
    l.name = l'.name → t = t'
  registered : ∀ name, name ∈ system.config.shared.registeredEndpointDiscoveryNames ↔
    ∃ t l, system.listeners t = some l ∧ l.name = name
  metrics : system.config.shared.endpointDiscoveryMetrics =
    system.config.shared.registeredEndpointDiscoveryNames
  called : ∀ t discovery event, (system.config.calls t).event = some (discovery, event) →
    ∃ l, system.listeners t = some l ∧ l.name = discovery
  settled : ∀ t l, system.listeners t = some l → l.ended ≠ none → (system.config.calls t).isOver
  received : ∀ t l, system.listeners t = some l →
    ∃ lost, l.channel.received =
        ownEvents l.name taken ++ (system.config.calls t).waiting ++ lost ∧
      lost.length = l.losses
  known : ∀ e ∈ taken, e.1 ∈ system.config.shared.registeredEndpointDiscoveryNames
  open_iff : ∀ t l, system.listeners t = some l → (l.channel.receiverAlive ↔ l.ended = none)
  emptied : ∀ t l, system.listeners t = some l → l.ended = some .disconnected →
    l.channel.buffer = []

theorem Call.waiting_of_isOver {call : Call} (h : call.isOver) : call.waiting = [] := by
  rw [waiting, (of_isOver h).2.2]
  rfl

namespace System.Listens

variable {system : System} {taken : List (String × EndpointEvent)}

/-- The event that takes effect by an action and those that still wait are those that waited. -/
theorem ownEvents_takes (listens : system.Listens taken) (action : Action) {t : Nat} {l : Listener}
    (hlistener : system.listeners t = some l) :
    ownEvents l.name (system.config.takes action) ++
      (if system.config.entering action = some t then [] else (system.config.calls t).waiting) =
        (system.config.calls t).waiting := by
  unfold Config.takes
  cases hentering : system.config.entering action with
  | none => simp [ownEvents]
  | some t' =>
    rw [Option.bind_some]
    cases hevent : (system.config.calls t').event with
    | none =>
      by_cases ht : t' = t
      · subst ht
        simp [ownEvents, Call.waiting, hevent]
      · simp [ownEvents, ht]
    | some e =>
      obtain ⟨discovery, event⟩ := e
      obtain ⟨l', hlistener', rfl⟩ := listens.called t' discovery event hevent
      by_cases ht : t' = t
      · subst ht
        rw [hlistener] at hlistener'
        cases hlistener'
        simp [ownEvents, Call.waiting, hevent]
      · have hname : l'.name ≠ l.name :=
          fun hname => ht (listens.unique t' t l' l hlistener' hlistener hname)
        simp [ownEvents, ht, hname]

/-- A listener and its call change, but not its name. -/
theorem changed (listens : system.Listens taken) {t : Nat} {l l' : Listener} {config' : Config}
    (hlistener : system.listeners t = some l) (hname : l'.name = l.name)
    (hshared : config'.shared = system.config.shared)
    (hcalls : ∀ t', t' ≠ t → config'.calls t' = system.config.calls t')
    (hcalled : ∀ discovery event, (config'.calls t).event = some (discovery, event) →
      l'.name = discovery)
    (hover : l'.ended ≠ none → (config'.calls t).isOver)
    (hreceived : ∃ lost, l'.channel.received =
        ownEvents l.name taken ++ (config'.calls t).waiting ++ lost ∧
      lost.length = l'.losses)
    (hopen : l'.channel.receiverAlive ↔ l'.ended = none)
    (hemptied : l'.ended = some .disconnected → l'.channel.buffer = []) :
    System.Listens { system.set t l' with config := config' } taken := by
  have hcases : ∀ t' l'', (system.set t l').listeners t' = some l'' →
      t' = t ∧ l'' = l' ∨ t' ≠ t ∧ system.listeners t' = some l'' :=
    fun t' l'' h => System.update_cases h
  have hbefore : ∀ t' l'', (system.set t l').listeners t' = some l'' →
      ∃ l₀, system.listeners t' = some l₀ ∧ l₀.name = l''.name := by
    intro t' l'' h
    obtain ⟨rfl, rfl⟩ | ⟨-, h⟩ := hcases t' l'' h
    · exact ⟨l, hlistener, hname.symm⟩
    · exact ⟨l'', h, rfl⟩
  have hafter : ∀ t' l₀, system.listeners t' = some l₀ →
      ∃ l'', (system.set t l').listeners t' = some l'' ∧ l''.name = l₀.name :=
    fun t' l₀ h => System.exists_of_set (R := fun l₁ l₂ => l₂.name = l₁.name) (fun _ => rfl) hlistener
      hname h
  refine ⟨?_, ?_, ?_, ?_, ?_, ?_, ?_, ?_, ?_⟩
  · intro t₁ t₂ l₁ l₂ h₁ h₂ hnames
    obtain ⟨l₁', h₁', hname₁⟩ := hbefore t₁ l₁ h₁
    obtain ⟨l₂', h₂', hname₂⟩ := hbefore t₂ l₂ h₂
    exact listens.unique t₁ t₂ l₁' l₂' h₁' h₂' (by rw [hname₁, hname₂, hnames])
  · intro name
    rw [hshared, listens.registered name]
    constructor
    · rintro ⟨t', l₀, h, rfl⟩
      obtain ⟨l'', h'', hname''⟩ := hafter t' l₀ h
      exact ⟨t', l'', h'', hname''⟩
    · rintro ⟨t', l'', h, rfl⟩
      obtain ⟨l₀, h₀, hname₀⟩ := hbefore t' l'' h
      exact ⟨t', l₀, h₀, hname₀⟩
  · rw [hshared]
    exact listens.metrics
  · intro t' discovery event hevent
    by_cases ht : t' = t
    · subst ht
      exact ⟨l', Function.update_self _ _ _, hcalled discovery event hevent⟩
    · change (config'.calls t').event = some (discovery, event) at hevent
      rw [hcalls t' ht] at hevent
      obtain ⟨l₀, h₀, rfl⟩ := listens.called t' discovery event hevent
      exact hafter t' l₀ h₀
  · intro t' l'' h hended
    obtain ⟨rfl, rfl⟩ | ⟨ht, h⟩ := hcases t' l'' h
    · exact hover hended
    · change (config'.calls t').isOver
      rw [hcalls t' ht]
      exact listens.settled t' l'' h hended
  · intro t' l'' h
    obtain ⟨rfl, rfl⟩ | ⟨ht, h⟩ := hcases t' l'' h
    · rw [hname]
      exact hreceived
    · rw [hcalls t' ht]
      exact listens.received t' l'' h
  · rw [hshared]
    exact listens.known
  · intro t' l'' h
    obtain ⟨rfl, rfl⟩ | ⟨-, h⟩ := hcases t' l'' h
    · exact hopen
    · exact listens.open_iff t' l'' h
  · intro t' l'' h hended
    obtain ⟨rfl, rfl⟩ | ⟨-, h⟩ := hcases t' l'' h
    · exact hemptied hended
    · exact listens.emptied t' l'' h hended

/-- A listener changes, but neither its name nor its call. -/
theorem set (listens : system.Listens taken) {t : Nat} {l l' : Listener}
    (hlistener : system.listeners t = some l) (hname : l'.name = l.name)
    (hover : l'.ended ≠ none → (system.config.calls t).isOver)
    (hreceived : ∃ lost, l'.channel.received =
        ownEvents l.name taken ++ (system.config.calls t).waiting ++ lost ∧
      lost.length = l'.losses)
    (hopen : l'.channel.receiverAlive ↔ l'.ended = none)
    (hemptied : l'.ended = some .disconnected → l'.channel.buffer = []) :
    (system.set t l').Listens taken := by
  refine listens.changed hlistener hname rfl (fun _ _ => rfl) (fun discovery event h => ?_) hover
    hreceived hopen hemptied
  obtain ⟨l₀, h₀, rfl⟩ := listens.called t discovery event h
  rw [hlistener] at h₀
  cases h₀
  exact hname

/-- An action that registers no new name. -/
theorem acted (listens : system.Listens taken) (agrees : system.config.LocksAgree)
    {action : Action} {config' : Config} (hallows : system.Allows action)
    (hregisters : system.config.registers action = none)
    (transition : Transition system.config action config') :
    System.Listens { system with config := config' } (taken ++ system.config.takes action) := by
  have hstart : ∀ t start, action = .call t start → start.event = none := by
    rintro t start rfl
    exact hallows.2.2
  have hevent := transition.event agrees hstart
  have hnames := transition.registers
  rw [hregisters] at hnames
  obtain ⟨hnames, hmetrics⟩ := hnames
  have hwaiting : ∀ t, (config'.calls t).waiting =
      if system.config.entering action = some t then [] else (system.config.calls t).waiting := by
    intro t
    rw [Call.waiting, hevent t]
    split <;> rfl
  refine ⟨listens.unique, ?_, ?_, ?_, ?_, ?_, ?_, listens.open_iff, listens.emptied⟩
  · rw [hnames]
    exact listens.registered
  · rw [hnames, hmetrics]
    exact listens.metrics
  · intro t discovery event h
    rw [hevent t] at h
    split at h
    · cases h
    · exact listens.called t discovery event h
  · intro t l hlistener hended
    refine transition.isOver agrees ?_ (listens.settled t l hlistener hended)
    rintro start rfl
    rw [hallows.2.1] at hlistener
    cases hlistener
  · intro t l hlistener
    obtain ⟨lost, hreceived, hlost⟩ := listens.received t l hlistener
    refine ⟨lost, ?_, hlost⟩
    have htakes := listens.ownEvents_takes action hlistener
    rw [hreceived, ownEvents_append, hwaiting t, ← htakes]
    simp only [List.append_assoc]
    rw [htakes]
  · intro e he
    rw [hnames]
    rcases List.mem_append.mp he with he | he
    · exact listens.known e he
    · obtain ⟨t, -, hevent⟩ := Option.bind_eq_some_iff.mp (Option.mem_toList.mp he)
      obtain ⟨l, hlistener, hname⟩ := listens.called t e.1 e.2 hevent
      exact (listens.registered e.1).mpr ⟨t, l, hlistener, hname⟩

/-- An action that registers a new name. -/
theorem spawned (listens : system.Listens taken) (agrees : system.config.LocksAgree)
    {action : Action} {config' : Config} {name : String} {t : Nat}
    (hregisters : system.config.registers action = some name)
    (hfree : system.listeners t = none ∧ (system.config.calls t).isFinished)
    (transition : Transition system.config action config') :
    System.Listens { system with
        config := config'
        listeners := Function.update system.listeners t (some (.new name)) }
      (taken ++ system.config.takes action) := by
  obtain ⟨hentering, hnew⟩ := Option.filter_eq_some_iff.mp hregisters
  obtain ⟨t₀, hentering, hregistering⟩ := Option.bind_eq_some_iff.mp hentering
  have hnew : name ∉ system.config.shared.registeredEndpointDiscoveryNames := by simpa using hnew
  have hnone : (system.config.calls t₀).event = none := Call.event_of_registering hregistering
  have htakes : system.config.takes action = [] := by
    simp [Config.takes, hentering, hnone]
  have hstart : ∀ t start, action = .call t start → start.event = none := by
    rintro t start rfl
    cases hentering
  have hevent : ∀ t, (config'.calls t).event = (system.config.calls t).event := by
    intro t
    rw [transition.event agrees hstart t]
    split
    · rename_i ht
      rw [hentering] at ht
      cases ht
      exact hnone.symm
    · rfl
  have hwaiting : ∀ t, (config'.calls t).waiting = (system.config.calls t).waiting := by
    intro t
    rw [Call.waiting, hevent, Call.waiting]
  have hnames := transition.registers
  rw [hregisters] at hnames
  obtain ⟨hnames, hmetrics⟩ := hnames
  have hcases : ∀ t' l, Function.update system.listeners t (some (.new name)) t' = some l →
      t' = t ∧ l = .new name ∨ system.listeners t' = some l :=
    fun t' l h => (System.update_cases h).imp_right And.right
  have hkept : ∀ t' l, system.listeners t' = some l →
      Function.update system.listeners t (some (.new name)) t' = some l := by
    intro t' l h
    by_cases ht : t' = t
    · rw [ht, hfree.1] at h
      cases h
    · rwa [Function.update_of_ne ht]
  have hother : ∀ t' l, system.listeners t' = some l → l.name ≠ name := by
    rintro t' l h rfl
    exact hnew ((listens.registered l.name).mpr ⟨t', l, h, rfl⟩)
  rw [htakes, List.append_nil]
  refine ⟨?_, ?_, ?_, ?_, ?_, ?_, ?_, ?_, ?_⟩
  · intro t₁ t₂ l₁ l₂ h₁ h₂ hsame
    obtain ⟨rfl, rfl⟩ | hold₁ := hcases t₁ l₁ h₁
    · obtain ⟨rfl, rfl⟩ | hold₂ := hcases t₂ l₂ h₂
      · rfl
      · exact (hother t₂ l₂ hold₂ hsame.symm).elim
    · obtain ⟨rfl, rfl⟩ | hold₂ := hcases t₂ l₂ h₂
      · exact (hother t₁ l₁ hold₁ hsame).elim
      · exact listens.unique t₁ t₂ l₁ l₂ hold₁ hold₂ hsame
  · intro name'
    rw [hnames, Finset.mem_insert, listens.registered]
    constructor
    · rintro (rfl | ⟨t', l, h, rfl⟩)
      · exact ⟨t, .new name', Function.update_self _ _ _, rfl⟩
      · exact ⟨t', l, hkept t' l h, rfl⟩
    · rintro ⟨t', l, h, rfl⟩
      rcases hcases t' l h with ⟨rfl, rfl⟩ | h
      · exact .inl rfl
      · exact .inr ⟨t', l, h, rfl⟩
  · rw [hnames, hmetrics, listens.metrics]
  · intro t' discovery event h
    rw [hevent] at h
    obtain ⟨l, hl, hname⟩ := listens.called t' discovery event h
    exact ⟨l, hkept t' l hl, hname⟩
  · intro t' l h hended
    rcases hcases t' l h with ⟨rfl, rfl⟩ | h
    · exact (hended rfl).elim
    · refine transition.isOver agrees ?_ (listens.settled t' l h hended)
      rintro start rfl
      cases hentering
  · intro t' l h
    rw [hwaiting]
    rcases hcases t' l h with ⟨rfl, rfl⟩ | h
    · refine ⟨[], ?_, rfl⟩
      have hown : ownEvents name taken = [] := by
        refine ownEvents_eq_nil fun e he hname => hnew ?_
        rw [← hname]
        exact listens.known e he
      rw [of_finished hfree.2]
      simp [Listener.new, Channel.new, hown, Call.waiting, Call.event]
    · exact listens.received t' l h
  · intro e he
    rw [hnames]
    exact Finset.mem_insert_of_mem (listens.known e he)
  · intro t' l h
    rcases hcases t' l h with ⟨rfl, rfl⟩ | h
    · exact ⟨fun _ => rfl, fun _ => rfl⟩
    · exact listens.open_iff t' l h
  · intro t' l h hended
    rcases hcases t' l h with ⟨rfl, rfl⟩ | h
    · rfl
    · exact listens.emptied t' l h hended

/-- A method of the manager goes on, or a consumer does. -/
theorem manager (listens : system.Listens taken) (agrees : system.config.LocksAgree)
    {action : Action} {config' : Config} {spawned : Nat} (hallows : system.Allows action)
    (hfree : (system.config.registers action).isSome →
      system.listeners spawned = none ∧ (system.config.calls spawned).isFinished)
    (transition : Transition system.config action config') :
    System.Listens
      { system with config := config', listeners := system.listenersAfter action spawned }
      (taken ++ system.config.takes action) := by
  cases hregisters : system.config.registers action with
  | some name =>
    rw [System.listenersAfter_of_registers hregisters]
    exact listens.spawned agrees hregisters (hfree (by rw [hregisters]; rfl)) transition
  | none =>
    have hacted := listens.acted agrees hallows hregisters transition
    cases hfailing : system.config.failing action with
    | none =>
      rw [System.listenersAfter_of_none hregisters hfailing]
      exact hacted
    | some t =>
      rw [System.listenersAfter_of_failing hregisters hfailing]
      obtain ⟨c, event, hsending, hover⟩ := transition.isOver_of_failing hfailing
      cases hlistener : system.listeners t with
      | none =>
        rw [Option.map_none, ← hlistener, Function.update_eq_self]
        exact hacted
      | some l =>
        obtain ⟨lost, hreceived, hlost⟩ := hacted.received t l hlistener
        have hrunning : l.ended = none := by
          by_contra hended
          have hnot := (Call.of_isOver (listens.settled t l hlistener hended)).2.1
          rw [hsending] at hnot
          cases hnot
        have hname : (l.finish .cannotSendPortEvent).name = l.name := rfl
        rw [Listener.losses_of_running hrunning] at hlost
        refine hacted.set hlistener hname (fun _ => hover) ⟨lost, hreceived, hlost⟩ ?_ ?_
        · simp [Listener.finish, Channel.dropReceiver]
        · simp [Listener.finish]

theorem step (listens : system.Listens taken) (agrees : system.config.LocksAgree)
    {works : Bool} {more : List (String × EndpointEvent)} {system' : System}
    (step : system.Step works more system') :
    system'.Listens (taken ++ more) := by
  cases step with
  | manager hallows hfree hstep =>
    exact listens.manager agrees hallows hfree (transition_of_step hstep)
  | @send t l event channel hlistener hsender hreceiver hpush =>
    obtain ⟨hreceived, -⟩ := Channel.push_fields hpush
    obtain ⟨-, halive⟩ := Channel.push_some hpush
    have hrunning := (listens.open_iff t l hlistener).mp hreceiver
    rw [List.append_nil]
    refine listens.set hlistener rfl (listens.settled t l hlistener) ?_ ?_ ?_
    · rw [hreceived]
      exact listens.received t l hlistener
    · rw [halive]
      exact listens.open_iff t l hlistener
    · simp [hrunning]
  | @disconnect t l hlistener =>
    rw [List.append_nil]
    exact listens.set hlistener rfl (listens.settled t l hlistener) (listens.received t l hlistener)
      (listens.open_iff t l hlistener) (listens.emptied t l hlistener)
  | @listen t l event rest channel config' hlistener hrunning hbuffer hreceive halive hcall =>
    obtain ⟨event', hbuffer', hreceived⟩ := Channel.receive_fields hreceive
    obtain ⟨-, hopen⟩ := Channel.receive_some hreceive
    rw [hbuffer] at hbuffer'
    obtain ⟨rfl, -⟩ := List.cons.inj hbuffer'
    obtain ⟨lost, hbefore, hlost⟩ := listens.received t l hlistener
    have hnone : lost = [] :=
      List.length_eq_zero_iff.mp (by rw [hlost, Listener.losses_of_running hrunning])
    have transition := transition_of_step hcall
    cases transition with
    | call hfinished =>
      have hself : Function.update system.config.calls t (.processEvent l.name event) t =
          .processEvent l.name event := Function.update_self _ _ _
      rw [of_finished hfinished, hnone, List.append_nil] at hbefore
      have hidle : Call.finished.waiting = [] := rfl
      rw [hidle, List.append_nil] at hbefore
      rw [List.append_nil]
      refine listens.changed hlistener rfl rfl (fun t' ht => Function.update_of_ne ht _ _)
        (fun discovery event' h => ?_) (fun hended => (hended hrunning).elim)
        ⟨[], ?_, (Listener.losses_of_running hrunning).symm⟩ ?_ ?_
      · simp only [hself] at h
        cases h
        rfl
      · simp only [hself, hreceived, hbefore, List.append_nil]
        rfl
      · rw [hopen]
        exact listens.open_iff t l hlistener
      · simp [hrunning]
  | @dismiss t l channel hlistener hrunning hreceive hgone =>
    obtain ⟨event, hbuffer, hreceived⟩ := Channel.receive_fields hreceive
    have hover : (system.config.calls t).isOver := by
      by_contra hnot
      refine hgone (.inr ⟨t, fun hfinished => hnot ?_⟩)
      rw [of_finished hfinished]
      rfl
    obtain ⟨lost, hbefore, hlost⟩ := listens.received t l hlistener
    have hempty : lost = [] :=
      List.length_eq_zero_iff.mp (by rw [hlost, Listener.losses_of_running hrunning])
    subst hempty
    rw [List.append_nil]
    refine listens.set hlistener rfl (fun _ => hover) ⟨[event], ?_, rfl⟩ ?_ ?_
    · rw [List.append_nil] at hbefore
      rw [← hbefore]
      exact hreceived
    · simp [Listener.finish, Channel.dropReceiver]
    · simp [Listener.finish]
  | @close t l hlistener hrunning hidle hempty hclosed =>
    have hover : (system.config.calls t).isOver := by
      rw [of_finished hidle]
      rfl
    obtain ⟨lost, hbefore, hlost⟩ := listens.received t l hlistener
    rw [Listener.losses_of_running hrunning] at hlost
    rw [List.append_nil]
    refine listens.set hlistener rfl (fun _ => hover) ⟨lost, hbefore, hlost⟩ ?_ fun _ => ?_
    · simp [Listener.finish, Channel.dropReceiver]
    · exact hempty
  | dropManager =>
    rw [List.append_nil]
    exact ⟨listens.unique, listens.registered, listens.metrics, listens.called, listens.settled,
      listens.received, listens.known, listens.open_iff, listens.emptied⟩

end System.Listens

/-- The manager of a system that is reached executes its methods beside each other, and its listeners
are as they should be. -/
theorem System.Reaches.invariant {taken : List (String × EndpointEvent)} {system : System}
    (reaches : System.initial.Reaches taken system) :
    (∃ actions, Recorded actions taken system.config) ∧ system.Listens taken := by
  induction reaches with
  | refl =>
    refine ⟨⟨[], .nil⟩, ?_⟩
    constructor <;> simp [System.initial, Config.initial, Shared.new, Call.event]
  | @step taken more system system' works _ step ih =>
    obtain ⟨⟨actions, recorded⟩, listens⟩ := ih
    refine ⟨?_, listens.step recorded.execution.locksAgree step⟩
    cases step with
    | @manager action config' spawned hallows hfree hstep =>
      exact ⟨_, recorded.snoc action hstep⟩
    | listen hlistener hrunning hbuffer hreceive halive hcall => exact ⟨_, recorded.snoc _ hcall⟩
    | _ =>
      rw [List.append_nil]
      exact ⟨actions, recorded⟩

end StateProxy.Backend
