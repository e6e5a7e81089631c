import StateProxy.Backend.Mirror
import StateProxy.Backend.Progress

/-! The channels of the consumers.  When every call to `send_port_events_to` is given a channel of
its own, that channel gets the events of the call's snapshot first, and nothing else before the call
has installed it; from then on it is the manager's.  `Config.Separate` says so of a configuration,
and every action keeps it. -/

namespace StateProxy.Backend

open Net ProofKit ServiceManager

namespace Call

/-- The channel that a call is to install. -/
def offers : Call → Option Nat
  | .sendPortEventsTo channel => some channel
  | .sendOpen channel _ _ => some channel
  | .install channel => some channel
  | _ => none

/-- What a call relies on at a point: that it sends on the installed channel, that its own channel
is new, or that its own channel has got the events of its snapshot up to the next one. -/
def Fits (shared : Shared) (log : Nat → List PortEvent) : Call → Prop
  | .sendEvent c _ _ => shared.portEventSender = some c
  | .sendPortEventsTo c => log c = []
  | .sendOpen c event rest =>
    ∃ order, log c ++ event :: rest = openEvents order shared.portServiceMap
  | .install c => ∃ order, log c = openEvents order shared.portServiceMap
  | _ => True

variable {shared shared' : Shared} {log log' : Nat → List PortEvent} {call : Call}

theorem Fits.frame (h : call.Fits shared log)
    (hwrite : (.portServiceMap, .write) ∈ call.holds →
      shared'.portEventSender = shared.portEventSender)
    (hread : (.portServiceMap, .read) ∈ call.holds →
      shared'.portServiceMap = shared.portServiceMap)
    (hlog : ∀ c, call.offers = some c → log' c = log c) : call.Fits shared' log' := by
  cases call with
  | sendEvent c event ports =>
    have hsender := hwrite List.mem_cons_self
    exact hsender.trans h
  | sendPortEventsTo c =>
    have hsame := hlog c rfl
    exact hsame.trans h
  | sendOpen c event rest =>
    obtain ⟨order, h⟩ := h
    exact ⟨order, by rw [hlog c rfl, hread List.mem_cons_self, h]⟩
  | install c =>
    obtain ⟨order, h⟩ := h
    exact ⟨order, by rw [hlog c rfl, hread List.mem_cons_self, h]⟩
  | _ => trivial

theorem fits_sendNext {c : Nat} {events : List PortEvent} {order : IterOrder UInt16}
    (h : log c ++ events = openEvents order shared.portServiceMap) :
    (Shared.sendNext c events).Fits shared log := by
  cases events with
  | nil => exact ⟨order, by rw [← h, List.append_nil]⟩
  | cons event events => exact ⟨order, h⟩

theorem fits_closeServices (shared : Shared) (ports : List UInt16) :
    (shared.closeServices ports).2.Fits (shared.closeServices ports).1 log := by
  induction ports generalizing shared with
  | nil => trivial
  | cons port ports ih =>
    simp only [Shared.closeServices]
    split
    · exact ih _
    · rename_i channel hsender
      exact hsender

theorem Fits.enter (h : call.Fits shared log) (orders : Orders) :
    (shared.enter orders call).2.Fits (shared.enter orders call).1 log := by
  unfold Shared.enter
  split <;> try trivial
  · split <;> trivial
  · split
    · trivial
    · rename_i hsender
      exact hsender
  · exact fits_closeServices shared _
  · have hempty : log _ = [] := h
    exact fits_sendNext (by rw [hempty, List.nil_append])
  · split <;> trivial

/-- Who sends: `send_event` or `send_port_events_to`. -/
theorem sending_cases {c : Nat} {event : PortEvent} (h : call.sending = some (c, event)) :
    (∃ ports, call = .sendEvent c event ports) ∨ ∃ rest, call = .sendOpen c event rest := by
  cases call with
  | sendEvent c event ports =>
    cases h
    exact .inl ⟨ports, rfl⟩
  | sendOpen c event rest =>
    cases h
    exact .inr ⟨rest, rfl⟩
  | _ => cases h

/-- A send brings its event into the log. -/
theorem Fits.sent (h : call.Fits shared log) {c : Nat} {event : PortEvent}
    (hsending : call.sending = some (c, event)) :
    (shared.sent call).2.Fits (shared.sent call).1
      (Function.update log c (log c ++ [event])) := by
  obtain ⟨ports, rfl⟩ | ⟨rest, rfl⟩ := sending_cases hsending
  · exact fits_closeServices shared ports
  · obtain ⟨order, h⟩ := h
    have hnext : Function.update log c (log c ++ [event]) c ++ rest =
        openEvents order shared.portServiceMap := by
      rw [Function.update_self, List.append_assoc]
      exact h
    exact fits_sendNext hnext

end Call

/-- The events that were sent on a channel. -/
def Config.log (config : Config) (c : Nat) : List PortEvent :=
  ((config.channels c).map Channel.log).getD []

/-- Each channel that was passed to the manager serves one call and then the manager. -/
structure Config.Separate (passed : List Nat) (config : Config) : Prop where
  fits : ∀ t, (config.calls t).Fits config.shared config.log
  offered : ∀ t c, (config.calls t).offers = some c →
    c ∈ passed ∧ config.shared.portEventSender ≠ some c
  once : ∀ t t' c, (config.calls t).offers = some c → (config.calls t').offers = some c → t = t'
  installed : ∀ c, config.shared.portEventSender = some c → c ∈ passed
  unused : ∀ c, c ∉ passed → config.log c = []

section Points

variable (shared : Shared)

theorem offers_closeServices (ports : List UInt16) :
    (shared.closeServices ports).2.offers = none := by
  induction ports generalizing shared with
  | nil => rfl
  | cons port ports ih =>
    simp only [Shared.closeServices]
    split
    · exact ih _
    · rfl

theorem offers_sendNext (channel : Nat) (events : List PortEvent) :
    (Shared.sendNext channel events).offers = some channel := by
  cases events <;> rfl

theorem offers_enter (orders : Orders) (call : Call) {c : Nat}
    (h : (shared.enter orders call).2.offers = some c) : call.offers = some c := by
  unfold Shared.enter at h
  split at h <;> try cases h
  · split at h <;> cases h
  · split at h <;> cases h
  · rw [offers_closeServices] at h
    cases h
  · rw [offers_sendNext] at h
    exact h
  · split at h <;> cases h
  · exact h

theorem offers_sent (call : Call) {c : Nat} (h : (shared.sent call).2.offers = some c) :
    call.offers = some c := by
  unfold Shared.sent at h
  split at h
  · rw [offers_closeServices] at h
    cases h
  · rw [offers_sendNext] at h
    exact h
  · exact h

theorem dropping_offers {call next : Call} {l : LockName} (h : call.dropping = some (l, next)) :
    next.offers = none := by
  cases call <;> cases h <;> rfl

theorem dropping_fits {call next : Call} {l : LockName} {shared : Shared}
    {log : Nat → List PortEvent} (h : call.dropping = some (l, next)) : next.Fits shared log := by
  cases call <;> cases h <;> trivial

/-- Only a call that installs its channel changes the sender. -/
theorem enter_sender_eq (orders : Orders) (call : Call) :
    (shared.enter orders call).1.portEventSender = shared.portEventSender ∨
      ∃ c, call = .install c := by
  unfold Shared.enter
  split <;> try exact .inl rfl
  · split <;> exact .inl rfl
  · split <;> exact .inl rfl
  · exact .inl (closeServices_sender shared _)
  · exact .inr ⟨_, rfl⟩
  · split <;> exact .inl rfl

/-- Only a call with the write lock on the service map changes it. -/
theorem enter_map_eq (orders : Orders) (call : Call) :
    (shared.enter orders call).1.portServiceMap = shared.portServiceMap ∨
      (.portServiceMap, .write) ∈ (shared.enter orders call).2.holds := by
  unfold Shared.enter
  split <;> try exact .inl rfl
  · split <;> exact .inr List.mem_cons_self
  · exact .inr List.mem_cons_self
  · exact .inr List.mem_cons_self
  · exact .inr List.mem_cons_self
  · split <;> exact .inl rfl
  · right
    rw [holds_closeServices]
    exact List.mem_cons_self
  · split <;> exact .inl rfl

end Points

theorem log_update (config : Config) (c : Nat) (channel : Channel PortEvent) :
    { config with channels := Function.update config.channels c (some channel) }.log =
      Function.update config.log c channel.log := by
  funext c'
  by_cases hc : c' = c
  · subst hc
    simp [Config.log]
  · simp [Config.log, hc]

theorem log_of_channel {config : Config} {c : Nat} {channel : Channel PortEvent}
    (h : config.channels c = some channel) : config.log c = channel.log := by
  simp [Config.log, h]

theorem Config.enter_eq (config : Config) (t : Nat) (orders : Orders) (l : LockName)
    (lock : RwLock Nat) :
    config.enter t orders l lock =
      ⟨(config.shared.enter orders (config.calls t)).1, config.channels,
        Function.update config.locks l lock,
        Function.update config.calls t (config.shared.enter orders (config.calls t)).2⟩ := rfl

namespace Config.Separate

variable {passed : List Nat} {config : Config}

/-- A call that goes on offers no other channel than before, and may install the one it offered. -/
theorem moved (separate : config.Separate passed) {t : Nat} {call : Call} {shared : Shared}
    {channels : Nat → Option (Channel PortEvent)} {locks : LockName → RwLock Nat}
    (log : Nat → List PortEvent) (hlog : (⟨shared, channels, locks, config.calls⟩ : Config).log = log)
    (hoffers : ∀ c, call.offers = some c → (config.calls t).offers = some c)
    (hsender : ∀ c, shared.portEventSender = some c → config.shared.portEventSender = some c ∨
      (config.calls t).offers = some c ∧ call.offers = none)
    (hfits : call.Fits shared log)
    (hothers : ∀ t', t' ≠ t → (config.calls t').Fits shared log)
    (hunused : ∀ c, c ∉ passed → log c = config.log c) :
    Config.Separate passed ⟨shared, channels, locks, Function.update config.calls t call⟩ where
  fits := by
    change ∀ t', (Function.update config.calls t call t').Fits shared
      (⟨shared, channels, locks, config.calls⟩ : Config).log
    rw [hlog]
    exact (Function.forall_update_iff config.calls fun _ call => call.Fits shared log).mpr
      ⟨hfits, hothers⟩
  offered := (Function.forall_update_iff config.calls fun _ call => ∀ c, call.offers = some c →
    c ∈ passed ∧ shared.portEventSender ≠ some c).mpr <| by
      refine ⟨fun c hc => ?_, fun t' ht c hc => ?_⟩
      · obtain ⟨hmem, hne⟩ := separate.offered t c (hoffers c hc)
        refine ⟨hmem, fun h => ?_⟩
        rcases hsender c h with h | ⟨-, h⟩
        · exact hne h
        · rw [h] at hc
          cases hc
      · obtain ⟨hmem, hne⟩ := separate.offered t' c hc
        refine ⟨hmem, fun h => ?_⟩
        rcases hsender c h with h | ⟨h, -⟩
        · exact hne h
        · exact ht (separate.once t' t c hc h)
  once := by
    have hbefore : ∀ t' c, (Function.update config.calls t call t').offers = some c →
        (config.calls t').offers = some c :=
      (Function.forall_update_iff config.calls fun t' call => ∀ c, call.offers = some c →
        (config.calls t').offers = some c).mpr ⟨hoffers, fun _ _ _ h => h⟩
    intro t₁ t₂ c h₁ h₂
    exact separate.once t₁ t₂ c (hbefore t₁ c h₁) (hbefore t₂ c h₂)
  installed := by
    intro c h
    rcases hsender c h with h | ⟨h, -⟩
    · exact separate.installed c h
    · exact (separate.offered t c h).1
  unused := by
    intro c hc
    change (⟨shared, channels, locks, config.calls⟩ : Config).log c = []
    rw [hlog, hunused c hc]
    exact separate.unused c hc

/-- A call that gets a lock. -/
theorem enter (separate : config.Separate passed) (agrees : config.LocksAgree) {t : Nat}
    {orders : Orders} {l : LockName} {lock : RwLock Nat}
    (agrees' : (config.enter t orders l lock).LocksAgree) :
    (config.enter t orders l lock).Separate passed := by
  rw [Config.enter_eq] at agrees' ⊢
  have hself : Function.update config.calls t (config.shared.enter orders (config.calls t)).2 t =
      (config.shared.enter orders (config.calls t)).2 := Function.update_self _ _ _
  refine separate.moved config.log rfl (fun c h => offers_enter _ _ _ h) (fun c h => ?_)
    ((separate.fits t).enter orders) (fun t' ht => ?_) (fun _ _ => rfl)
  · rcases enter_sender_eq config.shared orders (config.calls t) with hsame | ⟨c', hinstall⟩
    · rw [hsame] at h
      exact .inl h
    · rw [hinstall] at h ⊢
      cases h
      exact .inr ⟨rfl, rfl⟩
  · have hother : Function.update config.calls t (config.shared.enter orders (config.calls t)).2 t' =
        config.calls t' := Function.update_of_ne ht _ _
    refine (separate.fits t').frame (fun hwrite => ?_) (fun hread => ?_) fun _ _ => rfl
    · refine (enter_sender_eq config.shared orders (config.calls t)).resolve_right ?_
      rintro ⟨c, hinstall⟩
      have hholds : (.portServiceMap, .read) ∈ (config.calls t).holds := by
        rw [hinstall]
        exact List.mem_cons_self
      exact ht (agrees.eq_of_write hwrite hholds).symm
    · refine (enter_map_eq config.shared orders (config.calls t)).resolve_right fun hwrite => ?_
      rw [← hself] at hwrite
      rw [← hother] at hread
      exact ht (agrees'.eq_of_write hwrite hread)

/-- A channel changes, but not its events. -/
theorem changed (separate : config.Separate passed) {c : Nat} {channel : Channel PortEvent}
    (hlog : channel.log = config.log c) :
    Config.Separate passed
      { config with channels := Function.update config.channels c (some channel) } := by
  have hsame : { config with channels := Function.update config.channels c (some channel) }.log =
      config.log := by
    rw [log_update, hlog, Function.update_eq_self]
  refine ⟨?_, separate.offered, separate.once, separate.installed, ?_⟩
  · rw [hsame]
    exact separate.fits
  · rw [hsame]
    exact separate.unused

/-- A channel on which a call sends was passed, and no other call is to install it. -/
theorem sends (separate : config.Separate passed) {t c : Nat} {event : PortEvent}
    (hsending : (config.calls t).sending = some (c, event)) :
    c ∈ passed ∧ ∀ t', t' ≠ t → (config.calls t').offers ≠ some c := by
  obtain ⟨ports, hcall⟩ | ⟨rest, hcall⟩ := Call.sending_cases hsending
  · have hfits := separate.fits t
    rw [hcall] at hfits
    refine ⟨separate.installed c hfits, fun t' _ hoffers => ?_⟩
    exact (separate.offered t' c hoffers).2 hfits
  · have hoffers : (config.calls t).offers = some c := by
      rw [hcall]
      rfl
    refine ⟨(separate.offered t c hoffers).1, fun t' ht hoffers' => ?_⟩
    exact ht (separate.once t' t c hoffers' hoffers)

/-- A send does not change the map for another call that reads it. -/
theorem sent_map_of_reads (agrees : config.LocksAgree) {t t' c : Nat} (ht : t' ≠ t)
    {event : PortEvent} (hsending : (config.calls t).sending = some (c, event))
    (hread : (.portServiceMap, .read) ∈ (config.calls t').holds) :
    (config.shared.sent (config.calls t)).1.portServiceMap = config.shared.portServiceMap := by
  obtain ⟨ports, hcall⟩ | ⟨rest, hcall⟩ := Call.sending_cases hsending
  · have hwrite : (.portServiceMap, .write) ∈ (config.calls t).holds := by
      rw [hcall]
      exact List.mem_cons_self
    exact (ht (agrees.eq_of_write hwrite hread)).elim
  · rw [hcall]
    rfl

/-- A call sends an event. -/
theorem send (separate : config.Separate passed) (agrees : config.LocksAgree) {t c : Nat}
    {event : PortEvent} {channel channel' : Channel PortEvent}
    (hsending : (config.calls t).sending = some (c, event))
    (hchannel : config.channels c = some channel) (hpush : channel.push event = some channel') :
    Config.Separate passed
      { config with
        shared := (config.shared.sent (config.calls t)).1
        channels := Function.update config.channels c (some channel')
        calls := Function.update config.calls t (config.shared.sent (config.calls t)).2 } := by
  obtain ⟨hpushed, -⟩ := Channel.push_some hpush
  obtain ⟨hpassed, hothers⟩ := separate.sends hsending
  have hlog : { config with
      shared := (config.shared.sent (config.calls t)).1
      channels := Function.update config.channels c (some channel') }.log =
        Function.update config.log c (config.log c ++ [event]) := by
    rw [log_of_channel hchannel, ← hpushed]
    exact log_update config c channel'
  refine separate.moved _ hlog (fun c' h => offers_sent _ _ h) (fun c' h => ?_)
    ((separate.fits t).sent hsending) (fun t' ht => ?_) (fun c' hc' => ?_)
  · rw [sent_sender] at h
    exact .inl h
  · refine (separate.fits t').frame (fun _ => sent_sender _ _)
      (sent_map_of_reads agrees ht hsending) fun c' hc' => ?_
    have hne : c' ≠ c := fun heq => hothers t' ht (heq ▸ hc')
    exact Function.update_of_ne hne _ _
  · have hne : c' ≠ c := fun h => hc' (h ▸ hpassed)
    exact Function.update_of_ne hne _ _

/-- A call goes on that offers no channel any more. -/
theorem gaveUp (separate : config.Separate passed) {t : Nat} {call : Call}
    (hoffers : call.offers = none) (hfits : ∀ shared log, call.Fits shared log)
    (locks : LockName → RwLock Nat) :
    Config.Separate passed
      { config with locks, calls := Function.update config.calls t call } := by
  refine separate.moved config.log rfl (fun c h => ?_) (fun c h => .inl h) (hfits _ _)
    (fun t' _ => separate.fits t') (fun _ _ => rfl)
  rw [hoffers] at h
  cases h

/-- A new call gets a channel that was not passed before. -/
theorem call (separate : config.Separate passed) {t c : Nat} (hc : c ∉ passed) :
    Config.Separate (passed ++ [c])
      { config with calls := Function.update config.calls t (.sendPortEventsTo c) } where
  fits := (Function.forall_update_iff config.calls fun _ call =>
    call.Fits config.shared config.log).mpr ⟨separate.unused c hc, fun t' _ => separate.fits t'⟩
  offered := (Function.forall_update_iff config.calls fun _ call => ∀ c', call.offers = some c' →
    c' ∈ passed ++ [c] ∧ config.shared.portEventSender ≠ some c').mpr <| by
      refine ⟨fun c' h => ?_, fun t' _ c' h => ?_⟩
      · cases h
        exact ⟨by simp, fun hsender => hc (separate.installed c hsender)⟩
      · obtain ⟨hmem, hne⟩ := separate.offered t' c' h
        exact ⟨List.mem_append_left _ hmem, hne⟩
  once := by
    have hcases : ∀ t' c', (Function.update config.calls t (.sendPortEventsTo c) t').offers =
        some c' → t' = t ∧ c' = c ∨ (config.calls t').offers = some c' ∧ c' ≠ c :=
      (Function.forall_update_iff config.calls fun t' call => ∀ c', call.offers = some c' →
        t' = t ∧ c' = c ∨ (config.calls t').offers = some c' ∧ c' ≠ c).mpr <| by
          refine ⟨fun c' h => ?_, fun t' _ c' h => .inr ⟨h, ?_⟩⟩
          · cases h
            exact .inl ⟨rfl, rfl⟩
          · rintro rfl
            exact hc (separate.offered t' c' h).1
    intro t₁ t₂ c' h₁ h₂
    rcases hcases t₁ c' h₁ with ⟨h₁, hc₁⟩ | ⟨h₁, hc₁⟩
    · rcases hcases t₂ c' h₂ with ⟨h₂, -⟩ | ⟨-, hc₂⟩
      · rw [h₁, h₂]
      · exact (hc₂ hc₁).elim
    · rcases hcases t₂ c' h₂ with ⟨-, hc₂⟩ | ⟨h₂, -⟩
      · exact (hc₁ hc₂).elim
      · exact separate.once t₁ t₂ c' h₁ h₂
  installed := fun c' h => List.mem_append_left _ (separate.installed c' h)
  unused := fun c' h => separate.unused c' fun hmem => h (List.mem_append_left _ hmem)

end Config.Separate

/-- The channel that a new call to `send_port_events_to` is given. -/
def Action.passes : Action → Option Nat
  | .call _ (.sendPortEventsTo c) => some c
  | _ => none

theorem start_offers {t : Nat} {start : Call} (hstart : start.isStart)
    (hpasses : (Action.call t start).passes = none) :
    start.offers = none ∧ ∀ shared log, start.Fits shared log := by
  cases start with
  | sendPortEventsTo c => cases hpasses
  | _ => first | exact ⟨rfl, fun _ _ => trivial⟩ | cases hstart

/-- A call whose send fails gives up its channel. -/
theorem sendFailed_offers {call : Call} {c : Nat} {event : PortEvent}
    (hsending : call.sending = some (c, event)) :
    (Shared.sendFailed call).offers = none ∧
      ∀ shared log, (Shared.sendFailed call).Fits shared log := by
  obtain ⟨ports, rfl⟩ | ⟨rest, rfl⟩ := Call.sending_cases hsending
  · exact ⟨rfl, fun _ _ => trivial⟩
  · exact ⟨rfl, fun _ _ => trivial⟩

theorem Transition.separate {config config' : Config} {action : Action} {passed : List Nat}
    (transition : Transition config action config') (separate : config.Separate passed)
    (agrees : config.LocksAgree) (hpasses : action.passes = none) : config'.Separate passed := by
  have agrees' := transition.locksAgree agrees
  cases transition with
  | @channel c capacity hfree hpositive =>
    refine separate.changed ?_
    simp [Config.log, hfree, Channel.new, Channel.log]
  | @call t start hfinished hstart hknows =>
    obtain ⟨hoffers, hfits⟩ := start_offers hstart hpasses
    exact separate.gaveUp hoffers hfits _
  | acquire => exact separate.enter agrees agrees'
  | await =>
    exact ⟨separate.fits, separate.offered, separate.once, separate.installed, separate.unused⟩
  | grant => exact separate.enter agrees agrees'
  | send hsending hchannel halive hpush => exact separate.send agrees hsending hchannel hpush
  | sendFailed hsending =>
    obtain ⟨hoffers, hfits⟩ := sendFailed_offers hsending
    exact separate.gaveUp hoffers hfits _
  | release hdropping =>
    exact separate.gaveUp (dropping_offers hdropping) (fun _ _ => dropping_fits hdropping) _
  | receive hchannel hreceive =>
    refine separate.changed ?_
    rw [(Channel.receive_some hreceive).1, log_of_channel hchannel]
  | dropReceiver hchannel =>
    refine separate.changed ?_
    rw [log_of_channel hchannel]
    rfl

theorem Transition.separate_of_passes {config config' : Config} {action : Action}
    {passed : List Nat} {c : Nat} (transition : Transition config action config')
    (separate : config.Separate passed) (hpasses : action.passes = some c) (hc : c ∉ passed) :
    config'.Separate (passed ++ [c]) := by
  cases transition with
  | @call t start hfinished hstart hknows =>
    cases start with
    | sendPortEventsTo c' =>
      cases hpasses
      exact separate.call hc
    | _ => cases hpasses
  | _ => cases hpasses

/-- The channels that the calls to `send_port_events_to` were given: each has its own. -/
theorem Execution.separate {actions : List Action} {config : Config}
    (execution : Execution actions config) (own : (actions.filterMap Action.passes).Nodup) :
    config.Separate (actions.filterMap Action.passes) := by
  induction execution with
  | nil =>
    refine ⟨?_, ?_, ?_, ?_, ?_⟩ <;>
      simp [Config.initial, Call.Fits, Call.offers, Shared.new, Config.log]
  | @snoc actions config config' action before step ih =>
    rw [List.filterMap_append] at own ⊢
    have separate := ih own.of_append_left
    have transition := transition_of_step step
    cases hpasses : action.passes with
    | none =>
      simp only [List.filterMap_cons, hpasses, List.filterMap_nil, List.append_nil]
      exact transition.separate separate before.locksAgree hpasses
    | some c =>
      simp only [List.filterMap_cons, hpasses, List.filterMap_nil] at own ⊢
      refine transition.separate_of_passes separate hpasses fun hmem => ?_
      exact (List.nodup_append.mp own).2.2 c hmem c (by simp) rfl

end StateProxy.Backend
