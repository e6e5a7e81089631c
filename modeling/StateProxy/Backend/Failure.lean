import StateProxy.Backend.History
import StateProxy.Backend.Mirror

/-! What a `Delete` leaves behind when it panics.  The first loop removes the endpoint from every
service; the second one removes the services that are empty now, one by one, and tells the consumer
each time.  When the consumer is gone, the services after the one it was told of last stay in the map
without an endpoint. -/

namespace StateProxy.Backend

open Net ProofKit ServiceManager

/-- The ports whose services have no endpoint but `id`. -/
def solePorts (map : ServiceMap) (id : EndpointId) : Finset UInt16 :=
  map.keys.filter fun port => (map.lookup port).any fun s => s.endpoints.keys = {id}

/-- Every service has an endpoint. -/
def Occupied (map : ServiceMap) : Prop :=
  ∀ port s, map.lookup port = some s → s.endpoints ≠ ∅

namespace ServiceManager

theorem sendEvent_of_dropped {m : ServiceManager} {sender : Sender PortEvent}
    (hsender : m.portEventSender = some sender) (hdropped : sender.remaining = some 0)
    (event : PortEvent) : sendEvent event m = .error .cannotSendPortEvent m := by
  simp [sendEvent, hsender, Sender.send, hdropped]

theorem sendEvent_of_remaining {m : ServiceManager} {sender : Sender PortEvent} {k : Nat}
    (hsender : m.portEventSender = some sender) (hremaining : sender.remaining = some (k + 1))
    (event : PortEvent) : sendEvent event m =
      .ok () { m with portEventSender := some ⟨sender.sent ++ [event], some k⟩ } := by
  simp [sendEvent, hsender, Sender.send, hremaining]

/-- When the receiver takes `k` more events, the second loop of the `Delete` branch removes `k + 1`
services. -/
theorem closeServices_panics {ports : List UInt16} (hnodup : ports.Nodup) {m m' : ServiceManager}
    (hports : ∀ p ∈ ports, p ∈ m.portServiceMap) {sender : Sender PortEvent} {k : Nat}
    (hsender : m.portEventSender = some sender) (hremaining : sender.remaining = some k)
    {e : Panic} (h : closeServices ports m = .error e m') :
    k < ports.length ∧ m'.portServiceMap = eraseAll m.portServiceMap (ports.take (k + 1)) := by
  induction ports generalizing m sender k with
  | nil => cases h
  | cons port ports ih =>
    obtain ⟨hnot, hrest⟩ := List.nodup_cons.mp hnodup
    rw [closeServices_cons (hports port List.mem_cons_self), bind_error] at h
    let erased : ServiceManager := { m with portServiceMap := m.portServiceMap.erase port }
    cases k with
    | zero =>
      rw [sendEvent_of_dropped (m := erased) hsender hremaining] at h
      rcases h with h | ⟨_, m₁, hok, -⟩
      · rw [← (EStateM.Result.error.inj h).2]
        exact ⟨by simp, rfl⟩
      · cases hok
    | succ k =>
      rw [sendEvent_of_remaining (m := erased) hsender hremaining] at h
      rcases h with h | ⟨_, m₁, hok, h⟩
      · cases h
      · cases hok
        obtain ⟨hlength, hmap⟩ := ih hrest (mem_erase_of_mem hnot hports) rfl rfl h
        exact ⟨by simpa using hlength, by rw [List.take_succ_cons, eraseAll_cons, hmap]⟩

end ServiceManager

theorem length_scan_todo {map : ServiceMap} (hoccupied : Occupied map) (order : IterOrder UInt16)
    (id : EndpointId) : (scan order id map).2.2.length = (solePorts map id).card := by
  rw [← List.toFinset_card_of_nodup (scan_todo_nodup order id map)]
  congr 1
  ext port
  rw [List.mem_toFinset, mem_scan_todo, solePorts, Finset.mem_filter, mem_keys_iff]
  constructor
  · rintro ⟨s, hs, herase⟩
    exact ⟨⟨s, hs⟩, by simp [hs, (erase_eq_empty_iff (hoccupied port s hs) id).mp herase]⟩
  · rintro ⟨⟨s, hs⟩, hsole⟩
    exact ⟨s, hs, (erase_eq_empty_iff (hoccupied port s hs) id).mpr (by simpa [hs] using hsole)⟩

/-- The service map that a `Delete` leaves when it panics. -/
theorem delete_panics {order : IterOrder UInt16} {discovery uid : String} {m m' : ServiceManager}
    {sender : Sender PortEvent} {k : Nat} (hsender : m.portEventSender = some sender)
    (hremaining : sender.remaining = some k) {e : Panic}
    (h : processEvent order discovery (.delete uid) m = .error e m') :
    k < (scan order ⟨discovery, uid⟩ m.portServiceMap).2.2.length ∧
    m'.portServiceMap = eraseAll (scan order ⟨discovery, uid⟩ m.portServiceMap).1
      ((scan order ⟨discovery, uid⟩ m.portServiceMap).2.2.take (k + 1)) := by
  have hget : (get : ManagerM _) m = .ok m m := rfl
  simp only [processEvent, bind_of_ok hget] at h
  change (closeServices _ >>= fun _ => _) { m with portServiceMap := _ } = _ at h
  rcases bind_error.mp h with h | ⟨_, m₁, -, h⟩
  · let scanned : ServiceManager :=
      { m with portServiceMap := (scan order ⟨discovery, uid⟩ m.portServiceMap).1 }
    exact closeServices_panics (m := scanned) (scan_todo_nodup _ _ _) (fun p => scan_todo_mem) hsender
      hremaining h
  · split at h <;> cases h

theorem exists_mem_not_mem_take {α : Type} {xs : List α} (hnodup : xs.Nodup) {n : Nat}
    (h : n < xs.length) : ∃ x ∈ xs, x ∉ xs.take n := by
  refine ⟨xs[n], List.getElem_mem h, fun hmem => ?_⟩
  obtain ⟨j, hj, heq⟩ := List.mem_take_iff_getElem.mp hmem
  have hsame := hnodup.getElem_inj_iff.mp heq
  omega

/-- After a panic at the `Close` number `k + 1`, the services that are left all have an endpoint
exactly when there was no other service to close. -/
theorem delete_panics_occupied_iff {order : IterOrder UInt16} {discovery uid : String}
    {m m' : ServiceManager} (hoccupied : Occupied m.portServiceMap) {sender : Sender PortEvent}
    {k : Nat} (hsender : m.portEventSender = some sender) (hremaining : sender.remaining = some k)
    {e : Panic} (h : processEvent order discovery (.delete uid) m = .error e m') :
    Occupied m'.portServiceMap ↔
      (solePorts m.portServiceMap ⟨discovery, uid⟩).card ≤ k + 1 := by
  obtain ⟨hlength, hmap⟩ := delete_panics hsender hremaining h
  rw [← length_scan_todo hoccupied order]
  constructor
  · intro hafter
    by_contra hmore
    obtain ⟨port, hport, hleft⟩ :=
      exists_mem_not_mem_take (scan_todo_nodup order ⟨discovery, uid⟩ m.portServiceMap)
        (Nat.lt_of_not_le hmore)
    obtain ⟨s, hs, herase⟩ := mem_scan_todo.mp hport
    -- the service of this port was to be closed and is still there
    refine hafter port { s with endpoints := s.endpoints.erase ⟨discovery, uid⟩ } ?_ herase
    rw [hmap, lookup_eraseAll, if_neg hleft, lookup_scan, hs]
    rfl
  · intro hall port s hs
    rw [hmap, List.take_of_length_le hall, lookup_eraseAll] at hs
    split at hs
    · cases hs
    · rename_i hnot
      rw [lookup_scan] at hs
      obtain ⟨s₀, hs₀, rfl⟩ := Option.map_eq_some_iff.mp hs
      exact fun hempty => hnot (mem_scan_todo.mpr ⟨s₀, hs₀, hempty⟩)

theorem getEndpointFor_of_occupied {map : ServiceMap} (hoccupied : Occupied map)
    (order : IterOrder EndpointId) (port : UInt16) (index : Nat) :
    ∃ result, getEndpointFor order map port index = .ok result := by
  cases hs : map.lookup port with
  | none => exact ⟨none, by simp [getEndpointFor, hs]⟩
  | some s => exact ⟨_, getEndpointFor_eq hs (hoccupied port s hs) index⟩

/-- A failed port notification leaves the map usable, that is every service has an endpoint, no
selection panics and a consumer that is registered later is told of no service without an endpoint,
exactly when the endpoint was the only one of at most one port more than there are `Close`s that the
receiver took. -/
theorem delete_leaves_usable_iff {order : IterOrder UInt16} {discovery uid : String}
    {m m' : ServiceManager} (hoccupied : Occupied m.portServiceMap) {sender : Sender PortEvent}
    {k : Nat} (hsender : m.portEventSender = some sender) (hremaining : sender.remaining = some k)
    {e : Panic} (h : processEvent order discovery (.delete uid) m = .error e m') :
    (Occupied m'.portServiceMap ∧
      (∀ order port index, ∃ result,
        getEndpointFor order m'.portServiceMap port index = .ok result) ∧
      ∀ order port protocol, .openPort port protocol ∈ openEvents order m'.portServiceMap →
        ∃ key s, m'.portServiceMap.lookup key = some s ∧ s.port = port ∧ s.protocol = protocol ∧
          s.endpoints ≠ ∅) ↔
      (solePorts m.portServiceMap ⟨discovery, uid⟩).card ≤ k + 1 := by
  rw [← delete_panics_occupied_iff hoccupied hsender hremaining h]
  refine ⟨fun husable => husable.1, fun hafter => ⟨hafter, getEndpointFor_of_occupied hafter, ?_⟩⟩
  intro order port protocol hmem
  obtain ⟨s, hs, heq⟩ := List.mem_map.mp hmem
  obtain ⟨key, -, hkey⟩ := List.mem_filterMap.mp hs
  cases heq
  exact ⟨key, s, hkey, rfl, rfl, hafter key s hkey⟩

/-- The state in which a program has stopped. -/
def stoppedAt {α : Type} : EStateM.Result Panic ServiceManager α → Option ServiceManager
  | .ok _ _ => none
  | .error _ m => some m

theorem stoppedAt_eq_some {α : Type} {result : EStateM.Result Panic ServiceManager α}
    {m : ServiceManager} (h : stoppedAt result = some m) : ∃ e, result = .error e m := by
  cases result with
  | ok a m' => cases h
  | error e m' =>
    cases h
    exact ⟨e, rfl⟩

/-- One endpoint on two ports, and another one on the second of them. -/
def sharedPort : List (String × EndpointEvent) :=
  [("pods", .add "u" true 80 "http" (.v4 ⟨10, 0, 0, 1⟩ 80) "http"),
    ("pods", .add "u" true 443 "https" (.v4 ⟨10, 0, 0, 1⟩ 443) "http"),
    ("pods", .add "v" true 443 "https" (.v4 ⟨10, 0, 0, 2⟩ 443) "http")]

theorem delete_leaves_usable_sharedPort :
    ∃ m e m', processAll ascending ⟨∅, some ⟨[], some 2⟩, []⟩ sharedPort = some m ∧
      processEvent ascending "pods" (.delete "u") m = .error e m' ∧ Occupied m'.portServiceMap := by
  have hstate : (processAll ascending ⟨∅, some ⟨[], some 2⟩, []⟩ sharedPort).bind (fun m =>
      (stoppedAt (processEvent ascending "pods" (.delete "u") m)).map fun _ =>
        (m.portEventSender.map (·.remaining), (solePorts m.portServiceMap ⟨"pods", "u"⟩).card)) =
        some (some (some 0), 1) := by decide +kernel
  obtain ⟨m, hrun, hstate⟩ := Option.bind_eq_some_iff.mp hstate
  obtain ⟨m', hstop, hstate⟩ := Option.map_eq_some_iff.mp hstate
  obtain ⟨hremaining, hcard⟩ := Prod.mk.inj hstate
  obtain ⟨sender, hsender, hremaining⟩ := Option.map_eq_some_iff.mp hremaining
  obtain ⟨e, hpanic⟩ := stoppedAt_eq_some hstop
  have run := (Run.nil ⟨∅, some ⟨[], some 2⟩, []⟩).extend hrun
  have hoccupied : Occupied m.portServiceMap :=
    fun port s hs => (run.wellFormed_of_empty rfl).occupied hs
  exact ⟨m, e, m', hrun, hpanic,
    ((delete_leaves_usable_iff hoccupied hsender hremaining hpanic).mpr (by omega)).1⟩

/-- One endpoint on two ports. -/
def twoPorts : List (String × EndpointEvent) :=
  [("pods", .add "u" true 80 "http" (.v4 ⟨10, 0, 0, 1⟩ 80) "http"),
    ("pods", .add "u" true 443 "https" (.v4 ⟨10, 0, 0, 1⟩ 443) "http")]

/-- Without the condition a service without endpoints is left: the panic at the first `Close` keeps
the second port from being closed. -/
theorem not_usable_twoPorts :
    ¬ ∀ (order : IterOrder UInt16) (discovery uid : String) (m m' : ServiceManager)
        (sender : Sender PortEvent) (k : Nat) (e : Panic), Occupied m.portServiceMap →
      m.portEventSender = some sender → sender.remaining = some k →
      processEvent order discovery (.delete uid) m = .error e m' →
      Occupied m'.portServiceMap ∧
        (∀ order port index, ∃ result,
          getEndpointFor order m'.portServiceMap port index = .ok result) ∧
        ∀ order port protocol, .openPort port protocol ∈ openEvents order m'.portServiceMap →
          ∃ key s, m'.portServiceMap.lookup key = some s ∧ s.port = port ∧ s.protocol = protocol ∧
            s.endpoints ≠ ∅ := by
  intro hall
  have hstate : (processAll ascending ⟨∅, some ⟨[], some 2⟩, []⟩ twoPorts).bind (fun m =>
      (stoppedAt (processEvent ascending "pods" (.delete "u") m)).map fun m' =>
        (m.portEventSender.map (·.remaining),
          (m'.portServiceMap.lookup 443).map (·.endpoints))) =
        some (some (some 0), some ∅) := by decide +kernel
  obtain ⟨m, hrun, hstate⟩ := Option.bind_eq_some_iff.mp hstate
  obtain ⟨m', hstop, hstate⟩ := Option.map_eq_some_iff.mp hstate
  obtain ⟨hremaining, hempty⟩ := Prod.mk.inj hstate
  obtain ⟨sender, hsender, hremaining⟩ := Option.map_eq_some_iff.mp hremaining
  obtain ⟨s, hs, hempty⟩ := Option.map_eq_some_iff.mp hempty
  obtain ⟨e, hpanic⟩ := stoppedAt_eq_some hstop
  have run := (Run.nil ⟨∅, some ⟨[], some 2⟩, []⟩).extend hrun
  have hoccupied : Occupied m.portServiceMap :=
    fun port s hs => (run.wellFormed_of_empty rfl).occupied hs
  exact (hall ascending "pods" "u" m m' sender 0 e hoccupied hsender hremaining hpanic).1 443 s hs
    hempty

end StateProxy.Backend
