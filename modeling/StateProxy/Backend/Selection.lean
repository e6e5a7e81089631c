import StateProxy.Backend.Invariant
import StateProxy.ProofKit.CyclicScan
import Mathlib.Data.String.Basic

/-! The selection of an endpoint for a connection: on a service map that satisfies the invariant it
does not panic, and what it returns belongs to an available endpoint of the port.  It searches the
endpoints from the index on and then from the first one, but the second loop may end before it comes
back to the index; `selection_is_cyclic_iff` says when the endpoint that a cyclic search finds is
found.  While every endpoint is available, consecutive indices take the endpoints in turn. -/

namespace StateProxy.Backend

open Net ProofKit ServiceManager

theorem firstAvailable_eq_some {candidates : List Endpoint} {found : SocketAddr × String}
    (h : firstAvailable candidates = some found) :
    ∃ e ∈ candidates, e.isAvailable = true ∧ found = (e.address, e.protocol) := by
  rw [firstAvailable, Option.map_eq_some_iff] at h
  obtain ⟨e, he, rfl⟩ := h
  exact ⟨e, List.mem_of_find?_eq_some he, by simpa using List.find?_some he, rfl⟩

theorem mem_endpointValues {order : IterOrder EndpointId} {service : Service} {e : Endpoint}
    (h : e ∈ endpointValues order service) : ∃ id, service.endpoints.lookup id = some e := by
  rw [endpointValues, List.mem_filterMap] at h
  obtain ⟨id, -, h⟩ := h
  exact ⟨id, h⟩

theorem card_pos_of_occupied {service : Service} (h : service.endpoints ≠ ∅) :
    service.endpoints.keys.card ≠ 0 := by
  obtain ⟨id, e, he⟩ := ne_empty_iff.mp h
  have hmem : id ∈ service.endpoints.keys := mem_keys_iff.mpr ⟨e, he⟩
  exact Finset.card_ne_zero_of_mem hmem

/-- No division by zero and no underflow, for any port and index. -/
theorem getEndpointFor_returns {map : ServiceMap} (wf : WellFormed map)
    (order : IterOrder EndpointId) (port : UInt16) (index : Nat) :
    ∃ result, getEndpointFor order map port index = .ok result := by
  unfold getEndpointFor
  split
  · exact ⟨none, rfl⟩
  · rename_i service hs
    have hcard := card_pos_of_occupied (wf.occupied hs)
    have hlt : index % service.endpoints.keys.card < service.endpoints.keys.card :=
      Nat.mod_lt _ (by omega)
    simp only [hcard, if_false, Nat.not_lt.mpr hlt.le]
    split <;> exact ⟨_, rfl⟩

theorem getEndpointFor_eq_some {map : ServiceMap} {order : IterOrder EndpointId} {port : UInt16}
    {index : Nat} {found : SocketAddr × String}
    (h : getEndpointFor order map port index = .ok (some found)) :
    ∃ id e, endpointAt map port id = some e ∧ e.isAvailable = true ∧
      found = (e.address, e.protocol) := by
  unfold getEndpointFor at h
  split at h
  · cases h
  · rename_i service hs
    have hvalue : ∀ e ∈ endpointValues order service, e.isAvailable = true →
        found = (e.address, e.protocol) → ∃ id e, endpointAt map port id = some e ∧
          e.isAvailable = true ∧ found = (e.address, e.protocol) := by
      intro e he havailable hfound
      obtain ⟨id, hid⟩ := mem_endpointValues he
      exact ⟨id, e, by simp [endpointAt, hs, hid], havailable, hfound⟩
    simp only at h
    split at h
    · cases h
    split at h
    · rename_i found' hfirst
      cases h
      obtain ⟨e, he, havailable, hfound⟩ := firstAvailable_eq_some hfirst
      exact hvalue e (List.mem_of_mem_drop he) havailable hfound
    split at h
    · cases h
    · simp only [Except.ok.injEq] at h
      obtain ⟨e, he, havailable, hfound⟩ := firstAvailable_eq_some h
      exact hvalue e (List.mem_of_mem_take he) havailable hfound

/-! ### The cyclic order -/

theorem mem_endpointValues_iff {order : IterOrder EndpointId} {service : Service} {e : Endpoint} :
    e ∈ endpointValues order service ↔ ∃ id, service.endpoints.lookup id = some e := by
  refine ⟨mem_endpointValues, fun ⟨id, hid⟩ => List.mem_filterMap.mpr ⟨id, ?_, hid⟩⟩
  rw [order.mem, mem_keys_iff]
  exact ⟨e, hid⟩

theorem length_endpointValues (order : IterOrder EndpointId) (service : Service) :
    (endpointValues order service).length = service.endpoints.keys.card := by
  have hsome : ∀ id ∈ order.visit service.endpoints.keys,
      (service.endpoints.lookup id).isSome := by
    intro id hid
    rw [order.mem, mem_keys_iff] at hid
    obtain ⟨e, he⟩ := hid
    rw [he]
    rfl
  rw [endpointValues, List.length_filterMap_eq_countP, List.countP_eq_length.mpr hsome]
  exact order.length_visit _

/-- The two loops of `get_endpoint_for`. -/
theorem getEndpointFor_eq {map : ServiceMap} {order : IterOrder EndpointId} {port : UInt16}
    {service : Service} (hs : map.lookup port = some service) (hoccupied : service.endpoints ≠ ∅)
    (index : Nat) :
    getEndpointFor order map port index = .ok ((twoLoops (·.isAvailable)
      (endpointValues order service) (index % service.endpoints.keys.card)).map
        fun candidate => (candidate.address, candidate.protocol)) := by
  have hcard := card_pos_of_occupied hoccupied
  have hlt : index % service.endpoints.keys.card < service.endpoints.keys.card :=
    Nat.mod_lt _ (by omega)
  simp only [getEndpointFor, hs, hcard, if_false, Nat.not_lt.mpr hlt.le, twoLoops, firstAvailable,
    length_endpointValues]
  cases ((endpointValues order service).drop (index % service.endpoints.keys.card)).find?
    (·.isAvailable) <;> rfl

/-- In every reachable state, the selection for an index is the first available endpoint in the cyclic
order that begins at the index, and is empty only when no endpoint of the port is available, exactly
when some available endpoint, if there is one, has a position from the index on or before `n` minus the
index. -/
theorem selection_is_cyclic_iff {m m' : ServiceManager} {events : List (String × EndpointEvent)}
    (run : Run m events m') (hempty : m.portServiceMap = ∅) {port : UInt16} {service : Service}
    (hs : m'.portServiceMap.lookup port = some service) (order : IterOrder EndpointId)
    (index : Nat) :
    (getEndpointFor order m'.portServiceMap port index =
        .ok (firstAvailable ((endpointValues order service).rotate index)) ∧
      (getEndpointFor order m'.portServiceMap port index = .ok none →
        ∀ id e, endpointAt m'.portServiceMap port id = some e → e.isAvailable = false)) ↔
    ((∃ e ∈ endpointValues order service, e.isAvailable) →
      ∃ j e, (endpointValues order service)[j]? = some e ∧ e.isAvailable ∧
        (index % service.endpoints.keys.card ≤ j ∨
          j < service.endpoints.keys.card - index % service.endpoints.keys.card)) := by
  have wf : WellFormed m'.portServiceMap := run.wellFormed (by rw [hempty]; exact wellFormed_empty)
  have hlength := length_endpointValues order service
  rw [getEndpointFor_eq hs (wf.occupied hs), firstAvailable, ← hlength,
    List.rotate_eq_drop_append_take_mod, ← exists_mem_loops_iff, ← twoLoops_eq_iff]
  constructor
  · rintro ⟨hsame, -⟩
    by_contra hne
    obtain ⟨hsome, hnone⟩ := Classical.not_imp.mp (mt (twoLoops_eq_iff _ _).mpr hne)
    obtain ⟨e, he, havailable⟩ := hsome
    rw [← List.rotate_eq_drop_append_take_mod] at hsame
    obtain ⟨found, hfound⟩ := exists_find? ⟨e, List.mem_rotate.mpr he, havailable⟩
    rw [twoLoops_eq_none hnone, hfound] at hsame
    cases hsame
  · intro heq
    refine ⟨by rw [heq], fun hnone id e he => ?_⟩
    rw [heq, ← List.rotate_eq_drop_append_take_mod] at hnone
    have hempty := List.find?_eq_none.mp (Option.map_eq_none_iff.mp (Except.ok.inj hnone))
    have hid : service.endpoints.lookup id = some e := by simpa [endpointAt, hs] using he
    have hunavailable := hempty e (List.mem_rotate.mpr (mem_endpointValues_iff.mpr ⟨id, hid⟩))
    simpa using hunavailable

/-- The order of iteration that visits the endpoints from the least identity on. -/
def byName : IterOrder EndpointId :=
  .sortedBy (fun id => toLex (id.endpointDiscoveryName, id.uid)) EndpointId.toLex_injective

/-- Three endpoints on one port, of which only the second is available. -/
def onlySecond : List (String × EndpointEvent) :=
  [("pods", .add "a" false 80 "http" (.v4 ⟨10, 0, 0, 1⟩ 8080) "http"),
    ("pods", .add "b" true 80 "http" (.v4 ⟨10, 0, 0, 2⟩ 8080) "http"),
    ("pods", .add "c" false 80 "http" (.v4 ⟨10, 0, 0, 3⟩ 8080) "http")]

theorem selection_is_cyclic_of_onlySecond :
    ∃ m' service, Run .new onlySecond m' ∧ m'.portServiceMap.lookup 80 = some service ∧
      getEndpointFor byName m'.portServiceMap 80 1 =
        .ok (firstAvailable ((endpointValues byName service).rotate 1)) := by
  have hvalues : (processAll ascending .new onlySecond).bind (fun m' =>
      (m'.portServiceMap.lookup 80).map fun service =>
        (service.endpoints.keys.card, (endpointValues byName service)[1]?.map (·.isAvailable))) =
        some (3, some true) := by decide +kernel
  obtain ⟨m', hrun, hvalues⟩ := Option.bind_eq_some_iff.mp hvalues
  obtain ⟨service, hs, hvalues⟩ := Option.map_eq_some_iff.mp hvalues
  obtain ⟨hcard, hsecond⟩ := Prod.mk.inj hvalues
  obtain ⟨e, he, havailable⟩ := Option.map_eq_some_iff.mp hsecond
  have run := (Run.nil ServiceManager.new).extend hrun
  refine ⟨m', service, run, hs, ((selection_is_cyclic_iff run rfl hs byName 1).mpr fun _ => ?_).1⟩
  exact ⟨1, e, he, havailable, .inl (by rw [hcard])⟩

/-- Without the condition an available endpoint can be missed: with the index 2, the loops visit the
third endpoint and then the first. -/
theorem not_cyclic_onlySecond :
    ¬ ∀ (m m' : ServiceManager) (events : List (String × EndpointEvent)) (port : UInt16)
        (service : Service) (order : IterOrder EndpointId) (index : Nat), Run m events m' →
      m.portServiceMap = ∅ → m'.portServiceMap.lookup port = some service →
      getEndpointFor order m'.portServiceMap port index =
          .ok (firstAvailable ((endpointValues order service).rotate index)) ∧
        (getEndpointFor order m'.portServiceMap port index = .ok none →
          ∀ id e, endpointAt m'.portServiceMap port id = some e → e.isAvailable = false) := by
  intro hall
  have hresult : (processAll ascending .new onlySecond).bind (fun m' =>
      (m'.portServiceMap.lookup 80).map fun service =>
        decide (getEndpointFor byName m'.portServiceMap 80 2 =
          .ok (firstAvailable ((endpointValues byName service).rotate 2)))) = some false := by
    decide +kernel
  obtain ⟨m', hrun, hresult⟩ := Option.bind_eq_some_iff.mp hresult
  obtain ⟨service, hs, hresult⟩ := Option.map_eq_some_iff.mp hresult
  have run := (Run.nil ServiceManager.new).extend hrun
  exact of_decide_eq_false hresult (hall .new m' onlySecond 80 service byName 2 run rfl hs).1

/-! ### The endpoints in turn -/

/-- The position, in the order of iteration, of the candidate that `get_endpoint_for` returns. -/
def selectedPosition (order : IterOrder EndpointId) (service : Service) (index : Nat) : Option Nat :=
  hitPosition (·.isAvailable) (endpointValues order service)
    (index % service.endpoints.keys.card)

theorem getEndpointFor_selectedPosition {map : ServiceMap} {port : UInt16} {service : Service}
    (hs : map.lookup port = some service) (hoccupied : service.endpoints ≠ ∅)
    (order : IterOrder EndpointId) (index : Nat) :
    getEndpointFor order map port index = .ok (((selectedPosition order service index).bind
      fun position => (endpointValues order service)[position]?).map
        fun candidate => (candidate.address, candidate.protocol)) := by
  rw [getEndpointFor_eq hs hoccupied, twoLoops_eq_getElem?, selectedPosition]

theorem selectedPosition_of_available {order : IterOrder EndpointId} {service : Service}
    (hoccupied : service.endpoints ≠ ∅)
    (havailable : ∀ e ∈ endpointValues order service, e.isAvailable = true) (index : Nat) :
    selectedPosition order service index = some (index % service.endpoints.keys.card) := by
  have hcard := card_pos_of_occupied hoccupied
  refine hitPosition_of_all havailable ?_
  rw [length_endpointValues]
  exact Nat.mod_lt _ (by omega)

/-- In every reachable state, when all `n` endpoints of a port are available, every index selects the
endpoint at some position, and `k` consecutive indices select each position `k / n` times, rounded down
or up. -/
theorem selection_is_balanced {m m' : ServiceManager} {events : List (String × EndpointEvent)}
    (run : Run m events m') (hempty : m.portServiceMap = ∅) {port : UInt16} {service : Service}
    (hs : m'.portServiceMap.lookup port = some service)
    (havailable : ∀ id e, endpointAt m'.portServiceMap port id = some e → e.isAvailable = true)
    (order : IterOrder EndpointId) (i k : Nat) :
    let n := service.endpoints.keys.card
    let times := fun position =>
      (List.range' i k).countP (selectedPosition order service · = some position)
    (∀ j, ∃ position e, selectedPosition order service j = some position ∧
      (endpointValues order service)[position]? = some e ∧
      getEndpointFor order m'.portServiceMap port j = .ok (some (e.address, e.protocol))) ∧
    ∀ position < n, times position = k / n ∨ times position = k ⌈/⌉ n := by
  intro n times
  have wf : WellFormed m'.portServiceMap := run.wellFormed (by rw [hempty]; exact wellFormed_empty)
  have hoccupied := wf.occupied hs
  have hvalues : ∀ e ∈ endpointValues order service, e.isAvailable = true := by
    intro e he
    obtain ⟨id, hid⟩ := mem_endpointValues he
    exact havailable id e (by simp [endpointAt, hs, hid])
  have hposition := selectedPosition_of_available hoccupied hvalues
  constructor
  · intro j
    have hcard := card_pos_of_occupied hoccupied
    have hlt : j % n < (endpointValues order service).length := by
      rw [length_endpointValues]
      exact Nat.mod_lt _ (by omega)
    have hget := List.getElem?_eq_getElem hlt
    refine ⟨j % n, _, hposition j, hget, ?_⟩
    rw [getEndpointFor_selectedPosition hs hoccupied, hposition, Option.bind_some, hget,
      Option.map_some]
  · intro position hlt
    have htimes : times position = (List.range' i k).countP (· % n = position) := by
      refine List.countP_congr fun j _ => ?_
      rw [hposition]
      simp [n]
    rw [htimes]
    exact countP_range'_mod hlt i k

/-- Three available endpoints on one port. -/
def allThree : List (String × EndpointEvent) :=
  [("pods", .add "a" true 80 "http" (.v4 ⟨10, 0, 0, 1⟩ 8080) "http"),
    ("pods", .add "b" true 80 "http" (.v4 ⟨10, 0, 0, 2⟩ 8080) "http"),
    ("pods", .add "c" true 80 "http" (.v4 ⟨10, 0, 0, 3⟩ 8080) "http")]

theorem selection_is_balanced_allThree :
    ∃ m' service, Run .new allThree m' ∧ m'.portServiceMap.lookup 80 = some service ∧
      ∀ position < 3,
        (List.range' 1 7).countP (selectedPosition byName service · = some position) = 2 ∨
        (List.range' 1 7).countP (selectedPosition byName service · = some position) = 3 := by
  have hresult : (processAll ascending .new allThree).bind (fun m' =>
      (m'.portServiceMap.lookup 80).map fun service =>
        (service.endpoints.keys.card, (endpointValues byName service).all (·.isAvailable))) =
        some (3, true) := by decide +kernel
  obtain ⟨m', hrun, hresult⟩ := Option.bind_eq_some_iff.mp hresult
  obtain ⟨service, hs, hresult⟩ := Option.map_eq_some_iff.mp hresult
  obtain ⟨hcard, hall⟩ := Prod.mk.inj hresult
  have run := (Run.nil ServiceManager.new).extend hrun
  have havailable : ∀ id e, endpointAt m'.portServiceMap 80 id = some e → e.isAvailable = true := by
    intro id e he
    have hid : service.endpoints.lookup id = some e := by simpa [endpointAt, hs] using he
    exact List.all_eq_true.mp hall e (mem_endpointValues_iff.mpr ⟨id, hid⟩)
  have hbalanced := (selection_is_balanced run rfl hs havailable byName 1 7).2
  rw [hcard] at hbalanced
  exact ⟨m', service, run, hs, hbalanced⟩

end StateProxy.Backend
