import StateProxy.Backend.Convergence
import StateProxy.Kubernetes.Annotation
import StateProxy.Kubernetes.Availability

/-! Clusters and the manager together.  Every endpoint that the discovery task has announced comes from
the latest announcement of its pod; with what the manager does of the events, a connection is routed to
a pod of one of the clusters, at an address that its annotation declares for the port, and to a pod that
was last reported as running. -/

namespace StateProxy.Kubernetes

open Backend Net ProofKit KubernetesDiscoveryRuntime ServiceManager

/-- The report is that of the latest announcement of the uid. -/
def LatestAnnouncement (uid : String) (calls : List ApplyCall) (report : Report) : Prop :=
  ∃ pre call post, calls = pre ++ call :: post ∧ Announces uid call report ∧
    ∀ later ∈ post, ∀ report', ¬ Announces uid later report'

theorem LatestAnnouncement.later {uid : String} {calls : List ApplyCall} {report : Report}
    (h : LatestAnnouncement uid calls report) {call : ApplyCall}
    (hnot : ∀ report', ¬ Announces uid call report') :
    LatestAnnouncement uid (calls ++ [call]) report := by
  obtain ⟨pre, first, post, rfl, hannounces, hpost⟩ := h
  refine ⟨pre, first, post ++ [call], by simp, hannounces, fun later hmem => ?_⟩
  rcases List.mem_append.mp hmem with hmem | hmem
  · exact hpost later hmem
  · rw [List.mem_singleton.mp hmem]
    exact hnot

/-- Every endpoint held was added by the latest announcement of its pod. -/
def Sourced (name : String) (sent : List EndpointEvent) (calls : List ApplyCall) : Prop :=
  ∀ port uid e, held name sent port uid = some e → ∃ report adds protocol,
    LatestAnnouncement uid calls report ∧ report.announcement = some adds ∧
    .add uid false port protocol e.address e.protocol ∈ adds

section Steps

variable {name : String} {r : KubernetesDiscoveryRuntime} {pod : Pod} {report : Report}
  {known : Finset String} {events : List EndpointEvent} {calls : List ApplyCall}

/-- A call that does not announce a uid leaves its endpoints where they came from. -/
theorem Sourced.later (sourced : Sourced name r.sender.sent calls) {port : UInt16} {uid : String}
    {e : Endpoint} (he : held name r.sender.sent port uid = some e)
    (hnot : ∀ report', ¬ Announces uid (r, pod) report') : ∃ report adds protocol,
      LatestAnnouncement uid (calls ++ [(r, pod)]) report ∧ report.announcement = some adds ∧
      .add uid false port protocol e.address e.protocol ∈ adds := by
  obtain ⟨report, adds, protocol, hlatest, hadds, hmem⟩ := sourced port uid e he
  exact ⟨report, adds, protocol, hlatest.later hnot, hadds, hmem⟩

/-- The phase of a report leaves the addresses and protocols of the endpoints as they were. -/
theorem held_before_phase {sent : List EndpointEvent} {port : UInt16} {e : Endpoint}
    (he : held name (sent ++ report.phaseEvents) port report.uid = some e) :
    ∃ e₀, held name sent port report.uid = some e₀ ∧ e₀.address = e.address ∧
      e₀.protocol = e.protocol := by
  rw [held_phaseEvents] at he
  split_ifs at he
  · exact ⟨e, he, rfl, rfl⟩
  · obtain ⟨e₀, he₀, rfl⟩ := Option.map_eq_some_iff.mp he
    exact ⟨e₀, he₀, rfl, rfl⟩

theorem sourced_report (hreport : pod.report = some report)
    (heffect : report.effect r.knownPodUids = some (known, events))
    (traced : Traced r.knownPodUids r.sender.sent calls)
    (sourced : Sourced name r.sender.sent calls) :
    Sourced name (r.sender.sent ++ events) (calls ++ [(r, pod)]) := by
  intro port uid e he
  by_cases huid : report.uid = uid
  · subst huid
    obtain ⟨adds, rfl, hadds, -⟩ := Report.effect_eq_some heffect
    rw [← List.append_assoc] at he
    obtain ⟨e₀, he₀, haddress, hprotocol⟩ := held_before_phase he
    rw [← haddress, ← hprotocol]
    rcases hadds with ⟨hknown, rfl⟩ | ⟨hunknown, hannouncement⟩
    · rw [List.append_nil] at he₀
      exact sourced.later he₀ fun report' hannounces => hannounces.2.2 hknown
    · have hall := fun event (hmem : event ∈ adds) => Report.announcement_adds hannouncement hmem
      have hnone := traced.held_eq_none hunknown name port
      obtain ⟨protocol, hmem⟩ := held_adds name r.sender.sent port hall hnone he₀
      rw [held_announcement name r.sender.sent port hall hnone he₀] at hmem
      exact ⟨report, adds, protocol, ⟨calls, (r, pod), [], rfl, ⟨hreport, rfl, hunknown⟩, by simp⟩,
        hannouncement, hmem⟩
  · rw [held_report_of_ne name r.sender.sent port heffect huid] at he
    refine sourced.later he ?_
    rintro report' ⟨hreport', huid', -⟩
    have heq := Option.some.inj (hreport.symm.trans hreport')
    exact huid (heq ▸ huid')

theorem sourced_deletions {sent : List EndpointEvent} (sourced : Sourced name sent calls)
    (hdelete : ∀ event ∈ events, ∃ uid, event = .delete uid) :
    Sourced name (sent ++ events) calls :=
  fun port uid e he => sourced port uid e (held_of_held_deletions hdelete he)

end Steps

theorem kept_sourced (name : String) :
    Kept fun known sent calls => Traced known sent calls ∧ Sourced name sent calls where
  report := by
    intro r pod report known events calls hreport heffect inv
    exact ⟨kept_traced.report hreport heffect inv.1, sourced_report hreport heffect inv.1 inv.2⟩
  incomplete := by
    intro r pod calls hreport inv
    refine ⟨kept_traced.incomplete hreport inv.1, fun port uid e he => inv.2.later he ?_⟩
    intro report' hannounces
    have hnone := hreport.symm.trans hannounces.1
    cases hnone
  delete := fun uid inv => ⟨kept_traced.delete uid inv.1, sourced_deletions inv.2 (by simp)⟩
  relist := by
    intro known sent calls order current inv
    refine ⟨kept_traced.relist order current inv.1, sourced_deletions inv.2 fun event hmem => ?_⟩
    obtain ⟨uid, -, -, heq⟩ := mem_deletions.mp hmem
    exact ⟨uid, heq⟩

section Watches

variable {name : String} {remaining : Option Nat} {events : List PodEvent}
  {calls : List ApplyCall} {r : KubernetesDiscoveryRuntime}

theorem Watch.sourced (watch : Watch (.new name ⟨[], remaining⟩) events calls r) :
    Sourced name r.sender.sent calls := by
  refine (watch.invariant (kept_sourced name) ⟨Watch.nil.traced, ?_⟩).2
  intro port uid e he
  cases he

end Watches

/-- What the discovery tasks of the listeners have done: the task at `t` has handled the events
`events t`, each with `Ok`, called `apply_pod` as in `calls t` and is in the state `r t`, and what it
has sent went into the channel of its listener. -/
structure Watched (system : System) (events : Nat → List PodEvent)
    (calls : Nat → List ApplyCall) (r : Nat → KubernetesDiscoveryRuntime) : Prop where
  watch : ∀ t l, system.listeners t = some l →
    ∃ remaining, Watch (.new l.name ⟨[], remaining⟩) (events t) (calls t) (r t)
  sent : ∀ t l, system.listeners t = some l → l.channel.log = (r t).sender.sent

section Rest

variable {taken : List (String × EndpointEvent)} {system : System}
  (reaches : System.initial.Reaches taken system) (healthy : system.Healthy)
  (hdone : ∀ more system', ¬ system.Step true more system')
include reaches healthy hdone

theorem endpointAt_of_done {t : Nat} {l : Listener} (hlistener : system.listeners t = some l)
    (port : UInt16) (uid : String) :
    endpointAt system.config.shared.portServiceMap port ⟨l.name, uid⟩ =
      held l.name l.channel.log port uid := by
  obtain ⟨-, listens⟩ := reaches.invariant
  have drained := (reaches.atRest hdone).drained healthy listens
  have hown := reaches.ownEvents_of_drained drained ⟨t, l, hlistener, rfl, rfl⟩
  rw [reaches.endpointAt, hown]
  rfl

variable {events : Nat → List PodEvent} {calls : Nat → List ApplyCall}
  {r : Nat → KubernetesDiscoveryRuntime} (watched : Watched system events calls r)
include watched

/-- Every endpoint is one that a task has announced. -/
theorem held_of_endpointAt {port : UInt16} {id : EndpointId} {e : Endpoint}
    (he : endpointAt system.config.shared.portServiceMap port id = some e) :
    ∃ t l, system.listeners t = some l ∧ l.name = id.endpointDiscoveryName ∧
      held l.name (r t).sender.sent port id.uid = some e := by
  obtain ⟨-, listens⟩ := reaches.invariant
  have hregistered := reaches.registered_of_endpoint (Option.isSome_iff_exists.mpr ⟨e, he⟩)
  obtain ⟨t, l, hlistener, hname⟩ := (listens.registered _).mp hregistered
  refine ⟨t, l, hlistener, hname, ?_⟩
  rw [← watched.sent t l hlistener, ← endpointAt_of_done reaches healthy hdone hlistener, hname]
  exact he

/-- When the manager has caught up with the clusters, it holds only endpoints of pods that the tasks
know; of a cluster that was just listed only those of the listed pods, and none of a pod whose deletion
was just handled. -/
theorem endpoints_are_of_known_pods :
    (∀ port id, (endpointAt system.config.shared.portServiceMap port id).isSome →
      ∃ t l, system.listeners t = some l ∧ l.name = id.endpointDiscoveryName ∧
        id.uid ∈ (r t).knownPodUids) ∧
    ∀ t l, system.listeners t = some l →
      (∀ before pods, events t = before ++ [.restarted pods] → ∀ port uid,
        (endpointAt system.config.shared.portServiceMap port ⟨l.name, uid⟩).isSome →
        ∃ pod ∈ pods, pod.metadata.uid = some uid) ∧
      ∀ before pod uid, events t = before ++ [.deleted pod] → pod.metadata.uid = some uid →
        ∀ port, endpointAt system.config.shared.portServiceMap port ⟨l.name, uid⟩ = none := by
  refine ⟨fun port id h => ?_, fun t l hlistener => ?_⟩
  · obtain ⟨e, he⟩ := Option.isSome_iff_exists.mp h
    obtain ⟨t, l, hlistener, hname, hheld⟩ := held_of_endpointAt reaches healthy hdone watched he
    obtain ⟨remaining, watch⟩ := watched.watch t l hlistener
    exact ⟨t, l, hlistener, hname,
      watch.traced.outstanding id.uid (outstanding_of_held (by rw [hheld]; rfl))⟩
  obtain ⟨remaining, watch⟩ := watched.watch t l hlistener
  have hheld : ∀ port uid, endpointAt system.config.shared.portServiceMap port ⟨l.name, uid⟩ =
      held l.name (r t).sender.sent port uid := by
    intro port uid
    rw [endpointAt_of_done reaches healthy hdone hlistener, watched.sent t l hlistener]
  refine ⟨fun before pods hevents port uid h => ?_, fun before pod uid hevents huid port => ?_⟩
  · rw [hheld] at h
    rw [hevents] at watch
    exact watch.listed_of_held h
  · rw [hheld]
    rw [hevents] at watch
    exact watch.held_deleted huid

end Rest

/-- What the task sends of a running pod. -/
def runningPodEvents : List EndpointEvent :=
  [.add "pod" false 80 "http" (.v4 ⟨10, 0, 0, 1⟩ 8080) "http", .resume "pod"]

/-- A cluster registers, reports a running pod, and the manager catches up. -/
theorem reaches_running_pod :
    ∃ taken system l, System.initial.Reaches taken system ∧ system.Healthy ∧ system.AtRest ∧
      (∀ t l', system.listeners t = some l' → t = 1 ∧ l' = l) ∧ system.listeners 1 = some l ∧
      l.name = "kubernetes" ∧ l.channel.log = runningPodEvents ∧
      ∃ found, getEndpointFor Orders.ascending.endpoints system.config.shared.portServiceMap 80 0 =
        .ok (some found) := by
  have start : System.initial.Reaches [] .initial := .refl
  have registered := ((start.act (.call 0 (.registerEndpointDiscovery "kubernetes")) 1
    ⟨rfl, rfl, rfl⟩ ⟨rfl, rfl⟩ rfl).act (.acquire 0 .ascending) 1 trivial ⟨rfl, rfl⟩ rfl).act
    (.acquire 0 .ascending) 1 trivial ⟨rfl, rfl⟩ rfl
  have released := (registered.act (.release 0) 2 trivial ⟨rfl, rfl⟩ rfl).act (.release 0) 2 trivial
    ⟨rfl, rfl⟩ rfl
  have sent := (released.step (@System.Step.send _ 1 _ (.add "pod" false 80 "http"
    (.v4 ⟨10, 0, 0, 1⟩ 8080) "http") _ rfl rfl rfl rfl)).step
    (@System.Step.send _ 1 _ (.resume "pod") _ rfl rfl rfl rfl)
  have received := sent.step (@System.Step.listen _ 1 _ (.add "pod" false 80 "http"
    (.v4 ⟨10, 0, 0, 1⟩ 8080) "http") _ _ _ rfl rfl rfl rfl (.inl rfl) rfl)
  have added := (((received.act (.acquire 1 .ascending) 2 trivial ⟨rfl, rfl⟩ rfl).act
    (.acquire 1 .ascending) 2 trivial ⟨rfl, rfl⟩ rfl).act (.release 1) 2 trivial ⟨rfl, rfl⟩
    rfl).act (.release 1) 2 trivial ⟨rfl, rfl⟩ rfl
  have received' := added.step (@System.Step.listen _ 1 _ (.resume "pod") _ _ _ rfl rfl rfl rfl
    (.inl rfl) rfl)
  have resumed := (received'.act (.acquire 1 .ascending) 2 trivial ⟨rfl, rfl⟩ rfl).act
    (.release 1) 2 trivial ⟨rfl, rfl⟩ rfl
  refine ⟨_, _, _, resumed, ?_, ?_, ?_, rfl, rfl, rfl, _, rfl⟩
  · refine ⟨rfl, fun c channel h => (by cases h), fun t l h => ?_⟩
    rcases t with _ | _ | t <;> cases h
    exact .inl rfl
  · refine ⟨fun t => ?_, fun t l h hrunning => ?_, fun c channel h => by cases h⟩
    · rcases t with _ | _ | t <;> rfl
    · rcases t with _ | _ | t <;> cases h
      exact ⟨rfl, rfl⟩
  · intro t l h
    rcases t with _ | _ | t <;> cases h
    exact ⟨rfl, rfl⟩

/-- The task handles the report of a running pod. -/
theorem watch_running_pod :
    ∃ calls r, Watch (.new "kubernetes" .new) [.applied (samplePod "pod" "Running")] calls r ∧
      r.sender.sent = runningPodEvents := by
  have hsent : (watchFrom alphabetic [] (.new "kubernetes" .new)
      [.applied (samplePod "pod" "Running")]).map (fun result => result.2.sender.sent) =
        some runningPodEvents := by decide +kernel
  obtain ⟨⟨calls, r⟩, hwatch, hsent⟩ := Option.map_eq_some_iff.mp hsent
  exact ⟨calls, r, Watch.nil.extend hwatch, hsent⟩

theorem watched_running_pod :
    ∃ taken system calls r, System.initial.Reaches taken system ∧ system.Healthy ∧
      (∀ more system', ¬ system.Step true more system') ∧
      Watched system (fun _ => [.applied (samplePod "pod" "Running")]) calls r ∧
      ∃ found, getEndpointFor Orders.ascending.endpoints system.config.shared.portServiceMap 80 0 =
        .ok (some found) := by
  obtain ⟨taken, system, l, reaches, healthy, rest, honly, -, hname, hlog, hfound⟩ :=
    reaches_running_pod
  obtain ⟨calls, r, watch, hsent⟩ := watch_running_pod
  obtain ⟨⟨actions, recorded⟩, -⟩ := reaches.invariant
  refine ⟨taken, system, fun _ => calls, fun _ => r, reaches, healthy,
    rest.not_step recorded.execution.locksAgree, ⟨fun t l' h => ?_, fun t l' h => ?_⟩, hfound⟩
  · obtain ⟨-, rfl⟩ := honly t l' h
    rw [hname]
    exact ⟨none, watch⟩
  · obtain ⟨-, rfl⟩ := honly t l' h
    rw [hlog, hsent]

theorem endpoint_is_of_known_pod :
    ∃ (taken : List (String × EndpointEvent)) (system : System)
      (r : Nat → KubernetesDiscoveryRuntime) (id : EndpointId),
      System.initial.Reaches taken system ∧
      (endpointAt system.config.shared.portServiceMap 80 id).isSome ∧
      ∃ t l, system.listeners t = some l ∧ id.uid ∈ (r t).knownPodUids := by
  obtain ⟨taken, system, calls, r, reaches, healthy, hdone, watched, found, hfound⟩ :=
    watched_running_pod
  obtain ⟨id, e, he, -, -⟩ := getEndpointFor_eq_some hfound
  have hsome : (endpointAt system.config.shared.portServiceMap 80 id).isSome := by rw [he]; rfl
  obtain ⟨t, l, hlistener, -, hknown⟩ :=
    (endpoints_are_of_known_pods reaches healthy hdone watched).1 80 id hsome
  exact ⟨taken, system, r, id, reaches, hsome, t, l, hlistener, hknown⟩

end StateProxy.Kubernetes
