import StateProxy.Kubernetes.Relist

/-! A pod that was reported as not running is not routed to.  The task heeds the phase of a report only
when the report is complete; so no endpoint of such a pod is available, until it is reported as
running, exactly as long as every report of this kind is complete or comes when none of the endpoints
of its pod is available. -/

namespace StateProxy.Kubernetes

open Backend Net ProofKit KubernetesDiscoveryRuntime ServiceManager

def Pod.phase (pod : Pod) : Option String := pod.status.bind (·.phase)

/-- The event reports the pod of the uid in a phase in which it does not run, other than
`Pending`. -/
def PodEvent.Stops (uid : String) (event : PodEvent) : Prop :=
  ∃ pod phase, event = .applied pod ∧ pod.metadata.uid = some uid ∧ pod.phase = some phase ∧
    phase ≠ "Running" ∧ phase ≠ "Pending"

/-- The event reports the pod of the uid as running. -/
def PodEvent.Runs (uid : String) (event : PodEvent) : Prop :=
  ∃ pod ∈ event.pods, pod.metadata.uid = some uid ∧ pod.phase = some "Running"

/-- The pod of the uid was reported as not running, and not as running since. -/
def Stopped (uid : String) (events : List PodEvent) : Prop :=
  ∃ before event after, events = before ++ event :: after ∧ event.Stops uid ∧
    ∀ later ∈ after, ¬ later.Runs uid

/-- No endpoint of the uid that is held is available. -/
def Unavailable (name : String) (sent : List EndpointEvent) (uid : String) : Prop :=
  ∀ port e, held name sent port uid = some e → e.isAvailable = false

/-- In no manager that has processed `sent` is an endpoint of a stopped pod available, and none of them
is selected for a connection. -/
def Unrouted (name : String) (events : List PodEvent) (sent : List EndpointEvent) : Prop :=
  ∀ (start m : ServiceManager) (history : List (String × EndpointEvent)),
    start.portServiceMap = ∅ → Run start history m → Feeds name sent history →
    ∀ uid, Stopped uid events →
      (∀ port e, endpointAt m.portServiceMap port ⟨name, uid⟩ = some e → e.isAvailable = false) ∧
      ∀ order port index found,
        getEndpointFor order m.portServiceMap port index = .ok (some found) →
        ∃ id e, endpointAt m.portServiceMap port id = some e ∧ e.isAvailable ∧
          found = (e.address, e.protocol) ∧ id ≠ ⟨name, uid⟩

/-- A report of a pod that does not run is complete, or none of the endpoints of the pod is
available. -/
def PodEvent.Heeded (name : String) (sent : List EndpointEvent) (event : PodEvent) : Prop :=
  ∀ uid, event.Stops uid → (∃ pod report, event = .applied pod ∧ pod.report = some report) ∨
    Unavailable name sent uid

/-- A watch in whose every state no stopped pod is routed to. -/
abbrev UnroutedWatch (name : String) :=
  WatchOf fun before _ event r' => Unrouted name (before ++ [event]) r'.sender.sent

/-- A watch in which every report of a pod that does not run is heeded. -/
abbrev HeededWatch (name : String) :=
  WatchOf fun _ r event _ => event.Heeded name r.sender.sent

/-! ### Which events leave an endpoint unavailable -/

/-- The event makes no endpoint of the uid available. -/
def EndpointEvent.Leaves (uid : String) : EndpointEvent → Prop
  | .add uid' flag _ _ _ _ => uid' = uid → flag = false
  | .resume uid' => uid' ≠ uid
  | _ => True

theorem Unavailable.concat {name : String} {sent : List EndpointEvent} {uid : String}
    (h : Unavailable name sent uid) {event : EndpointEvent} (hleaves : EndpointEvent.Leaves uid event) :
    Unavailable name (sent ++ [event]) uid := by
  intro port e he
  by_cases huid : event.uid = uid
  · subst huid
    cases event with
    | add uid flag externalPort protocol address backendProtocol =>
      rw [EndpointEvent.uid, held_add] at he
      split at he
      · cases he
        exact hleaves rfl
      · exact h port e he
    | delete uid =>
      rw [EndpointEvent.uid, held_delete] at he
      cases he
    | suspend uid =>
      rw [EndpointEvent.uid, held_suspend] at he
      obtain ⟨e₀, -, rfl⟩ := Option.map_eq_some_iff.mp he
      rfl
    | resume uid => exact (hleaves rfl).elim
  · rw [held_append_of_ne name sent port (by simpa using huid)] at he
    exact h port e he

theorem Unavailable.append {name : String} {sent events : List EndpointEvent} {uid : String}
    (h : Unavailable name sent uid) (hleaves : ∀ event ∈ events, EndpointEvent.Leaves uid event) :
    Unavailable name (sent ++ events) uid := by
  induction events using List.reverseRecOn with
  | nil => rwa [List.append_nil]
  | append_singleton events event ih =>
    rw [← List.append_assoc]
    exact (ih fun event hmem => hleaves event (List.mem_append_left _ hmem)).concat
      (hleaves event (by simp))

theorem phase_of_report {pod : Pod} {report : Report} (h : pod.report = some report) :
    pod.phase = some report.phase := by
  rw [report_eq_some h]
  rfl

/-- A report makes endpoints of a uid available only when it is one of the uid as running. -/
theorem Report.effect_leaves {report : Report} {known known' : Finset String}
    {events : List EndpointEvent} (h : report.effect known = some (known', events)) {uid : String}
    (hnot : ¬ (report.uid = uid ∧ report.phase = "Running")) {event : EndpointEvent}
    (hmem : event ∈ events) : EndpointEvent.Leaves uid event := by
  obtain ⟨adds, rfl, hadds, -⟩ := effect_eq_some h
  rcases List.mem_append.mp hmem with hmem | hmem
  · rcases hadds with ⟨-, rfl⟩ | ⟨-, hadds⟩
    · cases hmem
    · obtain ⟨port, protocol, address, backendProtocol, rfl⟩ := announcement_adds hadds hmem
      exact fun _ => rfl
  · unfold phaseEvents at hmem
    split_ifs at hmem with hrunning
    · cases List.mem_singleton.mp hmem
      exact fun huid => hnot ⟨huid, hrunning⟩
    · cases List.mem_singleton.mp hmem
      trivial
    · cases hmem
    · cases List.mem_singleton.mp hmem
      trivial

/-- A pod event makes endpoints of a uid available only when it reports its pod as running. -/
theorem PodEvent.effect_leaves {event : PodEvent} {order : IterOrder String}
    {known known' : Finset String} {events : List EndpointEvent}
    (h : event.effect order known = some (known', events)) {uid : String} (hnot : ¬ event.Runs uid) :
    ∀ e ∈ events, EndpointEvent.Leaves uid e := by
  intro e hmem
  rcases PodEvent.sentBy_of_effect h hmem with
    ⟨pod, hpod, report, known₁, known₁', sent, hreport, heffect, hmem⟩ | ⟨uid', rfl⟩
  · refine Report.effect_leaves heffect ?_ hmem
    rintro ⟨rfl, hrunning⟩
    exact hnot ⟨pod, hpod, uid_of_report hreport, by rw [phase_of_report hreport, hrunning]⟩
  · trivial

/-! ### Steps -/

theorem Stopped.concat {uid : String} {events : List PodEvent} {event : PodEvent}
    (h : Stopped uid (events ++ [event])) :
    event.Stops uid ∨ Stopped uid events ∧ ¬ event.Runs uid := by
  obtain ⟨before, first, after, heq, hstops, hafter⟩ := h
  cases after using List.reverseRecOn with
  | nil =>
    obtain ⟨-, hlast⟩ := List.append_inj' heq rfl
    cases hlast
    exact .inl hstops
  | append_singleton after last =>
    rw [← List.cons_append, ← List.append_assoc] at heq
    obtain ⟨rfl, hlast⟩ := List.append_inj' heq rfl
    cases hlast
    exact .inr ⟨⟨before, first, after, rfl, hstops,
      fun later hmem => hafter later (List.mem_append_left _ hmem)⟩, hafter event (by simp)⟩

/-- A complete report of a pod that does not run leaves no endpoint of it available. -/
theorem unavailable_of_report {name : String} {sent events : List EndpointEvent} {report : Report}
    {known known' : Finset String} (h : report.effect known = some (known', events))
    (hrunning : report.phase ≠ "Running") (hpending : report.phase ≠ "Pending") :
    Unavailable name (sent ++ events) report.uid := by
  intro port e he
  obtain ⟨adds, rfl, -, -⟩ := Report.effect_eq_some h
  rw [← List.append_assoc, held_phaseEvents, if_neg hpending] at he
  split at he
  · cases he
  · obtain ⟨e₀, -, rfl⟩ := Option.map_eq_some_iff.mp he
    simpa using hrunning

/-- No endpoint of a stopped pod is available. -/
def Silenced (name : String) (events : List PodEvent) (sent : List EndpointEvent) : Prop :=
  ∀ uid, Stopped uid events → Unavailable name sent uid

theorem Silenced.step {name : String} {events : List PodEvent} {r r' : KubernetesDiscoveryRuntime}
    {event : PodEvent} {order : IterOrder String} (silenced : Silenced name events r.sender.sent)
    (step : handlePodEvent order event r = .ok () r') (heeded : event.Heeded name r.sender.sent) :
    Silenced name (events ++ [event]) r'.sender.sent := by
  intro uid hstopped
  obtain ⟨sent, heffect, hsent, -⟩ := handlePodEvent_ok step
  rw [hsent]
  rcases hstopped.concat with hstops | ⟨hstopped, hnot⟩
  · obtain ⟨pod, phase, rfl, huid, hphase, hrunning, hpending⟩ := hstops
    have hnot : ¬ (PodEvent.applied pod).Runs uid := by
      rintro ⟨pod', hmem, -, hruns⟩
      cases List.mem_singleton.mp hmem
      rw [hphase] at hruns
      exact hrunning (Option.some.inj hruns)
    rcases heeded uid ⟨pod, phase, rfl, huid, hphase, hrunning, hpending⟩ with
      ⟨pod', report, heq, hreport⟩ | hunavailable
    · cases heq
      rw [phase_of_report hreport] at hphase
      rw [uid_of_report hreport] at huid
      cases hphase
      cases huid
      simp only [PodEvent.effect, Pod.effect, uid_of_report hreport, Option.isSome_some, if_true,
        hreport] at heffect
      exact unavailable_of_report heffect hrunning hpending
    · exact hunavailable.append (PodEvent.effect_leaves heffect hnot)
  · exact (silenced uid hstopped).append (PodEvent.effect_leaves heffect hnot)

/-- In terms of what is held: there is a manager for every stream. -/
theorem unrouted_iff {name : String} {events : List PodEvent} {sent : List EndpointEvent} :
    Unrouted name events sent ↔ Silenced name events sent := by
  constructor
  · intro unrouted uid hstopped port e he
    obtain ⟨m, run, -⟩ := Run.exists_of_no_consumer (m := .new) rfl
      (sent.map fun event => (name, event))
    have feeds : Feeds name sent (sent.map fun event => (name, event)) := by
      rw [Feeds, List.filter_eq_self]
      simp
    rw [← feeds.endpointAt run rfl] at he
    exact (unrouted .new m _ rfl run feeds uid hstopped).1 port e he
  · intro silenced start m history hempty run feeds uid hstopped
    have hflag : ∀ port e, endpointAt m.portServiceMap port ⟨name, uid⟩ = some e →
        e.isAvailable = false := by
      intro port e he
      rw [feeds.endpointAt run hempty] at he
      exact silenced uid hstopped port e he
    refine ⟨hflag, fun order port index found hfound => ?_⟩
    obtain ⟨id, e, he, havailable, hfields⟩ := getEndpointFor_eq_some hfound
    refine ⟨id, e, he, havailable, hfields, ?_⟩
    rintro rfl
    rw [hflag port e he] at havailable
    cases havailable

section Runs

variable {name : String} {events : List PodEvent} {start r : KubernetesDiscoveryRuntime}

theorem WatchOf.silenced (watch : UnroutedWatch name start events r) :
    Silenced name events r.sender.sent := by
  cases watch with
  | nil =>
    rintro uid ⟨before, event, after, heq, -⟩
    simp at heq
  | snoc order _ _ unrouted => exact unrouted_iff.mp unrouted

/-- In a watch, no pod that was reported as not running is routed to until it is reported as running,
exactly when every report of a pod that does not run is complete or comes when no endpoint of the pod
is available. -/
theorem stopped_pods_unrouted_iff :
    UnroutedWatch name start events r ↔ HeededWatch name start events r := by
  constructor
  · intro watch
    induction watch with
    | nil => exact .nil
    | @snoc events r r' event order _ step unrouted ih =>
      refine ih.snoc order step fun uid hstops => ?_
      obtain ⟨pod, phase, rfl, huid, hphase, hrunning, hpending⟩ := hstops
      cases hreport : pod.report with
      | some report => exact .inl ⟨pod, report, rfl, hreport⟩
      | none =>
        -- an incomplete report is not acted on, so nothing was available before it
        refine .inr ?_
        have hstopped : Stopped uid (events ++ [.applied pod]) :=
          ⟨events, .applied pod, [], rfl, ⟨pod, phase, rfl, huid, hphase, hrunning, hpending⟩,
            by simp⟩
        obtain ⟨sent, heffect, hsent, -⟩ := handlePodEvent_ok step
        simp only [PodEvent.effect, Pod.effect, hreport, ite_self] at heffect
        obtain ⟨-, rfl⟩ := Prod.mk.inj (Option.some.inj heffect)
        have hafter := unrouted_iff.mp unrouted uid hstopped
        rwa [hsent, List.append_nil] at hafter
  · intro watch
    induction watch with
    | nil => exact .nil
    | snoc order _ step heeded ih =>
      exact ih.snoc order step (unrouted_iff.mpr (ih.silenced.step step heeded))

/-- A running pod that loses its address when it fails. -/
def lostAddress : List PodEvent :=
  [.applied (samplePod "pod" "Running"),
    .applied ⟨(samplePod "pod" "Failed").metadata, some ⟨none, some "Failed"⟩⟩]

def lostAddressHistory : List (String × EndpointEvent) :=
  [("kubernetes", .add "pod" false 80 "http" (.v4 ⟨10, 0, 0, 1⟩ 8080) "http"),
    ("kubernetes", .resume "pod")]

/-- Without the condition a failed pod is routed to: its report has no address and is ignored. -/
theorem not_unrouted_lostAddress :
    ¬ ∀ (name : String) (remaining : Option Nat) (events : List PodEvent) (calls : List ApplyCall)
        (r : KubernetesDiscoveryRuntime), Watch (.new name ⟨[], remaining⟩) events calls r →
      Unrouted name events r.sender.sent := by
  intro hall
  have hsent : (watchFrom alphabetic [] (.new "kubernetes" .new) lostAddress).map
      (fun result => result.2.sender.sent.map fun event => ("kubernetes", event)) =
        some lostAddressHistory := by decide +kernel
  have hheld : (processAll ascending .new lostAddressHistory).bind
      (fun m => endpointAt m.portServiceMap 80 ⟨"kubernetes", "pod"⟩) =
        some ⟨true, .v4 ⟨10, 0, 0, 1⟩ 8080, "http"⟩ := by decide +kernel
  obtain ⟨⟨calls, r⟩, hwatch, hsent⟩ := Option.map_eq_some_iff.mp hsent
  obtain ⟨m, hrun, hheld⟩ := Option.bind_eq_some_iff.mp hheld
  have hstopped : Stopped "pod" lostAddress :=
    ⟨[.applied (samplePod "pod" "Running")], _, [], rfl,
      ⟨_, "Failed", rfl, rfl, rfl, by decide, by decide⟩, by simp⟩
  have hunrouted := hall "kubernetes" none lostAddress calls r (Watch.nil.extend hwatch) .new m _ rfl
    ((Run.nil _).extend hrun) hsent.symm "pod" hstopped
  cases hunrouted.1 80 _ hheld

end Runs

end StateProxy.Kubernetes
