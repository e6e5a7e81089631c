import StateProxy.Kubernetes.Interruption
import StateProxy.Kubernetes.Rejection

/-! The stream of endpoint events that a watch of the cluster denotes.  It is stated without a program:
each pod event has an effect or is rejected, and the first rejected one ends the stream, with the events
of the services before the malformed one.  The task sends exactly this stream, as far as its channel
accepts it. -/

namespace StateProxy.Kubernetes

open Backend Net ProofKit KubernetesDiscoveryRuntime

/-- What the task knows and has sent when it rejects a pod. -/
def Pod.rejected (pod : Pod) (known : Finset String) :
    Option (Finset String × List EndpointEvent) :=
  pod.report.bind (·.rejected known)

/-- What the task knows and has sent when it rejects a pod of a re-list. -/
def rejectedIn (known : Finset String) : List Pod → Option (Finset String × List EndpointEvent)
  | [] => none
  | pod :: pods =>
    match pod.metadata.uid with
    | none => rejectedIn known pods
    | some _ =>
      match pod.effect known with
      | none => pod.rejected known
      | some (known, events) =>
        (rejectedIn known pods).map fun (known, more) => (known, events ++ more)

def PodEvent.rejected (known : Finset String) :
    PodEvent → Option (Finset String × List EndpointEvent)
  | .applied pod => pod.rejected known
  | .deleted _ => none
  | .restarted pods => rejectedIn known pods

/-- The events of a watch, by a task that knows the given uids. -/
def stream (known : Finset String) : List Item → List EndpointEvent
  | [] => []
  | (_, .error _) :: _ => []
  | (order, .ok event) :: items =>
    match event.effect order known with
    | none => (event.rejected known).elim [] Prod.snd
    | some (known, events) => events ++ stream known items

/-- What a channel accepts of a stream. -/
def accepted (remaining : Option Nat) (events : List EndpointEvent) : List EndpointEvent :=
  remaining.elim events events.take

/-! ### Effects and rejections -/

theorem Report.rejected_isSome (report : Report) (known : Finset String) :
    (report.rejected known).isSome ↔ report.effect known = none := by
  unfold Report.rejected Report.effect Report.adds Report.announcement
  cases parseIpAddr report.address with
  | none => simp
  | some address =>
    by_cases hknown : report.uid ∈ known
    · simp [hknown]
    · simp only [hknown, if_false, Option.isSome_map, Option.bind_eq_bind, Option.bind_some]
      rw [Option.isSome_iff_ne_none, Ne, beforeFailure_eq_none, Option.bind_eq_none_iff]
      simp

theorem Pod.rejected_isSome (pod : Pod) (known : Finset String) :
    (pod.rejected known).isSome ↔ pod.effect known = none := by
  unfold Pod.rejected Pod.effect
  cases pod.report with
  | none => simp
  | some report => exact report.rejected_isSome known

theorem rejectedIn_isSome (pods : List Pod) (known : Finset String) :
    (rejectedIn known pods).isSome ↔ applyAll known pods = none := by
  induction pods generalizing known with
  | nil => simp [rejectedIn, applyAll]
  | cons pod pods ih =>
    cases huid : pod.metadata.uid with
    | none =>
      simp only [rejectedIn, applyAll, huid]
      exact ih known
    | some uid =>
      simp only [rejectedIn, applyAll, huid]
      cases heffect : pod.effect known with
      | none => simp [pod.rejected_isSome, heffect]
      | some effect =>
        obtain ⟨known', events⟩ := effect
        cases hrest : applyAll known' pods <;> simp [ih, hrest]

/-- An event is rejected exactly when it has no effect. -/
theorem PodEvent.rejected_isSome (event : PodEvent) (order : IterOrder String)
    (known : Finset String) :
    (event.rejected known).isSome ↔ event.effect order known = none := by
  cases event with
  | applied pod =>
    simp only [PodEvent.rejected, PodEvent.effect]
    split
    · exact pod.rejected_isSome known
    · rename_i huid
      simp [Pod.rejected, report_eq_none (by simpa using huid)]
  | deleted pod =>
    simp only [PodEvent.rejected, PodEvent.effect]
    split <;> simp
  | restarted pods =>
    simp only [PodEvent.rejected, PodEvent.effect]
    rw [rejectedIn_isSome]
    cases applyAll known pods <;> simp

/-! ### The program rejects what is rejected -/

theorem applyPods_rejects (r : KubernetesDiscoveryRuntime) (current : Finset String)
    (pods : List Pod) :
    Rejects (applyPods current pods) r (rejectedIn r.knownPodUids pods) := by
  induction pods generalizing r current with
  | nil => exact .pure current
  | cons pod pods ih =>
    cases huid : pod.metadata.uid with
    | none =>
      simp only [applyPods, rejectedIn, huid]
      exact ih r current
    | some uid =>
      simp only [applyPods, rejectedIn, huid]
      have hfirst := applyPod_emits r pod
      have hrejects := applyPod_rejects r pod
      cases hpod : pod.effect r.knownPodUids with
      | none =>
        rw [hpod] at hfirst
        exact hrejects.bind_left hfirst
      | some effect =>
        obtain ⟨known, events⟩ := effect
        have hnone : pod.rejected r.knownPodUids = none := by
          rw [← Option.not_isSome_iff_eq_none, pod.rejected_isSome, hpod]
          exact Option.some_ne_none _
        rw [hpod] at hfirst
        rw [Pod.rejected] at hnone
        rw [hnone] at hrejects
        exact hrejects.bind _ hfirst fun r₁ hr₁ => hr₁ ▸ ih r₁ _

theorem deleteUnknown_rejects (r : KubernetesDiscoveryRuntime) (uids : List String) :
    Rejects (deleteUnknown uids) r none := by
  induction uids generalizing r with
  | nil => exact .pure ()
  | cons uid uids ih =>
    refine Rejects.get.bind_quiet Emits.get fun r₁ _ => ?_
    split
    · exact (Rejects.send _).bind_right fun _ r₂ => ih r₂
    · exact ih r₁

/-- `handle_pod_event` rejects its event as the specification says. -/
theorem PodEvent.rejects (event : PodEvent) (order : IterOrder String)
    (r : KubernetesDiscoveryRuntime) :
    Rejects (handlePodEvent order event) r (event.rejected r.knownPodUids) := by
  cases event with
  | applied pod => exact handlePodEvent_rejects order r pod
  | deleted pod =>
    simp only [handlePodEvent, PodEvent.rejected]
    cases pod.metadata.uid with
    | none => exact Rejects.get.bind_quiet Emits.get fun r₁ _ => .warn _
    | some uid =>
      exact Rejects.get.bind_quiet Emits.get fun r₁ _ =>
        (Rejects.setKnown _).bind_right fun _ r₂ => .send _
  | restarted pods =>
    refine (applyPods_rejects r ∅ pods).bind_right fun current r₁ => ?_
    exact Rejects.get.bind_quiet Emits.get fun r₂ _ =>
      (Rejects.setKnown _).bind_right fun _ r₃ => deleteUnknown_rejects r₃ _

/-- While the receiver stays, the run sends the stream of its items. -/
theorem run_sends (items : List Item) {r : KubernetesDiscoveryRuntime}
    (hstays : r.sender.remaining = none) :
    (finalState (run items r)).sender.sent = r.sender.sent ++ stream r.knownPodUids items := by
  induction items generalizing r with
  | nil => exact (List.append_nil _).symm
  | cons item items ih =>
    obtain ⟨order, e | event⟩ := item
    · exact (List.append_nil _).symm
    · simp only [stream]
      cases heffect : event.effect order r.knownPodUids with
      | some effect =>
        obtain ⟨known, events⟩ := effect
        obtain ⟨r₁, hret, hknown, hsender⟩ := handlePodEvent_returns heffect hstays
        have hnext : run ((order, .ok event) :: items) r = run items r₁ := bind_of_ok hret
        rw [hnext, ih (by rw [hsender]), hsender, hknown, List.append_assoc]
      | none =>
        have hrejects := event.rejects order r
        have hsome := (event.rejected_isSome order _).mpr heffect
        obtain ⟨⟨known, events⟩, hrejected⟩ := Option.isSome_iff_exists.mp hsome
        rw [hrejected] at hrejects
        obtain ⟨e, r₁, herror, -, hsender⟩ := hrejects.stopsAfter hstays
        have hstop : run ((order, .ok event) :: items) r = .error e r₁ :=
          bind_error.mpr (.inl herror)
        rw [hstop, hrejected]
        exact congrArg Sender.sent hsender

/-- The task sends the stream that its watch denotes, as far as its channel accepts it. -/
theorem run_sends_stream (name : String) (items : List Item) (remaining : Option Nat) :
    (finalState (run items (.new name ⟨[], remaining⟩))).sender.sent =
      accepted remaining (stream ∅ items) := by
  have hopen : (finalState (run items (.new name .new))).sender.sent = stream ∅ items :=
    run_sends items rfl
  cases remaining with
  | none => exact hopen
  | some n =>
    obtain ⟨events, hall, hlimited⟩ := (@run_interrupts (.new name .new) rfl items).sent_limit
    have hevents : stream ∅ items = events := hopen.symm.trans hall
    rw [hevents]
    exact hlimited n

end StateProxy.Kubernetes
