import StateProxy.Backend.History
import StateProxy.Kubernetes.Effect
import Mathlib.Data.String.Basic

/-! Whole watches of a cluster: the task handles one pod event after the other, and a manager
processes what it sends, between the events of other discovery tasks.  Every step of the task is the
report of a pod, the deletion of a pod, or the end of a re-list, and `Watch.invariant` proves a
property of all watches from these. -/

namespace StateProxy.Kubernetes

open Backend Net ProofKit KubernetesDiscoveryRuntime

/-- The pods that an event reports. -/
def PodEvent.pods : PodEvent → List Pod
  | .applied pod => [pod]
  | .deleted _ => []
  | .restarted pods => pods

/-- A call of `apply_pod`: the state of the task before it, and the pod. -/
abbrev ApplyCall := KubernetesDiscoveryRuntime × Pod

/-- The events that a call of `apply_pod` sends. -/
def ApplyCall.sends (call : ApplyCall) : List EndpointEvent :=
  match applyPod call.2 call.1 with
  | .ok _ r | .error _ r => r.sender.sent.drop call.1.sender.sent.length

/-- The events that the pod of a call asks for. -/
def ApplyCall.events (call : ApplyCall) : List EndpointEvent :=
  (call.2.effect call.1.knownPodUids).elim [] Prod.snd

/-- The calls of `apply_pod` in the loop over the pods of a re-list. -/
def applyCalls (r : KubernetesDiscoveryRuntime) : List Pod → List ApplyCall
  | [] => []
  | pod :: pods =>
    match pod.metadata.uid with
    | none => applyCalls r pods
    | some _ =>
      (r, pod) :: match applyPod pod r with
        | .ok _ r' => applyCalls r' pods
        | .error _ _ => []

/-- The calls of `apply_pod` for a pod event. -/
def PodEvent.calls (r : KubernetesDiscoveryRuntime) : PodEvent → List ApplyCall
  | .applied pod => if pod.metadata.uid.isSome then [(r, pod)] else []
  | .deleted _ => []
  | .restarted pods => applyCalls r pods

/-- The task handles the events `events` from `start` on, each without an error, calls `apply_pod` as
in `calls` and is then in the state `r`. -/
inductive Watch (start : KubernetesDiscoveryRuntime) :
    List PodEvent → List ApplyCall → KubernetesDiscoveryRuntime → Prop
  | nil : Watch start [] [] start
  | snoc {events : List PodEvent} {calls : List ApplyCall} {r r' : KubernetesDiscoveryRuntime}
      {event : PodEvent} (order : IterOrder String) : Watch start events calls r →
      handlePodEvent order event r = .ok () r' →
      Watch start (events ++ [event]) (calls ++ event.calls r) r'

/-- A watch from `start` on in which `P` holds of every step: of the events handled before it, the
state before it, its event and the state after it. -/
inductive WatchOf (P : List PodEvent → KubernetesDiscoveryRuntime → PodEvent →
    KubernetesDiscoveryRuntime → Prop) (start : KubernetesDiscoveryRuntime) :
    List PodEvent → KubernetesDiscoveryRuntime → Prop
  | nil : WatchOf P start [] start
  | snoc {events : List PodEvent} {r r' : KubernetesDiscoveryRuntime} {event : PodEvent}
      (order : IterOrder String) : WatchOf P start events r →
      handlePodEvent order event r = .ok () r' → P events r event r' →
      WatchOf P start (events ++ [event]) r'

section Steps

variable {r r' : KubernetesDiscoveryRuntime}

theorem applyPod_ok {pod : Pod} {a : Unit} (h : applyPod pod r = .ok a r') :
    ∃ events, pod.effect r.knownPodUids = some (r'.knownPodUids, events) ∧
      r'.sender.sent = r.sender.sent ++ events := by
  obtain ⟨events, houtcome, hsent, -⟩ := (applyPod_emits r pod).of_return h
  obtain ⟨⟨known, sent⟩, heffect, heq⟩ := Option.map_eq_some_iff.mp houtcome
  obtain ⟨-, heq⟩ := Prod.mk.inj heq
  obtain ⟨rfl, rfl⟩ := Prod.mk.inj heq
  exact ⟨sent, heffect, hsent⟩

/-- A call that returns sends what its pod asks for. -/
theorem ApplyCall.sends_of_ok {call : ApplyCall} {a : Unit} (h : applyPod call.2 call.1 = .ok a r') :
    call.sends = call.events := by
  obtain ⟨events, heffect, hsent⟩ := applyPod_ok h
  rw [ApplyCall.sends, h, ApplyCall.events, heffect]
  change r'.sender.sent.drop call.1.sender.sent.length = events
  rw [hsent, List.drop_left]

theorem handlePodEvent_ok {order : IterOrder String} {event : PodEvent} {a : Unit}
    (h : handlePodEvent order event r = .ok a r') :
    ∃ events, event.effect order r.knownPodUids = some (r'.knownPodUids, events) ∧
      r'.sender.sent = r.sender.sent ++ events ∧ r'.name = r.name := by
  obtain ⟨events, houtcome, hsent, hname⟩ := (handlePodEvent_emits order r event).of_return h
  obtain ⟨⟨known, sent⟩, heffect, heq⟩ := Option.map_eq_some_iff.mp houtcome
  obtain ⟨-, heq⟩ := Prod.mk.inj heq
  obtain ⟨rfl, rfl⟩ := Prod.mk.inj heq
  exact ⟨sent, heffect, hsent, hname⟩

/-- When the receiver stays, an event with an effect is handled without an error. -/
theorem handlePodEvent_returns {order : IterOrder String} {event : PodEvent}
    {known : Finset String} {events : List EndpointEvent}
    (heffect : event.effect order r.knownPodUids = some (known, events))
    (hstays : r.sender.remaining = none) :
    ∃ r', handlePodEvent order event r = .ok () r' ∧ r'.knownPodUids = known ∧
      r'.sender = ⟨r.sender.sent ++ events, none⟩ := by
  have hemits := handlePodEvent_emits order r event
  rw [heffect] at hemits
  exact hemits.returns hstays

theorem handlePodEvent_stays {order : IterOrder String} {event : PodEvent} {a : Unit}
    (h : handlePodEvent order event r = .ok a r') (hstays : r.sender.remaining = none) :
    r'.sender.remaining = none := by
  obtain ⟨events, heffect, -, -⟩ := handlePodEvent_ok h
  obtain ⟨r'', hret, -, hsender⟩ := handlePodEvent_returns heffect hstays
  rw [h] at hret
  cases hret
  rw [hsender]

/-- The loop over the pods of a re-list, when it returns. -/
theorem applyPods_ok {pods : List Pod} {current after : Finset String}
    (h : applyPods current pods r = .ok after r') :
    ∃ events, applyAll r.knownPodUids pods = some (r'.knownPodUids, events) ∧
      r'.sender.sent = r.sender.sent ++ events := by
  obtain ⟨events, houtcome, hsent, -⟩ := (applyPods_emits r current pods).of_return h
  obtain ⟨⟨known, sent⟩, heffect, heq⟩ := Option.map_eq_some_iff.mp houtcome
  obtain ⟨-, heq⟩ := Prod.mk.inj heq
  obtain ⟨rfl, rfl⟩ := Prod.mk.inj heq
  exact ⟨sent, heffect, hsent⟩

/-- A re-list that is handled without an error: the loop over its pods, and its end. -/
theorem handlePodEvent_restarted {order : IterOrder String} {pods : List Pod} {a : Unit}
    (h : handlePodEvent order (.restarted pods) r = .ok a r') :
    ∃ current r₁, applyPods ∅ pods r = .ok current r₁ ∧ r'.knownPodUids = listedUids pods ∧
      r'.sender.sent = r₁.sender.sent ++ deletions order r₁.knownPodUids (listedUids pods) := by
  obtain ⟨events, heffect, hsent, -⟩ := handlePodEvent_ok h
  obtain ⟨current, r₁, hloop, -⟩ := bind_ok.mp h
  obtain ⟨more, hall, hsent₁⟩ := applyPods_ok hloop
  simp only [PodEvent.effect, hall] at heffect
  obtain ⟨hknown, rfl⟩ := Prod.mk.inj (Option.some.inj heffect)
  exact ⟨current, r₁, hloop, hknown.symm, by rw [hsent, hsent₁, List.append_assoc]⟩

end Steps

/-- A property of the known uids, the events sent and the calls made that every step of the task
keeps. -/
structure Kept (Inv : Finset String → List EndpointEvent → List ApplyCall → Prop) : Prop where
  report : ∀ {r : KubernetesDiscoveryRuntime} {pod : Pod} {report : Report} {known : Finset String}
    {events : List EndpointEvent} {calls : List ApplyCall}, pod.report = some report →
    report.effect r.knownPodUids = some (known, events) →
    Inv r.knownPodUids r.sender.sent calls →
    Inv known (r.sender.sent ++ events) (calls ++ [(r, pod)])
  incomplete : ∀ {r : KubernetesDiscoveryRuntime} {pod : Pod} {calls : List ApplyCall},
    pod.report = none → Inv r.knownPodUids r.sender.sent calls →
    Inv r.knownPodUids r.sender.sent (calls ++ [(r, pod)])
  delete : ∀ {known : Finset String} {sent : List EndpointEvent} {calls : List ApplyCall}
    (uid : String), Inv known sent calls → Inv (known.erase uid) (sent ++ [.delete uid]) calls
  relist : ∀ {known : Finset String} {sent : List EndpointEvent} {calls : List ApplyCall}
    (order : IterOrder String) (current : Finset String), Inv known sent calls →
    Inv current (sent ++ deletions order known current) calls

section Invariants

variable {Inv : Finset String → List EndpointEvent → List ApplyCall → Prop}
  {r r' : KubernetesDiscoveryRuntime} {calls : List ApplyCall}

theorem Kept.applyPod (kept : Kept Inv) {pod : Pod} {a : Unit} (h : applyPod pod r = .ok a r')
    (inv : Inv r.knownPodUids r.sender.sent calls) :
    Inv r'.knownPodUids r'.sender.sent (calls ++ [(r, pod)]) := by
  obtain ⟨events, heffect, hsent⟩ := applyPod_ok h
  rw [hsent]
  unfold Pod.effect at heffect
  cases hreport : pod.report with
  | none =>
    rw [hreport] at heffect
    obtain ⟨hknown, rfl⟩ := Prod.mk.inj (Option.some.inj heffect)
    rw [← hknown, List.append_nil]
    exact kept.incomplete hreport inv
  | some report =>
    rw [hreport] at heffect
    exact kept.report hreport heffect inv

theorem Kept.applyPods (kept : Kept Inv) {pods : List Pod} {current after : Finset String}
    (h : applyPods current pods r = .ok after r')
    (inv : Inv r.knownPodUids r.sender.sent calls) :
    Inv r'.knownPodUids r'.sender.sent (calls ++ applyCalls r pods) := by
  induction pods generalizing r current calls with
  | nil =>
    obtain ⟨-, rfl⟩ := pure_ok.mp h
    rw [applyCalls, List.append_nil]
    exact inv
  | cons pod pods ih =>
    cases huid : pod.metadata.uid with
    | none =>
      simp only [KubernetesDiscoveryRuntime.applyPods, huid] at h
      simp only [applyCalls, huid]
      exact ih h inv
    | some uid =>
      simp only [KubernetesDiscoveryRuntime.applyPods, huid] at h
      obtain ⟨a, r₁, hfirst, hrest⟩ := bind_ok.mp h
      simp only [applyCalls, huid, hfirst]
      have hstep := ih hrest (kept.applyPod hfirst inv)
      rwa [List.append_assoc] at hstep

/-- A property that every step keeps holds after every watch. -/
theorem Watch.invariant {start : KubernetesDiscoveryRuntime} {events : List PodEvent}
    (watch : Watch start events calls r) (kept : Kept Inv)
    (hstart : Inv start.knownPodUids start.sender.sent []) :
    Inv r.knownPodUids r.sender.sent calls := by
  induction watch with
  | nil => exact hstart
  | @snoc events calls r r' event order _ step ih =>
    cases event with
    | applied pod =>
      simp only [handlePodEvent, PodEvent.calls] at step ⊢
      split at step
      · rename_i huid
        rw [if_pos huid]
        exact kept.applyPod step ih
      · rename_i huid
        obtain ⟨-, rfl⟩ := pure_ok.mp step
        rw [if_neg huid, List.append_nil]
        exact ih
    | deleted pod =>
      obtain ⟨sent, heffect, hsent, -⟩ := handlePodEvent_ok step
      rw [hsent, PodEvent.calls, List.append_nil]
      simp only [PodEvent.effect] at heffect
      split at heffect
      · obtain ⟨hknown, rfl⟩ := Prod.mk.inj (Option.some.inj heffect)
        rw [← hknown]
        exact kept.delete _ ih
      · obtain ⟨hknown, rfl⟩ := Prod.mk.inj (Option.some.inj heffect)
        rw [← hknown, List.append_nil]
        exact ih
    | restarted pods =>
      obtain ⟨current, r₁, hloop, hknown, hsent⟩ := handlePodEvent_restarted step
      rw [hknown, hsent]
      exact kept.relist order _ (kept.applyPods hloop ih)

end Invariants

/-- The calls in the loop over the pods of a re-list return when the loop does. -/
theorem applyCalls_return {pods : List Pod} {r r' : KubernetesDiscoveryRuntime}
    {current after : Finset String} (h : applyPods current pods r = .ok after r') :
    ∀ call ∈ applyCalls r pods, ∃ a r₁, applyPod call.2 call.1 = .ok a r₁ := by
  induction pods generalizing r current with
  | nil => exact fun call hcall => nomatch hcall
  | cons pod pods ih =>
    cases huid : pod.metadata.uid with
    | none =>
      simp only [KubernetesDiscoveryRuntime.applyPods, huid] at h
      simp only [applyCalls, huid]
      exact ih h
    | some uid =>
      simp only [KubernetesDiscoveryRuntime.applyPods, huid] at h
      obtain ⟨a, r₁, hfirst, hrest⟩ := bind_ok.mp h
      simp only [applyCalls, huid, hfirst]
      intro call hcall
      rcases List.mem_cons.mp hcall with rfl | hcall
      · exact ⟨a, r₁, hfirst⟩
      · exact ih hrest call hcall

/-- Every call of a watch returns. -/
theorem Watch.calls_return {start r : KubernetesDiscoveryRuntime} {events : List PodEvent}
    {calls : List ApplyCall} (watch : Watch start events calls r) :
    ∀ call ∈ calls, ∃ a r₁, applyPod call.2 call.1 = .ok a r₁ := by
  induction watch with
  | nil => exact fun call hcall => nomatch hcall
  | @snoc events calls r r' event order _ step ih =>
    intro call hcall
    rcases List.mem_append.mp hcall with hcall | hcall
    · exact ih call hcall
    cases event with
    | applied pod =>
      simp only [handlePodEvent, PodEvent.calls] at step hcall
      split at step
      · rename_i huid
        rw [if_pos huid, List.mem_singleton] at hcall
        exact ⟨(), r', by rw [hcall]; exact step⟩
      · rename_i huid
        rw [if_neg huid] at hcall
        cases hcall
    | deleted pod => cases hcall
    | restarted pods =>
      obtain ⟨current, r₁, hloop, -, -⟩ := handlePodEvent_restarted step
      exact applyCalls_return hloop call hcall

/-- The last event of a watch. -/
theorem Watch.last {start r : KubernetesDiscoveryRuntime} {before : List PodEvent}
    {event : PodEvent} {calls : List ApplyCall} (watch : Watch start (before ++ [event]) calls r) :
    ∃ order calls₁ r₁, Watch start before calls₁ r₁ ∧ calls = calls₁ ++ event.calls r₁ ∧
      handlePodEvent order event r₁ = .ok () r := by
  generalize hall : before ++ [event] = events at watch
  cases watch with
  | nil => simp at hall
  | @snoc events calls r₁ _ event' order watch step =>
    obtain ⟨rfl, hlast⟩ := List.append_inj' hall rfl
    cases hlast
    exact ⟨order, calls, r₁, watch, rfl, step⟩

theorem Watch.stays {start r : KubernetesDiscoveryRuntime} {events : List PodEvent}
    {calls : List ApplyCall} (watch : Watch start events calls r)
    (hstays : start.sender.remaining = none) : r.sender.remaining = none := by
  induction watch with
  | nil => exact hstays
  | snoc order _ step ih => exact handlePodEvent_stays step ih

/-- The calls made and the state reached when the events `events` are handled from `r` on. -/
def watchFrom (order : IterOrder String) (calls : List ApplyCall)
    (r : KubernetesDiscoveryRuntime) :
    List PodEvent → Option (List ApplyCall × KubernetesDiscoveryRuntime)
  | [] => some (calls, r)
  | event :: events =>
    match handlePodEvent order event r with
    | .ok _ r' => watchFrom order (calls ++ event.calls r) r' events
    | .error _ _ => none

theorem watchFrom_singleton {order : IterOrder String} {calls calls' : List ApplyCall}
    {r r' : KubernetesDiscoveryRuntime} {event : PodEvent}
    (h : watchFrom order calls r [event] = some (calls', r')) :
    handlePodEvent order event r = .ok () r' := by
  simp only [watchFrom] at h
  split at h
  · rename_i hok
    cases h
    exact hok
  · cases h

theorem Watch.extend {start r r' : KubernetesDiscoveryRuntime} {before events : List PodEvent}
    {calls calls' : List ApplyCall} (watch : Watch start before calls r) {order : IterOrder String}
    (h : watchFrom order calls r events = some (calls', r')) :
    Watch start (before ++ events) calls' r' := by
  induction events generalizing before calls r with
  | nil =>
    cases h
    rwa [List.append_nil]
  | cons event events ih =>
    simp only [watchFrom] at h
    split at h
    · rename_i r₁ step
      have hmore := ih (watch.snoc order step) h
      rwa [List.append_assoc] at hmore
    · cases h

/-- The order of iteration that visits the uids from the least on. -/
def alphabetic : IterOrder String :=
  .sortedBy id Function.injective_id

/-- A pod with one service, in the given phase. -/
def samplePod (uid phase : String) : Pod :=
  ⟨⟨some uid, some "web", some ((∅ : HashMap String String).insert servicesAnnotation
    "80:http:8080:http")⟩, some ⟨some "10.0.0.1", some phase⟩⟩

/-! ### What a manager holds of a watch -/

/-- The endpoint of a uid on a port, after the events that the task with the given name has sent. -/
def held (name : String) (sent : List EndpointEvent) (port : UInt16) (uid : String) :
    Option Endpoint :=
  TableOp.run (sent.map (·.op name)) TableOp.empty port ⟨name, uid⟩

/-- The events that a manager has got from the task with the given name are `sent`, in order. -/
def Feeds (name : String) (sent : List EndpointEvent) (history : List (String × EndpointEvent)) :
    Prop :=
  history.filter (fun e => e.1 = name) = sent.map fun event => (name, event)

theorem Feeds.table {name : String} {sent : List EndpointEvent}
    {history : List (String × EndpointEvent)} (feeds : Feeds name sent history) (port : UInt16)
    (uid : String) :
    TableOp.run (operations history) TableOp.empty port ⟨name, uid⟩ = held name sent port uid := by
  rw [run_operations_own, feeds, operations, List.map_map]
  rfl

theorem Feeds.endpointAt {name : String} {sent : List EndpointEvent}
    {history : List (String × EndpointEvent)} (feeds : Feeds name sent history)
    {start m : ServiceManager} (run : Run start history m) (hempty : start.portServiceMap = ∅)
    (port : UInt16) (uid : String) :
    endpointAt m.portServiceMap port ⟨name, uid⟩ = held name sent port uid := by
  rw [run.endpointAt_of_empty hempty, feeds.table]

end StateProxy.Kubernetes
