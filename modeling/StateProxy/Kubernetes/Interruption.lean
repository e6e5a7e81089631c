import StateProxy.Kubernetes.Loop
import StateProxy.ProofKit.Interruption

/-! What becomes of the discovery task when the manager drops its receiver.  The task finds out only when
it sends, so a channel that closes after some number of events cuts its run off at the next one, and
does not change what the task had sent until then. -/

namespace StateProxy.Kubernetes

open Backend Net ProofKit KubernetesDiscoveryRuntime

/-- The channel of the task. -/
def outlet : Outlet KubernetesDiscoveryRuntime EndpointEvent where
  sender r := r.sender
  put r sender := { r with sender }
  sender_put _ _ := rfl
  put_put _ _ _ := rfl

/-- The reason of an error, behind its contexts, is a closed channel. -/
def IsClosed (e : Error) : Prop :=
  ¬ IsRejection e

/-- The part of the task is cut off by a closed channel and else undisturbed by it. -/
abbrev Interrupts {α : Type} (x : RuntimeM α) (r : KubernetesDiscoveryRuntime) : Prop :=
  outlet.Interrupts IsClosed x r

section Parts

variable {r : KubernetesDiscoveryRuntime} {α : Type}

theorem withContext_interrupts {x : RuntimeM α} (hx : Interrupts x r) {context : String}
    (hcontext : context ≠ "channel closed") : Interrupts (withContext context x) r := by
  obtain ⟨events, hsender, hlimited⟩ := hx
  refine ⟨events, ?_, fun n => ⟨fun h => ?_, fun h => ?_⟩⟩
  · unfold withContext
    cases hr : x r <;> rw [hr] at hsender <;> exact hsender
  · unfold withContext
    rw [(hlimited n).1 h]
    cases x r <;> rfl
  · obtain ⟨e, r', herror, hclosed, hcut⟩ := (hlimited n).2 h
    refine ⟨context :: e, r', by rw [withContext, herror], ?_, hcut⟩
    rwa [IsClosed, isRejection_cons hcontext]

variable (hstays : (outlet.sender r).remaining = none)
include hstays

theorem send_interrupts (event : EndpointEvent) : Interrupts (send event) r := by
  have hsend : send event = outlet.send ["channel closed"] event := by
    funext r
    have hsender : outlet.sender r = r.sender := rfl
    unfold KubernetesDiscoveryRuntime.send Outlet.send
    rw [hsender]
    cases r.sender.send event <;> rfl
  have hclosed : IsClosed ["channel closed"] := fun h => h rfl
  rw [hsend]
  exact .send hclosed hstays event

theorem warn_interrupts (line : String) : Interrupts (warn line) r :=
  .of_quiet (congrArg (Sender.mk r.sender.sent) hstays) fun _ => rfl

theorem setKnown_interrupts (known : Finset String) : Interrupts (setKnown known) r :=
  .of_quiet (congrArg (Sender.mk r.sender.sent) hstays) fun _ => rfl

theorem parsePort_interrupts (port : String) : Interrupts (parsePort port) r := by
  unfold parsePort
  cases parseU16 port with
  | ok port => exact .pure hstays port
  | error message => exact .throw hstays _

theorem parseAddress_interrupts (report : Report) : Interrupts (parseAddress report) r := by
  refine .get (fun _ => rfl) ?_
  dsimp only
  cases parseIpAddr report.address with
  | some address => exact .pure hstays address
  | none => exact .throw hstays _

theorem sendParts_interrupts (uid : String) (podAddress : IpAddr) (parts : List String) :
    Interrupts (sendParts uid podAddress parts) r := by
  unfold sendParts
  split
  · refine (parsePort_interrupts hstays _).bind fun port r₁ hstays₁ => ?_
    refine (parsePort_interrupts hstays₁ _).bind fun port' r₂ hstays₂ => ?_
    exact send_interrupts hstays₂ _
  · exact .throw hstays _

theorem sendServiceFromString_interrupts (serviceString uid podName : String)
    (podAddress : IpAddr) :
    Interrupts (sendServiceFromString serviceString uid podName podAddress) r := by
  refine .get (fun _ => rfl) ?_
  dsimp only
  split
  · exact (warn_interrupts hstays _).bind fun _ r₁ hstays₁ => sendParts_interrupts hstays₁ _ _ _
  · exact sendParts_interrupts hstays _ _ _

theorem sendServices_interrupts (uid podName : String) (podAddress : IpAddr)
    (serviceStrings : List String) :
    Interrupts (sendServices uid podName podAddress serviceStrings) r := by
  induction serviceStrings generalizing r with
  | nil => exact .pure hstays _
  | cons serviceString rest ih =>
    refine .get (fun _ => rfl) ?_
    have hfirst := sendServiceFromString_interrupts hstays serviceString uid podName podAddress
    have hcontext : s!"while handling service string '{serviceString}' for pod {podName} ({uid}) from Kubernetes cluster: {r.name}" ≠ "channel closed" := by
      simp only [String.append_assoc]
      exact serviceContext_ne _
    exact (withContext_interrupts hfirst hcontext).bind fun _ r₁ hstays₁ => ih hstays₁

theorem discoverServices_interrupts (annotations : HashMap String String) (uid podName : String)
    (podAddress : IpAddr) :
    Interrupts (discoverServices annotations uid podName podAddress) r := by
  refine (sendServices_interrupts hstays uid podName podAddress _).bind fun _ r₁ hstays₁ => ?_
  split
  · exact warn_interrupts hstays₁ _
  · exact .pure hstays₁ _

theorem followPhase_interrupts (report : Report) : Interrupts (followPhase report) r := by
  refine .get (fun _ => rfl) ?_
  dsimp only
  split_ifs
  · exact send_interrupts hstays _
  · exact .get (fun _ => rfl) ((setKnown_interrupts hstays _).bind fun _ r₁ hstays₁ =>
      send_interrupts hstays₁ _)
  · exact send_interrupts hstays _
  · exact (warn_interrupts hstays _).bind fun _ r₁ hstays₁ => send_interrupts hstays₁ _
  · exact .pure hstays _
  · exact (warn_interrupts hstays _).bind fun _ r₁ hstays₁ => send_interrupts hstays₁ _

theorem applyPod_interrupts (pod : Pod) : Interrupts (applyPod pod) r := by
  unfold applyPod
  cases pod.report with
  | none => exact .pure hstays _
  | some report =>
    refine (parseAddress_interrupts hstays report).bind fun address r₁ hstays₁ =>
      .get (fun _ => rfl) ?_
    refine (setKnown_interrupts hstays₁ _).bind fun _ r₂ hstays₂ => ?_
    split
    · exact (discoverServices_interrupts hstays₂ _ _ _ _).bind fun _ r₃ hstays₃ =>
        followPhase_interrupts hstays₃ report
    · exact followPhase_interrupts hstays₂ report

theorem applyPods_interrupts (current : Finset String) (pods : List Pod) :
    Interrupts (applyPods current pods) r := by
  induction pods generalizing r current with
  | nil => exact .pure hstays _
  | cons pod pods ih =>
    unfold applyPods
    split
    · exact ih hstays current
    · exact (applyPod_interrupts hstays pod).bind fun _ r₁ hstays₁ => ih hstays₁ _

theorem deleteUnknown_interrupts (uids : List String) : Interrupts (deleteUnknown uids) r := by
  induction uids generalizing r with
  | nil => exact .pure hstays _
  | cons uid uids ih =>
    refine .get (fun _ => rfl) ?_
    split
    · exact (send_interrupts hstays _).bind fun _ r₁ hstays₁ => ih hstays₁
    · exact ih hstays

theorem handlePodEvent_interrupts (order : IterOrder String) (event : PodEvent) :
    Interrupts (handlePodEvent order event) r := by
  cases event with
  | applied pod =>
    dsimp only [handlePodEvent]
    split
    · exact applyPod_interrupts hstays pod
    · exact .pure hstays _
  | deleted pod =>
    dsimp only [handlePodEvent]
    split
    · exact .get (fun _ => rfl) ((setKnown_interrupts hstays _).bind fun _ r₁ hstays₁ =>
        send_interrupts hstays₁ _)
    · exact .get (fun _ => rfl) (warn_interrupts hstays _)
  | restarted pods =>
    refine (applyPods_interrupts hstays ∅ pods).bind fun current r₁ hstays₁ =>
      .get (fun _ => rfl) ?_
    exact (setKnown_interrupts hstays₁ _).bind fun _ r₂ hstays₂ =>
      deleteUnknown_interrupts hstays₂ _

theorem run_interrupts (items : List Item) : Interrupts (run items) r := by
  induction items generalizing r with
  | nil => exact .get (fun _ => rfl) (.throw hstays _)
  | cons item items ih =>
    obtain ⟨order, e | event⟩ := item
    · exact .get (fun _ => rfl) (.throw hstays _)
    · exact (handlePodEvent_interrupts hstays order event).bind fun _ r₁ hstays₁ => ih hstays₁

end Parts

/-- The task never returns. -/
theorem run_stops (items : List Item) (r : KubernetesDiscoveryRuntime) :
    ∃ e r', run items r = .error e r' := by
  induction items generalizing r with
  | nil => exact ⟨_, _, rfl⟩
  | cons item items ih =>
    obtain ⟨order, e | event⟩ := item
    · exact ⟨_, _, rfl⟩
    · cases hfirst : handlePodEvent order event r with
      | error e r₁ => exact ⟨e, r₁, bind_error.mpr (.inl hfirst)⟩
      | ok _ r₁ =>
        obtain ⟨e, r', hrest⟩ := ih r₁
        exact ⟨e, r', bind_error.mpr (.inr ⟨(), r₁, hfirst, hrest⟩)⟩

/-- A task whose channel accepts `n` events sends the first `n` events of the task whose channel stays.
When these are all, it ends with the same error, knows the same uids and has given the same warnings;
else it ends because the channel is closed. -/
theorem closed_channel_cuts_run_off (name : String) (items : List Item) (n : Nat) :
    ∃ e r e' r', run items (.new name .new) = .error e r ∧
      run items (.new name ⟨[], some n⟩) = .error e' r' ∧
      r'.sender.sent = r.sender.sent.take n ∧
      (r.sender.sent.length ≤ n → e' = e ∧ r'.knownPodUids = r.knownPodUids ∧
        r'.warnings = r.warnings) ∧
      (n < r.sender.sent.length → IsClosed e') := by
  obtain ⟨e, r, hopen⟩ := run_stops items (.new name .new)
  obtain ⟨events, hsender, hlimited⟩ := @run_interrupts (.new name .new) rfl items
  have hsent : r.sender.sent = events := by
    rw [hopen] at hsender
    exact congrArg Sender.sent hsender
  have hstart : outlet.limit n (.new name .new) = .new name ⟨[], some n⟩ := rfl
  specialize hlimited n
  rw [hstart, hopen] at hlimited
  subst hsent
  by_cases hall : r.sender.sent.length ≤ n
  · have hlast := hlimited.1 hall
    refine ⟨e, r, e, _, hopen, hlast, ?_, fun _ => ⟨rfl, rfl, rfl⟩, fun h => absurd h (by omega)⟩
    rw [List.take_of_length_le hall]
    rfl
  · obtain ⟨e', r', herror, hclosed, hcut⟩ := hlimited.2 (by omega)
    exact ⟨e, r, e', r', hopen, herror, congrArg Sender.sent hcut, fun h => absurd h hall,
      fun _ => hclosed⟩

end StateProxy.Kubernetes
