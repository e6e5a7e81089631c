import StateProxy.Kubernetes.Annotation
import StateProxy.Kubernetes.Relist

/-! Pods that the discovery task rejects.  A pod whose address cannot be parsed leaves no trace.  The
services annotation is read later, when the uid is in the set already, and part by part: a malformed
part leaves the uid there, and the services before it announced. -/

namespace StateProxy.Kubernetes

open Backend Net ProofKit KubernetesDiscoveryRuntime

/-- The task knows the uids that it knew, and has sent no event of the pod. -/
def LeavesNoTrace (pod : Pod) (r r' : KubernetesDiscoveryRuntime) : Prop :=
  r'.knownPodUids = r.knownPodUids ∧ ∀ uid, pod.metadata.uid = some uid →
    r'.sender.sent.filter (·.uid = uid) = r.sender.sent.filter (·.uid = uid)

/-- The pod is one that the task reads the services of, their annotation has a part that is not in the
grammar, and the channel accepts the `Add`s of the services before it. -/
def HasMalformedService (r : KubernetesDiscoveryRuntime) (pod : Pod) : Prop :=
  ∃ report address text before bad after services,
    pod.report = some report ∧ parseIpAddr report.address = some address ∧
    report.uid ∉ r.knownPodUids ∧
    report.annotations.lookup servicesAnnotation = some text ∧
    split ',' text = before ++ bad :: after ∧ List.Forall₂ DenotesService before services ∧
    (¬ ∃ service, DenotesService bad service) ∧
    (r.sender.sendAll (services.map (·.add report.uid address))).isSome

/-- A report is rejected for its address, or for the services of a pod that is not known. -/
theorem Report.rejected_eq_some {report : Report} {known known' : Finset String}
    {adds : List EndpointEvent} :
    report.rejected known = some (known', adds) ↔
      (parseIpAddr report.address = none ∧ known' = known ∧ adds = []) ∨
      ∃ address text, parseIpAddr report.address = some address ∧ report.uid ∉ known ∧
        report.annotations.lookup servicesAnnotation = some text ∧
        beforeFailure (serviceEvent report.uid address) (split ',' text) = some adds ∧
        known' = insert report.uid known := by
  unfold Report.rejected
  cases parseIpAddr report.address with
  | none => simp [eq_comm]
  | some address =>
    by_cases hknown : report.uid ∈ known
    · simp [hknown]
    · cases htext : report.annotations.lookup servicesAnnotation with
      | none => simp [hknown, Report.serviceStrings, htext, beforeFailure]
      | some text =>
        simp only [if_neg hknown, Report.serviceStrings, htext, Option.map_some, Option.getD_some,
          Option.map_eq_some_iff]
        constructor
        · rintro ⟨adds', hadds, heq⟩
          cases heq
          exact .inr ⟨address, text, rfl, hknown, rfl, hadds, rfl⟩
        · rintro (⟨hnone, -⟩ | ⟨address', text', haddress, -, heq, hadds, rfl⟩)
          · cases hnone
          · cases haddress
            cases heq
            exact ⟨adds, hadds, rfl⟩

/-- A malformed service is one for which the pod is rejected after its uid is known. -/
theorem hasMalformedService_iff {r : KubernetesDiscoveryRuntime} {pod : Pod} :
    HasMalformedService r pod ↔ ∃ report adds, pod.report = some report ∧
      report.uid ∉ r.knownPodUids ∧
      report.rejected r.knownPodUids = some (insert report.uid r.knownPodUids, adds) ∧
      (r.sender.sendAll adds).isSome := by
  constructor
  · rintro ⟨report, address, text, before, bad, after, services, hreport, haddress, hunknown, htext,
      hsplit, hservices, hbad, hsend⟩
    have hadds : beforeFailure (serviceEvent report.uid address) (split ',' text) = some _ :=
      beforeFailure_serviceEvent.mpr ⟨before, bad, after, services, hsplit, hservices, hbad, rfl⟩
    refine ⟨report, _, hreport, hunknown, Report.rejected_eq_some.mpr ?_, hsend⟩
    exact .inr ⟨address, text, haddress, hunknown, htext, hadds, rfl⟩
  · rintro ⟨report, adds, hreport, hunknown, hrejected, hsend⟩
    rcases Report.rejected_eq_some.mp hrejected with
      ⟨-, hsame, -⟩ | ⟨address, text, haddress, -, htext, hadds, -⟩
    · rw [← hsame] at hunknown
      exact (hunknown (Finset.mem_insert_self _ _)).elim
    · obtain ⟨before, bad, after, services, hsplit, hservices, hbad, rfl⟩ :=
        beforeFailure_serviceEvent.mp hadds
      exact ⟨report, address, text, before, bad, after, services, hreport, haddress, hunknown,
        htext, hsplit, hservices, hbad, hsend⟩

theorem handlePodEvent_rejects (order : IterOrder String) (r : KubernetesDiscoveryRuntime)
    (pod : Pod) :
    Rejects (handlePodEvent order (.applied pod)) r
      (pod.report.bind fun report => report.rejected r.knownPodUids) := by
  simp only [handlePodEvent]
  split
  · exact applyPod_rejects r pod
  · rename_i huid
    rw [report_eq_none (by simpa using huid)]
    exact .pure ()

/-- When an applied pod is rejected, for another reason than a closed channel, it leaves no trace, if
and only if it has no malformed service that the task gets to. -/
theorem rejected_pod_leaves_no_trace_iff (order : IterOrder String) (r : KubernetesDiscoveryRuntime)
    (pod : Pod) :
    (∀ e r', handlePodEvent order (.applied pod) r = .error e r' → IsRejection e →
      LeavesNoTrace pod r r') ↔ ¬ HasMalformedService r pod := by
  have hrejects := handlePodEvent_rejects order r pod
  rw [hasMalformedService_iff]
  constructor
  · rintro htraceless ⟨report, adds, hreport, hunknown, hrejected, hsend⟩
    rw [hreport, Option.bind_some, hrejected] at hrejects
    obtain ⟨sender, hsender⟩ := Option.isSome_iff_exists.mp hsend
    obtain ⟨e, r', herror, hrejection⟩ := hrejects.2 sender hsender
    have hknown := (hrejects.1 e r' herror hrejection).1
    rw [(htraceless e r' herror hrejection).1] at hknown
    rw [hknown] at hunknown
    exact hunknown (Finset.mem_insert_self _ _)
  · intro hnot e r' herror hrejection
    cases houtcome : pod.report.bind fun report => report.rejected r.knownPodUids with
    | none =>
      rw [houtcome] at hrejects
      exact (hrejects e r' herror hrejection).elim
    | some outcome =>
      obtain ⟨known, adds⟩ := outcome
      obtain ⟨report, hreport, hrejected⟩ := Option.bind_eq_some_iff.mp houtcome
      rw [houtcome] at hrejects
      obtain ⟨hknown, hsent⟩ := hrejects.1 e r' herror hrejection
      rcases Report.rejected_eq_some.mp hrejected with
        ⟨-, rfl, rfl⟩ | ⟨-, -, -, hunknown, -, -, rfl⟩
      · -- the address is parsed before the task does anything
        have hsame : r'.sender.sent = r.sender.sent := by
          rw [Sender.sendAll_sent hsent, List.append_nil]
        exact ⟨hknown, fun uid _ => by rw [hsame]⟩
      · exact (hnot ⟨report, adds, hreport, hunknown, hrejected, by rw [hsent]; rfl⟩).elim

/-- A pod with a service and a part that is not in the grammar. -/
def halfMalformedPod : Pod :=
  ⟨⟨some "pod", some "web", some ((∅ : HashMap String String).insert servicesAnnotation
    "80:http:8080:http,80")⟩, some ⟨some "10.0.0.1", some "Running"⟩⟩

/-- Without the condition a rejected pod can leave its uid and an endpoint behind. -/
theorem not_traceless_halfMalformedPod :
    (∃ e r', handlePodEvent alphabetic (.applied halfMalformedPod) (.new "kubernetes" .new) =
        .error e r' ∧ IsRejection e ∧ r'.knownPodUids = {"pod"} ∧
      r'.sender.sent = [.add "pod" false 80 "http" (.v4 ⟨10, 0, 0, 1⟩ 8080) "http"]) ∧
    ¬ ∀ (order : IterOrder String) (r r' : KubernetesDiscoveryRuntime) (pod : Pod) (e : Error),
      handlePodEvent order (.applied pod) r = .error e r' → IsRejection e →
      LeavesNoTrace pod r r' := by
  have houtcome : halfMalformedPod.report.bind (fun report => report.rejected ∅) =
      some ({"pod"}, [.add "pod" false 80 "http" (.v4 ⟨10, 0, 0, 1⟩ 8080) "http"]) := by
    decide +kernel
  have hrejects := handlePodEvent_rejects alphabetic (.new "kubernetes" .new) halfMalformedPod
  change Rejects _ _ (halfMalformedPod.report.bind fun report => report.rejected ∅) at hrejects
  rw [houtcome] at hrejects
  obtain ⟨e, r', herror, hrejection⟩ := hrejects.2 _ (Sender.sendAll_of_stays rfl _)
  obtain ⟨hknown, hsend⟩ := hrejects.1 e r' herror hrejection
  have hsent := Sender.sendAll_sent hsend
  refine ⟨⟨e, r', herror, hrejection, hknown, hsent⟩, fun hall => ?_⟩
  have hsame := (hall _ _ _ _ _ herror hrejection).1
  rw [hknown] at hsame
  exact Finset.singleton_ne_empty "pod" hsame

end StateProxy.Kubernetes
