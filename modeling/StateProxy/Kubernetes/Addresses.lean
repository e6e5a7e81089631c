import StateProxy.Kubernetes.Coverage

/-! Where the endpoints of a pod are reached.  An announcement gives all endpoints of its pod the
address that the pod has then, and later reports do not change it; so the endpoints have the address of
the latest complete report of their pod as long as no pod changes its address while it has
endpoints. -/

namespace StateProxy.Kubernetes

open Backend Net ProofKit KubernetesDiscoveryRuntime ServiceManager

/-- The complete reports among the calls. -/
def callReports (calls : List ApplyCall) : List Report :=
  calls.filterMap (·.2.report)

/-- The endpoints that the manager holds have the address of the latest complete report of their
pod. -/
def Located (name : String) (events : List PodEvent) (m : ServiceManager) : Prop :=
  ∀ port uid e, endpointAt m.portServiceMap port ⟨name, uid⟩ = some e →
    ∃ report, lastReport uid (events.flatMap PodEvent.reports) = some report ∧
      parseIpAddr report.address = some e.address.ip

/-- A pod that was announced and not deleted since, and that has not succeeded, is reported with the
address of its previous complete report. -/
def Steady (calls : List ApplyCall) : Prop :=
  ∀ pre call post, calls = pre ++ call :: post → ∀ report, call.2.report = some report →
    report.phase ≠ "Succeeded" → Outstanding report.uid call.1.sender.sent →
    ∀ earlier, lastReport report.uid (callReports pre) = some earlier →
      parseIpAddr report.address = parseIpAddr earlier.address

/-- What is held has the address of the latest complete report among the calls. -/
def Addressed (name : String) (sent : List EndpointEvent) (calls : List ApplyCall) : Prop :=
  ∀ port uid e, held name sent port uid = some e →
    ∃ report, lastReport uid (callReports calls) = some report ∧
      parseIpAddr report.address = some e.address.ip

theorem ip_new (ip : IpAddr) (port : UInt16) : (SocketAddr.new ip port).ip = ip := by
  cases ip <;> rfl

/-- The endpoints of an announcement have the address of its report. -/
theorem Report.announcement_address {report : Report} {adds : List EndpointEvent}
    (h : report.announcement = some adds) {uid : String} {flag : Bool} {port : UInt16}
    {protocol : String} {address : SocketAddr} {backendProtocol : String}
    (hmem : .add uid flag port protocol address backendProtocol ∈ adds) :
    parseIpAddr report.address = some address.ip := by
  obtain ⟨ip, hip, hmap⟩ := Option.bind_eq_some_iff.mp h
  obtain ⟨serviceString, -, hevent⟩ := (mem_of_mapM hmap).1 _ hmem
  unfold serviceEvent partsEvent at hevent
  split at hevent
  · obtain ⟨port₁, -, hevent⟩ := Option.bind_eq_some_iff.mp hevent
    obtain ⟨port₂, -, hevent⟩ := Option.bind_eq_some_iff.mp hevent
    cases hevent
    rw [hip, ip_new]
  · cases hevent

theorem callReports_append (calls more : List ApplyCall) :
    callReports (calls ++ more) = callReports calls ++ callReports more :=
  List.filterMap_append

theorem callReports_applyCalls {pods : List Pod} {current after : Finset String}
    {r r' : KubernetesDiscoveryRuntime} (h : applyPods current pods r = .ok after r') :
    callReports (applyCalls r pods) = pods.filterMap Pod.report := by
  induction pods generalizing r current with
  | nil => rfl
  | cons pod pods ih =>
    cases huid : pod.metadata.uid with
    | none =>
      simp only [applyPods, huid] at h
      simp only [applyCalls, huid]
      rw [List.filterMap_cons_none (report_eq_none huid), ih h]
    | some uid =>
      simp only [applyPods, huid] at h
      obtain ⟨a, r₁, hfirst, hrest⟩ := bind_ok.mp h
      simp only [applyCalls, huid, hfirst]
      rw [callReports, List.filterMap_cons, List.filterMap_cons, ← ih hrest, callReports]

/-- The calls of a watch bring the complete reports of its events. -/
theorem Watch.callReports_eq {start r : KubernetesDiscoveryRuntime} {events : List PodEvent}
    {calls : List ApplyCall} (watch : Watch start events calls r) :
    callReports calls = events.flatMap PodEvent.reports := by
  induction watch with
  | nil => rfl
  | @snoc events calls r r' event order _ step ih =>
    rw [callReports_append, List.flatMap_append, List.flatMap_singleton, ih]
    congr 1
    cases event with
    | applied pod =>
      simp only [PodEvent.calls, PodEvent.reports]
      split
      · cases hreport : pod.report <;> simp [callReports, hreport]
      · rename_i huid
        rw [report_eq_none (by simpa using huid)]
        rfl
    | deleted pod => rfl
    | restarted pods =>
      obtain ⟨current, r₁, hloop, -, -⟩ := handlePodEvent_restarted step
      exact callReports_applyCalls hloop

theorem Steady.of_concat {calls : List ApplyCall} {call : ApplyCall}
    (steady : Steady (calls ++ [call])) : Steady calls := by
  intro pre c post heq
  exact steady pre c (post ++ [call]) (by simp [heq])

section Steps

variable {name : String} {sent events : List EndpointEvent} {calls : List ApplyCall}
  {r : KubernetesDiscoveryRuntime} {pod : Pod} {report : Report} {known : Finset String}

theorem lastReport_self (hreport : pod.report = some report) :
    lastReport report.uid (callReports (calls ++ [(r, pod)])) = some report := by
  rw [callReports_append, lastReport_append]
  simp [callReports, hreport, lastReport]

theorem lastReport_other {uid : String} (h : ∀ report, pod.report = some report → report.uid ≠ uid) :
    lastReport uid (callReports (calls ++ [(r, pod)])) = lastReport uid (callReports calls) := by
  rw [callReports_append, lastReport_append]
  cases hreport : pod.report with
  | none => simp [callReports, hreport, lastReport]
  | some report => simp [callReports, hreport, lastReport, h report hreport]

theorem Addressed.reported_self (addressed : Addressed name r.sender.sent calls)
    (traced : Traced r.knownPodUids r.sender.sent calls) (hreport : pod.report = some report)
    (heffect : report.effect r.knownPodUids = some (known, events))
    (steady : Steady (calls ++ [(r, pod)])) {port : UInt16} {e : Endpoint}
    (he : held name (r.sender.sent ++ events) port report.uid = some e) :
    parseIpAddr report.address = some e.address.ip := by
  obtain ⟨adds, rfl, hadds, -⟩ := Report.effect_eq_some heffect
  rw [← List.append_assoc, held_phaseEvents] at he
  split at he
  · cases he
  · rename_i hphase
    -- the phase leaves the addresses as they are
    obtain ⟨e₀, he₀, haddress⟩ : ∃ e₀, held name (r.sender.sent ++ adds) port report.uid = some e₀ ∧
        e₀.address = e.address := by
      split at he
      · exact ⟨e, he, rfl⟩
      · obtain ⟨e₀, he₀, rfl⟩ := Option.map_eq_some_iff.mp he
        exact ⟨e₀, he₀, rfl⟩
    rw [← haddress]
    rcases hadds with ⟨-, rfl⟩ | ⟨hunknown, hannouncement⟩
    · rw [List.append_nil] at he₀
      obtain ⟨earlier, hearlier, hparse⟩ := addressed port report.uid e₀ he₀
      have hout := outstanding_of_held (by rw [he₀]; rfl)
      rw [steady calls (r, pod) [] rfl report hreport hphase hout earlier hearlier, hparse]
    · have hnone := traced.held_eq_none hunknown name port
      have hown := fun event (hmem : event ∈ adds) => Report.announcement_adds hannouncement hmem
      obtain ⟨protocol, hmem⟩ := held_adds name r.sender.sent port hown hnone he₀
      exact Report.announcement_address hannouncement hmem

theorem Addressed.reported (addressed : Addressed name r.sender.sent calls)
    (traced : Traced r.knownPodUids r.sender.sent calls) (hreport : pod.report = some report)
    (heffect : report.effect r.knownPodUids = some (known, events))
    (steady : Steady (calls ++ [(r, pod)])) :
    Addressed name (r.sender.sent ++ events) (calls ++ [(r, pod)]) := by
  intro port uid e he
  by_cases huid : report.uid = uid
  · subst huid
    exact ⟨report, lastReport_self hreport,
      addressed.reported_self traced hreport heffect steady he⟩
  · rw [held_report_of_ne name r.sender.sent port heffect huid] at he
    rw [lastReport_other fun report' hreport' => ?_]
    · exact addressed port uid e he
    · rw [hreport] at hreport'
      cases hreport'
      exact huid

/-- `Delete`s leave what is held of other uids. -/
theorem Addressed.deletions (addressed : Addressed name sent calls)
    (hdelete : ∀ event ∈ events, ∃ uid, event = .delete uid) :
    Addressed name (sent ++ events) calls :=
  fun port uid e he => addressed port uid e (held_of_held_deletions hdelete he)

end Steps

theorem kept_addressed (name : String) : Kept fun known sent calls =>
    Traced known sent calls ∧ (Steady calls → Addressed name sent calls) where
  report := by
    intro r pod report known events calls hreport heffect inv
    refine ⟨kept_traced.report hreport heffect inv.1, fun steady => ?_⟩
    exact (inv.2 steady.of_concat).reported inv.1 hreport heffect steady
  incomplete := by
    intro r pod calls hreport inv
    refine ⟨kept_traced.incomplete hreport inv.1, fun steady port uid e he => ?_⟩
    rw [lastReport_other (by simp [hreport])]
    exact inv.2 steady.of_concat port uid e he
  delete := by
    intro known sent calls uid inv
    exact ⟨kept_traced.delete uid inv.1, fun steady => (inv.2 steady).deletions (by simp)⟩
  relist := by
    intro known sent calls order current inv
    refine ⟨kept_traced.relist order current inv.1, fun steady => (inv.2 steady).deletions ?_⟩
    intro event hmem
    obtain ⟨uid, -, -, heq⟩ := mem_deletions.mp hmem
    exact ⟨uid, heq⟩

/-- As long as no pod that has endpoints is reported with another address than before, every endpoint
of the task that a manager holds has the address of the latest complete report of its pod. -/
theorem located_of_steady {name : String} {remaining : Option Nat} {events : List PodEvent}
    {calls : List ApplyCall} {r : KubernetesDiscoveryRuntime}
    (watch : Watch (.new name ⟨[], remaining⟩) events calls r) (steady : Steady calls)
    {start m : ServiceManager} {history : List (String × EndpointEvent)}
    (hempty : start.portServiceMap = ∅) (run : Run start history m)
    (feeds : Feeds name r.sender.sent history) : Located name events m := by
  have addressed : Addressed name r.sender.sent calls := by
    refine (watch.invariant (kept_addressed name) ⟨Watch.nil.traced, fun _ => ?_⟩).2 steady
    intro port uid e he
    cases he
  intro port uid e he
  rw [feeds.endpointAt run hempty] at he
  rw [← watch.callReports_eq]
  exact addressed port uid e he

/-- A pod that keeps its address. -/
def unmovedPod : List PodEvent :=
  [.applied (samplePod "pod" "Running"), .restarted [samplePod "pod" "Failed"]]

def unmovedPodHistory : List (String × EndpointEvent) :=
  [("kubernetes", .add "pod" false 80 "http" (.v4 ⟨10, 0, 0, 1⟩ 8080) "http"),
    ("kubernetes", .resume "pod"), ("kubernetes", .suspend "pod")]

theorem located_of_steady_unmovedPod :
    ∃ (calls : List ApplyCall) (r : KubernetesDiscoveryRuntime) (m : ServiceManager),
      Watch (.new "kubernetes" .new) unmovedPod calls r ∧ Steady calls ∧
      Run .new unmovedPodHistory m ∧ Feeds "kubernetes" r.sender.sent unmovedPodHistory ∧
      Located "kubernetes" unmovedPod m := by
  have hsent : (watchFrom alphabetic [] (.new "kubernetes" .new) unmovedPod).map
      (fun result => result.2.sender.sent.map fun event => ("kubernetes", event)) =
        some unmovedPodHistory := by decide +kernel
  have hsome : (processAll ascending .new unmovedPodHistory).isSome := by decide +kernel
  have hsame : ∀ report ∈ unmovedPod.flatMap PodEvent.reports, report.address = "10.0.0.1" := by
    decide
  obtain ⟨⟨calls, r⟩, hwatch, hsent⟩ := Option.map_eq_some_iff.mp hsent
  obtain ⟨m, hrun⟩ := Option.isSome_iff_exists.mp hsome
  have watch : Watch (.new "kubernetes" .new) unmovedPod calls r := Watch.nil.extend hwatch
  rw [← watch.callReports_eq] at hsame
  have steady : Steady calls := by
    rintro pre call post rfl report hreport - - earlier hearlier
    obtain ⟨hmem, -⟩ := lastReport_mem hearlier
    have hcall : report ∈ callReports (pre ++ call :: post) :=
      List.mem_filterMap.mpr ⟨call, by simp, hreport⟩
    have hpre : earlier ∈ callReports (pre ++ call :: post) := by
      rw [callReports_append]
      exact List.mem_append_left _ hmem
    rw [hsame report hcall, hsame earlier hpre]
  have run := (Run.nil _).extend hrun
  have feeds : Feeds "kubernetes" r.sender.sent unmovedPodHistory := hsent.symm
  exact ⟨calls, r, m, watch, steady, run, feeds, located_of_steady watch steady rfl run feeds⟩

/-- A running pod that gets another address. -/
def movedPod : List PodEvent :=
  [.applied (samplePod "pod" "Running"),
    .applied ⟨(samplePod "pod" "Running").metadata, some ⟨some "10.0.0.2", some "Running"⟩⟩]

def movedPodHistory : List (String × EndpointEvent) :=
  [("kubernetes", .add "pod" false 80 "http" (.v4 ⟨10, 0, 0, 1⟩ 8080) "http"),
    ("kubernetes", .resume "pod"), ("kubernetes", .resume "pod")]

/-- Without the condition an endpoint keeps an address that its pod no longer has. -/
theorem not_located_movedPod :
    ¬ ∀ (name : String) (remaining : Option Nat) (events : List PodEvent) (calls : List ApplyCall)
        (r : KubernetesDiscoveryRuntime) (start m : ServiceManager)
        (history : List (String × EndpointEvent)),
      Watch (.new name ⟨[], remaining⟩) events calls r → start.portServiceMap = ∅ →
      Run start history m → Feeds name r.sender.sent history → Located name events m := by
  intro hall
  have hsent : (watchFrom alphabetic [] (.new "kubernetes" .new) movedPod).map
      (fun result => result.2.sender.sent.map fun event => ("kubernetes", event)) =
        some movedPodHistory := by decide +kernel
  have hheld : (processAll ascending .new movedPodHistory).bind
      (fun m => endpointAt m.portServiceMap 80 ⟨"kubernetes", "pod"⟩) =
        some ⟨true, .v4 ⟨10, 0, 0, 1⟩ 8080, "http"⟩ := by decide +kernel
  have hlast : (lastReport "pod" (movedPod.flatMap PodEvent.reports)).map
      (fun report => parseIpAddr report.address) = some (some (.v4 ⟨10, 0, 0, 2⟩)) := by
    decide +kernel
  obtain ⟨⟨calls, r⟩, hwatch, hsent⟩ := Option.map_eq_some_iff.mp hsent
  obtain ⟨m, hrun, hheld⟩ := Option.bind_eq_some_iff.mp hheld
  obtain ⟨report, hreport, hparse⟩ := hall "kubernetes" none movedPod calls r .new m _
    (Watch.nil.extend hwatch) rfl ((Run.nil _).extend hrun) hsent.symm 80 "pod" _ hheld
  rw [hreport, Option.map_some, hparse] at hlast
  cases hlast

end StateProxy.Kubernetes
