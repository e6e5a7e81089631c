import StateProxy.Kubernetes.Relist

/-! Which pods are served.  A pod whose latest complete report has a phase other than `Succeeded`, and
that is still in the cluster, should have an endpoint on every port that its annotation names.  A
re-list breaks this: it makes every listed uid known, also one that was never announced, and a known
uid is not announced any more.  When each re-list leaves no such uid, no pod is missed. -/

namespace StateProxy.Kubernetes

open Backend Net ProofKit KubernetesDiscoveryRuntime ServiceManager

/-- The complete reports that a pod event brings. -/
def PodEvent.reports : PodEvent → List Report
  | .applied pod => pod.report.toList
  | .deleted _ => []
  | .restarted pods => pods.filterMap Pod.report

/-- The last report of a uid. -/
def lastReport (uid : String) (reports : List Report) : Option Report :=
  (reports.filter (·.uid = uid)).getLast?

/-- The external ports that the services annotation of a pod names. -/
def Report.externalPorts (report : Report) : List UInt16 :=
  report.serviceStrings.filterMap fun serviceString =>
    (split ':' serviceString).head?.bind fun port => (parseU16 port).toOption

/-- The event brings no complete report of the uid and does not say that its pod is gone. -/
def PodEvent.Spares (uid : String) (event : PodEvent) : Prop :=
  (∀ report ∈ event.reports, report.uid ≠ uid) ∧
  (∀ pod, event = .deleted pod → pod.metadata.uid ≠ some uid) ∧
  ∀ pods, event = .restarted pods → uid ∈ presentUids pods

/-- The latest complete report of the uid, when its pod was neither deleted nor missing from a
re-list since. -/
def Standing (uid : String) (events : List PodEvent) (report : Report) : Prop :=
  ∃ before event after, events = before ++ event :: after ∧
    lastReport uid event.reports = some report ∧ ∀ later ∈ after, later.Spares uid

/-- The annotations of no pod change between its complete reports. -/
def StableAnnotations (events : List PodEvent) : Prop :=
  ∀ report ∈ events.flatMap PodEvent.reports, ∀ report' ∈ events.flatMap PodEvent.reports,
    report.uid = report'.uid → report.annotations = report'.annotations

/-- The manager holds an endpoint of every standing pod that has not succeeded, on every external
port that its annotation names. -/
def Covered (name : String) (events : List PodEvent) (m : ServiceManager) : Prop :=
  ∀ uid report, Standing uid events report → report.phase ≠ "Succeeded" →
    ∀ port ∈ report.externalPorts, (endpointAt m.portServiceMap port ⟨name, uid⟩).isSome

/-- Every uid that a re-list names has a complete entry in it, the last of which has a phase other
than `Succeeded`, or has no complete entry and is known. -/
def PodEvent.NamesAnnounced (known : Finset String) : PodEvent → Prop
  | .restarted pods => ∀ uid ∈ presentUids pods,
    match lastReport uid (pods.filterMap Pod.report) with
    | some report => report.phase ≠ "Succeeded"
    | none => uid ∈ known
  | _ => True

/-- A watch in which every re-list names only announced pods. -/
inductive AnnouncedWatch (start : KubernetesDiscoveryRuntime) :
    List PodEvent → KubernetesDiscoveryRuntime → Prop
  | nil : AnnouncedWatch start [] start
  | snoc {events : List PodEvent} {r r' : KubernetesDiscoveryRuntime} {event : PodEvent}
      (order : IterOrder String) : AnnouncedWatch start events r →
      event.NamesAnnounced r.knownPodUids → handlePodEvent order event r = .ok () r' →
      AnnouncedWatch start (events ++ [event]) r'

/-! ### Standing pods are known -/

theorem lastReport_append (uid : String) (reports more : List Report) :
    lastReport uid (reports ++ more) = (lastReport uid more).or (lastReport uid reports) := by
  rw [lastReport, List.filter_append, List.getLast?_append]
  rfl

theorem lastReport_mem {uid : String} {reports : List Report} {report : Report}
    (h : lastReport uid reports = some report) : report ∈ reports ∧ report.uid = uid := by
  have hmem := List.mem_of_getLast? h
  simpa using hmem

/-- What a report makes of the known uids. -/
theorem Report.mem_known {report : Report} {known known' : Finset String}
    {events : List EndpointEvent} (h : report.effect known = some (known', events)) (uid : String) :
    uid ∈ known' ↔ if report.uid = uid then report.phase ≠ "Succeeded" else uid ∈ known := by
  obtain ⟨adds, -, -, hknown⟩ := effect_eq_some h
  rw [hknown]
  by_cases huid : report.uid = uid
  · subst huid
    by_cases hsucceeded : report.phase = "Succeeded" <;> simp [hsucceeded]
  · have hne : uid ≠ report.uid := fun h => huid h.symm
    by_cases hsucceeded : report.phase = "Succeeded" <;> simp [hsucceeded, huid, hne]

/-- What the pods of a re-list make of the known uids, before its end. -/
theorem mem_applyAll {pods : List Pod} {known known' : Finset String} {events : List EndpointEvent}
    (h : applyAll known pods = some (known', events)) (uid : String) :
    uid ∈ known' ↔ match lastReport uid (pods.filterMap Pod.report) with
      | some report => report.phase ≠ "Succeeded"
      | none => uid ∈ known := by
  induction pods generalizing known events with
  | nil =>
    cases h
    rfl
  | cons pod pods ih =>
    rcases applyAll_cons h with ⟨huid, h⟩ | ⟨uid', known₁, first, rest, huid, hfirst, hrest, rfl⟩
    · rw [List.filterMap_cons_none (report_eq_none huid)]
      exact ih h
    · rw [ih hrest]
      cases hreport : pod.report with
      | none =>
        simp only [Pod.effect, hreport] at hfirst
        cases hfirst
        rw [List.filterMap_cons_none hreport]
      | some report =>
        simp only [Pod.effect, hreport] at hfirst
        have hsplit := lastReport_append uid [report] (pods.filterMap Pod.report)
        rw [List.filterMap_cons_some hreport]
        rw [List.singleton_append] at hsplit
        rw [hsplit]
        cases hlast : lastReport uid (pods.filterMap Pod.report) with
        | some last => rfl
        | none =>
          simp only [Option.none_or]
          rw [Report.mem_known hfirst]
          by_cases hown : report.uid = uid
          · simp [lastReport, hown]
          · simp [lastReport, hown]

/-! ### Known pods have endpoints -/

/-- Every known pod has an endpoint on every external port of one of its reports. -/
def Announced (name : String) (sent : List EndpointEvent) (reports : List Report)
    (known : Finset String) : Prop :=
  ∀ uid ∈ known, ∃ report ∈ reports, report.uid = uid ∧
    ∀ port ∈ report.externalPorts, (held name sent port uid).isSome

/-- The `Add` of a service string is on its external port. -/
theorem serviceEvent_port {uid serviceString : String} {address : IpAddr} {event : EndpointEvent}
    (h : serviceEvent uid address serviceString = some event) {port : UInt16}
    (hport : ((split ':' serviceString).head?.bind fun port => (parseU16 port).toOption) = some port) :
    ∃ protocol backendAddress backendProtocol,
      event = .add uid false port protocol backendAddress backendProtocol := by
  unfold serviceEvent at h
  rcases hparts : split ':' serviceString with
    _ | ⟨externalPort, _ | ⟨externalProtocol, _ | ⟨backendPort, _ | ⟨backendProtocol, rest⟩⟩⟩⟩
  all_goals rw [hparts] at h hport
  · cases h
  · cases h
  · cases h
  · cases h
  · obtain ⟨port₁, hport₁, h⟩ := Option.bind_eq_some_iff.mp h
    obtain ⟨port₂, -, h⟩ := Option.bind_eq_some_iff.mp h
    cases h
    rw [List.head?_cons, Option.bind_some, hport₁] at hport
    cases hport
    exact ⟨_, _, _, rfl⟩

/-- An announcement leaves an endpoint on every external port. -/
theorem held_of_announcement (name : String) (sent : List EndpointEvent) {report : Report}
    {adds : List EndpointEvent} (h : report.announcement = some adds) {port : UInt16}
    (hport : port ∈ report.externalPorts) :
    (held name (sent ++ adds) port report.uid).isSome := by
  have hadds := fun event (hmem : event ∈ adds) => Report.announcement_adds h hmem
  obtain ⟨serviceString, hmem, hport⟩ := List.mem_filterMap.mp hport
  obtain ⟨address, -, hmap⟩ := Option.bind_eq_some_iff.mp h
  obtain ⟨event, hevent, heq⟩ := (mem_of_mapM hmap).2 serviceString hmem
  obtain ⟨protocol, backendAddress, backendProtocol, rfl⟩ := serviceEvent_port heq hport
  clear h hmap
  induction adds using List.reverseRecOn with
  | nil => cases hevent
  | append_singleton adds last ih =>
    obtain ⟨port', protocol', backendAddress', backendProtocol', rfl⟩ := hadds last (by simp)
    rw [← List.append_assoc, held_add]
    split
    · rfl
    · rename_i hne
      refine ih (fun event hmem => hadds event (List.mem_append_left _ hmem)) ?_
      rcases List.mem_append.mp hevent with hevent | hevent
      · exact hevent
      · cases List.mem_singleton.mp hevent
        exact absurd rfl hne

/-- A phase other than `Succeeded` leaves every endpoint of its uid. -/
theorem isSome_held_phaseEvents {name : String} {sent : List EndpointEvent} {report : Report}
    {port : UInt16} (hphase : report.phase ≠ "Succeeded")
    (h : (held name sent port report.uid).isSome) :
    (held name (sent ++ report.phaseEvents) port report.uid).isSome := by
  rw [held_phaseEvents, if_neg hphase]
  split
  · exact h
  · rw [Option.isSome_map]
    exact h

namespace Announced

variable {name : String} {sent events : List EndpointEvent} {reports : List Report}
  {known known' : Finset String}

theorem mono (announced : Announced name sent reports known) {more : List Report}
    (h : reports ⊆ more) : Announced name sent more known := by
  intro uid huid
  obtain ⟨report, hmem, hreport⟩ := announced uid huid
  exact ⟨report, h hmem, hreport⟩

/-- Events of uids that are not known change nothing. -/
theorem append (announced : Announced name sent reports known) (hsub : known' ⊆ known)
    (h : ∀ event ∈ events, event.uid ∉ known') : Announced name (sent ++ events) reports known' := by
  intro uid huid
  obtain ⟨report, hmem, hown, hports⟩ := announced uid (hsub huid)
  refine ⟨report, hmem, hown, fun port hport => ?_⟩
  rw [held_append_of_ne name sent port fun event hmem heq => h event hmem (heq ▸ huid)]
  exact hports port hport

theorem report (announced : Announced name sent reports known) {report : Report}
    (h : report.effect known = some (known', events)) :
    Announced name (sent ++ events) (reports ++ [report]) known' := by
  intro uid huid
  have hmember := (Report.mem_known h uid).mp huid
  by_cases hown : report.uid = uid
  · subst hown
    rw [if_pos rfl] at hmember
    obtain ⟨adds, rfl, hadds, -⟩ := Report.effect_eq_some h
    rw [← List.append_assoc]
    rcases hadds with ⟨hknown, rfl⟩ | ⟨-, hannouncement⟩
    · obtain ⟨first, hmem, hfirst, hports⟩ := announced report.uid hknown
      refine ⟨first, List.mem_append_left _ hmem, hfirst, fun port hport => ?_⟩
      rw [List.append_nil]
      exact isSome_held_phaseEvents hmember (hports port hport)
    · exact ⟨report, by simp, rfl, fun port hport =>
        isSome_held_phaseEvents hmember (held_of_announcement name sent hannouncement hport)⟩
  · rw [if_neg hown] at hmember
    obtain ⟨first, hmem, hfirst, hports⟩ := announced uid hmember
    refine ⟨first, List.mem_append_left _ hmem, hfirst, fun port hport => ?_⟩
    rw [held_report_of_ne name sent port h hown]
    exact hports port hport

theorem pod (announced : Announced name sent reports known) {pod : Pod}
    (h : pod.effect known = some (known', events)) :
    Announced name (sent ++ events) (reports ++ pod.report.toList) known' := by
  unfold Pod.effect at h
  cases hreport : pod.report with
  | none =>
    rw [hreport] at h
    cases h
    simpa using announced
  | some report =>
    rw [hreport] at h
    exact announced.report h

/-- The loop over the pods of a re-list. -/
theorem pods (announced : Announced name sent reports known) {pods : List Pod}
    (h : applyAll known pods = some (known', events)) :
    Announced name (sent ++ events) (reports ++ pods.filterMap Pod.report) known' := by
  induction pods generalizing known events sent reports with
  | nil =>
    cases h
    simpa using announced
  | cons pod pods ih =>
    have hreports : reports ++ pod.report.toList ++ pods.filterMap Pod.report ⊆
        reports ++ (pod :: pods).filterMap Pod.report := by
      cases hreport : pod.report with
      | none => simp [hreport]
      | some report => simp [hreport]
    rcases applyAll_cons h with ⟨huid, h⟩ | ⟨uid', known₁, first, rest, huid, hfirst, hrest, rfl⟩
    · refine (ih announced h).mono ?_
      exact fun report hmem => hreports (by simp at hmem ⊢; tauto)
    · rw [← List.append_assoc]
      exact (ih (announced.pod hfirst) hrest).mono hreports

/-- What a pod event keeps, when a re-list names only announced pods. -/
theorem step (announced : Announced name sent reports known) {order : IterOrder String}
    {event : PodEvent} (hguard : event.NamesAnnounced known)
    (h : event.effect order known = some (known', events)) :
    Announced name (sent ++ events) (reports ++ event.reports) known' := by
  cases event with
  | applied pod =>
    simp only [PodEvent.effect] at h
    split at h
    · exact announced.pod h
    · cases h
      rw [List.append_nil]
      exact announced.mono (List.subset_append_left _ _)
  | deleted pod =>
    simp only [PodEvent.effect] at h
    simp only [PodEvent.reports, List.append_nil]
    split at h
    · cases h
      exact announced.append (Finset.erase_subset _ _) (by simp [EndpointEvent.uid])
    · cases h
      rw [List.append_nil]
      exact announced
  | restarted pods =>
    obtain ⟨⟨old, loop⟩, hloop, h⟩ := Option.bind_eq_some_iff.mp h
    cases h
    rw [← List.append_assoc]
    refine (announced.pods hloop).append ?_ fun event hmem => ?_
    · intro uid huid
      rw [mem_applyAll hloop]
      exact hguard uid (List.mem_toFinset.mp huid)
    · obtain ⟨uid, -, hgone, rfl⟩ := mem_deletions.mp hmem
      exact hgone

end Announced

/-! ### No pod is missed -/

namespace AnnouncedWatch

variable {name : String} {remaining : Option Nat} {start r : KubernetesDiscoveryRuntime}
  {events : List PodEvent}

theorem toWatch (watch : AnnouncedWatch start events r) : ∃ calls, Watch start events calls r := by
  induction watch with
  | nil => exact ⟨[], .nil⟩
  | snoc order _ _ step ih =>
    obtain ⟨calls, watch⟩ := ih
    exact ⟨_, watch.snoc order step⟩

theorem announced (watch : AnnouncedWatch (.new name ⟨[], remaining⟩) events r) :
    Announced name r.sender.sent (events.flatMap PodEvent.reports) r.knownPodUids := by
  induction watch with
  | nil =>
    intro uid huid
    cases huid
  | snoc order _ hguard step ih =>
    obtain ⟨sent, heffect, hsent, -⟩ := handlePodEvent_ok step
    rw [hsent, List.flatMap_append, List.flatMap_singleton]
    exact ih.step hguard heffect

end AnnouncedWatch

/-- A pod event makes the uid of its last report known, unless the pod has succeeded. -/
theorem PodEvent.known_of_lastReport {event : PodEvent} {order : IterOrder String}
    {known known' : Finset String} {sent : List EndpointEvent}
    (h : event.effect order known = some (known', sent)) {uid : String} {report : Report}
    (hlast : lastReport uid event.reports = some report) (hphase : report.phase ≠ "Succeeded") :
    uid ∈ known' := by
  obtain ⟨hmem, rfl⟩ := lastReport_mem hlast
  cases event with
  | applied pod =>
    have hreport : pod.report = some report := by simpa [PodEvent.reports] using hmem
    simp only [PodEvent.effect, Pod.effect, uid_of_report hreport, hreport, Option.isSome_some,
      if_true] at h
    rw [Report.mem_known h, if_pos rfl]
    exact hphase
  | deleted pod => cases hmem
  | restarted pods =>
    obtain ⟨⟨old, loop⟩, -, h⟩ := Option.bind_eq_some_iff.mp h
    cases h
    obtain ⟨pod, hpod, hreport⟩ := List.mem_filterMap.mp hmem
    exact List.mem_toFinset.mpr (List.mem_filterMap.mpr ⟨pod, hpod, uid_of_report hreport⟩)

/-- A pod event that spares a known uid leaves it known. -/
theorem PodEvent.Spares.known {event : PodEvent} {order : IterOrder String}
    {known known' : Finset String} {sent : List EndpointEvent} {uid : String}
    (spares : event.Spares uid) (h : event.effect order known = some (known', sent))
    (hknown : uid ∈ known) : uid ∈ known' := by
  obtain ⟨hreports, hdeleted, hlisted⟩ := spares
  cases event with
  | applied pod =>
    simp only [PodEvent.effect, Pod.effect] at h
    cases hreport : pod.report with
    | none =>
      rw [hreport, ite_self] at h
      cases h
      exact hknown
    | some report =>
      have hne := hreports report (by simp [PodEvent.reports, hreport])
      simp only [uid_of_report hreport, hreport, Option.isSome_some, if_true] at h
      rw [Report.mem_known h, if_neg hne]
      exact hknown
  | deleted pod =>
    have hne := hdeleted pod rfl
    simp only [PodEvent.effect] at h
    split at h
    · rename_i uid' huid
      cases h
      refine Finset.mem_erase.mpr ⟨fun heq => hne ?_, hknown⟩
      rw [huid, heq]
    · cases h
      exact hknown
  | restarted pods =>
    obtain ⟨⟨old, loop⟩, -, h⟩ := Option.bind_eq_some_iff.mp h
    cases h
    exact List.mem_toFinset.mpr (hlisted pods rfl)

/-- A standing pod that has not succeeded is known. -/
theorem Standing.known {uid : String} {events : List PodEvent} {report : Report}
    (standing : Standing uid events report) (hphase : report.phase ≠ "Succeeded")
    {start r : KubernetesDiscoveryRuntime} {calls : List ApplyCall}
    (watch : Watch start events calls r) : uid ∈ r.knownPodUids := by
  obtain ⟨before, event, after, rfl, hlast, hafter⟩ := standing
  induction after using List.reverseRecOn generalizing calls r with
  | nil =>
    obtain ⟨order, calls₁, r₁, -, -, step⟩ := watch.last
    obtain ⟨sent, heffect, -, -⟩ := handlePodEvent_ok step
    exact PodEvent.known_of_lastReport heffect hlast hphase
  | append_singleton after last ih =>
    rw [← List.cons_append, ← List.append_assoc] at watch
    obtain ⟨order, calls₁, r₁, watch, -, step⟩ := watch.last
    obtain ⟨sent, heffect, -, -⟩ := handlePodEvent_ok step
    have hbefore := ih watch fun later hmem => hafter later (List.mem_append_left _ hmem)
    exact (hafter last (by simp)).known heffect hbefore

theorem Standing.mem_reports {uid : String} {events : List PodEvent} {report : Report}
    (standing : Standing uid events report) :
    report ∈ events.flatMap PodEvent.reports ∧ report.uid = uid := by
  obtain ⟨before, event, after, rfl, hlast, -⟩ := standing
  obtain ⟨hmem, huid⟩ := lastReport_mem hlast
  exact ⟨List.mem_flatMap.mpr ⟨event, by simp, hmem⟩, huid⟩

/-- When every re-list names only announced pods, no pod is missed: a manager that has processed
what the task has sent holds an endpoint of every standing pod that has not succeeded, on every
external port that its annotation names. -/
theorem covered_of_announcedWatch {name : String} {remaining : Option Nat}
    {events : List PodEvent} {r : KubernetesDiscoveryRuntime}
    (watch : AnnouncedWatch (.new name ⟨[], remaining⟩) events r)
    (stable : StableAnnotations events) {start m : ServiceManager}
    {history : List (String × EndpointEvent)} (hempty : start.portServiceMap = ∅)
    (run : Run start history m) (feeds : Feeds name r.sender.sent history) :
    Covered name events m := by
  intro uid report standing hphase port hport
  obtain ⟨calls, hwatch⟩ := watch.toWatch
  obtain ⟨hmem, huid⟩ := standing.mem_reports
  obtain ⟨first, hfirst, hown, hports⟩ := watch.announced uid (standing.known hphase hwatch)
  have hsame : first.externalPorts = report.externalPorts := by
    have hannotations := stable first hfirst report hmem (hown.trans huid.symm)
    unfold Report.externalPorts Report.serviceStrings
    rw [hannotations]
  rw [feeds.endpointAt run hempty]
  exact hports port (hsame ▸ hport)

/-- A pod with one service that has no address yet. -/
def pendingPod (uid : String) : Pod :=
  ⟨(samplePod uid "Pending").metadata, some ⟨none, some "Pending"⟩⟩

/-- A re-list that names a known pod which is incomplete in it. -/
def namedPod : List PodEvent :=
  [.applied (samplePod "pod" "Running"), .restarted [pendingPod "pod"]]

def namedPodHistory : List (String × EndpointEvent) :=
  [("kubernetes", .add "pod" false 80 "http" (.v4 ⟨10, 0, 0, 1⟩ 8080) "http"),
    ("kubernetes", .resume "pod")]

theorem covered_of_announcedWatch_namedPod :
    ∃ (r : KubernetesDiscoveryRuntime) (m : ServiceManager),
      AnnouncedWatch (.new "kubernetes" .new) namedPod r ∧ StableAnnotations namedPod ∧
      Run .new namedPodHistory m ∧ Feeds "kubernetes" r.sender.sent namedPodHistory ∧
      Covered "kubernetes" namedPod m := by
  have hsent : (watchFrom alphabetic [] (.new "kubernetes" .new)
      [.applied (samplePod "pod" "Running")]).bind (fun first =>
        (watchFrom alphabetic [] first.2 [.restarted [pendingPod "pod"]]).map fun second =>
          (first.2.knownPodUids, second.2.sender.sent.map fun event => ("kubernetes", event))) =
        some ({"pod"}, namedPodHistory) := by decide +kernel
  have hsome : (processAll ascending .new namedPodHistory).isSome := by decide +kernel
  have hreport : lastReport "pod" ([pendingPod "pod"].filterMap Pod.report) = none := by decide
  obtain ⟨⟨calls₁, r₁⟩, hfirst, hsent⟩ := Option.bind_eq_some_iff.mp hsent
  obtain ⟨⟨calls, r⟩, hsecond, hsent⟩ := Option.map_eq_some_iff.mp hsent
  obtain ⟨hknown, hsent⟩ := Prod.mk.inj hsent
  obtain ⟨m, hrun⟩ := Option.isSome_iff_exists.mp hsome
  have first : AnnouncedWatch (.new "kubernetes" .new) [.applied (samplePod "pod" "Running")] r₁ :=
    AnnouncedWatch.nil.snoc alphabetic trivial (watchFrom_singleton hfirst)
  have hguard : (PodEvent.restarted [pendingPod "pod"]).NamesAnnounced r₁.knownPodUids := by
    intro uid huid
    cases List.mem_singleton.mp huid
    rw [hreport, hknown]
    exact Finset.mem_singleton_self _
  have watch := first.snoc alphabetic hguard (watchFrom_singleton hsecond)
  have stable : StableAnnotations namedPod := by
    unfold StableAnnotations
    decide
  have run := (Run.nil _).extend hrun
  have feeds : Feeds "kubernetes" r.sender.sent namedPodHistory := hsent.symm
  exact ⟨r, m, watch, stable, run, feeds, covered_of_announcedWatch watch stable rfl run feeds⟩

/-- A pod that a re-list names before it is complete, and that then runs. -/
def missedPod : List PodEvent :=
  [.restarted [pendingPod "pod"], .applied (samplePod "pod" "Running")]

/-- Without the condition on re-lists a pod can be missed: one that was listed before it had an
address is never announced. -/
theorem not_covered_missedPod :
    ¬ ∀ (name : String) (remaining : Option Nat) (events : List PodEvent) (calls : List ApplyCall)
        (r : KubernetesDiscoveryRuntime) (start m : ServiceManager)
        (history : List (String × EndpointEvent)),
      Watch (.new name ⟨[], remaining⟩) events calls r → StableAnnotations events →
      start.portServiceMap = ∅ → Run start history m → Feeds name r.sender.sent history →
      Covered name events m := by
  intro hall
  have hsent : (watchFrom alphabetic [] (.new "kubernetes" .new) missedPod).map
      (fun result => result.2.sender.sent.map fun event => ("kubernetes", event)) =
        some [("kubernetes", .resume "pod")] := by decide +kernel
  have hnone : (processAll ascending .new [("kubernetes", .resume "pod")]).map
      (fun m => endpointAt m.portServiceMap 80 ⟨"kubernetes", "pod"⟩) = some none := by
    decide +kernel
  obtain ⟨⟨calls, r⟩, hwatch, hsent⟩ := Option.map_eq_some_iff.mp hsent
  obtain ⟨m, hrun, hnone⟩ := Option.map_eq_some_iff.mp hnone
  have stable : StableAnnotations missedPod := by
    unfold StableAnnotations
    decide
  have hfields : (samplePod "pod" "Running").report.map
      (fun report => (report.uid, report.phase, report.externalPorts)) =
        some ("pod", "Running", [80]) := by decide +kernel
  obtain ⟨report, hreport, hfields⟩ := Option.map_eq_some_iff.mp hfields
  obtain ⟨huid, hfields⟩ := Prod.mk.inj hfields
  obtain ⟨hphase, hports⟩ := Prod.mk.inj hfields
  have standing : Standing "pod" missedPod report := by
    refine ⟨[.restarted [pendingPod "pod"]], .applied (samplePod "pod" "Running"), [], rfl, ?_,
      by simp⟩
    simp [PodEvent.reports, hreport, lastReport, huid]
  have hcovered := hall "kubernetes" none missedPod calls r .new m _ (Watch.nil.extend hwatch)
    stable rfl ((Run.nil _).extend hrun) hsent.symm "pod" report standing
  rw [hphase, hports] at hcovered
  have hsome := hcovered (by decide) 80 (by simp)
  rw [hnone] at hsome
  cases hsome

end StateProxy.Kubernetes
