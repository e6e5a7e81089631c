import StateProxy.Kubernetes.Announcements

/-! Availability follows the phase of a pod.  An announcement adds endpoints that are not available,
and each later report of a phase other than `Pending` sets the availability of all of them; so an
endpoint that a manager holds is available exactly when the last such phase since the announcement
is `Running`. -/

namespace StateProxy.Kubernetes

open Backend Net ProofKit KubernetesDiscoveryRuntime ServiceManager

/-- The complete reports of a uid among the calls. -/
def reportsOf (uid : String) (calls : List ApplyCall) : List Report :=
  (calls.filterMap (·.2.report)).filter (·.uid = uid)

/-- The last phase other than `Pending`. -/
def lastPhase (reports : List Report) : Option String :=
  ((reports.map (·.phase)).filter (· ≠ "Pending")).getLast?

theorem reportsOf_append (uid : String) (calls more : List ApplyCall) :
    reportsOf uid (calls ++ more) = reportsOf uid calls ++ reportsOf uid more := by
  simp [reportsOf]

theorem reportsOf_self {r : KubernetesDiscoveryRuntime} {pod : Pod} {report : Report}
    (h : pod.report = some report) : reportsOf report.uid [(r, pod)] = [report] := by
  simp [reportsOf, h]

theorem reportsOf_other {r : KubernetesDiscoveryRuntime} {pod : Pod} {report : Report}
    (h : pod.report = some report) {uid : String} (hne : report.uid ≠ uid) :
    reportsOf uid [(r, pod)] = [] := by
  simp [reportsOf, h, hne]

theorem lastPhase_concat (reports : List Report) (report : Report) :
    lastPhase (reports ++ [report]) =
      if report.phase = "Pending" then lastPhase reports else some report.phase := by
  by_cases hpending : report.phase = "Pending"
  · simp [lastPhase, hpending]
  · simp [lastPhase, hpending]

theorem lastPhase_append {reports : List Report} {phase : String}
    (h : lastPhase reports = some phase) (before : List Report) :
    lastPhase (before ++ reports) = some phase := by
  unfold lastPhase at h ⊢
  rw [List.map_append, List.filter_append, List.getLast?_append, h]
  rfl

section Held

variable (name : String) (sent : List EndpointEvent) (port : UInt16)

theorem held_concat (event : EndpointEvent) (uid : String) :
    held name (sent ++ [event]) port uid = (event.op name).apply
      (TableOp.run (sent.map (·.op name)) TableOp.empty) port ⟨name, uid⟩ := by
  rw [held, List.map_append, List.map_singleton, TableOp.run_concat]

theorem held_add (uid : String) (flag : Bool) (externalPort : UInt16) (protocol : String)
    (address : SocketAddr) (backendProtocol : String) :
    held name (sent ++ [.add uid flag externalPort protocol address backendProtocol]) port uid =
      if port = externalPort then some ⟨flag, address, backendProtocol⟩
      else held name sent port uid := by
  rw [held_concat]
  simp [EndpointEvent.op, TableOp.apply, held]

theorem held_delete (uid : String) :
    held name (sent ++ [.delete uid]) port uid = none := by
  rw [held_concat]
  simp [EndpointEvent.op, TableOp.apply]

theorem held_resume (uid : String) :
    held name (sent ++ [.resume uid]) port uid =
      (held name sent port uid).map fun e => { e with isAvailable := true } := by
  rw [held_concat]
  simp [EndpointEvent.op, TableOp.apply, held]

theorem held_suspend (uid : String) :
    held name (sent ++ [.suspend uid]) port uid =
      (held name sent port uid).map fun e => { e with isAvailable := false } := by
  rw [held_concat]
  simp [EndpointEvent.op, TableOp.apply, held]

/-- Events of other uids change nothing. -/
theorem held_append_of_ne {uid : String} {events : List EndpointEvent}
    (h : ∀ event ∈ events, event.uid ≠ uid) :
    held name (sent ++ events) port uid = held name sent port uid := by
  induction events using List.reverseRecOn with
  | nil => rw [List.append_nil]
  | append_singleton events event ih =>
    have hne : (event.op name).id ≠ ⟨name, uid⟩ := by
      rw [EndpointEvent.op_id]
      intro heq
      exact h event (by simp) (EndpointId.mk.inj heq).2
    rw [← List.append_assoc, held_concat, TableOp.apply_of_id_ne hne]
    exact ih fun event hmem => h event (List.mem_append_left _ hmem)

/-- So do the events of a report of another uid. -/
theorem held_report_of_ne {report : Report} {known known' : Finset String}
    {events : List EndpointEvent} (h : report.effect known = some (known', events)) {uid : String}
    (huid : report.uid ≠ uid) : held name (sent ++ events) port uid = held name sent port uid := by
  refine held_append_of_ne name sent port fun event hmem heq => huid ?_
  rw [← heq, Report.uid_of_effect h hmem]

/-- What the phase of a report makes of the endpoints of its uid. -/
theorem held_phaseEvents (report : Report) :
    held name (sent ++ report.phaseEvents) port report.uid =
      if report.phase = "Succeeded" then none
      else if report.phase = "Pending" then held name sent port report.uid
      else (held name sent port report.uid).map
        fun e => { e with isAvailable := report.phase = "Running" } := by
  unfold Report.phaseEvents
  by_cases hrunning : report.phase = "Running"
  · rw [if_pos hrunning, held_resume]
    simp [hrunning]
  by_cases hsucceeded : report.phase = "Succeeded"
  · rw [if_neg hrunning, if_pos hsucceeded, if_pos hsucceeded, held_delete]
  by_cases hpending : report.phase = "Pending"
  · rw [if_neg hrunning, if_neg hsucceeded, if_pos hpending, if_neg hsucceeded, if_pos hpending,
      List.append_nil]
  · rw [if_neg hrunning, if_neg hsucceeded, if_neg hpending, if_neg hsucceeded, if_neg hpending,
      held_suspend]
    simp [hrunning]

/-- What is held after `Add`s of a uid of which nothing was held comes from one of them. -/
theorem held_adds {uid : String} {adds : List EndpointEvent}
    (hadds : ∀ event ∈ adds, ∃ externalPort protocol address backendProtocol,
      event = .add uid false externalPort protocol address backendProtocol)
    (hnone : held name sent port uid = none) {e : Endpoint}
    (h : held name (sent ++ adds) port uid = some e) :
    ∃ protocol, .add uid e.isAvailable port protocol e.address e.protocol ∈ adds := by
  induction adds using List.reverseRecOn with
  | nil =>
    rw [List.append_nil, hnone] at h
    cases h
  | append_singleton adds event ih =>
    obtain ⟨externalPort, protocol, address, backendProtocol, rfl⟩ := hadds event (by simp)
    rw [← List.append_assoc, held_add] at h
    split at h
    · rename_i hport
      subst hport
      cases h
      exact ⟨protocol, by simp⟩
    · obtain ⟨protocol', hmem⟩ := ih (fun event hmem => hadds event (List.mem_append_left _ hmem)) h
      exact ⟨protocol', List.mem_append_left _ hmem⟩

/-- An announcement of a uid of which nothing is held adds endpoints that are not available. -/
theorem held_announcement {report : Report} {adds : List EndpointEvent}
    (hadds : ∀ event ∈ adds, ∃ externalPort protocol address backendProtocol,
      event = .add report.uid false externalPort protocol address backendProtocol)
    (hnone : held name sent port report.uid = none) {e : Endpoint}
    (h : held name (sent ++ adds) port report.uid = some e) : e.isAvailable = false := by
  obtain ⟨protocol, hmem⟩ := held_adds name sent port hadds hnone h
  obtain ⟨externalPort, protocol', address, backendProtocol, heq⟩ := hadds _ hmem
  exact (EndpointEvent.add.inj heq).2.1

end Held

/-- The uid was announced, and the flag is set exactly when, among its complete reports from the
latest announcement on, the last one with a phase other than `Pending` has the phase `Running`. -/
def FollowsPhase (uid : String) (calls : List ApplyCall) (flag : Bool) : Prop :=
  ∃ pre call report post, calls = pre ++ call :: post ∧ Announces uid call report ∧
    (∀ later ∈ post, ∀ report', ¬ Announces uid later report') ∧
    (flag ↔ lastPhase (reportsOf uid (call :: post)) = some "Running")

/-- The availability of every endpoint held follows the phase of its pod. -/
def Phased (name : String) (sent : List EndpointEvent) (calls : List ApplyCall) : Prop :=
  ∀ port uid e, held name sent port uid = some e → FollowsPhase uid calls e.isAvailable

section Steps

variable {name : String} {r : KubernetesDiscoveryRuntime} {pod : Pod} {report : Report}
  {known : Finset String} {events : List EndpointEvent} {calls : List ApplyCall} {uid : String}
  {port : UInt16} {e : Endpoint}

/-- A later call that does not announce the uid. -/
theorem FollowsPhase.later {flag flag' : Bool} (h : FollowsPhase uid calls flag)
    (hnot : ∀ report', ¬ Announces uid (r, pod) report')
    (hphase : ∀ reports, (flag ↔ lastPhase reports = some "Running") →
      (flag' ↔ lastPhase (reports ++ reportsOf uid [(r, pod)]) = some "Running")) :
    FollowsPhase uid (calls ++ [(r, pod)]) flag' := by
  obtain ⟨pre, call, report, post, rfl, hannounces, hlater, havailable⟩ := h
  refine ⟨pre, call, report, post ++ [(r, pod)], by simp, hannounces, ?_, ?_⟩
  · intro later hmem
    rcases List.mem_append.mp hmem with hmem | hmem
    · exact hlater later hmem
    · rw [List.mem_singleton.mp hmem]
      exact hnot
  · rw [← List.cons_append, reportsOf_append]
    exact hphase _ havailable

theorem phased_report_self (hreport : pod.report = some report)
    (heffect : report.effect r.knownPodUids = some (known, events))
    (traced : Traced r.knownPodUids r.sender.sent calls)
    (phased : Phased name r.sender.sent calls)
    (he : held name (r.sender.sent ++ events) port report.uid = some e) :
    FollowsPhase report.uid (calls ++ [(r, pod)]) e.isAvailable := by
  obtain ⟨adds, rfl, hadds, -⟩ := Report.effect_eq_some heffect
  rw [← List.append_assoc, held_phaseEvents] at he
  split at he
  · cases he
  rcases hadds with ⟨hknown, rfl⟩ | ⟨hunknown, hannouncement⟩
  · rw [List.append_nil] at he
    have hnot : ∀ report', ¬ Announces report.uid (r, pod) report' :=
      fun report' hannounces => hannounces.2.2 hknown
    split at he
    · rename_i hpending
      refine (phased port report.uid e he).later hnot fun reports havailable => ?_
      rw [reportsOf_self hreport, lastPhase_concat, if_pos hpending]
      exact havailable
    · rename_i hpending
      obtain ⟨e₀, he₀, rfl⟩ := Option.map_eq_some_iff.mp he
      refine (phased port report.uid e₀ he₀).later hnot fun reports _ => ?_
      rw [reportsOf_self hreport, lastPhase_concat, if_neg hpending]
      simp
  · have hnone := traced.held_eq_none hunknown name port
    refine ⟨calls, (r, pod), report, [], rfl, ⟨hreport, rfl, hunknown⟩, by simp, ?_⟩
    have hself := lastPhase_concat [] report
    rw [reportsOf_self hreport]
    rw [List.nil_append] at hself
    have hadds := fun event (hmem : event ∈ adds) => Report.announcement_adds hannouncement hmem
    split at he
    · rename_i hpending
      have hunavailable := held_announcement name r.sender.sent port hadds hnone he
      rw [hself, if_pos hpending, hunavailable]
      simp [lastPhase]
    · rename_i hpending
      obtain ⟨e₀, -, rfl⟩ := Option.map_eq_some_iff.mp he
      rw [hself, if_neg hpending]
      simp

theorem phased_report (hreport : pod.report = some report)
    (heffect : report.effect r.knownPodUids = some (known, events))
    (traced : Traced r.knownPodUids r.sender.sent calls)
    (phased : Phased name r.sender.sent calls) :
    Phased name (r.sender.sent ++ events) (calls ++ [(r, pod)]) := by
  intro port uid e he
  by_cases huid : report.uid = uid
  · subst huid
    exact phased_report_self hreport heffect traced phased he
  · rw [held_report_of_ne name r.sender.sent port heffect huid] at he
    refine (phased port uid e he).later ?_ fun reports havailable => ?_
    · rintro report' ⟨hreport', huid', -⟩
      have heq := Option.some.inj (hreport.symm.trans hreport')
      exact huid (heq ▸ huid')
    · rw [reportsOf_other hreport huid, List.append_nil]
      exact havailable

/-- `Delete`s leave nothing of their uids, and everything else as it was. -/
theorem held_of_held_deletions {sent : List EndpointEvent}
    (hdelete : ∀ event ∈ events, ∃ uid, event = .delete uid)
    (he : held name (sent ++ events) port uid = some e) : held name sent port uid = some e := by
  induction events using List.reverseRecOn with
  | nil => rwa [List.append_nil] at he
  | append_singleton events event ih =>
    obtain ⟨uid', rfl⟩ := hdelete event (by simp)
    rw [← List.append_assoc] at he
    by_cases huid : uid' = uid
    · subst huid
      rw [held_delete] at he
      cases he
    · rw [held_append_of_ne name _ port (by simpa [EndpointEvent.uid] using huid)] at he
      exact ih (fun event hmem => hdelete event (List.mem_append_left _ hmem)) he

theorem phased_deletions {sent : List EndpointEvent} (phased : Phased name sent calls)
    (hdelete : ∀ event ∈ events, ∃ uid, event = .delete uid) :
    Phased name (sent ++ events) calls :=
  fun port uid e he => phased port uid e (held_of_held_deletions hdelete he)

end Steps

theorem kept_phased (name : String) :
    Kept fun known sent calls => Traced known sent calls ∧ Phased name sent calls where
  report := by
    intro r pod report known events calls hreport heffect inv
    exact ⟨kept_traced.report hreport heffect inv.1,
      phased_report hreport heffect inv.1 inv.2⟩
  incomplete := by
    intro r pod calls hreport inv
    refine ⟨kept_traced.incomplete hreport inv.1, fun port uid e he => ?_⟩
    refine (inv.2 port uid e he).later ?_ fun reports havailable => ?_
    · intro report' hannounces
      have hnone := hreport.symm.trans hannounces.1
      cases hnone
    · have hnone : reportsOf uid [(r, pod)] = [] := by simp [reportsOf, hreport]
      rw [hnone, List.append_nil]
      exact havailable
  delete := fun uid inv => ⟨kept_traced.delete uid inv.1, phased_deletions inv.2 (by simp)⟩
  relist := by
    intro known sent calls order current inv
    refine ⟨kept_traced.relist order current inv.1, phased_deletions inv.2 fun event hmem => ?_⟩
    obtain ⟨uid, -, -, heq⟩ := mem_deletions.mp hmem
    exact ⟨uid, heq⟩

theorem Watch.phased {name : String} {remaining : Option Nat} {events : List PodEvent}
    {calls : List ApplyCall} {r : KubernetesDiscoveryRuntime}
    (watch : Watch (.new name ⟨[], remaining⟩) events calls r) :
    Phased name r.sender.sent calls := by
  refine (watch.invariant (kept_phased name) ⟨Watch.nil.traced, ?_⟩).2
  intro port uid e he
  cases he

/-- A pod of which an available endpoint is held was last reported as running. -/
theorem FollowsPhase.running {uid : String} {calls : List ApplyCall} {flag : Bool}
    (h : FollowsPhase uid calls flag) (havailable : flag = true) :
    lastPhase (reportsOf uid calls) = some "Running" := by
  obtain ⟨pre, call, report, post, rfl, -, -, hphase⟩ := h
  rw [reportsOf_append]
  exact lastPhase_append (hphase.mp havailable) _

/-- Every endpoint of this task that a manager holds is available exactly when, among the complete
reports of its pod from the latest announcement on, the last one with a phase other than `Pending`
has the phase `Running`; so no endpoint is selected whose pod was last reported in another phase. -/
theorem availability_follows_phase {name : String} {remaining : Option Nat}
    {events : List PodEvent} {calls : List ApplyCall} {r : KubernetesDiscoveryRuntime}
    (watch : Watch (.new name ⟨[], remaining⟩) events calls r) {start m : ServiceManager}
    {history : List (String × EndpointEvent)} (hempty : start.portServiceMap = ∅)
    (run : Run start history m) (feeds : Feeds name r.sender.sent history) :
    (∀ port uid e, endpointAt m.portServiceMap port ⟨name, uid⟩ = some e →
      FollowsPhase uid calls e.isAvailable) ∧
    ∀ order port index found,
      getEndpointFor order m.portServiceMap port index = .ok (some found) →
      ∃ id e, endpointAt m.portServiceMap port id = some e ∧ found = (e.address, e.protocol) ∧
        (id.endpointDiscoveryName = name →
          lastPhase (reportsOf id.uid calls) = some "Running") := by
  have havailable : ∀ port uid e, endpointAt m.portServiceMap port ⟨name, uid⟩ = some e →
      FollowsPhase uid calls e.isAvailable := by
    intro port uid e he
    rw [feeds.endpointAt run hempty] at he
    exact watch.phased port uid e he
  refine ⟨havailable, fun order port index found hfound => ?_⟩
  obtain ⟨id, e, he, hflag, rfl⟩ := getEndpointFor_eq_some hfound
  refine ⟨id, e, he, rfl, ?_⟩
  rintro rfl
  exact (havailable port id.uid e he).running hflag

/-- A pod that runs, fails and is pending again. -/
def failedPod : List PodEvent :=
  [.applied (samplePod "pod" "Running"), .applied (samplePod "pod" "Failed"), .restarted [samplePod "pod" "Pending"]]

/-- What the manager gets of it. -/
def failedPodHistory : List (String × EndpointEvent) :=
  [("kubernetes", .add "pod" false 80 "http" (.v4 ⟨10, 0, 0, 1⟩ 8080) "http"),
    ("kubernetes", .resume "pod"), ("kubernetes", .suspend "pod")]

theorem availability_follows_phase_failedPod :
    ∃ (calls : List ApplyCall) (r : KubernetesDiscoveryRuntime) (m : ServiceManager),
      Watch (.new "kubernetes" .new) failedPod calls r ∧ Run .new failedPodHistory m ∧
      Feeds "kubernetes" r.sender.sent failedPodHistory ∧
      ∃ e, endpointAt m.portServiceMap 80 ⟨"kubernetes", "pod"⟩ = some e ∧
        FollowsPhase "pod" calls e.isAvailable := by
  have hsent : (watchFrom alphabetic [] (.new "kubernetes" .new) failedPod).map
      (fun result => result.2.sender.sent.map fun event => ("kubernetes", event)) =
        some failedPodHistory := by decide +kernel
  have hheld : (processAll ascending .new failedPodHistory).bind
      (fun m => endpointAt m.portServiceMap 80 ⟨"kubernetes", "pod"⟩) =
        some ⟨false, .v4 ⟨10, 0, 0, 1⟩ 8080, "http"⟩ := by decide +kernel
  obtain ⟨⟨calls, r⟩, hwatch, hsent⟩ := Option.map_eq_some_iff.mp hsent
  obtain ⟨m, hrun, hheld⟩ := Option.bind_eq_some_iff.mp hheld
  have watch := Watch.nil.extend hwatch
  have run := (Run.nil _).extend hrun
  have feeds : Feeds "kubernetes" r.sender.sent failedPodHistory := hsent.symm
  exact ⟨calls, r, m, watch, run, feeds, _, hheld,
    (availability_follows_phase watch rfl run feeds).1 80 "pod" _ hheld⟩

end StateProxy.Kubernetes
