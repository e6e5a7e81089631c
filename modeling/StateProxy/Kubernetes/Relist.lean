import StateProxy.Kubernetes.Availability

/-! A re-list of an unchanged cluster changes nothing.  The first re-list leaves every pod settled:
the event of its phase would change nothing that is held of it.  The second one finds every listed
pod known, so it announces none and sends the events of the phases again. -/

namespace StateProxy.Kubernetes

open Backend Net ProofKit KubernetesDiscoveryRuntime ServiceManager

/-- The event of the phase changes nothing that is held of the pod. -/
def Settled (name : String) (sent : List EndpointEvent) (report : Report) : Prop :=
  ∀ port, held name (sent ++ report.phaseEvents) port report.uid = held name sent port report.uid

theorem settled_phaseEvents (name : String) (sent : List EndpointEvent) (report : Report) :
    Settled name (sent ++ report.phaseEvents) report := by
  intro port
  rw [held_phaseEvents, held_phaseEvents]
  split_ifs
  · rfl
  · rfl
  · rw [Option.map_map]
    rfl

theorem Settled.append {name : String} {sent : List EndpointEvent} {report : Report}
    (settled : Settled name sent report) {events : List EndpointEvent}
    (h : ∀ event ∈ events, event.uid ≠ report.uid) : Settled name (sent ++ events) report := by
  intro port
  have hbefore := settled port
  rw [held_phaseEvents] at hbefore ⊢
  rw [held_append_of_ne name sent port h]
  exact hbefore

/-- A complete report has the fields of its pod. -/
theorem report_eq_some {pod : Pod} {report : Report} (h : pod.report = some report) :
    pod = ⟨⟨some report.uid, some report.name, some report.annotations⟩,
      some ⟨some report.address, some report.phase⟩⟩ := by
  obtain ⟨⟨uid, name, annotations⟩, status⟩ := pod
  simp only [Pod.report, Option.bind_eq_bind, Option.bind_eq_some_iff, Option.some.injEq] at h
  obtain ⟨⟨podIp, phase⟩, rfl, uid, rfl, name, rfl, annotations, rfl, address, rfl, phase, rfl,
    rfl⟩ := h
  rfl

theorem uid_of_report {pod : Pod} {report : Report} (h : pod.report = some report) :
    pod.metadata.uid = some report.uid := by
  rw [report_eq_some h]

theorem report_eq_none {pod : Pod} (h : pod.metadata.uid = none) : pod.report = none := by
  by_contra hsome
  obtain ⟨report, hreport⟩ := Option.ne_none_iff_exists'.mp hsome
  rw [uid_of_report hreport] at h
  cases h

theorem uid_of_podEffect {pod : Pod} {known known' : Finset String} {events : List EndpointEvent}
    (h : pod.effect known = some (known', events)) {event : EndpointEvent} (hmem : event ∈ events) :
    pod.metadata.uid = some event.uid := by
  unfold Pod.effect at h
  cases hreport : pod.report with
  | none =>
    rw [hreport] at h
    cases h
    cases hmem
  | some report =>
    rw [hreport] at h
    rw [Report.uid_of_effect h hmem]
    exact uid_of_report hreport

/-- The parts of what the loop over the pods of a re-list does. -/
theorem applyAll_cons {pod : Pod} {pods : List Pod} {known known' : Finset String}
    {events : List EndpointEvent} (h : applyAll known (pod :: pods) = some (known', events)) :
    pod.metadata.uid = none ∧ applyAll known pods = some (known', events) ∨
    ∃ uid known₁ first rest, pod.metadata.uid = some uid ∧
      pod.effect known = some (known₁, first) ∧ applyAll known₁ pods = some (known', rest) ∧
      events = first ++ rest := by
  simp only [applyAll] at h
  split at h
  · rename_i huid
    exact .inl ⟨huid, h⟩
  · rename_i uid huid
    obtain ⟨⟨known₁, first⟩, hfirst, h⟩ := Option.bind_eq_some_iff.mp h
    obtain ⟨⟨known₂, rest⟩, hrest, h⟩ := Option.bind_eq_some_iff.mp h
    cases h
    exact .inr ⟨uid, known₁, first, rest, huid, hfirst, hrest, rfl⟩

theorem uid_of_applyAll {pods : List Pod} {known known' : Finset String}
    {events : List EndpointEvent} (h : applyAll known pods = some (known', events))
    {event : EndpointEvent} (hmem : event ∈ events) : event.uid ∈ presentUids pods := by
  induction pods generalizing known events with
  | nil =>
    cases h
    cases hmem
  | cons pod pods ih =>
    rcases applyAll_cons h with ⟨huid, h⟩ | ⟨uid, known₁, first, rest, huid, hfirst, hrest, rfl⟩
    · rw [presentUids_cons_none huid]
      exact ih h hmem
    · rw [presentUids_cons_some huid]
      rcases List.mem_append.mp hmem with hmem | hmem
      · have heq := Option.some.inj (huid.symm.trans (uid_of_podEffect hfirst hmem))
        rw [heq]
        exact List.mem_cons_self
      · exact List.mem_cons_of_mem _ (ih hrest hmem)

/-- The event is one that a complete report of the pod sends. -/
def SentBy (pod : Pod) (e : EndpointEvent) : Prop :=
  ∃ report known known' events, pod.report = some report ∧
    report.effect known = some (known', events) ∧ e ∈ events

theorem sentBy_of_podEffect {pod : Pod} {known known' : Finset String} {events : List EndpointEvent}
    (h : pod.effect known = some (known', events)) {e : EndpointEvent} (hmem : e ∈ events) :
    SentBy pod e := by
  unfold Pod.effect at h
  cases hreport : pod.report with
  | none =>
    rw [hreport] at h
    cases h
    cases hmem
  | some report =>
    rw [hreport] at h
    exact ⟨report, known, known', events, hreport, h, hmem⟩

theorem sentBy_of_applyAll {pods : List Pod} {known known' : Finset String}
    {events : List EndpointEvent} (h : applyAll known pods = some (known', events))
    {e : EndpointEvent} (hmem : e ∈ events) : ∃ pod ∈ pods, SentBy pod e := by
  induction pods generalizing known events with
  | nil =>
    cases h
    cases hmem
  | cons pod pods ih =>
    rcases applyAll_cons h with ⟨-, h⟩ | ⟨uid, known₁, first, rest, -, hfirst, hrest, rfl⟩
    · obtain ⟨pod', hpod', hsent⟩ := ih h hmem
      exact ⟨pod', List.mem_cons_of_mem _ hpod', hsent⟩
    · rcases List.mem_append.mp hmem with hmem | hmem
      · exact ⟨pod, List.mem_cons_self, sentBy_of_podEffect hfirst hmem⟩
      · obtain ⟨pod', hpod', hsent⟩ := ih hrest hmem
        exact ⟨pod', List.mem_cons_of_mem _ hpod', hsent⟩

/-- What a pod event sends comes from the reports of its pods, but for the `Delete`s of pods that are
gone. -/
theorem PodEvent.sentBy_of_effect {event : PodEvent} {order : IterOrder String}
    {known known' : Finset String} {events : List EndpointEvent}
    (h : event.effect order known = some (known', events)) {e : EndpointEvent} (hmem : e ∈ events) :
    (∃ pod ∈ event.pods, SentBy pod e) ∨ ∃ uid, e = .delete uid := by
  cases event with
  | applied pod =>
    simp only [PodEvent.effect] at h
    split at h
    · exact .inl ⟨pod, List.mem_cons_self, sentBy_of_podEffect h hmem⟩
    · cases h
      cases hmem
  | deleted pod =>
    simp only [PodEvent.effect] at h
    split at h
    · cases h
      exact .inr ⟨_, List.mem_singleton.mp hmem⟩
    · cases h
      cases hmem
  | restarted pods =>
    obtain ⟨⟨old, loop⟩, hloop, h⟩ := Option.bind_eq_some_iff.mp h
    cases h
    rcases List.mem_append.mp hmem with hmem | hmem
    · exact .inl (sentBy_of_applyAll hloop hmem)
    · obtain ⟨uid, -, -, rfl⟩ := mem_deletions.mp hmem
      exact .inr ⟨uid, rfl⟩

/-- After the loop over the pods of a re-list with distinct uids, every complete pod is settled and
has an address. -/
theorem applyAll_settled {pods : List Pod} {known known' : Finset String}
    {events : List EndpointEvent} (h : applyAll known pods = some (known', events))
    (hdistinct : (presentUids pods).Nodup) (name : String)
    (sent : List EndpointEvent) {pod : Pod} (hpod : pod ∈ pods) {report : Report}
    (hreport : pod.report = some report) :
    Settled name (sent ++ events) report ∧ (parseIpAddr report.address).isSome := by
  induction pods generalizing known events sent with
  | nil => cases hpod
  | cons head pods ih =>
    rcases applyAll_cons h with ⟨huid, h⟩ | ⟨uid, known₁, first, rest, huid, hfirst, hrest, rfl⟩
    · rw [presentUids_cons_none huid] at hdistinct
      rcases List.mem_cons.mp hpod with rfl | hpod
      · rw [uid_of_report hreport] at huid
        cases huid
      · exact ih h hdistinct sent hpod
    · rw [presentUids_cons_some huid] at hdistinct
      obtain ⟨hnot, hdistinct⟩ := List.nodup_cons.mp hdistinct
      rw [← List.append_assoc]
      rcases List.mem_cons.mp hpod with rfl | hpod
      · simp only [Pod.effect, hreport] at hfirst
        obtain ⟨adds, rfl, -, -⟩ := Report.effect_eq_some hfirst
        obtain ⟨address, haddress, -⟩ := Option.bind_eq_some_iff.mp hfirst
        have heq : uid = report.uid := Option.some.inj (huid.symm.trans (uid_of_report hreport))
        rw [← List.append_assoc]
        refine ⟨(settled_phaseEvents name _ report).append fun event hmem hsame => ?_, by simp [haddress]⟩
        exact hnot (heq ▸ hsame ▸ uid_of_applyAll hrest hmem)
      · exact ih hrest hdistinct _ hpod

/-- The event of the phase of a complete pod. -/
def Pod.phaseEvents (pod : Pod) : List EndpointEvent :=
  (pod.report.map Report.phaseEvents).getD []

/-- The report of a known pod sends the event of its phase and forgets at most its uid. -/
theorem Report.effect_of_known {report : Report} {known : Finset String}
    (hknown : report.uid ∈ known) (haddress : (parseIpAddr report.address).isSome) :
    ∃ known' ⊆ known, report.effect known = some (known', report.phaseEvents) ∧
      ∀ uid, uid ≠ report.uid → uid ∈ known → uid ∈ known' := by
  obtain ⟨address, haddress⟩ := Option.isSome_iff_exists.mp haddress
  refine ⟨if report.phase = "Succeeded" then known.erase report.uid else insert report.uid known,
    ?_, by simp [effect, adds, haddress, hknown], fun uid hne huid => ?_⟩
  · split
    · exact Finset.erase_subset _ _
    · rw [Finset.insert_eq_of_mem hknown]
  · split
    · exact Finset.mem_erase.mpr ⟨hne, huid⟩
    · exact Finset.mem_insert_of_mem huid

theorem Pod.effect_of_known {pod : Pod} {uid : String} (huid : pod.metadata.uid = some uid)
    {known : Finset String} (hknown : uid ∈ known)
    (haddress : ∀ report, pod.report = some report → (parseIpAddr report.address).isSome) :
    ∃ known' ⊆ known, pod.effect known = some (known', pod.phaseEvents) ∧
      ∀ uid', uid' ≠ uid → uid' ∈ known → uid' ∈ known' := by
  cases hreport : pod.report with
  | none =>
    refine ⟨known, subset_rfl, by simp [effect, phaseEvents, hreport], ?_⟩
    exact fun uid' _ hmem => hmem
  | some report =>
    obtain rfl : uid = report.uid := Option.some.inj (huid.symm.trans (uid_of_report hreport))
    obtain ⟨known', hsub, heffect, hkept⟩ :=
      Report.effect_of_known hknown (haddress report hreport)
    exact ⟨known', hsub, by simpa [effect, phaseEvents, hreport] using heffect, hkept⟩

/-- Known pods with distinct uids are not announced. -/
theorem applyAll_of_known {pods : List Pod} {known : Finset String}
    (hknown : ∀ uid ∈ presentUids pods, uid ∈ known)
    (hdistinct : (presentUids pods).Nodup)
    (haddress : ∀ pod ∈ pods, ∀ report, pod.report = some report →
      (parseIpAddr report.address).isSome) :
    ∃ known' ⊆ known, applyAll known pods = some (known', pods.flatMap Pod.phaseEvents) := by
  induction pods generalizing known with
  | nil => exact ⟨known, subset_rfl, rfl⟩
  | cons pod pods ih =>
    have hrest := fun pod hpod => haddress pod (List.mem_cons_of_mem _ hpod)
    cases huid : pod.metadata.uid with
    | none =>
      rw [presentUids_cons_none huid] at hknown hdistinct
      obtain ⟨known', hsub, happly⟩ := ih hknown hdistinct hrest
      refine ⟨known', hsub, ?_⟩
      simp only [applyAll, huid, List.flatMap_cons, Pod.phaseEvents, report_eq_none huid,
        Option.map_none, Option.getD_none, List.nil_append]
      exact happly
    | some uid =>
      rw [presentUids_cons_some huid] at hknown hdistinct
      obtain ⟨hnot, hdistinct⟩ := List.nodup_cons.mp hdistinct
      obtain ⟨known₁, hsub₁, hfirst, hkept⟩ := Pod.effect_of_known huid
        (hknown uid List.mem_cons_self) (haddress pod List.mem_cons_self)
      have hothers : ∀ uid' ∈ presentUids pods, uid' ∈ known₁ := by
        intro uid' hmem
        exact hkept uid' (fun heq => hnot (heq ▸ hmem)) (hknown uid' (List.mem_cons_of_mem _ hmem))
      obtain ⟨known', hsub, happly⟩ := ih hothers hdistinct hrest
      refine ⟨known', hsub.trans hsub₁, ?_⟩
      simp only [applyAll, huid, List.flatMap_cons]
      rw [hfirst]
      simp [happly]

theorem Report.phaseEvents_eq {report : Report} {event : EndpointEvent}
    (h : event ∈ report.phaseEvents) : report.phaseEvents = [event] := by
  unfold phaseEvents at h ⊢
  split_ifs at h ⊢ <;> simp_all

/-- The event of the phase of a settled pod changes no endpoint of a manager that has processed the
stream. -/
theorem Settled.unchanged {name : String} {sent : List EndpointEvent} {report : Report}
    (settled : Settled name sent report) {history : List (String × EndpointEvent)}
    (feeds : Feeds name sent history) {start m : ServiceManager} (run : Run start history m)
    (hempty : start.portServiceMap = ∅) {event : EndpointEvent}
    (hevent : event ∈ report.phaseEvents) :
    (event.op name).apply (endpointAt m.portServiceMap) = endpointAt m.portServiceMap := by
  have hid : (event.op name).id = ⟨name, report.uid⟩ := by
    rw [EndpointEvent.op_id]
    rcases Report.mem_phaseEvents hevent with rfl | rfl | rfl <;> rfl
  have hheld := feeds.endpointAt run hempty
  funext port id
  by_cases hown : id = ⟨name, report.uid⟩
  · subst hown
    have hsame := settled port
    rw [Report.phaseEvents_eq hevent, held_concat] at hsame
    rw [TableOp.apply_congr (event.op name) (fun p => hheld p report.uid), hheld]
    exact hsame
  · have hne : (event.op name).id ≠ id := by
      rw [hid]
      exact fun h => hown h.symm
    exact TableOp.apply_of_id_ne hne _ port

theorem mem_flatMap_phaseEvents {pods : List Pod} {event : EndpointEvent}
    (h : event ∈ pods.flatMap Pod.phaseEvents) :
    ∃ pod ∈ pods, ∃ report, pod.report = some report ∧ event ∈ report.phaseEvents := by
  obtain ⟨pod, hpod, hmem⟩ := List.mem_flatMap.mp h
  cases hreport : pod.report with
  | none => simp [Pod.phaseEvents, hreport] at hmem
  | some report =>
    exact ⟨pod, hpod, report, hreport, by simpa [Pod.phaseEvents, hreport] using hmem⟩

/-- After a re-list with distinct uids its uids are known, and every complete pod is settled and has
an address. -/
theorem restarted_settled {order : IterOrder String} {pods : List Pod}
    {r r' : KubernetesDiscoveryRuntime} (step : handlePodEvent order (.restarted pods) r = .ok () r')
    (hdistinct : (presentUids pods).Nodup) (name : String) :
    r'.knownPodUids = listedUids pods ∧ ∀ pod ∈ pods, ∀ report, pod.report = some report →
      Settled name r'.sender.sent report ∧ (parseIpAddr report.address).isSome := by
  obtain ⟨sent, heffect, hsent, -⟩ := handlePodEvent_ok step
  simp only [PodEvent.effect] at heffect
  obtain ⟨⟨old, loop⟩, hloop, heffect⟩ := Option.bind_eq_some_iff.mp heffect
  obtain ⟨hknown, rfl⟩ := Prod.mk.inj (Option.some.inj heffect)
  refine ⟨hknown.symm, fun pod hpod report hreport => ?_⟩
  obtain ⟨hsettled, haddress⟩ := applyAll_settled hloop hdistinct name r.sender.sent hpod hreport
  refine ⟨?_, haddress⟩
  rw [hsent, ← List.append_assoc]
  refine hsettled.append fun event hmem huid => ?_
  obtain ⟨uid, -, hgone, rfl⟩ := mem_deletions.mp hmem
  refine hgone (List.mem_toFinset.mpr (List.mem_filterMap.mpr ⟨pod, hpod, ?_⟩))
  rw [uid_of_report hreport]
  exact congrArg some huid.symm

/-- A re-list of exactly the known uids sends the events of the phases and nothing else. -/
theorem restarted_effect {pods : List Pod} (hdistinct : (presentUids pods).Nodup)
    (haddress : ∀ pod ∈ pods, ∀ report, pod.report = some report →
      (parseIpAddr report.address).isSome) (order : IterOrder String) :
    (PodEvent.restarted pods).effect order (listedUids pods) =
      some (listedUids pods, pods.flatMap Pod.phaseEvents) := by
  obtain ⟨old, hsub, hloop⟩ :=
    applyAll_of_known (fun uid huid => List.mem_toFinset.mpr huid) hdistinct haddress
  have hnone : deletions order old (listedUids pods) = [] := by
    refine List.eq_nil_iff_forall_not_mem.mpr fun event hmem => ?_
    obtain ⟨uid, hold, hgone, -⟩ := mem_deletions.mp hmem
    exact hgone (hsub hold)
  simp only [PodEvent.effect, listedUids, Option.bind_eq_bind] at hloop hnone ⊢
  rw [hloop, Option.bind_some, hnone, List.append_nil]

/-- After a re-list with distinct uids has been handled and processed, a re-list of the same pods,
in any order, is handled without an error; it announces nothing, and leaves the known uids, the
whole service map and the port events as they were. -/
theorem relist_changes_nothing {name : String} {events : List PodEvent} {pods pods' : List Pod}
    {calls : List ApplyCall} {r : KubernetesDiscoveryRuntime}
    (watch : Watch (.new name .new) (events ++ [.restarted pods]) calls r)
    (hdistinct : (presentUids pods).Nodup) {start m : ServiceManager}
    {history : List (String × EndpointEvent)} (hempty : start.portServiceMap = ∅)
    (run : Run start history m) (feeds : Feeds name r.sender.sent history)
    (hperm : pods'.Perm pods) (order : IterOrder String) :
    ∃ r' emitted, handlePodEvent order (.restarted pods') r = .ok () r' ∧
      r'.knownPodUids = r.knownPodUids ∧ r'.sender.sent = r.sender.sent ++ emitted ∧
      (∀ event ∈ emitted, event.isAdd = false) ∧
      (∃ m', Run m (emitted.map fun event => (name, event)) m') ∧
      ∀ m', Run m (emitted.map fun event => (name, event)) m' →
        m'.portServiceMap = m.portServiceMap ∧ m'.portEventSender = m.portEventSender := by
  obtain ⟨order₁, calls₁, r₁, -, -, step⟩ := watch.last
  obtain ⟨hknown, hsettled⟩ := restarted_settled step hdistinct name
  have huids : (presentUids pods').Perm (presentUids pods) := hperm.filterMap _
  have hlisted : listedUids pods' = listedUids pods := List.toFinset_eq_of_perm _ _ huids
  have haddress : ∀ pod ∈ pods', ∀ report, pod.report = some report →
      (parseIpAddr report.address).isSome :=
    fun pod hpod report hreport => (hsettled pod (hperm.mem_iff.mp hpod) report hreport).2
  have heffect := restarted_effect (huids.nodup_iff.mpr hdistinct) haddress order
  rw [hlisted, ← hknown] at heffect
  have hadd : ∀ event ∈ pods'.flatMap Pod.phaseEvents, event.isAdd = false := by
    intro event hmem
    obtain ⟨pod, -, report, -, hmem⟩ := mem_flatMap_phaseEvents hmem
    rcases Report.mem_phaseEvents hmem with rfl | rfl | rfl <;> rfl
  have hunchanged : ∀ event ∈ pods'.flatMap Pod.phaseEvents,
      (event.op name).apply (endpointAt m.portServiceMap) = endpointAt m.portServiceMap := by
    intro event hmem
    obtain ⟨pod, hpod, report, hreport, hmem⟩ := mem_flatMap_phaseEvents hmem
    have hsettled := (hsettled pod (hperm.mem_iff.mp hpod) report hreport).1
    exact hsettled.unchanged feeds run hempty hmem
  have wf := run.wellFormed_of_empty hempty
  obtain ⟨r', hret, hknown', hsender⟩ := handlePodEvent_returns heffect (watch.stays rfl)
  refine ⟨r', _, hret, hknown', by rw [hsender], hadd, ?_, fun m' run' => ?_⟩
  · exact Run.exists_of_unchanged wf (List.forall_mem_map.mpr hadd)
      (List.forall_mem_map.mpr hunchanged)
  · exact run'.of_unchanged wf (List.forall_mem_map.mpr hadd) (List.forall_mem_map.mpr hunchanged)

/-- A pod that runs and one that has failed. -/
def sampleCluster : List Pod :=
  [samplePod "a" "Running", samplePod "b" "Failed"]

def sampleHistory : List (String × EndpointEvent) :=
  [("kubernetes", .add "a" false 80 "http" (.v4 ⟨10, 0, 0, 1⟩ 8080) "http"),
    ("kubernetes", .resume "a"),
    ("kubernetes", .add "b" false 80 "http" (.v4 ⟨10, 0, 0, 1⟩ 8080) "http"),
    ("kubernetes", .suspend "b")]

theorem relist_changes_nothing_sampleCluster :
    ∃ (calls : List ApplyCall) (r r' : KubernetesDiscoveryRuntime) (m : ServiceManager)
        (emitted : List EndpointEvent),
      Watch (.new "kubernetes" .new) [.restarted sampleCluster] calls r ∧
      Run .new sampleHistory m ∧ Feeds "kubernetes" r.sender.sent sampleHistory ∧
      handlePodEvent alphabetic (.restarted sampleCluster.reverse) r = .ok () r' ∧
      r'.knownPodUids = r.knownPodUids ∧ r'.sender.sent = r.sender.sent ++ emitted ∧
      ∀ m', Run m (emitted.map fun event => ("kubernetes", event)) m' →
        m'.portServiceMap = m.portServiceMap ∧ m'.portEventSender = m.portEventSender := by
  have hsent : (watchFrom alphabetic [] (.new "kubernetes" .new) [.restarted sampleCluster]).map
      (fun result => result.2.sender.sent.map fun event => ("kubernetes", event)) =
        some sampleHistory := by decide +kernel
  have hsome : (processAll ascending .new sampleHistory).isSome := by decide +kernel
  obtain ⟨⟨calls, r⟩, hwatch, hsent⟩ := Option.map_eq_some_iff.mp hsent
  obtain ⟨m, hrun⟩ := Option.isSome_iff_exists.mp hsome
  have watch : Watch (.new "kubernetes" .new) ([] ++ [.restarted sampleCluster]) calls r :=
    Watch.nil.extend hwatch
  have run := (Run.nil _).extend hrun
  have feeds : Feeds "kubernetes" r.sender.sent sampleHistory := hsent.symm
  obtain ⟨r', emitted, hret, hknown, hsent', -, -, hsame⟩ := relist_changes_nothing watch
    (by decide) rfl run feeds (List.reverse_perm _) alphabetic
  exact ⟨calls, r, r', m, emitted, watch, run, feeds, hret, hknown, hsent', hsame⟩

end StateProxy.Kubernetes
