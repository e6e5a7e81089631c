import StateProxy.Kubernetes.Annotation
import StateProxy.Kubernetes.Coverage

/-! Which events the discovery task may send.  A `Resume`, `Suspend` or `Delete` is founded when its
endpoint was added and not deleted since; a stream of founded events is empty for a pod without
services, and no manager ever warns about it.  The task sends these events for every pod that it
reports, deletes or no longer finds, announced or not; so its stream is founded exactly as long as it
does this for announced pods only. -/

namespace StateProxy.Kubernetes

open Backend Net ProofKit KubernetesDiscoveryRuntime ServiceManager

/-- Every event but the `Add`s comes after an `Add` of its uid that no `Delete` of it follows. -/
def Founded (sent : List EndpointEvent) : Prop :=
  ∀ pre event post, sent = pre ++ event :: post → event.isAdd = false → Outstanding event.uid pre

/-- No complete report of the uid declares a service. -/
def DeclaresNone (uid : String) (events : List PodEvent) : Prop :=
  ∀ event ∈ events, ∀ pod ∈ event.pods, ∀ report, pod.report = some report → report.uid = uid →
    report.annotations.lookup servicesAnnotation = none

/-- A manager that has got the events before it from the task logs no warning at any event of the
task. -/
def Unwarned (name : String) (sent : List EndpointEvent) : Prop :=
  ∀ (start m m' : ServiceManager) (before after : List (String × EndpointEvent))
    (event : EndpointEvent) (order : IterOrder UInt16), start.portServiceMap = ∅ →
    Feeds name sent (before ++ (name, event) :: after) → Run start before m →
    processEvent order name event m = .ok () m' → m'.warnings = m.warnings

/-- Events are sent only for announced endpoints. -/
structure Warranted (name : String) (events : List PodEvent) (sent : List EndpointEvent) : Prop where
  founded : Founded sent
  silent : ∀ uid, DeclaresNone uid events → ∀ event ∈ sent, event.uid ≠ uid
  unwarned : Unwarned name sent

/-- The report is of an announced pod, or announces its pod with a service, or is of a pending one. -/
def Report.Grounded (report : Report) (known : Finset String) (sent : List EndpointEvent) : Prop :=
  report.phase = "Pending" ∨ Outstanding report.uid sent ∨
    report.uid ∉ known ∧ report.annotations.lookup servicesAnnotation ≠ none

/-- Every report that the event brings is grounded when it is applied, and the pods that it deletes, or
no longer finds, have been announced. -/
structure PodEvent.Grounded (event : PodEvent) (r : KubernetesDiscoveryRuntime) : Prop where
  reports : ∀ call ∈ event.calls r, ∀ report, call.2.report = some report →
    report.Grounded call.1.knownPodUids call.1.sender.sent
  deleted : ∀ pod uid, event = .deleted pod → pod.metadata.uid = some uid →
    Outstanding uid r.sender.sent
  gone : ∀ pods, event = .restarted pods → ∀ uid ∈ r.knownPodUids, uid ∉ listedUids pods →
    Outstanding uid r.sender.sent

/-- A watch in whose every state events were sent only for announced endpoints. -/
abbrev WarrantedWatch (name : String) :=
  WatchOf fun before _ event r' => Warranted name (before ++ [event]) r'.sender.sent

/-- A watch in which every event is grounded. -/
abbrev GroundedWatch := WatchOf fun _ r event _ => event.Grounded r

/-! ### Outstanding uids -/

theorem Outstanding.append_left {uid : String} {sent : List EndpointEvent}
    (h : Outstanding uid sent) {more : List EndpointEvent} (hdelete : .delete uid ∉ more) :
    Outstanding uid (sent ++ more) := by
  obtain ⟨pre, flag, port, protocol, address, backendProtocol, post, rfl, hpost⟩ := h
  refine ⟨pre, flag, port, protocol, address, backendProtocol, post ++ more, by simp, ?_⟩
  rw [List.mem_append, not_or]
  exact ⟨hpost, hdelete⟩

theorem Outstanding.append_right {uid : String} {more : List EndpointEvent}
    (h : Outstanding uid more) (sent : List EndpointEvent) : Outstanding uid (sent ++ more) := by
  obtain ⟨pre, flag, port, protocol, address, backendProtocol, post, rfl, hpost⟩ := h
  exact ⟨sent ++ pre, flag, port, protocol, address, backendProtocol, post, by simp, hpost⟩

/-- Events of other uids make no difference. -/
theorem outstanding_append_iff_of_ne {uid : String} {sent more : List EndpointEvent}
    (h : ∀ event ∈ more, event.uid ≠ uid) :
    Outstanding uid (sent ++ more) ↔ Outstanding uid sent := by
  constructor
  · intro hout
    rcases hout.append with ⟨hout, -⟩ | hout
    · exact hout
    · obtain ⟨flag, port, protocol, address, backendProtocol, hmem⟩ := hout.mem_add
      exact (h _ hmem rfl).elim
  · exact fun hout => hout.append_left fun hmem => h _ hmem rfl

/-- After an announcement, its uid is outstanding when it was so before or the announcement is not
empty. -/
theorem outstanding_append_adds {uid : String} {sent adds : List EndpointEvent}
    (hadds : ∀ event ∈ adds, ∃ port protocol address backendProtocol,
      event = .add uid false port protocol address backendProtocol) :
    Outstanding uid (sent ++ adds) ↔ Outstanding uid sent ∨ adds ≠ [] := by
  have hdelete : .delete uid ∉ adds := by
    intro hmem
    obtain ⟨port, protocol, address, backendProtocol, heq⟩ := hadds _ hmem
    cases heq
  constructor
  · intro hout
    rcases hout.append with ⟨hout, -⟩ | hout
    · exact .inl hout
    · obtain ⟨flag, port, protocol, address, backendProtocol, hmem⟩ := hout.mem_add
      exact .inr (List.ne_nil_of_mem hmem)
  · rintro (hout | hne)
    · exact hout.append_left hdelete
    · obtain ⟨first, rest, rfl⟩ := List.exists_cons_of_ne_nil hne
      obtain ⟨port, protocol, address, backendProtocol, rfl⟩ := hadds first List.mem_cons_self
      refine Outstanding.append_right ⟨[], false, port, protocol, address, backendProtocol, rest, rfl,
        fun hmem => hdelete (List.mem_cons_of_mem _ hmem)⟩ sent

/-- What is outstanding is held on some port. -/
theorem held_of_outstanding (name : String) {uid : String} {sent : List EndpointEvent}
    (h : Outstanding uid sent) : ∃ port, (held name sent port uid).isSome := by
  obtain ⟨pre, flag, port, protocol, address, backendProtocol, post, rfl, hpost⟩ := h
  refine ⟨port, ?_⟩
  rw [held, List.map_append, List.map_cons]
  refine TableOp.run_isSome_of_put (fun op hop hdrop => ?_) _
  obtain ⟨event, hmem, rfl⟩ := List.mem_map.mp hop
  cases op_eq_drop hdrop
  exact hpost hmem

/-! ### Founded streams -/

theorem founded_concat (sent : List EndpointEvent) (event : EndpointEvent) :
    Founded (sent ++ [event]) ↔
      Founded sent ∧ (event.isAdd = false → Outstanding event.uid sent) := by
  constructor
  · intro founded
    refine ⟨fun pre e post heq => ?_, founded sent event [] rfl⟩
    exact founded pre e (post ++ [event]) (by simp [heq])
  · rintro ⟨founded, hlast⟩ pre e post heq
    cases post using List.reverseRecOn with
    | nil =>
      obtain ⟨rfl, hevent⟩ := List.append_inj' heq rfl
      cases hevent
      exact hlast
    | append_singleton post last =>
      rw [← List.cons_append, ← List.append_assoc] at heq
      obtain ⟨hsent, -⟩ := List.append_inj' heq rfl
      exact founded pre e post hsent

theorem founded_append_adds {sent adds : List EndpointEvent}
    (hadds : ∀ event ∈ adds, event.isAdd = true) : Founded (sent ++ adds) ↔ Founded sent := by
  induction adds using List.reverseRecOn with
  | nil => rw [List.append_nil]
  | append_singleton adds event ih =>
    rw [← List.append_assoc, founded_concat,
      ih fun event hmem => hadds event (List.mem_append_left _ hmem)]
    simp [hadds event (by simp)]

/-- `Delete`s of distinct uids are founded when all these uids are outstanding. -/
theorem founded_append_deletes {sent : List EndpointEvent} {uids : List String}
    (hnodup : uids.Nodup) :
    Founded (sent ++ uids.map .delete) ↔ Founded sent ∧ ∀ uid ∈ uids, Outstanding uid sent := by
  induction uids using List.reverseRecOn with
  | nil => simp
  | append_singleton uids uid ih =>
    have hnot : ∀ event ∈ uids.map EndpointEvent.delete, event.uid ≠ uid := by
      intro event hmem
      obtain ⟨other, hother, rfl⟩ := List.mem_map.mp hmem
      rintro rfl
      exact (List.disjoint_of_nodup_append hnodup hother (by simp [EndpointEvent.uid])).elim
    rw [List.map_append, List.map_singleton, ← List.append_assoc, founded_concat,
      ih (hnodup.sublist (List.sublist_append_left _ _))]
    simp only [EndpointEvent.isAdd, EndpointEvent.uid, true_implies, List.mem_append,
      List.mem_singleton]
    rw [outstanding_append_iff_of_ne hnot]
    constructor
    · rintro ⟨⟨founded, hall⟩, hlast⟩
      refine ⟨founded, ?_⟩
      rintro other (hother | rfl)
      · exact hall other hother
      · exact hlast
    · rintro ⟨founded, hall⟩
      exact ⟨⟨founded, fun other hother => hall other (.inl hother)⟩, hall uid (.inr rfl)⟩

/-! ### Steps -/

theorem Report.phaseEvents_of_ne_pending {report : Report} (h : report.phase ≠ "Pending") :
    ∃ event, report.phaseEvents = [event] ∧ event.isAdd = false ∧ event.uid = report.uid := by
  unfold phaseEvents
  split_ifs
  · exact ⟨_, rfl, rfl, rfl⟩
  · exact ⟨_, rfl, rfl, rfl⟩
  · exact ⟨_, rfl, rfl, rfl⟩

/-- An announcement is empty only when the pod declares no service. -/
theorem Report.announcement_ne_nil {report : Report} {adds : List EndpointEvent}
    (h : report.announcement = some adds) :
    adds ≠ [] ↔ report.annotations.lookup servicesAnnotation ≠ none := by
  obtain ⟨address, -, hmap⟩ := Option.bind_eq_some_iff.mp h
  cases htext : report.annotations.lookup servicesAnnotation with
  | none =>
    simp only [serviceStrings, htext, Option.map_none, Option.getD_none, List.mapM_nil] at hmap
    cases hmap
    simp
  | some text =>
    obtain ⟨first, rest, hsplit⟩ := List.exists_cons_of_ne_nil (split_ne_nil ',' text)
    have hmem : first ∈ report.serviceStrings := by
      simp [serviceStrings, htext, hsplit]
    obtain ⟨event, hevent, -⟩ := (mem_of_mapM hmap).2 first hmem
    exact ⟨fun _ => by simp, fun _ => List.ne_nil_of_mem hevent⟩

theorem Report.founded_iff {report : Report} {known known' : Finset String}
    {sent events : List EndpointEvent} (h : report.effect known = some (known', events)) :
    Founded (sent ++ events) ↔ Founded sent ∧ report.Grounded known sent := by
  obtain ⟨adds, rfl, hadds, -⟩ := effect_eq_some h
  have hown : ∀ event ∈ adds, ∃ port protocol address backendProtocol,
      event = .add report.uid false port protocol address backendProtocol := by
    intro event hmem
    rcases hadds with ⟨-, rfl⟩ | ⟨-, hannouncement⟩
    · cases hmem
    · exact announcement_adds hannouncement hmem
  have hisAdd : ∀ event ∈ adds, event.isAdd = true := by
    intro event hmem
    obtain ⟨port, protocol, address, backendProtocol, rfl⟩ := hown event hmem
    rfl
  have hne : adds ≠ [] ↔
      report.uid ∉ known ∧ report.annotations.lookup servicesAnnotation ≠ none := by
    rcases hadds with ⟨hknown, rfl⟩ | ⟨hunknown, hannouncement⟩
    · simp [hknown]
    · rw [announcement_ne_nil hannouncement]
      simp [hunknown]
  rw [← List.append_assoc]
  by_cases hpending : report.phase = "Pending"
  · have hnil : report.phaseEvents = [] := by simp [phaseEvents, hpending]
    rw [hnil, List.append_nil, founded_append_adds hisAdd]
    exact ⟨fun founded => ⟨founded, .inl hpending⟩, And.left⟩
  · obtain ⟨event, heq, hevent, huid⟩ := phaseEvents_of_ne_pending hpending
    rw [heq, founded_concat, founded_append_adds hisAdd, huid, outstanding_append_adds hown, hne]
    simp [hevent, Grounded, hpending]

theorem applyPod_founded {r r' : KubernetesDiscoveryRuntime} {pod : Pod} {a : Unit}
    (h : applyPod pod r = .ok a r') :
    Founded r'.sender.sent ↔ Founded r.sender.sent ∧ ∀ report, pod.report = some report →
      report.Grounded r.knownPodUids r.sender.sent := by
  obtain ⟨events, heffect, hsent⟩ := applyPod_ok h
  rw [hsent]
  unfold Pod.effect at heffect
  cases hreport : pod.report with
  | none =>
    rw [hreport] at heffect
    obtain ⟨-, rfl⟩ := Prod.mk.inj (Option.some.inj heffect)
    simp
  | some report =>
    rw [hreport] at heffect
    rw [Report.founded_iff heffect]
    simp

/-- The loop over the pods of a re-list. -/
theorem applyPods_founded {pods : List Pod} {current after : Finset String}
    {r r' : KubernetesDiscoveryRuntime} (h : applyPods current pods r = .ok after r') :
    Founded r'.sender.sent ↔ Founded r.sender.sent ∧ ∀ call ∈ applyCalls r pods,
      ∀ report, call.2.report = some report →
        report.Grounded call.1.knownPodUids call.1.sender.sent := by
  induction pods generalizing r current with
  | nil =>
    obtain ⟨-, rfl⟩ := pure_ok.mp h
    simp [applyCalls]
  | cons pod pods ih =>
    cases huid : pod.metadata.uid with
    | none =>
      simp only [applyPods, huid] at h
      simp only [applyCalls, huid]
      exact ih h
    | some uid =>
      simp only [applyPods, huid] at h
      obtain ⟨a, r₁, hfirst, hrest⟩ := bind_ok.mp h
      simp only [applyCalls, huid, hfirst, List.forall_mem_cons]
      rw [ih hrest, applyPod_founded hfirst, and_assoc]

/-- A uid that a re-list does not name is known and outstanding after its pods as it was before. -/
theorem applyPods_unlisted {pods : List Pod} {current after : Finset String}
    {r r' : KubernetesDiscoveryRuntime} (h : applyPods current pods r = .ok after r') {uid : String}
    (huid : uid ∉ listedUids pods) : (uid ∈ r'.knownPodUids ↔ uid ∈ r.knownPodUids) ∧
      (Outstanding uid r'.sender.sent ↔ Outstanding uid r.sender.sent) := by
  obtain ⟨events, hall, hsent⟩ := applyPods_ok h
  have hnot : uid ∉ presentUids pods := fun hmem => huid (List.mem_toFinset.mpr hmem)
  have hlast : lastReport uid (pods.filterMap Pod.report) = none := by
    by_contra hsome
    obtain ⟨report, hreport⟩ := Option.ne_none_iff_exists'.mp hsome
    obtain ⟨hmem, rfl⟩ := lastReport_mem hreport
    obtain ⟨pod, hpod, hpodReport⟩ := List.mem_filterMap.mp hmem
    exact hnot (List.mem_filterMap.mpr ⟨pod, hpod, uid_of_report hpodReport⟩)
  have hknown := mem_applyAll hall uid
  rw [hlast] at hknown
  refine ⟨hknown, ?_⟩
  rw [hsent]
  refine outstanding_append_iff_of_ne fun event hmem => ?_
  rintro rfl
  exact hnot (uid_of_applyAll hall hmem)

theorem grounded_applied {pod : Pod} {r : KubernetesDiscoveryRuntime} :
    (PodEvent.applied pod).Grounded r ↔ ∀ report, pod.report = some report →
      report.Grounded r.knownPodUids r.sender.sent := by
  constructor
  · intro grounded report hreport
    refine grounded.reports (r, pod) ?_ report hreport
    simp [PodEvent.calls, uid_of_report hreport]
  · intro h
    refine ⟨fun call hcall => ?_, by simp, by simp⟩
    rw [PodEvent.calls] at hcall
    split at hcall
    · rw [List.mem_singleton.mp hcall]
      exact h
    · cases hcall

theorem grounded_deleted {pod : Pod} {r : KubernetesDiscoveryRuntime} :
    (PodEvent.deleted pod).Grounded r ↔
      ∀ uid, pod.metadata.uid = some uid → Outstanding uid r.sender.sent := by
  constructor
  · exact fun grounded uid huid => grounded.deleted pod uid rfl huid
  · intro h
    refine ⟨by simp [PodEvent.calls], fun pod' uid heq huid => ?_, by simp⟩
    cases heq
    exact h uid huid

theorem grounded_restarted {pods : List Pod} {r : KubernetesDiscoveryRuntime} :
    (PodEvent.restarted pods).Grounded r ↔
      (∀ call ∈ applyCalls r pods, ∀ report, call.2.report = some report →
        report.Grounded call.1.knownPodUids call.1.sender.sent) ∧
      ∀ uid ∈ r.knownPodUids, uid ∉ listedUids pods → Outstanding uid r.sender.sent := by
  constructor
  · exact fun grounded => ⟨grounded.reports, grounded.gone pods rfl⟩
  · rintro ⟨hreports, hgone⟩
    refine ⟨hreports, by simp, fun pods' heq => ?_⟩
    cases heq
    exact hgone

/-- A step leaves a founded stream exactly when its event is grounded. -/
theorem founded_step {r r' : KubernetesDiscoveryRuntime} {event : PodEvent}
    {order : IterOrder String} (step : handlePodEvent order event r = .ok () r') :
    Founded r'.sender.sent ↔ Founded r.sender.sent ∧ event.Grounded r := by
  cases event with
  | applied pod =>
    rw [grounded_applied]
    simp only [handlePodEvent] at step
    split at step
    · exact applyPod_founded step
    · rename_i huid
      obtain ⟨-, rfl⟩ := pure_ok.mp step
      simp [report_eq_none (show pod.metadata.uid = none by simpa using huid)]
  | deleted pod =>
    obtain ⟨sent, heffect, hsent, -⟩ := handlePodEvent_ok step
    rw [grounded_deleted, hsent]
    cases huid : pod.metadata.uid with
    | none =>
      simp only [PodEvent.effect, huid] at heffect
      obtain ⟨-, rfl⟩ := Prod.mk.inj (Option.some.inj heffect)
      simp
    | some uid =>
      simp only [PodEvent.effect, huid] at heffect
      obtain ⟨-, rfl⟩ := Prod.mk.inj (Option.some.inj heffect)
      rw [founded_concat]
      simp [EndpointEvent.isAdd, EndpointEvent.uid]
  | restarted pods =>
    obtain ⟨current, r₁, hloop, -, hsent⟩ := handlePodEvent_restarted step
    have hnodup : ((order.visit r₁.knownPodUids).filter (· ∉ listedUids pods)).Nodup :=
      (order.nodup _).filter _
    rw [grounded_restarted, hsent, deletions, founded_append_deletes hnodup,
      applyPods_founded hloop, and_assoc]
    refine and_congr_right fun _ => and_congr_right fun _ => ?_
    -- what the re-list does not name is as it was before its pods
    constructor
    · intro h uid hknown hgone
      obtain ⟨hsame, hout⟩ := applyPods_unlisted hloop hgone
      refine hout.mp (h uid (List.mem_filter.mpr ⟨(order.mem _ _).mpr (hsame.mpr hknown), ?_⟩))
      simpa using hgone
    · intro h uid hmem
      obtain ⟨hknown, hgone⟩ := List.mem_filter.mp hmem
      have hgone : uid ∉ listedUids pods := by simpa using hgone
      obtain ⟨hsame, hout⟩ := applyPods_unlisted hloop hgone
      exact hout.mpr (h uid (hsame.mp ((order.mem _ _).mp hknown)) hgone)

/-! ### Whole watches -/

/-- The stream of a manager, split at an event of the task. -/
theorem Feeds.split {name : String} {sent : List EndpointEvent}
    {before after : List (String × EndpointEvent)} {event : EndpointEvent}
    (feeds : Feeds name sent (before ++ (name, event) :: after)) :
    ∃ pre post, sent = pre ++ event :: post ∧ Feeds name pre before := by
  rw [Feeds, List.filter_append, List.filter_cons_of_pos (by simp)] at feeds
  obtain ⟨pre, rest, rfl, hpre, hrest⟩ := List.map_eq_append_iff.mp feeds.symm
  obtain ⟨event', post, rfl, hevent, -⟩ := List.map_eq_cons_iff.mp hrest
  cases hevent
  exact ⟨pre, post, rfl, hpre.symm⟩

/-- No manager warns about a founded stream. -/
theorem Founded.unwarned {sent : List EndpointEvent} (founded : Founded sent) (name : String) :
    Unwarned name sent := by
  intro start m m' before after event order hempty feeds run step
  obtain ⟨pre, post, rfl, hbefore⟩ := feeds.split
  have hheld : event.isAdd = true ∨
      ∃ p, (endpointAt m.portServiceMap p ⟨name, event.uid⟩).isSome := by
    cases hadd : event.isAdd with
    | true => exact .inl rfl
    | false =>
      obtain ⟨port, hport⟩ := held_of_outstanding name (founded pre event post rfl hadd)
      exact .inr ⟨port, by rwa [hbefore.endpointAt run hempty]⟩
  obtain ⟨sender, -, rfl⟩ := processEvent_ok.mp step
  simp [effect_warnings order name m.portServiceMap hheld]

section Watches

variable {P : List PodEvent → KubernetesDiscoveryRuntime → PodEvent → KubernetesDiscoveryRuntime →
  Prop} {name : String} {remaining : Option Nat} {events : List PodEvent}
  {r : KubernetesDiscoveryRuntime}

/-- Every `Add` comes from a report that declares a service. -/
theorem WatchOf.declared (watch : WatchOf P (.new name ⟨[], remaining⟩) events r)
    {e : EndpointEvent} (hmem : e ∈ r.sender.sent) (hadd : e.isAdd = true) :
    ¬ DeclaresNone e.uid events := by
  intro hnone
  induction watch with
  | nil => cases hmem
  | @snoc events r r' event order _ step _ ih =>
    obtain ⟨sent, heffect, hsent, -⟩ := handlePodEvent_ok step
    rw [hsent] at hmem
    rcases List.mem_append.mp hmem with hmem | hmem
    · exact ih hmem fun event hevent => hnone event (List.mem_append_left _ hevent)
    · rcases PodEvent.sentBy_of_effect heffect hmem with
        ⟨pod, hpod, report, known, known', emitted, hreport, hreported, hmem⟩ | ⟨uid, rfl⟩
      · have huid := Report.uid_of_effect hreported hmem
        obtain ⟨adds, rfl, hadds, -⟩ := Report.effect_eq_some hreported
        have hlookup := hnone event (by simp) pod hpod report hreport huid.symm
        rcases List.mem_append.mp hmem with hmem | hmem
        · rcases hadds with ⟨-, rfl⟩ | ⟨-, hannouncement⟩
          · cases hmem
          · exact (Report.announcement_ne_nil hannouncement).mp (List.ne_nil_of_mem hmem) hlookup
        · rcases Report.mem_phaseEvents hmem with rfl | rfl | rfl <;> cases hadd
      · cases hadd

theorem WatchOf.warranted (watch : WatchOf P (.new name ⟨[], remaining⟩) events r)
    (founded : Founded r.sender.sent) : Warranted name events r.sender.sent where
  founded := founded
  silent := by
    rintro uid hnone event hmem rfl
    cases hadd : event.isAdd with
    | true => exact watch.declared hmem hadd hnone
    | false =>
      obtain ⟨pre, post, hsent⟩ := List.append_of_mem hmem
      obtain ⟨flag, port, protocol, address, backendProtocol, hearlier⟩ :=
        (founded pre event post hsent hadd).mem_add
      refine watch.declared (e := .add event.uid flag port protocol address backendProtocol) ?_ rfl
        hnone
      rw [hsent]
      exact List.mem_append_left _ hearlier
  unwarned := founded.unwarned name

theorem WatchOf.founded (watch : WarrantedWatch name (.new name ⟨[], remaining⟩) events r) :
    Founded r.sender.sent := by
  cases watch with
  | nil =>
    intro pre event post heq
    simp [KubernetesDiscoveryRuntime.new] at heq
  | snoc order _ _ warranted => exact warranted.founded

/-- In a watch, events are sent only for announced endpoints exactly when every complete report is of
a pending or an announced pod or announces its pod with a service, and every pod that is deleted, or
no longer found by a re-list, has been announced. -/
theorem events_warranted_iff :
    WarrantedWatch name (.new name ⟨[], remaining⟩) events r ↔
      GroundedWatch (.new name ⟨[], remaining⟩) events r := by
  constructor
  · intro watch
    induction watch with
    | nil => exact .nil
    | snoc order _ step warranted ih =>
      exact ih.snoc order step ((founded_step step).mp warranted.founded).2
  · intro watch
    induction watch with
    | nil => exact .nil
    | snoc order before step grounded ih =>
      have founded := (founded_step step).mpr ⟨ih.founded, grounded⟩
      exact ih.snoc order step ((before.snoc order step grounded).warranted founded)

/-- A running pod that declares no service. -/
def noServicePod : Pod :=
  ⟨⟨some "pod", some "web", some ∅⟩, some ⟨some "10.0.0.1", some "Running"⟩⟩

/-- Without the condition an event is sent for a pod that was never announced. -/
theorem not_warranted_noServicePod :
    ¬ ∀ (name : String) (remaining : Option Nat) (events : List PodEvent) (calls : List ApplyCall)
        (r : KubernetesDiscoveryRuntime), Watch (.new name ⟨[], remaining⟩) events calls r →
      Warranted name events r.sender.sent := by
  intro hall
  have hsent : (watchFrom alphabetic [] (.new "kubernetes" .new) [.applied noServicePod]).map
      (fun result => result.2.sender.sent) = some [.resume "pod"] := by decide +kernel
  obtain ⟨⟨calls, r⟩, hwatch, hsent⟩ := Option.map_eq_some_iff.mp hsent
  have hfounded := (hall "kubernetes" none _ calls r (Watch.nil.extend hwatch)).founded
  obtain ⟨flag, port, protocol, address, backendProtocol, hmem⟩ :=
    (hfounded [] (.resume "pod") [] hsent rfl).mem_add
  cases hmem

end Watches

end StateProxy.Kubernetes
