import StateProxy.Kubernetes.Annotation
import StateProxy.Kubernetes.Relist
import StateProxy.ProofKit.TwoRuns

/-! One pod does not disturb another.  Two runs of the discovery task whose watches differ only in
what they report of one pod send the same events of every other pod, as long as the task does not stop
at a report of that pod: at its first malformed report the task ends, and with it the events of all
pods. -/

namespace StateProxy.Kubernetes

open Backend Net ProofKit KubernetesDiscoveryRuntime

/-- What the pod watch delivers, with the order in which the uids known before it are visited. -/
abbrev Item := IterOrder String × Except Error PodEvent

/-- The pods are the same, or both are reports of the uid. -/
def Pod.SameBut (uid : String) (pod pod' : Pod) : Prop :=
  pod = pod' ∨ pod.metadata.uid = some uid ∧ pod'.metadata.uid = some uid

/-- The events are of one shape and differ only in what they report of the uid. -/
def PodEvent.SameBut (uid : String) : PodEvent → PodEvent → Prop
  | .applied pod, .applied pod' => pod.SameBut uid pod'
  | .deleted pod, .deleted pod' => pod = pod'
  | .restarted pods, .restarted pods' => List.Forall₂ (Pod.SameBut uid) pods pods'
  | _, _ => False

def Item.SameBut (uid : String) : Item → Item → Prop
  | (_, .ok event), (_, .ok event') => event.SameBut uid event'
  | (_, .error e), (_, .error e') => e = e'
  | _, _ => False

/-- The pod has an address, and is known or has a services annotation of the grammar, if any. -/
def Report.Acceptable (report : Report) (known : Finset String) : Prop :=
  (parseIpAddr report.address).isSome ∧ (report.uid ∈ known ∨
    ∀ text, report.annotations.lookup servicesAnnotation = some text →
      ∃ services, DenotesServices text services)

/-- Every complete report of the uid is acceptable when it is applied. -/
def Accepted (uid : String) (calls : List ApplyCall) : Prop :=
  ∀ call ∈ calls, ∀ report, call.2.report = some report → report.uid = uid →
    report.Acceptable call.1.knownPodUids

/-- The calls of `apply_pod` in the loop of `run`. -/
def runCalls (r : KubernetesDiscoveryRuntime) : List Item → List ApplyCall
  | [] => []
  | (_, .error _) :: _ => []
  | (order, .ok event) :: items =>
    event.calls r ++ match handlePodEvent order event r with
      | .ok _ r' => runCalls r' items
      | .error _ _ => []

/-- The events of a uid that a run sends. -/
def emittedFor (uid : String) (result : EStateM.Result Error KubernetesDiscoveryRuntime Unit) :
    List EndpointEvent :=
  (finalState result).sender.sent.filter (·.uid = uid)

/-- The receivers of both tasks stay, and the tasks agree on all uids but one: on which of them they
know, and on the events they have sent of them. -/
structure SameBut (uid : String) (r r' : KubernetesDiscoveryRuntime) : Prop where
  stays : r.sender.remaining = none
  stays' : r'.sender.remaining = none
  known : ∀ other, other ≠ uid → (other ∈ r.knownPodUids ↔ other ∈ r'.knownPodUids)
  sent : ∀ other, other ≠ uid → r.sender.sent.filter (·.uid = other) =
    r'.sender.sent.filter (·.uid = other)

namespace SameBut

variable {uid : String} {r r' r₁ r₁' : KubernetesDiscoveryRuntime}

theorem refl (hstays : r.sender.remaining = none) : SameBut uid r r :=
  ⟨hstays, hstays, fun _ _ => Iff.rfl, fun _ _ => rfl⟩

theorem symm (same : SameBut uid r r') : SameBut uid r' r :=
  ⟨same.stays', same.stays, fun other hne => (same.known other hne).symm,
    fun other hne => (same.sent other hne).symm⟩

theorem trans {r'' : KubernetesDiscoveryRuntime} (same : SameBut uid r r')
    (same' : SameBut uid r' r'') : SameBut uid r r'' :=
  ⟨same.stays, same'.stays', fun other hne => (same.known other hne).trans (same'.known other hne),
    fun other hne => (same.sent other hne).trans (same'.sent other hne)⟩

/-- Steps that agree on the other uids. -/
theorem step (same : SameBut uid r r') {events events' : List EndpointEvent}
    (hsender : r₁.sender = ⟨r.sender.sent ++ events, none⟩)
    (hsender' : r₁'.sender = ⟨r'.sender.sent ++ events', none⟩)
    (hknown : ∀ other, other ≠ uid → (other ∈ r₁.knownPodUids ↔ other ∈ r₁'.knownPodUids))
    (hevents : ∀ other, other ≠ uid →
      events.filter (·.uid = other) = events'.filter (·.uid = other)) :
    SameBut uid r₁ r₁' where
  stays := by rw [hsender]
  stays' := by rw [hsender']
  known := hknown
  sent := by
    intro other hne
    rw [hsender, hsender', List.filter_append, List.filter_append, same.sent other hne,
      hevents other hne]

/-- Reports of the uid itself. -/
theorem own {events : List EndpointEvent} {known : Finset String}
    (hstays : r.sender.remaining = none)
    (hsender : r₁.sender = ⟨r.sender.sent ++ events, none⟩) (hr₁ : r₁.knownPodUids = known)
    (hknown : ∀ other, other ≠ uid → (other ∈ r.knownPodUids ↔ other ∈ known))
    (hevents : ∀ event ∈ events, event.uid = uid) : SameBut uid r r₁ where
  stays := hstays
  stays' := by rw [hsender]
  known := by
    rw [hr₁]
    exact hknown
  sent := by
    intro other hne
    have hnone : events.filter (·.uid = other) = [] := by
      refine List.filter_eq_nil_iff.mpr fun event hmem => ?_
      simpa [hevents event hmem] using hne.symm
    rw [hsender, List.filter_append, hnone, List.append_nil]

end SameBut

/-! ### What is not about the uid -/

section Others

variable {uid : String} {r r' : KubernetesDiscoveryRuntime}

theorem withContext_alike {α : Type} {x : RuntimeM α}
    (hx : Alike (SameBut uid) (x r) (x r')) (context context' : String) :
    Alike (SameBut uid) (withContext context x r) (withContext context' x r') := by
  unfold withContext
  cases hr : x r <;> cases hr' : x r' <;> rw [hr, hr'] at hx
  · exact hx
  · exact hx.elim
  · exact hx.elim
  · exact hx

variable (same : SameBut uid r r')
include same

theorem send_alike (event : EndpointEvent) :
    Alike (SameBut uid) (send event r) (send event r') := by
  simp only [KubernetesDiscoveryRuntime.send, Sender.send_of_stays same.stays,
    Sender.send_of_stays same.stays']
  exact ⟨rfl, same.step rfl rfl same.known fun _ _ => rfl⟩

theorem warn_alike (line line' : String) :
    Alike (SameBut uid) (warn line r) (warn line' r') :=
  ⟨rfl, same.stays, same.stays', same.known, same.sent⟩

theorem setKnown_alike {known known' : Finset String}
    (hknown : ∀ other, other ≠ uid → (other ∈ known ↔ other ∈ known')) :
    Alike (SameBut uid) (setKnown known r) (setKnown known' r') :=
  ⟨rfl, same.stays, same.stays', hknown, same.sent⟩

theorem parsePort_alike (port : String) :
    Alike (SameBut uid) (parsePort port r) (parsePort port r') := by
  unfold parsePort
  cases parseU16 port with
  | ok port => exact .pure port same
  | error message => exact .throw _ _ same

theorem parseAddress_alike (report : Report) :
    Alike (SameBut uid) (parseAddress report r) (parseAddress report r') := by
  refine .get ?_
  cases parseIpAddr report.address with
  | some address => exact .pure address same
  | none => exact .throw _ _ same

theorem sendParts_alike (podUid : String) (podAddress : IpAddr) (parts : List String) :
    Alike (SameBut uid) (sendParts podUid podAddress parts r)
      (sendParts podUid podAddress parts r') := by
  unfold sendParts
  split
  · refine (parsePort_alike same _).bind fun port s t same => ?_
    refine (parsePort_alike same _).bind fun port' s t same => ?_
    exact send_alike same _
  · exact .throw _ _ same

theorem sendServiceFromString_alike (serviceString podUid podName : String)
    (podAddress : IpAddr) :
    Alike (SameBut uid) (sendServiceFromString serviceString podUid podName podAddress r)
      (sendServiceFromString serviceString podUid podName podAddress r') := by
  refine .get ?_
  dsimp only
  split
  · exact (warn_alike same _ _).bind fun _ s t same => sendParts_alike same _ _ _
  · exact sendParts_alike same _ _ _

theorem sendServices_alike (podUid podName : String) (podAddress : IpAddr)
    (serviceStrings : List String) :
    Alike (SameBut uid) (sendServices podUid podName podAddress serviceStrings r)
      (sendServices podUid podName podAddress serviceStrings r') := by
  induction serviceStrings generalizing r r' with
  | nil => exact .pure _ same
  | cons serviceString rest ih =>
    refine .get ?_
    have hfirst := sendServiceFromString_alike same serviceString podUid podName podAddress
    exact (withContext_alike hfirst _ _).bind fun _ s t same => ih same

theorem discoverServices_alike (annotations : HashMap String String) (podUid podName : String)
    (podAddress : IpAddr) :
    Alike (SameBut uid) (discoverServices annotations podUid podName podAddress r)
      (discoverServices annotations podUid podName podAddress r') := by
  refine (sendServices_alike same podUid podName podAddress _).bind fun _ s t same => ?_
  split
  · exact warn_alike same _ _
  · exact .pure _ same

theorem followPhase_alike (report : Report) :
    Alike (SameBut uid) (followPhase report r) (followPhase report r') := by
  refine .get ?_
  split_ifs
  · exact send_alike same _
  · refine .get ((setKnown_alike same fun other hne => ?_).bind fun _ s t same => send_alike same _)
    rw [Finset.mem_erase, Finset.mem_erase, same.known other hne]
  · exact send_alike same _
  · exact (warn_alike same _ _).bind fun _ s t same => send_alike same _
  · exact .pure _ same
  · exact (warn_alike same _ _).bind fun _ s t same => send_alike same _

/-- The report of another pod. -/
theorem applyPod_alike {pod : Pod} (hne : pod.metadata.uid ≠ some uid) :
    Alike (SameBut uid) (applyPod pod r) (applyPod pod r') := by
  unfold applyPod
  cases hreport : pod.report with
  | none => exact .pure _ same
  | some report =>
    have hother : report.uid ≠ uid := fun heq => hne (heq ▸ uid_of_report hreport)
    refine (parseAddress_alike same report).bind fun address s t same => .get ?_
    have hknown := same.known report.uid hother
    refine (setKnown_alike same fun other hne => ?_).bind fun _ s₁ t₁ same₁ => ?_
    · rw [Finset.mem_insert, Finset.mem_insert, same.known other hne]
    · by_cases hmem : report.uid ∈ s.knownPodUids
      · rw [if_neg (not_not.mpr hmem), if_neg (not_not.mpr (hknown.mp hmem))]
        exact followPhase_alike same₁ report
      · rw [if_pos hmem, if_pos fun h => hmem (hknown.mpr h)]
        exact (discoverServices_alike same₁ _ _ _ _).bind fun _ s t same =>
          followPhase_alike same report

end Others

/-! ### Reports of the uid -/

/-- An acceptable report has an effect. -/
theorem Report.Acceptable.effect {report : Report} {known : Finset String}
    (h : report.Acceptable known) :
    ∃ known' events, report.effect known = some (known', events) := by
  obtain ⟨haddress, hservices⟩ := h
  obtain ⟨address, haddress⟩ := Option.isSome_iff_exists.mp haddress
  have hadds : ∃ adds, report.adds known = some adds := by
    unfold Report.adds
    split
    · exact ⟨[], rfl⟩
    · rename_i hunknown
      have hgrammar := hservices.resolve_left hunknown
      simp only [announcement, haddress, Option.bind_eq_bind, Option.bind_some, serviceStrings]
      cases htext : report.annotations.lookup servicesAnnotation with
      | none => exact ⟨[], List.mapM_nil⟩
      | some text =>
        obtain ⟨services, hdenotes⟩ := hgrammar text htext
        exact ⟨_, (mapM_serviceEvent fun part => no_comma_of_mem_split).mpr
          ⟨services, denotesServices_iff.mp hdenotes, rfl⟩⟩
  obtain ⟨adds, hadds⟩ := hadds
  simp [Report.effect, haddress, hadds]

/-- A report of the uid, when it is acceptable, changes nothing for the others. -/
theorem applyPod_own {uid : String} {r : KubernetesDiscoveryRuntime} {pod : Pod}
    (huid : pod.metadata.uid = some uid) (hstays : r.sender.remaining = none)
    (haccepted : Accepted uid [(r, pod)]) :
    ∃ r₁, applyPod pod r = .ok () r₁ ∧ SameBut uid r r₁ := by
  have hemits := applyPod_emits r pod
  unfold Pod.effect at hemits
  cases hreport : pod.report with
  | none =>
    rw [hreport] at hemits
    obtain ⟨r₁, hret, hknown, hsender⟩ := hemits.returns hstays
    exact ⟨r₁, hret, .own hstays hsender hknown (fun _ _ => Iff.rfl) (by simp)⟩
  | some report =>
    rw [hreport] at hemits
    have hown : report.uid = uid :=
      Option.some.inj ((uid_of_report hreport).symm.trans huid)
    obtain ⟨known, events, heffect⟩ :=
      (haccepted (r, pod) List.mem_cons_self report hreport hown).effect
    simp only [heffect, Option.map_some] at hemits
    obtain ⟨r₁, hret, hknown, hsender⟩ := hemits.returns hstays
    obtain ⟨adds, -, -, hafter⟩ := Report.effect_eq_some heffect
    refine ⟨r₁, hret, .own hstays hsender hknown (fun other hne => ?_) fun event hmem => ?_⟩
    · rw [hafter, hown]
      split
      · simp [hne]
      · simp [hne]
    · exact (Report.uid_of_effect heffect hmem).trans hown

theorem Pod.SameBut.uid_eq {uid : String} {pod pod' : Pod} (h : pod.SameBut uid pod') :
    pod.metadata.uid = pod'.metadata.uid := by
  rcases h with rfl | ⟨huid, huid'⟩
  · rfl
  · rw [huid, huid']

theorem applyPod_sameBut {uid : String} {r r' : KubernetesDiscoveryRuntime}
    (same : SameBut uid r r') {pod pod' : Pod} (hpod : pod.SameBut uid pod')
    (haccepted : Accepted uid [(r, pod)]) (haccepted' : Accepted uid [(r', pod')]) :
    Alike (SameBut uid) (applyPod pod r) (applyPod pod' r') := by
  by_cases huid : pod.metadata.uid = some uid
  · have huid' := hpod.uid_eq.symm.trans huid
    obtain ⟨r₁, hret, hsame⟩ := applyPod_own huid same.stays haccepted
    obtain ⟨r₁', hret', hsame'⟩ := applyPod_own huid' same.stays' haccepted'
    rw [hret, hret']
    exact ⟨rfl, hsame.symm.trans (same.trans hsame')⟩
  · obtain rfl : pod = pod' := hpod.resolve_right fun h => huid h.1
    exact applyPod_alike same huid

/-! ### Events and runs -/

/-- The loop over the pods of a re-list. -/
theorem applyPods_sameBut {uid : String} {pods pods' : List Pod}
    (hpods : List.Forall₂ (Pod.SameBut uid) pods pods') {r r' : KubernetesDiscoveryRuntime}
    (same : SameBut uid r r') (haccepted : Accepted uid (applyCalls r pods))
    (haccepted' : Accepted uid (applyCalls r' pods')) (current : Finset String) :
    Alike (SameBut uid) (applyPods current pods r) (applyPods current pods' r') := by
  induction hpods generalizing r r' current with
  | nil => exact .pure current same
  | @cons pod pod' pods pods' hpod _ ih =>
    cases huid : pod.metadata.uid with
    | none =>
      have huid' := hpod.uid_eq.symm.trans huid
      simp only [applyCalls, huid] at haccepted
      simp only [applyCalls, huid'] at haccepted'
      simp only [applyPods, huid, huid']
      exact ih same haccepted haccepted' current
    | some podUid =>
      have huid' := hpod.uid_eq.symm.trans huid
      simp only [applyCalls, huid] at haccepted
      simp only [applyCalls, huid'] at haccepted'
      simp only [applyPods, huid, huid']
      obtain ⟨hfirst, hrest⟩ := List.forall_mem_cons.mp haccepted
      obtain ⟨hfirst', hrest'⟩ := List.forall_mem_cons.mp haccepted'
      refine (applyPod_sameBut same hpod (List.forall_mem_singleton.mpr hfirst)
        (List.forall_mem_singleton.mpr hfirst')).bind_returns fun _ r₁ r₁' hret hret' same₁ => ?_
      rw [hret] at hrest
      rw [hret'] at hrest'
      exact ih same₁ hrest hrest' _

/-- A re-list deletes a uid once, when it was known and is not listed. -/
theorem filter_deletions (order : IterOrder String) (known current : Finset String)
    (uid : String) :
    (deletions order known current).filter (·.uid = uid) =
      if uid ∈ known ∧ uid ∉ current then [.delete uid] else [] := by
  have hnodup : ((order.visit known).filter (· ∉ current)).Nodup := (order.nodup known).filter _
  have huid : (((order.visit known).filter (· ∉ current)).filter fun other =>
      (EndpointEvent.delete other).uid = uid) =
        List.replicate (((order.visit known).filter (· ∉ current)).count uid) uid := by
    rw [← List.filter_beq]
    rfl
  have hmem : uid ∈ (order.visit known).filter (· ∉ current) ↔ uid ∈ known ∧ uid ∉ current := by
    simp [order.mem]
  rw [deletions, List.filter_map, Function.comp_def, huid, hnodup.count]
  simp only [hmem]
  split <;> rfl

theorem deleteUnknown_sameBut {uid : String} {r r' : KubernetesDiscoveryRuntime}
    (same : SameBut uid r r') {known known' : Finset String}
    (hknown : ∀ other, other ≠ uid → (other ∈ known ↔ other ∈ known'))
    (order order' : IterOrder String) :
    Alike (SameBut uid) (deleteUnknown (order.visit known) r)
      (deleteUnknown (order'.visit known') r') := by
  obtain ⟨r₁, hret, hr₁, hsender⟩ := (deleteUnknown_emits r (order.visit known)).returns same.stays
  obtain ⟨r₁', hret', hr₁', hsender'⟩ :=
    (deleteUnknown_emits r' (order'.visit known')).returns same.stays'
  rw [hret, hret']
  refine ⟨rfl, same.step hsender hsender' ?_ fun other hne => ?_⟩
  · rw [hr₁, hr₁']
    exact same.known
  · have hfirst := filter_deletions order known r.knownPodUids other
    have hsecond := filter_deletions order' known' r'.knownPodUids other
    simp only [hknown other hne, same.known other hne] at hfirst
    exact hfirst.trans hsecond.symm

theorem handlePodEvent_sameBut {uid : String} {event event' : PodEvent}
    (hevent : event.SameBut uid event') {r r' : KubernetesDiscoveryRuntime}
    (same : SameBut uid r r') (haccepted : Accepted uid (event.calls r))
    (haccepted' : Accepted uid (event'.calls r')) (order order' : IterOrder String) :
    Alike (SameBut uid) (handlePodEvent order event r) (handlePodEvent order' event' r') := by
  cases event <;> cases event' <;> simp only [PodEvent.SameBut] at hevent
  · rename_i pod pod'
    simp only [handlePodEvent, PodEvent.calls, ← hevent.uid_eq] at haccepted haccepted' ⊢
    split_ifs at haccepted haccepted' ⊢
    · exact applyPod_sameBut same hevent haccepted haccepted'
    · exact .pure _ same
  · subst hevent
    rename_i pod
    simp only [handlePodEvent]
    cases pod.metadata.uid with
    | some podUid =>
      refine .get ((setKnown_alike same fun other hne => ?_).bind fun _ s t same =>
        send_alike same _)
      rw [Finset.mem_erase, Finset.mem_erase, same.known other hne]
    | none => exact .get (warn_alike same _ _)
  · rename_i pods pods'
    refine (applyPods_sameBut hevent same haccepted haccepted' ∅).bind fun current s t same =>
      .get ?_
    refine (setKnown_alike same fun _ _ => Iff.rfl).bind fun _ s₁ t₁ same₁ => ?_
    exact deleteUnknown_sameBut same₁ same.known order order'

theorem run_sameBut {uid : String} {items items' : List Item}
    (hitems : List.Forall₂ (Item.SameBut uid) items items') {r r' : KubernetesDiscoveryRuntime}
    (same : SameBut uid r r') (haccepted : Accepted uid (runCalls r items))
    (haccepted' : Accepted uid (runCalls r' items')) :
    Alike (SameBut uid) (run items r) (run items' r') := by
  induction hitems generalizing r r' with
  | nil => exact .get (.throw _ _ same)
  | @cons item item' items items' hitem _ ih =>
    obtain ⟨order, event | e⟩ := item <;> obtain ⟨order', event' | e'⟩ := item' <;>
      simp only [Item.SameBut] at hitem
    · exact .get (.throw _ _ same)
    · rename_i event event'
      obtain ⟨hfirst, hrest⟩ := List.forall_mem_append.mp haccepted
      obtain ⟨hfirst', hrest'⟩ := List.forall_mem_append.mp haccepted'
      refine (handlePodEvent_sameBut hitem same hfirst hfirst' order order').bind_returns
        fun _ r₁ r₁' hret hret' same₁ => ?_
      rw [hret] at hrest
      rw [hret'] at hrest'
      exact ih same₁ hrest hrest'

/-- Two watches that differ only in what they report of one pod send the same events of every other
pod, when every complete report of that pod is acceptable. -/
theorem other_pods_undisturbed {uid name : String} {items items' : List Item}
    (hitems : List.Forall₂ (Item.SameBut uid) items items')
    (haccepted : Accepted uid (runCalls (.new name .new) items))
    (haccepted' : Accepted uid (runCalls (.new name .new) items')) {other : String}
    (hother : other ≠ uid) :
    emittedFor other (run items (.new name .new)) =
      emittedFor other (run items' (.new name .new)) := by
  have hstart : SameBut uid (.new name .new) (.new name .new) := .refl rfl
  exact (run_sameBut hitems hstart haccepted haccepted').finalState.sent other hother

theorem mem_applyCalls {r : KubernetesDiscoveryRuntime} {pods : List Pod} {call : ApplyCall}
    (h : call ∈ applyCalls r pods) : call.2 ∈ pods := by
  induction pods generalizing r with
  | nil => cases h
  | cons pod pods ih =>
    simp only [applyCalls] at h
    split at h
    · exact List.mem_cons_of_mem _ (ih h)
    · rcases List.mem_cons.mp h with rfl | h
      · exact List.mem_cons_self
      · split at h
        · exact List.mem_cons_of_mem _ (ih h)
        · cases h

/-- A run applies only pods that its watch reports. -/
theorem mem_runCalls {r : KubernetesDiscoveryRuntime} {items : List Item} {call : ApplyCall}
    (h : call ∈ runCalls r items) : ∃ order event, (order, .ok event) ∈ items ∧
      call.2 ∈ event.pods := by
  induction items generalizing r with
  | nil => cases h
  | cons item items ih =>
    obtain ⟨order, e | event⟩ := item
    · cases h
    · rcases List.mem_append.mp h with h | h
      · refine ⟨order, event, List.mem_cons_self, ?_⟩
        cases event with
        | applied pod =>
          simp only [PodEvent.calls] at h
          split at h
          · rw [List.mem_singleton.mp h]
            exact List.mem_singleton_self pod
          · cases h
        | deleted pod => cases h
        | restarted pods => exact mem_applyCalls h
      · split at h
        · obtain ⟨order', event', hmem, hpod⟩ := ih h
          exact ⟨order', event', List.mem_cons_of_mem _ hmem, hpod⟩
        · cases h

/-- The report of a pod, and then that of another one. -/
def watchOf (pod pod' : Pod) : List Item :=
  [(alphabetic, .ok (.applied pod)), (alphabetic, .ok (.applied pod'))]

theorem samplePod_accepted (uid phase phase' name : String) :
    Accepted uid (runCalls (.new name .new)
      (watchOf (samplePod "first" phase) (samplePod "second" phase'))) := by
  have hservices : ∃ services, DenotesServices "80:http:8080:http" services := by
    have htext : "80:http:8080:http" = ",".intercalate
        ([⟨80, "http", 8080, "http"⟩].map ServiceDeclaration.render) := by decide +kernel
    rw [htext]
    exact ⟨_, denotesServices_render (by simp) (by simp [IsText])⟩
  have hsample : ∀ podUid phase report known, (samplePod podUid phase).report = some report →
      report.Acceptable known := by
    intro podUid phase report known hreport
    cases hreport
    have haddress : (parseIpAddr "10.0.0.1").isSome := by decide
    refine ⟨haddress, .inr fun text htext => ?_⟩
    rw [Finmap.lookup_insert] at htext
    cases htext
    exact hservices
  intro call hcall report hreport _
  obtain ⟨order, event, hmem, hpod⟩ := mem_runCalls hcall
  simp only [watchOf, List.mem_cons, Prod.mk.injEq, Except.ok.injEq, List.not_mem_nil,
    or_false] at hmem
  rcases hmem with ⟨-, rfl⟩ | ⟨-, rfl⟩
  · rw [List.mem_singleton.mp hpod] at hreport
    exact hsample _ _ _ _ hreport
  · rw [List.mem_singleton.mp hpod] at hreport
    exact hsample _ _ _ _ hreport

theorem other_pods_undisturbed_of_phase :
    emittedFor "second" (run (watchOf (samplePod "first" "Running") (samplePod "second" "Running"))
        (.new "kubernetes" .new)) =
      emittedFor "second" (run (watchOf (samplePod "first" "Failed") (samplePod "second" "Running"))
        (.new "kubernetes" .new)) ∧
    (emittedFor "second" (run (watchOf (samplePod "first" "Running") (samplePod "second" "Running"))
      (.new "kubernetes" .new))).length = 2 := by
  have hother : "second" ≠ "first" := by decide
  refine ⟨other_pods_undisturbed ?_ (samplePod_accepted _ _ _ _) (samplePod_accepted _ _ _ _) hother,
    by decide +kernel⟩
  exact .cons (.inr ⟨rfl, rfl⟩) (.cons (.inl rfl) .nil)

/-- A pod whose services annotation is not in the grammar. -/
def malformedPod (uid : String) : Pod :=
  ⟨⟨some uid, some "web", some ((∅ : HashMap String String).insert servicesAnnotation "80:http")⟩,
    some ⟨some "10.0.0.1", some "Running"⟩⟩

/-- Without the condition a malformed pod disturbs the others: the task stops at it and sends nothing
of the pods after it. -/
theorem not_undisturbed_malformedPod :
    ¬ ∀ (uid name : String) (items items' : List Item),
      List.Forall₂ (Item.SameBut uid) items items' → ∀ other, other ≠ uid →
        emittedFor other (run items (.new name .new)) =
          emittedFor other (run items' (.new name .new)) := by
  intro hall
  have hsame := hall "first" "kubernetes"
    (watchOf (malformedPod "first") (samplePod "second" "Running"))
    (watchOf (samplePod "first" "Running") (samplePod "second" "Running"))
    (.cons (.inr ⟨rfl, rfl⟩) (.cons (.inl rfl) .nil)) "second" (by decide)
  have hdiffers : emittedFor "second" (run (watchOf (malformedPod "first")
      (samplePod "second" "Running")) (.new "kubernetes" .new)) ≠
      emittedFor "second" (run (watchOf (samplePod "first" "Running")
        (samplePod "second" "Running")) (.new "kubernetes" .new)) := by decide +kernel
  exact hdiffers hsame

end StateProxy.Kubernetes
