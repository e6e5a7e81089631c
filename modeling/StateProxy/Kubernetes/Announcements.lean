import StateProxy.Kubernetes.Watch

/-! No endpoint is leaked and none is announced twice.  A uid that the task lets go of is deleted, and
a uid that is added stays known; so every uid with an `Add` that no `Delete` follows is known, a
`Delete` stands between two announcements of a uid, and a manager holds nothing of a pod that is gone
from the cluster. -/

namespace StateProxy.Kubernetes

open Backend Net ProofKit KubernetesDiscoveryRuntime

/-- The stream has an `Add` of the uid that no later `Delete` of it follows. -/
def Outstanding (uid : String) (sent : List EndpointEvent) : Prop :=
  ∃ pre flag port protocol address backendProtocol post,
    sent = pre ++ .add uid flag port protocol address backendProtocol :: post ∧ .delete uid ∉ post

/-- The call announces the uid: it has a complete report of the uid, which is not known yet, and so
calls `discover_services`. -/
def Announces (uid : String) (call : ApplyCall) (report : Report) : Prop :=
  call.2.report = some report ∧ report.uid = uid ∧ uid ∉ call.1.knownPodUids

/-- The event is an `Add` of the uid. -/
def AddOf (uid : String) (event : EndpointEvent) : Prop :=
  ∃ flag port protocol address backendProtocol,
    event = .add uid flag port protocol address backendProtocol

/-! ### What the steps of the task send -/

theorem uid_of_serviceEvent {uid : String} {address : IpAddr} {serviceString : String}
    {event : EndpointEvent} (h : serviceEvent uid address serviceString = some event) :
    ∃ port protocol backendAddress backendProtocol,
      event = .add uid false port protocol backendAddress backendProtocol := by
  unfold serviceEvent partsEvent at h
  split at h
  · obtain ⟨port, -, h⟩ := Option.bind_eq_some_iff.mp h
    obtain ⟨backendPort, -, h⟩ := Option.bind_eq_some_iff.mp h
    cases h
    exact ⟨_, _, _, _, rfl⟩
  · cases h

/-- An announcement consists of unavailable endpoints of its uid. -/
theorem Report.announcement_adds {report : Report} {adds : List EndpointEvent}
    (h : report.announcement = some adds) {event : EndpointEvent} (hmem : event ∈ adds) :
    ∃ port protocol address backendProtocol,
      event = .add report.uid false port protocol address backendProtocol := by
  obtain ⟨address, -, h⟩ := Option.bind_eq_some_iff.mp h
  obtain ⟨serviceString, -, hevent⟩ := (mem_of_mapM h).1 event hmem
  exact uid_of_serviceEvent hevent

/-- The two parts of what a report sends. -/
theorem Report.effect_eq_some {report : Report} {known known' : Finset String}
    {events : List EndpointEvent} (h : report.effect known = some (known', events)) :
    ∃ adds, events = adds ++ report.phaseEvents ∧
      (report.uid ∈ known ∧ adds = [] ∨ report.uid ∉ known ∧ report.announcement = some adds) ∧
      known' = if report.phase = "Succeeded" then known.erase report.uid
        else insert report.uid known := by
  obtain ⟨address, -, h⟩ := Option.bind_eq_some_iff.mp h
  obtain ⟨adds, hadds, h⟩ := Option.bind_eq_some_iff.mp h
  obtain ⟨rfl, rfl⟩ := Prod.mk.inj (Option.some.inj h)
  refine ⟨adds, rfl, ?_, rfl⟩
  unfold Report.adds at hadds
  split at hadds
  · rename_i hknown
    cases hadds
    exact .inl ⟨hknown, rfl⟩
  · rename_i hknown
    exact .inr ⟨hknown, hadds⟩

theorem Report.mem_phaseEvents {report : Report} {event : EndpointEvent}
    (h : event ∈ report.phaseEvents) :
    event = .resume report.uid ∨ event = .delete report.uid ∨ event = .suspend report.uid := by
  unfold phaseEvents at h
  split_ifs at h <;> simp_all

theorem Report.delete_mem_phaseEvents {report : Report} (h : report.phase = "Succeeded") :
    .delete report.uid ∈ report.phaseEvents := by
  simp [phaseEvents, h]

/-- Every event that a report sends is about its uid. -/
theorem Report.uid_of_effect {report : Report} {known known' : Finset String}
    {events : List EndpointEvent} (h : report.effect known = some (known', events))
    {event : EndpointEvent} (hmem : event ∈ events) : event.uid = report.uid := by
  obtain ⟨adds, rfl, hadds, -⟩ := effect_eq_some h
  rcases List.mem_append.mp hmem with hmem | hmem
  · rcases hadds with ⟨-, rfl⟩ | ⟨-, hadds⟩
    · cases hmem
    · obtain ⟨port, protocol, address, backendProtocol, rfl⟩ := announcement_adds hadds hmem
      rfl
  · rcases mem_phaseEvents hmem with rfl | rfl | rfl <;> rfl

theorem mem_deletions {order : IterOrder String} {known current : Finset String}
    {event : EndpointEvent} :
    event ∈ deletions order known current ↔ ∃ uid ∈ known, uid ∉ current ∧ event = .delete uid := by
  simp only [deletions, List.mem_map, List.mem_filter, order.mem, decide_eq_true_eq]
  constructor
  · rintro ⟨uid, ⟨hknown, hcurrent⟩, rfl⟩
    exact ⟨uid, hknown, hcurrent, rfl⟩
  · rintro ⟨uid, hknown, hcurrent, rfl⟩
    exact ⟨uid, ⟨hknown, hcurrent⟩, rfl⟩

/-! ### Outstanding endpoints -/

theorem Outstanding.append {uid : String} {sent more : List EndpointEvent}
    (h : Outstanding uid (sent ++ more)) :
    Outstanding uid sent ∧ .delete uid ∉ more ∨ Outstanding uid more := by
  obtain ⟨pre, flag, port, protocol, address, backendProtocol, post, heq, hdelete⟩ := h
  rcases List.append_eq_append_iff.mp heq with ⟨middle, rfl, hmore⟩ | ⟨middle, rfl, hpost⟩
  · exact .inr ⟨middle, flag, port, protocol, address, backendProtocol, post, hmore, hdelete⟩
  · cases middle with
    | nil =>
      exact .inr ⟨[], flag, port, protocol, address, backendProtocol, post, hpost.symm, hdelete⟩
    | cons event middle =>
      obtain ⟨rfl, rfl⟩ := List.cons.inj hpost
      have hnot := fun hmem => hdelete (List.mem_append_right middle hmem)
      exact .inl ⟨⟨pre, flag, port, protocol, address, backendProtocol, middle, rfl,
        fun hmem => hdelete (List.mem_append_left _ hmem)⟩, hnot⟩

theorem Outstanding.mem_add {uid : String} {sent : List EndpointEvent} (h : Outstanding uid sent) :
    ∃ flag port protocol address backendProtocol,
      .add uid flag port protocol address backendProtocol ∈ sent := by
  obtain ⟨pre, flag, port, protocol, address, backendProtocol, post, rfl, -⟩ := h
  exact ⟨flag, port, protocol, address, backendProtocol, by simp⟩

theorem not_outstanding_of_getLast {uid : String} {sent : List EndpointEvent} :
    ¬ Outstanding uid (sent ++ [.delete uid]) := by
  intro h
  rcases h.append with ⟨-, hnot⟩ | h
  · exact hnot List.mem_cons_self
  · obtain ⟨flag, port, protocol, address, backendProtocol, hmem⟩ := h.mem_add
    simp at hmem

/-- The events `events` of a step that turns the known uids `known` into `known'`: a uid is
forgotten only with a `Delete`, and one that is added is known. -/
structure Accounted (known known' : Finset String) (events : List EndpointEvent) : Prop where
  forgotten : ∀ uid ∈ known, uid ∈ known' ∨ .delete uid ∈ events
  added : ∀ uid, Outstanding uid events → uid ∈ known'

theorem Report.accounted {report : Report} {known known' : Finset String}
    {events : List EndpointEvent} (h : report.effect known = some (known', events)) :
    Accounted known known' events := by
  obtain ⟨adds, hevents, -, hknown⟩ := effect_eq_some h
  constructor
  · intro uid huid
    by_cases hsucceeded : report.phase = "Succeeded"
    · rw [hknown, if_pos hsucceeded, hevents]
      by_cases hne : uid = report.uid
      · rw [hne]
        exact .inr (List.mem_append_right _ (delete_mem_phaseEvents hsucceeded))
      · exact .inl (Finset.mem_erase.mpr ⟨hne, huid⟩)
    · rw [hknown, if_neg hsucceeded]
      exact .inl (Finset.mem_insert_of_mem huid)
  · intro uid hout
    obtain ⟨flag, port, protocol, address, backendProtocol, hmem⟩ := hout.mem_add
    obtain rfl : uid = report.uid := uid_of_effect h hmem
    by_cases hsucceeded : report.phase = "Succeeded"
    · have hphase : report.phaseEvents = [.delete report.uid] := by
        simp [phaseEvents, hsucceeded]
      rw [hevents, hphase] at hout
      exact (not_outstanding_of_getLast hout).elim
    · rw [hknown, if_neg hsucceeded]
      exact Finset.mem_insert_self _ _

theorem accounted_delete (known : Finset String) (uid : String) :
    Accounted known (known.erase uid) [.delete uid] := by
  constructor
  · intro uid' huid'
    by_cases hne : uid' = uid
    · rw [hne]
      exact .inr List.mem_cons_self
    · exact .inl (Finset.mem_erase.mpr ⟨hne, huid'⟩)
  · intro uid' hout
    obtain ⟨flag, port, protocol, address, backendProtocol, hmem⟩ := hout.mem_add
    simp at hmem

theorem accounted_deletions (order : IterOrder String) (known current : Finset String) :
    Accounted known current (deletions order known current) := by
  constructor
  · intro uid huid
    by_cases hcurrent : uid ∈ current
    · exact .inl hcurrent
    · exact .inr (mem_deletions.mpr ⟨uid, huid, hcurrent, rfl⟩)
  · intro uid hout
    obtain ⟨flag, port, protocol, address, backendProtocol, hmem⟩ := hout.mem_add
    obtain ⟨uid', -, -, heq⟩ := mem_deletions.mp hmem
    cases heq

/-- The uids known, the stream and the calls so far: every uid with an outstanding `Add` is known,
and after each announcement its uid is known or was deleted. -/
structure Traced (known : Finset String) (sent : List EndpointEvent) (calls : List ApplyCall) :
    Prop where
  outstanding : ∀ uid, Outstanding uid sent → uid ∈ known
  followed : ∀ call ∈ calls, ∀ uid report, Announces uid call report → ∃ adds middle,
    report.announcement = some adds ∧ sent = call.1.sender.sent ++ adds ++ middle ∧
    (.delete uid ∈ middle ∨ uid ∈ known)
  separated : calls.Pairwise fun first second => ∀ uid report report',
    Announces uid first report → Announces uid second report' → ∃ adds middle,
      report.announcement = some adds ∧
      second.1.sender.sent = first.1.sender.sent ++ adds ++ middle ∧ .delete uid ∈ middle

namespace Traced

variable {known known' : Finset String} {sent events : List EndpointEvent} {calls : List ApplyCall}

theorem step (traced : Traced known sent calls) (accounted : Accounted known known' events) :
    Traced known' (sent ++ events) calls where
  outstanding := by
    intro uid hout
    rcases hout.append with ⟨hout, hdelete⟩ | hout
    · exact (accounted.forgotten uid (traced.outstanding uid hout)).resolve_right hdelete
    · exact accounted.added uid hout
  followed := by
    intro call hcall uid report hannounces
    obtain ⟨adds, middle, hadds, hsent, hgone⟩ := traced.followed call hcall uid report hannounces
    refine ⟨adds, middle ++ events, hadds, by rw [hsent, List.append_assoc], ?_⟩
    rcases hgone with hdelete | hknown
    · exact .inl (List.mem_append_left _ hdelete)
    · rcases accounted.forgotten uid hknown with hknown | hdelete
      · exact .inr hknown
      · exact .inl (List.mem_append_right _ hdelete)
  separated := traced.separated

/-- A call that has done its part is added to the calls made. -/
theorem call (traced : Traced known sent calls) {r : KubernetesDiscoveryRuntime} {pod : Pod}
    (before : Traced r.knownPodUids r.sender.sent calls)
    (hannounced : ∀ uid report, Announces uid (r, pod) report → ∃ adds middle,
      report.announcement = some adds ∧ sent = r.sender.sent ++ adds ++ middle ∧
      (.delete uid ∈ middle ∨ uid ∈ known)) :
    Traced known sent (calls ++ [(r, pod)]) where
  outstanding := traced.outstanding
  followed := by
    intro call hcall
    rcases List.mem_append.mp hcall with hcall | hcall
    · exact traced.followed call hcall
    · rw [List.mem_singleton.mp hcall]
      exact hannounced
  separated := by
    refine List.pairwise_append.mpr ⟨traced.separated, List.pairwise_singleton _ _, ?_⟩
    intro first hfirst second hsecond uid report report' hannounces hannounces'
    obtain rfl := List.mem_singleton.mp hsecond
    obtain ⟨adds, middle, hadds, hsent, hgone⟩ := before.followed first hfirst uid report hannounces
    exact ⟨adds, middle, hadds, hsent, hgone.resolve_right hannounces'.2.2⟩

end Traced

theorem kept_traced : Kept Traced where
  report := by
    intro r pod report known events calls hreport heffect traced
    refine (traced.step (Report.accounted heffect)).call traced fun uid report' hannounces => ?_
    obtain ⟨hreport', rfl, hunknown⟩ := hannounces
    obtain rfl : report' = report := Option.some.inj (hreport'.symm.trans hreport)
    obtain ⟨adds, rfl, hadds, hknown⟩ := Report.effect_eq_some heffect
    refine ⟨adds, report'.phaseEvents, ?_, by rw [List.append_assoc], ?_⟩
    · rcases hadds with ⟨hmem, -⟩ | ⟨-, hadds⟩
      · exact (hunknown hmem).elim
      · exact hadds
    · by_cases hsucceeded : report'.phase = "Succeeded"
      · exact .inl (Report.delete_mem_phaseEvents hsucceeded)
      · rw [hknown, if_neg hsucceeded]
        exact .inr (Finset.mem_insert_self _ _)
  incomplete := by
    intro r pod calls hreport traced
    refine traced.call traced fun uid report hannounces => ?_
    have hnone := hreport.symm.trans hannounces.1
    cases hnone
  delete := fun uid traced => traced.step (accounted_delete _ uid)
  relist := fun order current traced => traced.step (accounted_deletions order _ current)

theorem Watch.traced {name : String} {remaining : Option Nat} {events : List PodEvent}
    {calls : List ApplyCall} {r : KubernetesDiscoveryRuntime}
    (watch : Watch (.new name ⟨[], remaining⟩) events calls r) :
    Traced r.knownPodUids r.sender.sent calls := by
  refine watch.invariant kept_traced ⟨fun uid hout => ?_, by simp, .nil⟩
  obtain ⟨flag, port, protocol, address, backendProtocol, hmem⟩ := hout.mem_add
  cases hmem

/-! ### The calls one after another -/

/-- An element of a list in two parts is in one of them. -/
theorem append_eq_split {A : Type} {first second before after : List A} {a : A}
    (h : first ++ second = before ++ a :: after) :
    (∃ rest, first = before ++ a :: rest ∧ after = rest ++ second) ∨
      ∃ rest, before = first ++ rest ∧ second = rest ++ a :: after := by
  rcases List.append_eq_append_iff.mp h with ⟨rest, rfl, hsecond⟩ | ⟨rest, rfl, hafter⟩
  · exact .inr ⟨rest, rfl, hsecond⟩
  · cases rest with
    | nil => exact .inr ⟨[], by simp, hafter.symm⟩
    | cons b rest =>
      obtain ⟨rfl, rfl⟩ := List.cons.inj hafter
      exact .inl ⟨rest, rfl, rfl⟩

/-- What the calls emit, in the stream: what a call emits stands where the stream was before the call,
what a later call emits stands behind it, and every `Add` of the stream is emitted by a call. -/
structure Sequenced (emits : ApplyCall → List EndpointEvent) (sent : List EndpointEvent)
    (calls : List ApplyCall) : Prop where
  within : ∀ call ∈ calls, call.1.sender.sent ++ emits call <+: sent
  ordered : calls.Pairwise fun first second =>
    first.1.sender.sent ++ emits first <+: second.1.sender.sent
  adds : ∀ uid before event after, sent = before ++ event :: after → AddOf uid event →
    ∃ call ∈ calls, ∃ own rest, emits call = own ++ event :: rest ∧
      before = call.1.sender.sent ++ own

namespace Sequenced

variable {emits : ApplyCall → List EndpointEvent} {sent more : List EndpointEvent}
  {calls : List ApplyCall}

/-- Events that are sent outside the calls. -/
theorem quiet (sequenced : Sequenced emits sent calls)
    (hquiet : ∀ event ∈ more, ∀ uid, ¬ AddOf uid event) : Sequenced emits (sent ++ more) calls where
  within := fun call hcall => (sequenced.within call hcall).trans (List.prefix_append sent more)
  ordered := sequenced.ordered
  adds := by
    intro uid before event after hsent hadd
    rcases append_eq_split hsent with ⟨rest, hsent, -⟩ | ⟨rest, -, hmore⟩
    · exact sequenced.adds uid before event rest hsent hadd
    · exact (hquiet event (by rw [hmore]; simp) uid hadd).elim

/-- One more call. -/
theorem call {r : KubernetesDiscoveryRuntime} (sequenced : Sequenced emits r.sender.sent calls)
    {pod : Pod} (hemits : emits (r, pod) = more) :
    Sequenced emits (r.sender.sent ++ more) (calls ++ [(r, pod)]) where
  within := by
    intro call hcall
    rcases List.mem_append.mp hcall with hcall | hcall
    · exact (sequenced.within call hcall).trans (List.prefix_append _ _)
    · rw [List.mem_singleton.mp hcall, hemits]
  ordered := by
    refine List.pairwise_append.mpr ⟨sequenced.ordered, List.pairwise_singleton _ _, ?_⟩
    intro first hfirst second hsecond
    rw [List.mem_singleton.mp hsecond]
    exact sequenced.within first hfirst
  adds := by
    intro uid before event after hsent hadd
    rcases append_eq_split hsent with ⟨rest, hsent, -⟩ | ⟨rest, hbefore, hmore⟩
    · obtain ⟨call, hcall, hplace⟩ := sequenced.adds uid before event rest hsent hadd
      exact ⟨call, List.mem_append_left _ hcall, hplace⟩
    · exact ⟨(r, pod), by simp, rest, after, hemits.trans hmore, hbefore⟩

/-- Calls that emit the same. -/
theorem congr {emits' : ApplyCall → List EndpointEvent} (sequenced : Sequenced emits sent calls)
    (hsame : ∀ call ∈ calls, emits' call = emits call) : Sequenced emits' sent calls where
  within := by
    intro call hcall
    rw [hsame call hcall]
    exact sequenced.within call hcall
  ordered := by
    refine sequenced.ordered.imp_of_mem fun {first _} hfirst _ hprefix => ?_
    rwa [hsame first hfirst]
  adds := by
    intro uid before event after hsent hadd
    obtain ⟨call, hcall, own, rest, hemits, hbefore⟩ := sequenced.adds uid before event after hsent hadd
    exact ⟨call, hcall, own, rest, (hsame call hcall).trans hemits, hbefore⟩

end Sequenced

theorem kept_sequenced : Kept fun _ sent calls => Sequenced ApplyCall.events sent calls where
  report := by
    intro r pod report known events calls hreport heffect sequenced
    refine sequenced.call ?_
    have hpod : pod.effect r.knownPodUids = some (known, events) := by
      rw [Pod.effect, hreport]
      exact heffect
    rw [ApplyCall.events, hpod]
    rfl
  incomplete := by
    intro r pod calls hreport sequenced
    have hevents : ApplyCall.events (r, pod) = [] := by
      rw [ApplyCall.events, Pod.effect, hreport]
      rfl
    have hcall := sequenced.call hevents
    rwa [List.append_nil] at hcall
  delete := by
    intro known sent calls uid sequenced
    refine sequenced.quiet fun event hmem uid' hadd => ?_
    obtain ⟨flag, port, protocol, address, backendProtocol, rfl⟩ := hadd
    simp at hmem
  relist := by
    intro known sent calls order current sequenced
    refine sequenced.quiet fun event hmem uid' hadd => ?_
    obtain ⟨flag, port, protocol, address, backendProtocol, rfl⟩ := hadd
    obtain ⟨uid, -, -, heq⟩ := mem_deletions.mp hmem
    cases heq

theorem Watch.sequenced {name : String} {remaining : Option Nat} {events : List PodEvent}
    {calls : List ApplyCall} {r : KubernetesDiscoveryRuntime}
    (watch : Watch (.new name ⟨[], remaining⟩) events calls r) :
    Sequenced ApplyCall.sends r.sender.sent calls := by
  have sequenced : Sequenced ApplyCall.events r.sender.sent calls := by
    refine watch.invariant kept_sequenced ⟨by simp, .nil, ?_⟩
    intro uid before event after hsent
    simp [KubernetesDiscoveryRuntime.new] at hsent
  refine sequenced.congr fun call hcall => ?_
  obtain ⟨a, r', hreturns⟩ := watch.calls_return call hcall
  exact ApplyCall.sends_of_ok hreturns

/-- Only the phase of a report follows its `Add`s. -/
theorem not_addOf_of_mem_phaseEvents {report : Report} {event : EndpointEvent}
    (h : event ∈ report.phaseEvents) (uid : String) : ¬ AddOf uid event := by
  rintro ⟨flag, port, protocol, address, backendProtocol, rfl⟩
  rcases Report.mem_phaseEvents h with heq | heq | heq
  · cases heq
  · cases heq
  · cases heq

/-- A call that asks for an `Add` announces the uid. -/
theorem announces_of_addOf {call : ApplyCall} {uid : String} {event : EndpointEvent}
    (hmem : event ∈ call.events) (hadd : AddOf uid event) :
    ∃ report adds, Announces uid call report ∧ report.announcement = some adds ∧
      call.events = adds ++ report.phaseEvents := by
  unfold ApplyCall.events at hmem ⊢
  unfold Pod.effect at hmem ⊢
  cases hreport : call.2.report with
  | none =>
    rw [hreport] at hmem
    cases hmem
  | some report =>
    rw [hreport] at hmem
    dsimp only at hmem ⊢
    cases heffect : report.effect call.1.knownPodUids with
    | none =>
      rw [heffect] at hmem
      cases hmem
    | some effect =>
      obtain ⟨known, events⟩ := effect
      rw [heffect] at hmem
      change event ∈ events at hmem
      have huid : event.uid = report.uid := Report.uid_of_effect heffect hmem
      obtain ⟨adds, rfl, hadds, -⟩ := Report.effect_eq_some heffect
      rcases hadds with ⟨-, rfl⟩ | ⟨hunknown, hadds⟩
      · exact (not_addOf_of_mem_phaseEvents hmem uid hadd).elim
      · obtain ⟨flag, port, protocol, address, backendProtocol, rfl⟩ := hadd
        obtain rfl : uid = report.uid := huid
        exact ⟨report, adds, ⟨hreport, rfl, hunknown⟩, hadds, rfl⟩

/-- Between an `Add` that a call sends and one of the same uid that a later call sends, there is a
`Delete` of the uid. -/
theorem Watch.separated {name : String} {remaining : Option Nat} {events : List PodEvent}
    {calls : List ApplyCall} {r : KubernetesDiscoveryRuntime}
    (watch : Watch (.new name ⟨[], remaining⟩) events calls r) :
    calls.Pairwise fun first second => ∀ uid before add after add',
      first.sends = before ++ add :: after → AddOf uid add → add' ∈ second.sends → AddOf uid add' →
      ∃ between, second.1.sender.sent = first.1.sender.sent ++ first.sends ++ between ∧
        .delete uid ∈ after ++ between := by
  refine (watch.traced.separated.and watch.sequenced.ordered).imp_of_mem ?_
  intro first second hfirst hsecond ⟨hseparated, hordered⟩ uid before add after add' hsends hadd hmem'
    hadd'
  obtain ⟨a, r₁, hreturns⟩ := watch.calls_return first hfirst
  obtain ⟨a', r₂, hreturns'⟩ := watch.calls_return second hsecond
  rw [ApplyCall.sends_of_ok hreturns'] at hmem'
  have hmem : add ∈ first.events := by
    rw [← ApplyCall.sends_of_ok hreturns, hsends]
    simp
  obtain ⟨report, adds, hannounces, hadds, hevents⟩ := announces_of_addOf hmem hadd
  obtain ⟨report', -, hannounces', -, -⟩ := announces_of_addOf hmem' hadd'
  obtain ⟨adds', middle, hadds', hsent, hdelete⟩ := hseparated uid report report' hannounces hannounces'
  obtain rfl : adds' = adds := Option.some.inj (hadds'.symm.trans hadds)
  obtain ⟨between, hbetween⟩ := hordered
  have hall : adds' ++ report.phaseEvents = before ++ add :: after := by
    rw [← hevents, ← ApplyCall.sends_of_ok hreturns, hsends]
  have hmiddle : middle = report.phaseEvents ++ between := by
    rw [hsends, ← hall, hsent] at hbetween
    simpa using hbetween.symm
  refine ⟨between, hbetween.symm, ?_⟩
  rcases append_eq_split hall with ⟨rest, -, hafter⟩ | ⟨rest, -, hphase⟩
  · rw [hafter, List.append_assoc, ← hmiddle]
    exact List.mem_append_right rest hdelete
  · exact (not_addOf_of_mem_phaseEvents (by rw [hphase]; simp) uid hadd).elim

/-! ### What a manager holds -/

/-- What is held of a uid was added and not deleted. -/
theorem outstanding_of_held {name uid : String} {sent : List EndpointEvent} {port : UInt16}
    (h : (held name sent port uid).isSome) : Outstanding uid sent := by
  obtain ⟨e, he⟩ := Option.isSome_iff_exists.mp h
  obtain ⟨pre, e₀, post, hops, hkeeps, -⟩ := TableOp.run_eq_some he
  have hall : operations (sent.map fun event => (name, event)) =
      pre ++ .put port ⟨name, uid⟩ e₀ :: post := by
    rw [operations, List.map_map]
    exact hops
  obtain ⟨before, protocol, after, hevents, rfl⟩ := operations_eq_append_put hall
  obtain ⟨sentBefore, rest, rfl, -, hrest⟩ := List.map_eq_append_iff.mp hevents
  obtain ⟨event, sentAfter, rfl, hevent, rfl⟩ := List.map_eq_cons_iff.mp hrest
  obtain ⟨-, rfl⟩ := Prod.mk.inj hevent
  refine ⟨sentBefore, _, _, _, _, _, sentAfter, rfl, fun hmem => ?_⟩
  exact not_mem_delete_of_keeps hkeeps (List.mem_map_of_mem hmem)

/-- Nothing is held of a uid that is not known. -/
theorem Traced.held_eq_none {known : Finset String} {sent : List EndpointEvent}
    {calls : List ApplyCall} (traced : Traced known sent calls) {uid : String} (huid : uid ∉ known)
    (name : String) (port : UInt16) : held name sent port uid = none := by
  by_contra hheld
  exact huid (traced.outstanding uid (outstanding_of_held (Option.isSome_iff_ne_none.mpr hheld)))

section Watches

variable {name : String} {remaining : Option Nat} {before : List PodEvent} {calls : List ApplyCall}
  {r : KubernetesDiscoveryRuntime} {port : UInt16} {uid : String}

/-- Right after a re-list, what is held is of the listed pods. -/
theorem Watch.listed_of_held {pods : List Pod}
    (watch : Watch (.new name ⟨[], remaining⟩) (before ++ [.restarted pods]) calls r)
    (h : (held name r.sender.sent port uid).isSome) : ∃ pod ∈ pods, pod.metadata.uid = some uid := by
  have hknown := watch.traced.outstanding uid (outstanding_of_held h)
  obtain ⟨order, calls₁, r₁, -, -, step⟩ := watch.last
  obtain ⟨current, r₂, -, hlisted, -⟩ := handlePodEvent_restarted step
  rw [hlisted] at hknown
  simpa [listedUids, presentUids] using hknown

/-- Right after a deletion, nothing is held of the pod. -/
theorem Watch.held_deleted {pod : Pod}
    (watch : Watch (.new name ⟨[], remaining⟩) (before ++ [.deleted pod]) calls r)
    (huid : pod.metadata.uid = some uid) : held name r.sender.sent port uid = none := by
  have traced := watch.traced
  obtain ⟨order, calls₁, r₁, -, -, step⟩ := watch.last
  obtain ⟨sent, heffect, -, -⟩ := handlePodEvent_ok step
  simp only [PodEvent.effect, huid] at heffect
  obtain ⟨herase, -⟩ := Prod.mk.inj (Option.some.inj heffect)
  refine traced.held_eq_none ?_ name port
  rw [← herase]
  exact Finset.notMem_erase uid _

end Watches

/-- No endpoint is leaked and none is announced twice: every uid with an outstanding `Add` is known;
every `Add` is sent by a call of `apply_pod`, and a `Delete` of its uid stands between it and any `Add`
of the uid that another call sends; and a manager that has processed the stream holds no endpoint of
this task whose pod is missing from the re-list just handled, and none of the pod whose deletion was
just handled. -/
theorem no_leaked_and_no_double_announcement {name : String} {remaining : Option Nat}
    {events : List PodEvent} {calls : List ApplyCall} {r : KubernetesDiscoveryRuntime}
    (watch : Watch (.new name ⟨[], remaining⟩) events calls r) :
    (∀ uid, Outstanding uid r.sender.sent → uid ∈ r.knownPodUids) ∧
    Sequenced ApplyCall.sends r.sender.sent calls ∧
    (calls.Pairwise fun first second => ∀ uid before add after add',
      first.sends = before ++ add :: after → AddOf uid add → add' ∈ second.sends → AddOf uid add' →
      ∃ between, second.1.sender.sent = first.1.sender.sent ++ first.sends ++ between ∧
        .delete uid ∈ after ++ between) ∧
    ∀ {start m : ServiceManager} {history : List (String × EndpointEvent)},
      start.portServiceMap = ∅ → Run start history m → Feeds name r.sender.sent history →
      (∀ before pods, events = before ++ [.restarted pods] → ∀ port uid,
        (endpointAt m.portServiceMap port ⟨name, uid⟩).isSome →
        ∃ pod ∈ pods, pod.metadata.uid = some uid) ∧
      ∀ before pod uid, events = before ++ [.deleted pod] → pod.metadata.uid = some uid →
        ∀ port, endpointAt m.portServiceMap port ⟨name, uid⟩ = none := by
  refine ⟨watch.traced.outstanding, watch.sequenced, watch.separated, fun hempty run feeds => ⟨?_, ?_⟩⟩
  · rintro before pods rfl port uid hheld
    rw [feeds.endpointAt run hempty] at hheld
    exact watch.listed_of_held hheld
  · rintro before pod uid rfl huid port
    rw [feeds.endpointAt run hempty]
    exact watch.held_deleted huid

/-- A pod is announced, is missing from a re-list, and is announced again. -/
def announcedTwice : List PodEvent :=
  [.applied (samplePod "pod" "Running"), .restarted [], .applied (samplePod "pod" "Running")]

/-- What a call sends of the pod. -/
def announcedPod : List EndpointEvent :=
  [.add "pod" false 80 "http" (.v4 ⟨10, 0, 0, 1⟩ 8080) "http", .resume "pod"]

theorem no_leaked_and_no_double_announcement_announcedTwice :
    ∃ first second r, Watch (.new "kubernetes" .new) announcedTwice [first, second] r ∧
      first.sends = announcedPod ∧ second.sends = announcedPod ∧
      ∃ between, second.1.sender.sent = first.1.sender.sent ++ first.sends ++ between ∧
        .delete "pod" ∈ between := by
  have hresult : (watchFrom alphabetic [] (.new "kubernetes" .new) announcedTwice).map
      (fun result => result.1.map ApplyCall.sends) = some [announcedPod, announcedPod] := by
    decide +kernel
  obtain ⟨⟨calls, r⟩, hwatch, hsends⟩ := Option.map_eq_some_iff.mp hresult
  obtain ⟨first, rest, rfl, hfirst, hrest⟩ := List.map_eq_cons_iff.mp hsends
  obtain ⟨second, rest, rfl, hsecond, hrest⟩ := List.map_eq_cons_iff.mp hrest
  obtain rfl := List.map_eq_nil_iff.mp hrest
  have watch := Watch.nil.extend hwatch
  obtain ⟨-, -, hseparated, -⟩ := no_leaked_and_no_double_announcement watch
  obtain ⟨hpair, -⟩ := List.pairwise_cons.mp hseparated
  have hadd : AddOf "pod" (.add "pod" false 80 "http" (.v4 ⟨10, 0, 0, 1⟩ 8080) "http") :=
    ⟨_, _, _, _, _, rfl⟩
  obtain ⟨between, hsent, hdelete⟩ := hpair second (List.mem_singleton.mpr rfl) "pod" [] _
    [.resume "pod"] _ hfirst hadd (by rw [hsecond]; exact List.mem_cons_self) hadd
  exact ⟨first, second, r, watch, hfirst, hsecond, between, hsent, by simpa using hdelete⟩

end StateProxy.Kubernetes
