import StateProxy.Kubernetes.Runtime

/-! What the discovery task does when it returns: the uids it knows then, and the events it sends.
`Emits` relates a part of the program to these, and has one rule for each way in which the program
is built; `handlePodEvent_emits` is the result, and every later proof about the task starts from
it. -/

namespace StateProxy.Kubernetes

open Backend Net ProofKit KubernetesDiscoveryRuntime

section Rules

variable {α β : Type}

/-- When `x` runs from `r` on, it returns if its events can be sent, and then with the value, the
known uids and the events of the outcome; without an outcome it does not return. -/
def Emits (x : RuntimeM α) (r : KubernetesDiscoveryRuntime) :
    Option (α × Finset String × List EndpointEvent) → Prop
  | none => ∀ a r', x r ≠ .ok a r'
  | some (a, known, events) =>
    (∀ a' r', x r = .ok a' r' → a' = a ∧ r'.name = r.name ∧ r'.knownPodUids = known ∧
      r.sender.sendAll events = some r'.sender) ∧
    ∀ sender, r.sender.sendAll events = some sender → ∃ a' r', x r = .ok a' r'

variable {x : RuntimeM α} {f : α → RuntimeM β} {r : KubernetesDiscoveryRuntime} {a : α}
  {known : Finset String} {events : List EndpointEvent}

namespace Emits

theorem of_ok {r' : KubernetesDiscoveryRuntime} (h : x r = .ok a r') (hname : r'.name = r.name)
    (hknown : r'.knownPodUids = known) (hsender : r'.sender = r.sender) :
    Emits x r (some (a, known, [])) := by
  refine ⟨fun a' r'' h' => ?_, fun _ _ => ⟨a, r', h⟩⟩
  rw [h] at h'
  cases h'
  exact ⟨rfl, hname, hknown, by rw [hsender]; rfl⟩

theorem pure (a : α) : Emits (Pure.pure a) r (some (a, r.knownPodUids, [])) :=
  of_ok rfl rfl rfl rfl

theorem get : Emits get r (some (r, r.knownPodUids, [])) :=
  of_ok rfl rfl rfl rfl

theorem warn (line : String) : Emits (warn line) r (some ((), r.knownPodUids, [])) :=
  of_ok rfl rfl rfl rfl

theorem setKnown (uids : Finset String) : Emits (setKnown uids) r (some ((), uids, [])) :=
  of_ok rfl rfl rfl rfl

theorem throw (e : Error) : Emits (throw e : RuntimeM α) r none := by
  intro a r' h
  cases h

theorem send (event : EndpointEvent) :
    Emits (send event) r (some ((), r.knownPodUids, [event])) := by
  have hall : r.sender.sendAll [event] = r.sender.send event := by
    change (r.sender.send event).bind some = _
    cases r.sender.send event <;> rfl
  refine ⟨fun a' r' h => ?_, fun sender hsend => ?_⟩
  · unfold KubernetesDiscoveryRuntime.send at h
    split at h
    · cases h
    · rename_i sender hsend
      cases h
      exact ⟨rfl, rfl, rfl, by rw [hall, hsend]⟩
  · rw [hall] at hsend
    exact ⟨(), { r with sender }, by simp only [KubernetesDiscoveryRuntime.send, hsend]⟩

theorem bind_none (hx : Emits x r none) : Emits (x >>= f) r none := by
  intro b r' h
  obtain ⟨a, r₁, hfirst, -⟩ := bind_ok.mp h
  exact hx a r₁ hfirst

/-- The rule of a sequence. -/
theorem bind (outcome : Option (β × Finset String × List EndpointEvent))
    (hx : Emits x r (some (a, known, events)))
    (hf : ∀ r₁, r₁.name = r.name → r₁.knownPodUids = known → Emits (f a) r₁ outcome) :
    Emits (x >>= f) r (outcome.map fun (b, known', more) => (b, known', events ++ more)) := by
  cases outcome with
  | none =>
    intro b r' h
    obtain ⟨a', r₁, hfirst, hsecond⟩ := bind_ok.mp h
    obtain ⟨rfl, hname, hknown, -⟩ := hx.1 a' r₁ hfirst
    exact hf r₁ hname hknown b r' hsecond
  | some outcome =>
    obtain ⟨b, known', more⟩ := outcome
    refine ⟨fun b' r' h => ?_, fun sender' h => ?_⟩
    · obtain ⟨a', r₁, hfirst, hsecond⟩ := bind_ok.mp h
      obtain ⟨rfl, hname, hknown, hsent⟩ := hx.1 a' r₁ hfirst
      obtain ⟨rfl, hname', hknown', hsent'⟩ := (hf r₁ hname hknown).1 b' r' hsecond
      exact ⟨rfl, hname'.trans hname, hknown', by rw [Sender.sendAll_append, hsent]; exact hsent'⟩
    · rw [Sender.sendAll_append] at h
      obtain ⟨sender, hsender, hmore⟩ := Option.bind_eq_some_iff.mp h
      obtain ⟨a', r₁, hfirst⟩ := hx.2 sender hsender
      obtain ⟨rfl, hname, hknown, hsent⟩ := hx.1 a' r₁ hfirst
      rw [hsender] at hsent
      cases hsent
      obtain ⟨b', r', hsecond⟩ := (hf r₁ hname hknown).2 sender' hmore
      exact ⟨b', r', bind_ok.mpr ⟨a', r₁, hfirst, hsecond⟩⟩

/-- The rule of a sequence whose first part sends nothing. -/
theorem bind_quiet {outcome : Option (β × Finset String × List EndpointEvent)}
    (hx : Emits x r (some (a, known, [])))
    (hf : ∀ r₁, r₁.name = r.name → r₁.knownPodUids = known → Emits (f a) r₁ outcome) :
    Emits (x >>= f) r outcome := by
  have h := bind outcome hx hf
  cases outcome with
  | none => exact h
  | some outcome => exact h

theorem withContext {outcome : Option (α × Finset String × List EndpointEvent)} (context : String)
    (hx : Emits x r outcome) :
    Emits (KubernetesDiscoveryRuntime.withContext context x) r outcome := by
  have hok : ∀ a r', KubernetesDiscoveryRuntime.withContext context x r = .ok a r' ↔
      x r = .ok a r' := by
    intro a r'
    unfold KubernetesDiscoveryRuntime.withContext
    cases x r <;> simp
  cases outcome with
  | none =>
    intro a r' h
    exact hx a r' ((hok a r').mp h)
  | some outcome =>
    refine ⟨fun a' r' h => hx.1 a' r' ((hok a' r').mp h), fun sender h => ?_⟩
    obtain ⟨a', r', hret⟩ := hx.2 sender h
    exact ⟨a', r', (hok a' r').mpr hret⟩

/-- What a program has done when it returns. -/
theorem of_return {outcome : Option (α × Finset String × List EndpointEvent)}
    (hx : Emits x r outcome) {r' : KubernetesDiscoveryRuntime} (h : x r = .ok a r') :
    ∃ events, outcome = some (a, r'.knownPodUids, events) ∧
      r'.sender.sent = r.sender.sent ++ events ∧ r'.name = r.name := by
  cases outcome with
  | none => exact (hx a r' h).elim
  | some outcome =>
    obtain ⟨a', known, events⟩ := outcome
    obtain ⟨rfl, hname, rfl, hsent⟩ := hx.1 a r' h
    exact ⟨events, rfl, Sender.sendAll_sent hsent, hname⟩

/-- While the receiver stays, a program with an outcome returns. -/
theorem returns (hx : Emits x r (some (a, known, events))) (hstays : r.sender.remaining = none) :
    ∃ r', x r = .ok a r' ∧ r'.knownPodUids = known ∧
      r'.sender = ⟨r.sender.sent ++ events, none⟩ := by
  have hsend := Sender.sendAll_of_stays hstays events
  obtain ⟨a', r', hret⟩ := hx.2 _ hsend
  obtain ⟨rfl, -, hknown, hsent⟩ := hx.1 a' r' hret
  exact ⟨r', hret, hknown, Option.some.inj (hsent.symm.trans hsend)⟩

end Emits

end Rules

/-- The `Add` of a service string with the given parts. -/
def partsEvent (uid : String) (podAddress : IpAddr) : List String → Option EndpointEvent
  | externalPort :: externalProtocol :: backendPort :: backendProtocol :: _ => do
    let externalPort ← (parseU16 externalPort).toOption
    let backendPort ← (parseU16 backendPort).toOption
    some (.add uid false externalPort externalProtocol (.new podAddress backendPort) backendProtocol)
  | _ => none

/-- The `Add` of a service string. -/
def serviceEvent (uid : String) (podAddress : IpAddr) (serviceString : String) :
    Option EndpointEvent :=
  partsEvent uid podAddress (split ':' serviceString)

namespace Report

/-- The strings of the services that a pod asks for. -/
def serviceStrings (report : Report) : List String :=
  ((report.annotations.lookup servicesAnnotation).map (split ',')).getD []

/-- The `Add`s of all services of a pod. -/
def announcement (report : Report) : Option (List EndpointEvent) := do
  let address ← parseIpAddr report.address
  report.serviceStrings.mapM (serviceEvent report.uid address)

/-- The event that follows from the phase of a pod. -/
def phaseEvents (report : Report) : List EndpointEvent :=
  if report.phase = "Running" then [.resume report.uid]
  else if report.phase = "Succeeded" then [.delete report.uid]
  else if report.phase = "Pending" then []
  else [.suspend report.uid]

/-- The `Add`s that a report sends: those of all services, unless the pod is known. -/
def adds (report : Report) (known : Finset String) : Option (List EndpointEvent) :=
  if report.uid ∈ known then some [] else report.announcement

/-- What a report does: the uids known after it and the events it sends. -/
def effect (report : Report) (known : Finset String) :
    Option (Finset String × List EndpointEvent) := do
  let _ ← parseIpAddr report.address
  let adds ← report.adds known
  some (if report.phase = "Succeeded" then known.erase report.uid else insert report.uid known,
    adds ++ report.phaseEvents)

end Report

def Pod.effect (pod : Pod) (known : Finset String) :
    Option (Finset String × List EndpointEvent) :=
  match pod.report with
  | none => some (known, [])
  | some report => report.effect known

/-- What the loop over the pods of a re-list does. -/
def applyAll (known : Finset String) : List Pod → Option (Finset String × List EndpointEvent)
  | [] => some (known, [])
  | pod :: pods =>
    match pod.metadata.uid with
    | none => applyAll known pods
    | some _ => do
      let (known, events) ← pod.effect known
      let (known, more) ← applyAll known pods
      some (known, events ++ more)

/-- The uids of the pods that have one. -/
def presentUids (pods : List Pod) : List String :=
  pods.filterMap (·.metadata.uid)

/-- The uids that occur in a re-list. -/
def listedUids (pods : List Pod) : Finset String :=
  (presentUids pods).toFinset

/-- The `Delete`s of the uids that were known before a re-list and do not occur in it. -/
def deletions (order : IterOrder String) (known current : Finset String) : List EndpointEvent :=
  ((order.visit known).filter (· ∉ current)).map .delete

/-- What a pod event does: the uids known after it and the events it sends. -/
def PodEvent.effect (order : IterOrder String) (known : Finset String) :
    PodEvent → Option (Finset String × List EndpointEvent)
  | .applied pod => if pod.metadata.uid.isSome then pod.effect known else some (known, [])
  | .deleted pod =>
    match pod.metadata.uid with
    | some uid => some (known.erase uid, [.delete uid])
    | none => some (known, [])
  | .restarted pods => do
    let (old, events) ← applyAll known pods
    some (listedUids pods, events ++ deletions order old (listedUids pods))

section Parts

theorem parsePort_emits (r : KubernetesDiscoveryRuntime) (port : String) :
    Emits (parsePort port) r
      ((parseU16 port).toOption.map fun port => (port, r.knownPodUids, [])) := by
  unfold parsePort
  cases parseU16 port with
  | error message => exact .throw _
  | ok port => exact .pure port

theorem parseAddress_emits (r : KubernetesDiscoveryRuntime) (report : Report) :
    Emits (parseAddress report) r
      ((parseIpAddr report.address).map fun address => (address, r.knownPodUids, [])) := by
  refine Emits.get.bind_quiet fun r₁ _ hknown => ?_
  dsimp only
  rw [← hknown]
  cases parseIpAddr report.address with
  | none => exact .throw _
  | some address => exact .pure address

theorem sendParts_emits (r : KubernetesDiscoveryRuntime) (uid : String) (podAddress : IpAddr)
    (parts : List String) :
    Emits (sendParts uid podAddress parts) r
      ((partsEvent uid podAddress parts).map fun event => ((), r.knownPodUids, [event])) := by
  rcases parts with _ | ⟨externalPort, _ | ⟨externalProtocol, _ | ⟨backendPort, _ | ⟨backendProtocol, rest⟩⟩⟩⟩
  · exact .throw _
  · exact .throw _
  · exact .throw _
  · exact .throw _
  · simp only [sendParts, partsEvent]
    have hexternal := parsePort_emits r externalPort
    cases hport : (parseU16 externalPort).toOption with
    | none =>
      rw [hport] at hexternal
      exact hexternal.bind_none
    | some port =>
      rw [hport] at hexternal
      refine hexternal.bind_quiet fun r₁ _ hr₁ => ?_
      have hbackend := parsePort_emits r₁ backendPort
      cases hport' : (parseU16 backendPort).toOption with
      | none =>
        rw [hport'] at hbackend
        exact hbackend.bind_none
      | some port' =>
        rw [hport'] at hbackend
        refine hbackend.bind_quiet fun r₂ _ hr₂ => ?_
        rw [← hr₁, ← hr₂]
        exact .send _

theorem sendServiceFromString_emits (r : KubernetesDiscoveryRuntime)
    (serviceString uid podName : String) (podAddress : IpAddr) :
    Emits (sendServiceFromString serviceString uid podName podAddress) r
      ((serviceEvent uid podAddress serviceString).map fun event =>
        ((), r.knownPodUids, [event])) := by
  refine Emits.get.bind_quiet fun r₁ _ hr₁ => ?_
  dsimp only
  rw [← hr₁]
  split
  · refine (Emits.warn _).bind_quiet fun r₂ _ hr₂ => ?_
    rw [← hr₂]
    exact sendParts_emits r₂ uid podAddress _
  · exact sendParts_emits r₁ uid podAddress _

theorem sendServices_emits (r : KubernetesDiscoveryRuntime) (uid podName : String)
    (podAddress : IpAddr) (serviceStrings : List String) :
    Emits (sendServices uid podName podAddress serviceStrings) r
      ((serviceStrings.mapM (serviceEvent uid podAddress)).map fun events =>
        ((), r.knownPodUids, events)) := by
  induction serviceStrings generalizing r with
  | nil => exact .pure ()
  | cons serviceString rest ih =>
    refine Emits.get.bind_quiet fun r₁ _ hr₁ => ?_
    dsimp only
    rw [← hr₁, List.mapM_cons]
    have hfirst := sendServiceFromString_emits r₁ serviceString uid podName podAddress
    cases hevent : serviceEvent uid podAddress serviceString with
    | none =>
      rw [hevent] at hfirst
      exact (hfirst.withContext _).bind_none
    | some event =>
      rw [hevent] at hfirst
      have hboth : ((rest.mapM (serviceEvent uid podAddress)).map fun events =>
            ((), r₁.knownPodUids, events)).map
              (fun (b, known, more) => (b, known, [event] ++ more)) =
          ((some event >>= fun e => rest.mapM (serviceEvent uid podAddress) >>= fun es =>
            pure (e :: es)).map fun events => ((), r₁.knownPodUids, events)) := by
        cases rest.mapM (serviceEvent uid podAddress) <;> rfl
      rw [← hboth]
      refine (hfirst.withContext _).bind _ fun r₂ _ hr₂ => ?_
      rw [← hr₂]
      exact ih r₂

/-- `discover_services` sends the announcement of a pod. -/
theorem discoverServices_emits (r : KubernetesDiscoveryRuntime) (report : Report)
    {address : IpAddr} (haddress : parseIpAddr report.address = some address) :
    Emits (discoverServices report.annotations report.uid report.name address) r
      (report.announcement.map fun events => ((), r.knownPodUids, events)) := by
  have hservices := sendServices_emits r report.uid report.name address report.serviceStrings
  have hannouncement : report.announcement =
      report.serviceStrings.mapM (serviceEvent report.uid address) := by
    simp [Report.announcement, haddress]
  rw [← hannouncement] at hservices
  unfold discoverServices
  cases hadds : report.announcement with
  | none =>
    rw [hadds] at hservices
    exact hservices.bind_none
  | some adds =>
    rw [hadds] at hservices
    rw [Option.map_some, ← List.append_nil adds]
    refine hservices.bind (some ((), r.knownPodUids, [])) fun r₁ _ hr₁ => ?_
    rw [← hr₁]
    split
    · exact .warn _
    · exact .pure ()

theorem followPhase_emits (r : KubernetesDiscoveryRuntime) (report : Report) :
    Emits (followPhase report) r (some ((),
      if report.phase = "Succeeded" then r.knownPodUids.erase report.uid else r.knownPodUids,
      report.phaseEvents)) := by
  refine Emits.get.bind_quiet fun r₁ _ hr₁ => ?_
  dsimp only
  rw [← hr₁]
  unfold Report.phaseEvents
  by_cases hrunning : report.phase = "Running"
  · have hne : report.phase ≠ "Succeeded" := by
      rw [hrunning]
      decide
    simp only [if_pos hrunning, if_neg hne]
    exact .send _
  by_cases hsucceeded : report.phase = "Succeeded"
  · simp only [if_neg hrunning, if_pos hsucceeded]
    refine Emits.get.bind_quiet fun r₂ _ _ => (Emits.setKnown _).bind_quiet fun r₃ _ hr₃ => ?_
    rw [← hr₃]
    exact .send _
  by_cases hfailed : report.phase = "Failed"
  · have hne : report.phase ≠ "Pending" := by
      rw [hfailed]
      decide
    simp only [if_neg hrunning, if_neg hsucceeded, if_pos hfailed, if_neg hne]
    exact .send _
  by_cases hunknown : report.phase = "Unknown"
  · have hne : report.phase ≠ "Pending" := by
      rw [hunknown]
      decide
    simp only [if_neg hrunning, if_neg hsucceeded, if_neg hfailed, if_pos hunknown, if_neg hne]
    refine (Emits.warn _).bind_quiet fun r₂ _ hr₂ => ?_
    rw [← hr₂]
    exact .send _
  by_cases hpending : report.phase = "Pending"
  · simp only [if_neg hrunning, if_neg hsucceeded, if_neg hfailed, if_neg hunknown, if_pos hpending]
    exact .pure ()
  · simp only [if_neg hrunning, if_neg hsucceeded, if_neg hfailed, if_neg hunknown, if_neg hpending]
    refine (Emits.warn _).bind_quiet fun r₂ _ hr₂ => ?_
    rw [← hr₂]
    exact .send _

/-- `apply_pod` does the effect of its pod. -/
theorem applyPod_emits (r : KubernetesDiscoveryRuntime) (pod : Pod) :
    Emits (applyPod pod) r
      ((pod.effect r.knownPodUids).map fun (known, events) => ((), known, events)) := by
  unfold applyPod Pod.effect
  cases pod.report with
  | none => exact .pure ()
  | some report =>
    simp only [Report.effect, Report.adds]
    have hparse := parseAddress_emits r report
    cases haddress : parseIpAddr report.address with
    | none =>
      rw [haddress] at hparse
      exact hparse.bind_none
    | some address =>
      rw [haddress] at hparse
      refine hparse.bind_quiet fun r₁ _ hr₁ => Emits.get.bind_quiet fun r₂ _ _ =>
        (Emits.setKnown _).bind_quiet fun r₃ _ hr₃ => ?_
      rw [hr₁] at hr₃ ⊢
      by_cases hknown : report.uid ∈ r.knownPodUids
      · simp only [hknown, not_true_eq_false, if_false]
        have hfollow := followPhase_emits r₃ report
        rw [hr₃] at hfollow
        rw [Finset.insert_eq_of_mem hknown] at hfollow ⊢
        exact hfollow
      · simp only [hknown, not_false_eq_true, if_true]
        have hdiscover := discoverServices_emits r₃ report haddress
        cases hadds : report.announcement with
        | none =>
          rw [hadds] at hdiscover
          exact hdiscover.bind_none
        | some adds =>
          rw [hadds] at hdiscover
          refine hdiscover.bind (some ((), _, report.phaseEvents)) fun r₄ _ hr₄ => ?_
          have hfollow := followPhase_emits r₄ report
          rw [hr₄, hr₃, Finset.erase_insert_eq_erase] at hfollow
          exact hfollow

theorem presentUids_cons_some {pod : Pod} {uid : String} (h : pod.metadata.uid = some uid)
    (pods : List Pod) : presentUids (pod :: pods) = uid :: presentUids pods := by
  simp [presentUids, h]

theorem presentUids_cons_none {pod : Pod} (h : pod.metadata.uid = none) (pods : List Pod) :
    presentUids (pod :: pods) = presentUids pods := by
  simp [presentUids, h]

theorem listedUids_cons_some {pod : Pod} {uid : String} (h : pod.metadata.uid = some uid)
    (pods : List Pod) : listedUids (pod :: pods) = insert uid (listedUids pods) := by
  rw [listedUids, presentUids_cons_some h, List.toFinset_cons]
  rfl

theorem listedUids_cons_none {pod : Pod} (h : pod.metadata.uid = none) (pods : List Pod) :
    listedUids (pod :: pods) = listedUids pods := by
  rw [listedUids, presentUids_cons_none h]
  rfl

theorem applyPods_emits (r : KubernetesDiscoveryRuntime) (current : Finset String)
    (pods : List Pod) :
    Emits (applyPods current pods) r
      ((applyAll r.knownPodUids pods).map fun (known, events) =>
        (current ∪ listedUids pods, known, events)) := by
  induction pods generalizing r current with
  | nil =>
    simp only [applyPods, applyAll, listedUids, presentUids, List.filterMap_nil, List.toFinset_nil,
      Finset.union_empty]
    exact .pure current
  | cons pod pods ih =>
    cases huid : pod.metadata.uid with
    | none =>
      simp only [applyPods, applyAll, huid]
      rw [listedUids_cons_none huid]
      exact ih r current
    | some uid =>
      simp only [applyPods, applyAll, huid]
      rw [listedUids_cons_some huid, Finset.union_insert, ← Finset.insert_union]
      have hfirst := applyPod_emits r pod
      cases hpod : pod.effect r.knownPodUids with
      | none =>
        rw [hpod] at hfirst
        exact hfirst.bind_none
      | some effect =>
        obtain ⟨known, events⟩ := effect
        rw [hpod] at hfirst
        have hrest := hfirst.bind (f := fun _ => applyPods (insert uid current) pods) _
          fun r₁ _ hr₁ => hr₁ ▸ ih r₁ (insert uid current)
        cases hpods : applyAll known pods with
        | none =>
          rw [hpods] at hrest
          simpa [hpods] using hrest
        | some rest =>
          rw [hpods] at hrest
          simpa [hpods] using hrest

theorem deleteUnknown_emits (r : KubernetesDiscoveryRuntime) (uids : List String) :
    Emits (deleteUnknown uids) r (some ((), r.knownPodUids,
      (uids.filter (· ∉ r.knownPodUids)).map .delete)) := by
  induction uids generalizing r with
  | nil => exact .pure ()
  | cons uid uids ih =>
    refine Emits.get.bind_quiet fun r₁ _ hr₁ => ?_
    rw [← hr₁]
    by_cases huid : uid ∈ r₁.knownPodUids
    · rw [List.filter_cons_of_neg (by simpa using huid), if_neg (by simpa using huid)]
      exact ih r₁
    · rw [List.filter_cons_of_pos (by simpa using huid), if_pos huid]
      refine (Emits.send _).bind (some ((), _, _)) fun r₂ _ hr₂ => ?_
      rw [← hr₂]
      exact ih r₂

/-- `handle_pod_event` does the effect of its event. -/
theorem handlePodEvent_emits (order : IterOrder String) (r : KubernetesDiscoveryRuntime)
    (event : PodEvent) :
    Emits (handlePodEvent order event) r
      ((event.effect order r.knownPodUids).map fun (known, events) => ((), known, events)) := by
  cases event with
  | applied pod =>
    simp only [handlePodEvent, PodEvent.effect]
    split
    · exact applyPod_emits r pod
    · exact .pure ()
  | deleted pod =>
    cases huid : pod.metadata.uid with
    | none =>
      simp only [handlePodEvent, PodEvent.effect, huid]
      refine Emits.get.bind_quiet fun r₁ _ hr₁ => ?_
      rw [← hr₁]
      exact .warn _
    | some uid =>
      simp only [handlePodEvent, PodEvent.effect, huid]
      refine Emits.get.bind_quiet fun r₁ _ _ => (Emits.setKnown _).bind_quiet fun r₂ _ hr₂ => ?_
      rw [Option.map_some, ← hr₂]
      exact .send _
  | restarted pods =>
    simp only [handlePodEvent, PodEvent.effect]
    have hloop := applyPods_emits r ∅ pods
    rw [Finset.empty_union] at hloop
    cases hall : applyAll r.knownPodUids pods with
    | none =>
      rw [hall] at hloop
      exact hloop.bind_none
    | some effect =>
      obtain ⟨old, events⟩ := effect
      rw [hall] at hloop
      refine hloop.bind (some ((), _, _)) fun r₁ _ hr₁ => Emits.get.bind_quiet fun r₂ _ _ =>
        (Emits.setKnown _).bind_quiet fun r₃ _ hr₃ => ?_
      have hdelete := deleteUnknown_emits r₃ (order.visit r₁.knownPodUids)
      rw [hr₃, hr₁] at hdelete
      rw [hr₁]
      exact hdelete

end Parts

end StateProxy.Kubernetes
