import StateProxy.Kubernetes.Effect

/-! What the discovery task has done when it stops at malformed data.  `Rejects` is the counterpart of
`Emits` for the errors of a program, those of a closed channel apart: the events sent before the error
stay sent, and the uids known before it stay known. -/

namespace StateProxy.Kubernetes

open Backend Net ProofKit KubernetesDiscoveryRuntime

/-- An error for another reason than a closed channel: the reason comes behind the contexts. -/
def IsRejection (e : Error) : Prop :=
  e.getLast? ≠ some "channel closed"

theorem isRejection_cons {context : String} (h : context ≠ "channel closed") (e : Error) :
    IsRejection (context :: e) ↔ IsRejection e := by
  unfold IsRejection
  cases e with
  | nil => simp [h]
  | cons message e => rw [List.getLast?_cons_cons]

section Rules

variable {α β : Type}

/-- When `x` runs from `r` on, it stops with an error, and the task then knows `known` and has sent
`events`. -/
def StopsAfter (x : RuntimeM α) (r : KubernetesDiscoveryRuntime) (known : Finset String)
    (events : List EndpointEvent) : Prop :=
  ∃ e r', x r = .error e r' ∧ r'.knownPodUids = known ∧
    r'.sender = ⟨r.sender.sent ++ events, none⟩

/-- When `x` runs from `r` on, it rejects its data if the events before the error can be sent, and then
it has sent these and knows the uids of the outcome; without an outcome only a closed channel stops
it. -/
def Rejects (x : RuntimeM α) (r : KubernetesDiscoveryRuntime) :
    Option (Finset String × List EndpointEvent) → Prop
  | none => ∀ e r', x r = .error e r' → ¬ IsRejection e
  | some (known, events) =>
    (∀ e r', x r = .error e r' → IsRejection e → r'.knownPodUids = known ∧
      r.sender.sendAll events = some r'.sender) ∧
    ∀ sender, r.sender.sendAll events = some sender → ∃ e r', x r = .error e r' ∧ IsRejection e

variable {x : RuntimeM α} {f : α → RuntimeM β} {r : KubernetesDiscoveryRuntime} {a : α}
  {known : Finset String} {events : List EndpointEvent}
  {outcome : Option (Finset String × List EndpointEvent)}

namespace Rejects

theorem of_ok {r' : KubernetesDiscoveryRuntime} (h : x r = .ok a r') : Rejects x r none := by
  intro e r'' herror
  rw [h] at herror
  cases herror

theorem pure (a : α) : Rejects (Pure.pure a) r none :=
  of_ok rfl

theorem get : Rejects get r none :=
  of_ok rfl

theorem warn (line : String) : Rejects (warn line) r none :=
  of_ok rfl

theorem setKnown (uids : Finset String) : Rejects (setKnown uids) r none :=
  of_ok rfl

theorem send (event : EndpointEvent) : Rejects (send event) r none := by
  intro e r' h
  unfold KubernetesDiscoveryRuntime.send at h
  split at h
  · cases h
    exact fun hrejection => hrejection rfl
  · cases h

theorem throw {e : Error} (h : IsRejection e) :
    Rejects (throw e : RuntimeM α) r (some (r.knownPodUids, [])) := by
  refine ⟨fun e' r' herror _ => ?_, fun _ _ => ⟨e, r, rfl, h⟩⟩
  cases herror
  exact ⟨rfl, rfl⟩

/-- The rule of a sequence whose first part does not return. -/
theorem bind_left (hx : Rejects x r outcome) (hstops : Emits x r none) :
    Rejects (x >>= f) r outcome := by
  have herror : ∀ e r', (x >>= f) r = .error e r' ↔ x r = .error e r' := by
    intro e r'
    rw [bind_error, or_iff_left]
    rintro ⟨a, r₁, hok, -⟩
    exact hstops a r₁ hok
  cases outcome with
  | none => exact fun e r' h => hx e r' ((herror e r').mp h)
  | some outcome =>
    refine ⟨fun e r' h => hx.1 e r' ((herror e r').mp h), fun sender h => ?_⟩
    obtain ⟨e, r', hfirst, hrejection⟩ := hx.2 sender h
    exact ⟨e, r', (herror e r').mpr hfirst, hrejection⟩

/-- The rule of a sequence whose second part rejects nothing. -/
theorem bind_right (hx : Rejects x r outcome) (hf : ∀ a r₁, Rejects (f a) r₁ none) :
    Rejects (x >>= f) r outcome := by
  have hfirst : ∀ e r', (x >>= f) r = .error e r' → IsRejection e → x r = .error e r' := by
    intro e r' h hrejection
    rcases bind_error.mp h with hfirst | ⟨a, r₁, -, hsecond⟩
    · exact hfirst
    · exact (hf a r₁ e r' hsecond hrejection).elim
  cases outcome with
  | none => exact fun e r' h hrejection => hx e r' (hfirst e r' h hrejection) hrejection
  | some outcome =>
    refine ⟨fun e r' h hrejection => hx.1 e r' (hfirst e r' h hrejection) hrejection,
      fun sender h => ?_⟩
    obtain ⟨e, r', herror, hrejection⟩ := hx.2 sender h
    exact ⟨e, r', bind_error.mpr (.inl herror), hrejection⟩

/-- The rule of a sequence whose first part rejects nothing. -/
theorem bind (outcome : Option (Finset String × List EndpointEvent)) (hx : Rejects x r none)
    (hreturns : Emits x r (some (a, known, events)))
    (hf : ∀ r₁, r₁.knownPodUids = known → Rejects (f a) r₁ outcome) :
    Rejects (x >>= f) r (outcome.map fun (known', more) => (known', events ++ more)) := by
  have hsecond : ∀ e r', (x >>= f) r = .error e r' → IsRejection e →
      ∃ r₁, r₁.knownPodUids = known ∧ r.sender.sendAll events = some r₁.sender ∧
        f a r₁ = .error e r' := by
    intro e r' h hrejection
    rcases bind_error.mp h with hfirst | ⟨a', r₁, hok, hsecond⟩
    · exact (hx e r' hfirst hrejection).elim
    · obtain ⟨rfl, -, hknown, hsent⟩ := hreturns.1 a' r₁ hok
      exact ⟨r₁, hknown, hsent, hsecond⟩
  cases outcome with
  | none =>
    intro e r' h hrejection
    obtain ⟨r₁, hknown, -, herror⟩ := hsecond e r' h hrejection
    exact hf r₁ hknown e r' herror hrejection
  | some outcome =>
    obtain ⟨known', more⟩ := outcome
    refine ⟨fun e r' h hrejection => ?_, fun sender h => ?_⟩
    · obtain ⟨r₁, hknown, hsent, herror⟩ := hsecond e r' h hrejection
      obtain ⟨hknown', hmore⟩ := (hf r₁ hknown).1 e r' herror hrejection
      exact ⟨hknown', by rw [Sender.sendAll_append, hsent]; exact hmore⟩
    · rw [Sender.sendAll_append] at h
      obtain ⟨sender₁, hsent, hmore⟩ := Option.bind_eq_some_iff.mp h
      obtain ⟨a', r₁, hok⟩ := hreturns.2 sender₁ hsent
      obtain ⟨rfl, -, hknown, hsent'⟩ := hreturns.1 a' r₁ hok
      rw [hsent] at hsent'
      cases hsent'
      obtain ⟨e, r', herror, hrejection⟩ := (hf r₁ hknown).2 sender hmore
      exact ⟨e, r', bind_error.mpr (.inr ⟨a', r₁, hok, herror⟩), hrejection⟩

/-- The rule of a sequence whose first part rejects nothing and sends nothing. -/
theorem bind_quiet (hx : Rejects x r none) (hreturns : Emits x r (some (a, known, [])))
    (hf : ∀ r₁, r₁.knownPodUids = known → Rejects (f a) r₁ outcome) :
    Rejects (x >>= f) r outcome := by
  have h := bind outcome hx hreturns hf
  cases outcome with
  | none => exact h
  | some outcome => exact h

theorem withContext {context : String} (hcontext : context ≠ "channel closed")
    (hx : Rejects x r outcome) :
    Rejects (KubernetesDiscoveryRuntime.withContext context x) r outcome := by
  have hinner : ∀ e r', KubernetesDiscoveryRuntime.withContext context x r = .error e r' →
      IsRejection e → ∃ e', x r = .error e' r' ∧ IsRejection e' := by
    intro e r' h hrejection
    unfold KubernetesDiscoveryRuntime.withContext at h
    split at h
    · cases h
    · rename_i e' r'' herror
      cases h
      exact ⟨e', herror, (isRejection_cons hcontext e').mp hrejection⟩
  cases outcome with
  | none =>
    intro e r' h hrejection
    obtain ⟨e', herror, hrejection'⟩ := hinner e r' h hrejection
    exact hx e' r' herror hrejection'
  | some outcome =>
    refine ⟨fun e r' h hrejection => ?_, fun sender h => ?_⟩
    · obtain ⟨e', herror, hrejection'⟩ := hinner e r' h hrejection
      exact hx.1 e' r' herror hrejection'
    · obtain ⟨e, r', herror, hrejection⟩ := hx.2 sender h
      refine ⟨context :: e, r', ?_, (isRejection_cons hcontext e).mpr hrejection⟩
      unfold KubernetesDiscoveryRuntime.withContext
      rw [herror]

/-- While the receiver stays, a program that rejects its data stops after its events. -/
theorem stopsAfter (hx : Rejects x r (some (known, events))) (hstays : r.sender.remaining = none) :
    StopsAfter x r known events := by
  have hsend := Sender.sendAll_of_stays hstays events
  obtain ⟨e, r', herror, hrejection⟩ := hx.2 _ hsend
  obtain ⟨hknown, hsent⟩ := hx.1 e r' herror hrejection
  exact ⟨e, r', herror, hknown, Option.some.inj (hsent.symm.trans hsend)⟩

end Rejects

end Rules

/-- The outcome of a part that rejects its data at once unless it can read it. -/
def rejection {α : Type} (known : Finset String) :
    Option α → Option (Finset String × List EndpointEvent)
  | none => some (known, [])
  | some _ => none

section Parts

theorem readU16_error {n : Nat} {text : List Char} {message : String}
    (h : readU16 n text = .error message) : message ≠ "channel closed" := by
  induction text generalizing n with
  | nil => cases h
  | cons c text ih =>
    unfold readU16 at h
    split at h
    · cases h
      decide
    · split at h
      · exact ih h
      · cases h
        decide

theorem parseU16_error {text message : String} (h : parseU16 text = .error message) :
    message ≠ "channel closed" := by
  unfold parseU16 at h
  split at h
  · cases h
    decide
  · cases h
    decide
  · exact readU16_error h
  · exact readU16_error h

theorem parsePort_rejects (r : KubernetesDiscoveryRuntime) (port : String) :
    Rejects (parsePort port) r (rejection r.knownPodUids (parseU16 port).toOption) := by
  unfold parsePort
  cases hport : parseU16 port with
  | error message =>
    have hmessage := parseU16_error hport
    exact .throw fun h => hmessage (Option.some.inj h)
  | ok port => exact .pure port

theorem parseAddress_rejects (r : KubernetesDiscoveryRuntime) (report : Report) :
    Rejects (parseAddress report) r
      (rejection r.knownPodUids (parseIpAddr report.address)) := by
  refine Rejects.get.bind_quiet Emits.get fun r₁ hknown => ?_
  dsimp only
  rw [← hknown]
  cases parseIpAddr report.address with
  | none =>
    refine .throw fun h => ?_
    have hreason : "invalid IP address syntax" = "channel closed" := Option.some.inj h
    revert hreason
    decide
  | some address => exact .pure address

/-- A service string that has no `Add` is rejected before anything is sent. -/
theorem sendParts_rejects (r : KubernetesDiscoveryRuntime) (uid : String) (podAddress : IpAddr)
    (parts : List String) :
    Rejects (sendParts uid podAddress parts) r
      (rejection r.knownPodUids (partsEvent uid podAddress parts)) := by
  have hinvalid : IsRejection ["invalid service string"] := by
    unfold IsRejection
    decide
  rcases parts with _ | ⟨externalPort, _ | ⟨externalProtocol, _ | ⟨backendPort, _ | ⟨backendProtocol, rest⟩⟩⟩⟩
  · exact .throw hinvalid
  · exact .throw hinvalid
  · exact .throw hinvalid
  · exact .throw hinvalid
  · simp only [sendParts, partsEvent]
    have hexternal := parsePort_emits r externalPort
    have hrejects := parsePort_rejects r externalPort
    cases hport : (parseU16 externalPort).toOption with
    | none =>
      rw [hport] at hexternal hrejects
      exact hrejects.bind_left hexternal
    | some port =>
      rw [hport] at hexternal hrejects
      refine hrejects.bind_quiet hexternal fun r₁ hr₁ => ?_
      have hbackend := (parsePort_rejects r₁ backendPort).bind_right fun port' r₂ =>
        .send (r := r₂) (.add uid false port externalProtocol (.new podAddress port') backendProtocol)
      rw [hr₁] at hbackend
      cases hport' : (parseU16 backendPort).toOption with
      | none =>
        rw [hport'] at hbackend
        exact hbackend
      | some port' =>
        rw [hport'] at hbackend
        exact hbackend

theorem sendServiceFromString_rejects (r : KubernetesDiscoveryRuntime)
    (serviceString uid podName : String) (podAddress : IpAddr) :
    Rejects (sendServiceFromString serviceString uid podName podAddress) r
      (rejection r.knownPodUids (serviceEvent uid podAddress serviceString)) := by
  refine Rejects.get.bind_quiet Emits.get fun r₁ hr₁ => ?_
  dsimp only
  rw [← hr₁]
  split
  · refine (Rejects.warn _).bind_quiet (Emits.warn _) fun r₂ hr₂ => ?_
    rw [← hr₂]
    exact sendParts_rejects r₂ uid podAddress _
  · exact sendParts_rejects r₁ uid podAddress _

/-- The context of a service string is not the message of a closed channel. -/
theorem serviceContext_ne (text : String) :
    "while handling service string '" ++ text ≠ "channel closed" := by
  intro h
  have hhead := congrArg (fun s => s.toList.head?) h
  simp at hhead

/-- The loop of `discover_services` rejects the first service string that has no `Add`. -/
theorem sendServices_rejects (r : KubernetesDiscoveryRuntime) (uid podName : String)
    (podAddress : IpAddr) (serviceStrings : List String) :
    Rejects (sendServices uid podName podAddress serviceStrings) r
      ((beforeFailure (serviceEvent uid podAddress) serviceStrings).map fun events =>
        (r.knownPodUids, events)) := by
  induction serviceStrings generalizing r with
  | nil => exact .pure ()
  | cons serviceString rest ih =>
    refine Rejects.get.bind_quiet Emits.get fun r₁ hr₁ => ?_
    dsimp only [beforeFailure]
    rw [← hr₁]
    have hfirst := sendServiceFromString_emits r₁ serviceString uid podName podAddress
    have hrejects := sendServiceFromString_rejects r₁ serviceString uid podName podAddress
    have hcontext : s!"while handling service string '{serviceString}' for pod {podName} ({uid}) from Kubernetes cluster: {r.name}" ≠ "channel closed" := by
      simp only [String.append_assoc]
      exact serviceContext_ne _
    cases hevent : serviceEvent uid podAddress serviceString with
    | none =>
      rw [hevent] at hfirst hrejects
      exact (hrejects.withContext hcontext).bind_left (hfirst.withContext _)
    | some event =>
      rw [hevent] at hfirst hrejects
      have hboth : ((beforeFailure (serviceEvent uid podAddress) rest).map fun events =>
            (r₁.knownPodUids, events)).map (fun (known, more) => (known, [event] ++ more)) =
          ((beforeFailure (serviceEvent uid podAddress) rest).map (event :: ·)).map fun events =>
            (r₁.knownPodUids, events) := by
        cases beforeFailure (serviceEvent uid podAddress) rest <;> rfl
      dsimp only
      rw [← hboth]
      refine (hrejects.withContext hcontext).bind _ (hfirst.withContext _) fun r₂ hr₂ => ?_
      rw [← hr₂]
      exact ih r₂

theorem discoverServices_rejects (r : KubernetesDiscoveryRuntime)
    (annotations : HashMap String String) (uid podName : String) (podAddress : IpAddr) :
    Rejects (discoverServices annotations uid podName podAddress) r
      ((beforeFailure (serviceEvent uid podAddress)
        (((annotations.lookup servicesAnnotation).map (split ',')).getD [])).map fun events =>
          (r.knownPodUids, events)) := by
  unfold discoverServices
  refine (sendServices_rejects r uid podName podAddress _).bind_right fun _ r₁ => ?_
  split
  · exact .warn _
  · exact .pure ()

/-- Following the phase of a pod rejects nothing. -/
theorem followPhase_rejects (r : KubernetesDiscoveryRuntime) (report : Report) :
    Rejects (followPhase report) r none := by
  refine Rejects.get.bind_quiet Emits.get fun r₁ _ => ?_
  dsimp only
  split_ifs
  · exact .send _
  · exact Rejects.get.bind_quiet Emits.get fun r₂ _ =>
      (Rejects.setKnown _).bind_quiet (Emits.setKnown _) fun r₃ _ => .send _
  · exact .send _
  · exact (Rejects.warn _).bind_quiet (Emits.warn _) fun r₂ _ => .send _
  · exact .pure ()
  · exact (Rejects.warn _).bind_quiet (Emits.warn _) fun r₂ _ => .send _

/-- What the task knows and has sent when it rejects a report. -/
def Report.rejected (report : Report) (known : Finset String) :
    Option (Finset String × List EndpointEvent) :=
  match parseIpAddr report.address with
  | none => some (known, [])
  | some address =>
    if report.uid ∈ known then none
    else (beforeFailure (serviceEvent report.uid address) report.serviceStrings).map fun adds =>
      (insert report.uid known, adds)

/-- A pod is rejected for its address before the task knows it, or for its services after that. -/
theorem applyPod_rejects (r : KubernetesDiscoveryRuntime) (pod : Pod) :
    Rejects (applyPod pod) r (pod.report.bind fun report => report.rejected r.knownPodUids) := by
  unfold applyPod
  cases pod.report with
  | none => exact .pure ()
  | some report =>
    simp only [Option.bind_some, Report.rejected]
    have hparse := parseAddress_emits r report
    have hrejects := parseAddress_rejects r report
    cases haddress : parseIpAddr report.address with
    | none =>
      rw [haddress] at hparse hrejects
      exact hrejects.bind_left hparse
    | some address =>
      rw [haddress] at hparse hrejects
      refine hrejects.bind_quiet hparse fun r₁ hr₁ => Rejects.get.bind_quiet Emits.get fun r₂ _ =>
        (Rejects.setKnown _).bind_quiet (Emits.setKnown _) fun r₃ hr₃ => ?_
      rw [hr₁] at hr₃ ⊢
      by_cases hknown : report.uid ∈ r.knownPodUids
      · simp only [hknown, not_true_eq_false, if_false, if_true]
        exact followPhase_rejects r₃ report
      · simp only [hknown, not_false_eq_true, if_true, if_false]
        rw [← hr₃]
        exact (discoverServices_rejects r₃ report.annotations report.uid report.name address).bind_right
          fun _ r₄ => followPhase_rejects r₄ report

end Parts

end StateProxy.Kubernetes
