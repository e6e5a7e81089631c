import StateProxy.Kubernetes.Stop

/-! The grammar of the services annotation, and that `discover_services` accepts exactly its texts.
The grammar is stated by concatenation; the program splits the annotation at commas and each service
at colons, so the proofs go through the fact that splitting and joining undo each other. -/

namespace StateProxy.Kubernetes

open Backend Net ProofKit KubernetesDiscoveryRuntime

/-- A text without separators. -/
def IsText (text : String) : Prop :=
  ',' ∉ text.toList ∧ ':' ∉ text.toList

def IsAsciiDigit (c : Char) : Prop :=
  '0' ≤ c ∧ c ≤ '9'

instance (c : Char) : Decidable (IsAsciiDigit c) :=
  inferInstanceAs (Decidable ('0' ≤ c ∧ c ≤ '9'))

/-- The number that decimal digits denote after those of `n`. -/
def decimalFrom (n : Nat) (text : List Char) : Nat :=
  text.foldl (fun n c => n * 10 + (c.toNat - '0'.toNat)) n

theorem decimalFrom_cons (n : Nat) (c : Char) (text : List Char) :
    decimalFrom n (c :: text) = decimalFrom (n * 10 + (c.toNat - '0'.toNat)) text :=
  List.foldl_cons ..

/-- An optional plus sign and decimal digits, which denote the port. -/
def DenotesPort (text : String) (port : UInt16) : Prop :=
  ∃ sign digits, text = sign ++ String.ofList digits ∧ (sign = "" ∨ sign = "+") ∧ digits ≠ [] ∧
    (∀ c ∈ digits, IsAsciiDigit c) ∧ decimalFrom 0 digits = port.toNat

/-- A service as the annotation of a pod declares it. -/
structure ServiceDeclaration where
  externalPort : UInt16
  externalProtocol : String
  backendPort : UInt16
  backendProtocol : String
deriving DecidableEq

/-- The `Add` of a declared service. -/
def ServiceDeclaration.add (uid : String) (podAddress : IpAddr) (service : ServiceDeclaration) :
    EndpointEvent :=
  .add uid false service.externalPort service.externalProtocol
    (.new podAddress service.backendPort) service.backendProtocol

/-- A port, a protocol, a port and a protocol, each after a colon but the first, and any number of
further texts after colons. -/
def DenotesService (text : String) (service : ServiceDeclaration) : Prop :=
  ∃ externalPort backendPort, ∃ garbage : List String, DenotesPort externalPort service.externalPort ∧
    IsText service.externalProtocol ∧ DenotesPort backendPort service.backendPort ∧
    IsText service.backendProtocol ∧ (∀ more ∈ garbage, IsText more) ∧
    text = externalPort ++ ":" ++ service.externalProtocol ++ ":" ++ backendPort ++ ":" ++
      service.backendProtocol ++ String.join (garbage.map (":" ++ ·))

/-- One or more services joined by commas. -/
def DenotesServices (text : String) (services : List ServiceDeclaration) : Prop :=
  ∃ texts, texts ≠ [] ∧ List.Forall₂ DenotesService texts services ∧
    text = ",".intercalate texts

/-- A service in decimal. -/
def ServiceDeclaration.render (service : ServiceDeclaration) : String :=
  String.ofList (numeral 10 service.externalPort.toNat) ++ ":" ++ service.externalProtocol ++ ":" ++
    String.ofList (numeral 10 service.backendPort.toNat) ++ ":" ++ service.backendProtocol

/-! ### Ports -/

theorem toDigit_ten {c : Char} {d : Nat} :
    toDigit 10 c = some d ↔ IsAsciiDigit c ∧ d = c.toNat - '0'.toNat := by
  unfold toDigit IsAsciiDigit
  rw [Option.filter_eq_some_iff]
  have hzero : '0'.toNat = 48 := rfl
  have hnine : c ≤ '9' → c.toNat ≤ 57 := fun h => h
  by_cases hdigit : '0' ≤ c ∧ c ≤ '9'
  · have hbound := hnine hdigit.2
    rw [if_pos hdigit]
    simp only [Option.some.injEq, decide_eq_true_eq, hdigit, and_self, true_and]
    constructor
    · rintro ⟨rfl, -⟩
      rfl
    · rintro rfl
      exact ⟨rfl, by omega⟩
  · simp only [hdigit, if_false, false_and, iff_false, decide_eq_true_eq, not_and]
    split_ifs <;> simp <;> omega

theorem le_decimalFrom (n : Nat) (text : List Char) : n ≤ decimalFrom n text := by
  induction text generalizing n with
  | nil => exact le_refl n
  | cons c text ih =>
    have hrest := ih (n * 10 + (c.toNat - '0'.toNat))
    rw [decimalFrom_cons]
    omega

/-- The loop of `u16::from_str` reads exactly the digits of a port. -/
theorem readU16_ok {n : Nat} (hn : n < 65536) {text : List Char} {port : UInt16} :
    readU16 n text = .ok port ↔
      (∀ c ∈ text, IsAsciiDigit c) ∧ decimalFrom n text = port.toNat := by
  induction text generalizing n with
  | nil =>
    have hround : (UInt16.ofNat n).toNat = n := UInt16.toNat_ofNat_of_lt' hn
    simp only [readU16, List.not_mem_nil, false_implies, implies_true, true_and]
    constructor
    · intro h
      cases h
      exact hround.symm
    · intro h
      change n = port.toNat at h
      rw [h, UInt16.ofNat_toNat]
  | cons c text ih =>
    rw [decimalFrom_cons, List.forall_mem_cons]
    simp only [readU16]
    cases hdigit : toDigit 10 c with
    | none =>
      have hnot : ¬ IsAsciiDigit c := by
        intro h
        rw [toDigit_ten.mpr ⟨h, rfl⟩] at hdigit
        cases hdigit
      simp [hnot]
    | some digit =>
      obtain ⟨hc, rfl⟩ := toDigit_ten.mp hdigit
      by_cases hfits : n * 10 + (c.toNat - '0'.toNat) < 65536
      · simp only [hfits, if_true, hc, true_and]
        exact ih hfits
      · have hlarge := le_decimalFrom (n * 10 + (c.toNat - '0'.toNat)) text
        have hport := port.toNat_lt
        simp only [hfits, if_false, reduceCtorEq, false_iff, not_and]
        intro _ heq
        omega

/-- `u16::from_str` accepts exactly the texts that denote a port. -/
theorem parseU16_ok {text : String} {port : UInt16} :
    parseU16 text = .ok port ↔ DenotesPort text port := by
  have hread : ∀ digits, readU16 0 digits = .ok port ↔ _ := fun digits => readU16_ok (by decide)
  have hplus : ¬ IsAsciiDigit '+' := by decide
  constructor
  · intro h
    unfold parseU16 at h
    split at h
    · cases h
    · cases h
    · rename_i digits hne htext
      obtain ⟨hdigits, hvalue⟩ := (hread digits).mp h
      refine ⟨"+", digits, ?_, .inr rfl, hne, hdigits, hvalue⟩
      exact String.toList_inj.mp (by simp [htext])
    · rename_i digits hne _ _
      obtain ⟨hdigits, hvalue⟩ := (hread _).mp h
      exact ⟨"", text.toList, by simp, .inl rfl, hne, hdigits, hvalue⟩
  · rintro ⟨sign, digits, rfl, hsign, hne, hdigits, hvalue⟩
    have hok := (hread digits).mpr ⟨hdigits, hvalue⟩
    obtain ⟨c, digits, rfl⟩ := List.exists_cons_of_ne_nil hne
    have hc : c ≠ '+' := by
      rintro rfl
      exact hplus (hdigits _ List.mem_cons_self)
    rcases hsign with rfl | rfl
    · unfold parseU16
      simp only [String.empty_append, String.toList_ofList]
      split <;> simp_all
    · unfold parseU16
      simp only [String.toList_append, String.toList_ofList]
      exact hok

theorem DenotesPort.isText {text : String} {port : UInt16} (h : DenotesPort text port) :
    IsText text := by
  obtain ⟨sign, digits, rfl, hsign, -, hdigits, -⟩ := h
  have hnot : ∀ c, ¬ IsAsciiDigit c → c ∉ sign.toList → c ∉ (sign ++ String.ofList digits).toList := by
    intro c hc hsign hmem
    rw [String.toList_append, String.toList_ofList] at hmem
    exact hc (hdigits c ((List.mem_append.mp hmem).resolve_left hsign))
  rcases hsign with rfl | rfl
  · exact ⟨hnot ',' (by decide) (by decide), hnot ':' (by decide) (by decide)⟩
  · exact ⟨hnot ',' (by decide) (by decide), hnot ':' (by decide) (by decide)⟩

/-- The decimal text of a port denotes it. -/
theorem denotesPort_numeral (port : UInt16) :
    DenotesPort (String.ofList (numeral 10 port.toNat)) port := by
  have hdigit : ∀ d < 10, IsAsciiDigit d.digitChar ∧ d.digitChar.toNat - '0'.toNat = d := by decide
  refine ⟨"", numeral 10 port.toNat, by simp, .inl rfl, ?_, ?_, ?_⟩
  · simpa [numeral] using digits_ne_nil 10 port.toNat
  · intro c hc
    obtain ⟨d, hd, rfl⟩ := List.mem_map.mp hc
    exact (hdigit d (digits_lt (by decide) hd)).1
  · have hvalue : ∀ (ds : List Nat) (n : Nat), (∀ d ∈ ds, d < 10) →
        decimalFrom n (ds.map Nat.digitChar) = ds.foldl (fun n digit => n * 10 + digit) n := by
      intro ds
      induction ds with
      | nil => exact fun _ _ => rfl
      | cons d ds ih =>
        intro n hds
        have hd := (hdigit d (hds d List.mem_cons_self)).2
        rw [List.map_cons, decimalFrom_cons, hd, List.foldl_cons]
        exact ih _ fun d hmem => hds d (List.mem_cons_of_mem _ hmem)
    rw [numeral, hvalue _ _ fun d hmem => digits_lt (by decide) hmem]
    exact ofDigits_digits 10 port.toNat

/-! ### Splitting and joining -/

theorem intercalate_split (separator : Char) (text : String) :
    (String.singleton separator).intercalate (split separator text) = text := by
  rw [← String.toList_inj, String.toList_intercalate, split, List.map_map,
    String.toList_comp_ofList, List.map_id, String.toList_singleton]
  exact List.intercalate_splitOn separator

theorem split_intercalate {separator : Char} {texts : List String}
    (h : ∀ text ∈ texts, separator ∉ text.toList) (hne : texts ≠ []) :
    split separator ((String.singleton separator).intercalate texts) = texts := by
  have hlists : ∀ l ∈ texts.map String.toList, separator ∉ l := by
    intro l hl
    obtain ⟨text, hmem, rfl⟩ := List.mem_map.mp hl
    exact h text hmem
  rw [split, String.toList_intercalate, String.toList_singleton,
    List.splitOn_intercalate separator hlists (by simpa using hne), List.map_map,
    String.ofList_comp_toList, List.map_id]

/-- The parts of a list hold elements of it, and not the separator. -/
theorem of_mem_splitOn {α : Type} [DecidableEq α] {a c : α} {xs part : List α}
    (h : part ∈ xs.splitOn a) (hc : c ∈ part) : c ≠ a ∧ c ∈ xs := by
  induction xs generalizing part with
  | nil =>
    cases List.mem_singleton.mp h
    cases hc
  | cons x xs ih =>
    have hlater : ∀ {part}, part ∈ xs.splitOn a → c ∈ part → c ≠ a ∧ c ∈ x :: xs :=
      fun h hc => ⟨(ih h hc).1, List.mem_cons_of_mem _ (ih h hc).2⟩
    rw [List.splitOn_cons_eq_if_modifyHead] at h
    split at h
    · rcases List.mem_cons.mp h with rfl | h
      · cases hc
      · exact hlater h hc
    · rename_i hx
      obtain ⟨first, rest, hsplit⟩ := List.exists_cons_of_ne_nil (List.splitOn_ne_nil a xs)
      rw [hsplit] at hlater h
      rcases List.mem_cons.mp h with rfl | h
      · rcases List.mem_cons.mp hc with rfl | hc
        · exact ⟨by simpa using hx, List.mem_cons_self⟩
        · exact hlater List.mem_cons_self hc
      · exact hlater (List.mem_cons_of_mem _ h) hc

theorem of_mem_split {separator c : Char} {text part : String}
    (h : part ∈ split separator text) (hc : c ∈ part.toList) : c ≠ separator ∧ c ∈ text.toList := by
  obtain ⟨chars, hchars, rfl⟩ := List.mem_map.mp h
  rw [String.toList_ofList] at hc
  exact of_mem_splitOn hchars hc

theorem split_ne_nil (separator : Char) (text : String) : split separator text ≠ [] := by
  simp [split]

/-- Texts joined by colons: the first one, and each other one after a colon. -/
theorem intercalate_colon (first : String) (rest : List String) :
    ":".intercalate (first :: rest) = first ++ String.join (rest.map (":" ++ ·)) := by
  induction rest generalizing first with
  | nil => simp
  | cons second rest ih =>
    rw [String.intercalate_cons_cons, ih, List.map_cons, String.join_cons]
    simp [String.append_assoc]

/-! ### Services -/

/-- The parts of a text of the grammar. -/
theorem DenotesService.parts {text : String} {service : ServiceDeclaration}
    (h : DenotesService text service) : ∃ externalPort backendPort garbage,
      DenotesPort externalPort service.externalPort ∧ DenotesPort backendPort service.backendPort ∧
      split ':' text = externalPort :: service.externalProtocol :: backendPort ::
        service.backendProtocol :: garbage := by
  obtain ⟨externalPort, backendPort, garbage, hexternal, hprotocol, hbackend, hprotocol', hgarbage,
    rfl⟩ := h
  refine ⟨externalPort, backendPort, garbage, hexternal, hbackend, ?_⟩
  have hjoin := intercalate_colon externalPort (service.externalProtocol :: backendPort ::
    service.backendProtocol :: garbage)
  simp only [List.map_cons, String.join_cons, ← String.append_assoc] at hjoin
  rw [← hjoin]
  refine split_intercalate (fun part hpart => ?_) (List.cons_ne_nil _ _)
  simp only [List.mem_cons] at hpart
  rcases hpart with rfl | rfl | rfl | rfl | hpart
  · exact hexternal.isText.2
  · exact hprotocol.2
  · exact hbackend.isText.2
  · exact hprotocol'.2
  · exact (hgarbage part hpart).2

theorem DenotesService.no_comma {text : String} {service : ServiceDeclaration}
    (h : DenotesService text service) : ',' ∉ text.toList := by
  obtain ⟨externalPort, backendPort, garbage, hexternal, hprotocol, hbackend, hprotocol', hgarbage,
    rfl⟩ := h
  have hmore : ∀ more ∈ garbage, ',' ∉ more.toList := fun more hmem => (hgarbage more hmem).1
  simpa [hexternal.isText.1, hprotocol.1, hbackend.isText.1, hprotocol'.1] using hmore

theorem toOption_parseU16 {text : String} {port : UInt16} :
    (parseU16 text).toOption = some port ↔ DenotesPort text port := by
  rw [← parseU16_ok]
  cases parseU16 text <;> simp [Except.toOption]

/-- A service string without commas has an `Add` exactly when it is in the grammar, and then that of
the service it denotes. -/
theorem serviceEvent_eq_some {uid : String} {podAddress : IpAddr} {text : String}
    (hcomma : ',' ∉ text.toList) {event : EndpointEvent} :
    serviceEvent uid podAddress text = some event ↔
      ∃ service, DenotesService text service ∧ event = service.add uid podAddress := by
  constructor
  · intro h
    have htext := intercalate_split ':' text
    have hpart : ∀ part ∈ split ':' text, IsText part := fun part hmem =>
      ⟨fun hc => hcomma (of_mem_split hmem hc).2, fun hc => (of_mem_split hmem hc).1 rfl⟩
    unfold serviceEvent at h
    rcases hparts : split ':' text with
      _ | ⟨externalPort, _ | ⟨externalProtocol, _ | ⟨backendPort, _ | ⟨backendProtocol, garbage⟩⟩⟩⟩
    all_goals rw [hparts] at h htext hpart
    · cases h
    · cases h
    · cases h
    · cases h
    · obtain ⟨port₁, hport₁, h⟩ := Option.bind_eq_some_iff.mp h
      obtain ⟨port₂, hport₂, h⟩ := Option.bind_eq_some_iff.mp h
      cases h
      refine ⟨⟨port₁, externalProtocol, port₂, backendProtocol⟩, ⟨externalPort, backendPort, garbage,
        toOption_parseU16.mp hport₁, hpart _ (by simp), toOption_parseU16.mp hport₂,
        hpart _ (by simp), fun more hmem => hpart more (by simp [hmem]), ?_⟩, rfl⟩
      have hjoin := intercalate_colon externalPort (externalProtocol :: backendPort ::
        backendProtocol :: garbage)
      simp only [List.map_cons, String.join_cons, ← String.append_assoc] at hjoin
      exact htext.symm.trans hjoin
  · rintro ⟨service, hservice, rfl⟩
    obtain ⟨externalPort, backendPort, garbage, hexternal, hbackend, hsplit⟩ := hservice.parts
    simp only [serviceEvent, hsplit, partsEvent, toOption_parseU16.mpr hexternal,
      toOption_parseU16.mpr hbackend]
    rfl

/-! ### Annotations -/

theorem no_comma_of_mem_split {text part : String} (h : part ∈ split ',' text) :
    ',' ∉ part.toList :=
  fun hc => (of_mem_split h hc).1 rfl

/-- Service strings have `Add`s exactly when each is in the grammar. -/
theorem mapM_serviceEvent {uid : String} {podAddress : IpAddr} {texts : List String}
    (hcomma : ∀ text ∈ texts, ',' ∉ text.toList) {events : List EndpointEvent} :
    texts.mapM (serviceEvent uid podAddress) = some events ↔ ∃ services,
      List.Forall₂ DenotesService texts services ∧
      events = services.map (ServiceDeclaration.add uid podAddress) := by
  induction texts generalizing events with
  | nil =>
    rw [List.mapM_nil]
    constructor
    · intro h
      cases h
      exact ⟨[], .nil, rfl⟩
    · rintro ⟨services, hservices, rfl⟩
      cases hservices
      rfl
  | cons text texts ih =>
    have hrest := fun text hmem => hcomma text (List.mem_cons_of_mem _ hmem)
    have hfirst : ∀ {event}, serviceEvent uid podAddress text = some event ↔ _ :=
      serviceEvent_eq_some (hcomma text List.mem_cons_self)
    rw [List.mapM_cons]
    constructor
    · intro h
      obtain ⟨event, hevent, h⟩ := Option.bind_eq_some_iff.mp h
      obtain ⟨more, hmore, h⟩ := Option.bind_eq_some_iff.mp h
      cases h
      obtain ⟨service, hservice, rfl⟩ := hfirst.mp hevent
      obtain ⟨services, hservices, rfl⟩ := (ih hrest).mp hmore
      exact ⟨service :: services, .cons hservice hservices, rfl⟩
    · rintro ⟨services, hservices, rfl⟩
      cases hservices with
      | cons hservice hservices =>
        rw [hfirst.mpr ⟨_, hservice, rfl⟩, (ih hrest).mpr ⟨_, hservices, rfl⟩]
        rfl

/-- An annotation denotes the services that its parts denote. -/
theorem denotesServices_iff {text : String} {services : List ServiceDeclaration} :
    DenotesServices text services ↔ List.Forall₂ DenotesService (split ',' text) services := by
  constructor
  · rintro ⟨texts, hne, hservices, rfl⟩
    have hcomma : ∀ text ∈ texts, ',' ∉ text.toList := by
      clear hne
      induction hservices with
      | nil => simp
      | cons hservice _ ih => exact List.forall_mem_cons.mpr ⟨hservice.no_comma, ih⟩
    have hsplit : split ',' (",".intercalate texts) = texts := split_intercalate hcomma hne
    rw [hsplit]
    exact hservices
  · intro h
    exact ⟨split ',' text, split_ne_nil _ _, h, (intercalate_split ',' text).symm⟩

theorem ServiceDeclaration.add_injective (uid : String) (podAddress : IpAddr) :
    (ServiceDeclaration.add uid podAddress).Injective := by
  rintro ⟨p, q, b, c⟩ ⟨p', q', b', c'⟩ h
  unfold add at h
  cases podAddress <;> simp_all [SocketAddr.new]

/-- An annotation denotes at most one list of services. -/
theorem DenotesServices.unique {text : String} {services services' : List ServiceDeclaration}
    (h : DenotesServices text services) (h' : DenotesServices text services') :
    services = services' := by
  have hparts : ∀ part ∈ split ',' text, ',' ∉ part.toList := fun part => no_comma_of_mem_split
  have hadds : ∀ {services}, DenotesServices text services →
      (split ',' text).mapM (serviceEvent "" (.v4 ⟨0, 0, 0, 0⟩)) = some (services.map _) :=
    fun h => (mapM_serviceEvent hparts).mpr ⟨_, denotesServices_iff.mp h, rfl⟩
  have heq := Option.some.inj ((hadds h).symm.trans (hadds h'))
  exact (ServiceDeclaration.add_injective _ _).list_map heq

/-- The decimal text of a service denotes it. -/
theorem denotesService_render {service : ServiceDeclaration}
    (hexternal : IsText service.externalProtocol) (hbackend : IsText service.backendProtocol) :
    DenotesService service.render service :=
  ⟨_, _, [], denotesPort_numeral _, hexternal, denotesPort_numeral _, hbackend, by simp,
    by simp [ServiceDeclaration.render]⟩

theorem denotesServices_render {services : List ServiceDeclaration} (hne : services ≠ [])
    (htexts : ∀ service ∈ services, IsText service.externalProtocol ∧ IsText service.backendProtocol) :
    DenotesServices (",".intercalate (services.map ServiceDeclaration.render)) services := by
  refine ⟨services.map ServiceDeclaration.render, by simpa using hne, ?_, rfl⟩
  refine List.forall₂_map_left_iff.mpr (List.forall₂_same.mpr fun service hmem => ?_)
  exact denotesService_render (htexts service hmem).1 (htexts service hmem).2

/-- The `Add`s before the first part that is not in the grammar. -/
theorem beforeFailure_serviceEvent {uid : String} {podAddress : IpAddr} {text : String}
    {events : List EndpointEvent} :
    beforeFailure (serviceEvent uid podAddress) (split ',' text) = some events ↔
      ∃ before bad after services, split ',' text = before ++ bad :: after ∧
        List.Forall₂ DenotesService before services ∧ (¬ ∃ service, DenotesService bad service) ∧
        events = services.map (ServiceDeclaration.add uid podAddress) := by
  have hparts : ∀ part ∈ split ',' text, ',' ∉ part.toList := fun part => no_comma_of_mem_split
  rw [beforeFailure_eq_some]
  constructor
  · rintro ⟨before, bad, after, hsplit, hbefore, hbad⟩
    rw [hsplit] at hparts
    obtain ⟨services, hservices, rfl⟩ :=
      (mapM_serviceEvent fun part hmem => hparts part (List.mem_append_left _ hmem)).mp hbefore
    refine ⟨before, bad, after, services, hsplit, hservices, ?_, rfl⟩
    rintro ⟨service, hservice⟩
    rw [(serviceEvent_eq_some (hparts bad (by simp))).mpr ⟨service, hservice, rfl⟩] at hbad
    cases hbad
  · rintro ⟨before, bad, after, services, hsplit, hservices, hbad, rfl⟩
    rw [hsplit] at hparts
    refine ⟨before, bad, after, hsplit, ?_, ?_⟩
    · exact (mapM_serviceEvent fun part hmem => hparts part (List.mem_append_left _ hmem)).mpr
        ⟨services, hservices, rfl⟩
    · by_contra hsome
      obtain ⟨event, hevent⟩ := Option.ne_none_iff_exists'.mp hsome
      obtain ⟨service, hservice, -⟩ := (serviceEvent_eq_some (hparts bad (by simp))).mp hevent
      exact hbad ⟨service, hservice⟩

section Program

variable {r : KubernetesDiscoveryRuntime} {annotations : HashMap String String} {text : String}

theorem discoverServices_returns (hstays : r.sender.remaining = none)
    (htext : annotations.lookup servicesAnnotation = some text)
    {services : List ServiceDeclaration} (hservices : DenotesServices text services)
    (uid podName : String) (podAddress : IpAddr) :
    ∃ r', discoverServices annotations uid podName podAddress r = .ok () r' ∧
      r'.sender = ⟨r.sender.sent ++ services.map (ServiceDeclaration.add uid podAddress), none⟩ := by
  have hparts : ∀ part ∈ split ',' text, ',' ∉ part.toList := fun part => no_comma_of_mem_split
  have hadds : (split ',' text).mapM (serviceEvent uid podAddress) = some _ :=
    (mapM_serviceEvent hparts).mpr ⟨services, denotesServices_iff.mp hservices, rfl⟩
  have hloop := sendServices_emits r uid podName podAddress (split ',' text)
  rw [hadds] at hloop
  obtain ⟨r', hret, -, hsender⟩ := hloop.returns hstays
  refine ⟨r', ?_, hsender⟩
  simp only [discoverServices, htext, Option.map_some, Option.getD_some]
  rw [bind_of_ok hret, if_neg (split_ne_nil _ _)]
  rfl

theorem discoverServices_stops (hstays : r.sender.remaining = none)
    (htext : annotations.lookup servicesAnnotation = some text)
    (hnot : ¬ ∃ services, DenotesServices text services) (uid podName : String)
    (podAddress : IpAddr) :
    ∃ before bad after services, split ',' text = before ++ bad :: after ∧
      List.Forall₂ DenotesService before services ∧ (¬ ∃ service, DenotesService bad service) ∧
      StopsAfter (discoverServices annotations uid podName podAddress) r r.knownPodUids
        (services.map (ServiceDeclaration.add uid podAddress)) := by
  have hparts : ∀ part ∈ split ',' text, ',' ∉ part.toList := fun part => no_comma_of_mem_split
  have hrejects := discoverServices_rejects r annotations uid podName podAddress
  simp only [htext, Option.map_some, Option.getD_some] at hrejects
  cases hfailure : beforeFailure (serviceEvent uid podAddress) (split ',' text) with
  | none =>
    obtain ⟨events, hevents⟩ := beforeFailure_eq_none.mp hfailure
    obtain ⟨services, hservices, -⟩ := (mapM_serviceEvent hparts).mp hevents
    exact (hnot ⟨services, denotesServices_iff.mpr hservices⟩).elim
  | some events =>
    rw [hfailure] at hrejects
    obtain ⟨before, bad, after, services, hsplit, hservices, hbad, rfl⟩ :=
      beforeFailure_serviceEvent.mp hfailure
    exact ⟨before, bad, after, services, hsplit, hservices, hbad, hrejects.stopsAfter hstays⟩

end Program

/-- The parser of the services annotation accepts exactly its grammar.  On a text of the grammar it
sends one `Add` for each service, in order; on any other text it stops with an error after the `Add`s
of the services before the first part that is not in the grammar.  The decimal text of services is
read back as these services. -/
theorem annotation_parser_accepts_grammar (r : KubernetesDiscoveryRuntime)
    (hstays : r.sender.remaining = none) (annotations : HashMap String String) (text : String)
    (htext : annotations.lookup servicesAnnotation = some text) (uid podName : String)
    (podAddress : IpAddr) :
    ((∃ r', discoverServices annotations uid podName podAddress r = .ok () r') ↔
      ∃ services, DenotesServices text services) ∧
    (∀ services, DenotesServices text services →
      ∃ r', discoverServices annotations uid podName podAddress r = .ok () r' ∧
        r'.sender = ⟨r.sender.sent ++ services.map (·.add uid podAddress), none⟩) ∧
    ((¬ ∃ services, DenotesServices text services) → ∃ before bad after services e r',
      text = ",".intercalate (before ++ bad :: after) ∧
      (∀ part ∈ before ++ bad :: after, ',' ∉ part.toList) ∧
      List.Forall₂ DenotesService before services ∧ (¬ ∃ service, DenotesService bad service) ∧
      discoverServices annotations uid podName podAddress r = .error e r' ∧
      r'.sender = ⟨r.sender.sent ++ services.map (·.add uid podAddress), none⟩) ∧
    ∀ services, services ≠ [] → (∀ service ∈ services, IsText service.externalProtocol ∧
        IsText service.backendProtocol) →
      text = ",".intercalate (services.map ServiceDeclaration.render) →
      (∀ services', DenotesServices text services' ↔ services' = services) ∧
      ∃ r', discoverServices annotations uid podName podAddress r = .ok () r' ∧
        r'.sender = ⟨r.sender.sent ++ services.map (·.add uid podAddress), none⟩ := by
  have hreturns := fun services (h : DenotesServices text services) =>
    discoverServices_returns hstays htext h uid podName podAddress
  have hstops := fun h => discoverServices_stops hstays htext h uid podName podAddress
  refine ⟨⟨fun ⟨r', hok⟩ => ?_, fun ⟨services, h⟩ => ?_⟩, hreturns, fun hnot => ?_, ?_⟩
  · by_contra hnot
    obtain ⟨before, bad, after, services, -, -, -, e, r'', herror, -⟩ := hstops hnot
    rw [hok] at herror
    cases herror
  · obtain ⟨r', hok, -⟩ := hreturns services h
    exact ⟨r', hok⟩
  · obtain ⟨before, bad, after, services, hsplit, hservices, hbad, e, r', herror, -, hsender⟩ :=
      hstops hnot
    refine ⟨before, bad, after, services, e, r', ?_, ?_, hservices, hbad, herror, hsender⟩
    · rw [← hsplit]
      exact (intercalate_split ',' text).symm
    · rw [← hsplit]
      exact fun part => no_comma_of_mem_split
  · rintro services hne htexts rfl
    have hdenotes := denotesServices_render hne htexts
    refine ⟨fun services' => ⟨fun h => h.unique hdenotes, ?_⟩, hreturns services hdenotes⟩
    rintro rfl
    exact hdenotes

/-- Two services, the second with an empty protocol and further texts. -/
def twoServices : String := "80:http:8080:http,+0443::8443:http:x:"

theorem annotation_parser_accepts_twoServices :
    ∃ r', discoverServices ((∅ : HashMap String String).insert servicesAnnotation twoServices) "pod"
        "web" (.v4 ⟨10, 0, 0, 1⟩) (.new "kubernetes" .new) = .ok () r' ∧
      ∃ services, DenotesServices twoServices services := by
  have hgrammar := (annotation_parser_accepts_grammar (.new "kubernetes" .new) rfl
    ((∅ : HashMap String String).insert servicesAnnotation twoServices) twoServices
    (Finmap.lookup_insert _) "pod" "web" (.v4 ⟨10, 0, 0, 1⟩)).1
  have hreturns : (match discoverServices ((∅ : HashMap String String).insert servicesAnnotation
      twoServices) "pod" "web" (.v4 ⟨10, 0, 0, 1⟩) (.new "kubernetes" .new) with
      | .ok _ _ => true
      | .error _ _ => false) = true := by decide +kernel
  split at hreturns
  · rename_i r' hok
    exact ⟨r', hok, hgrammar.mp ⟨r', hok⟩⟩
  · cases hreturns

end StateProxy.Kubernetes
