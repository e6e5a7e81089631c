import StateProxy.Backend.Endpoint
import StateProxy.Net.Text
import StateProxy.ProofKit.Map
import StateProxy.ProofKit.Outcome

/-! The Kubernetes discovery task: how it turns the pod events of a cluster into endpoint events.
The program runs over the state of the task and stops at the first error, which carries its
contexts, the outermost first.  An `IterOrder` is the order in which the loop over the set of uids
that were known before a re-list visits it. -/

namespace StateProxy.Kubernetes

open Backend Net ProofKit

/-- The annotation used to define which services should be proxied for a pod. -/
def servicesAnnotation : String := "state-proxy.io/services"

structure ObjectMeta where
  uid : Option String
  name : Option String
  annotations : Option (HashMap String String)
deriving DecidableEq

structure PodStatus where
  podIp : Option String
  phase : Option String
deriving DecidableEq

structure Pod where
  metadata : ObjectMeta
  status : Option PodStatus
deriving DecidableEq

/-- The events of a watcher: a pod was added or changed, a pod was deleted, or the watch began anew
with a list of all pods. -/
inductive PodEvent
  | applied (pod : Pod)
  | deleted (pod : Pod)
  | restarted (pods : List Pod)
deriving DecidableEq

abbrev Error := List String

structure KubernetesDiscoveryRuntime where
  name : String
  sender : Sender EndpointEvent
  knownPodUids : Finset String
  warnings : List String
deriving DecidableEq

abbrev RuntimeM := EStateM Error KubernetesDiscoveryRuntime

/-- What `apply_pod` takes out of a pod, when all of it is there. -/
structure Report where
  uid : String
  name : String
  annotations : HashMap String String
  address : String
  phase : String
deriving DecidableEq

def Pod.report (pod : Pod) : Option Report := do
  let status ← pod.status
  let uid ← pod.metadata.uid
  let name ← pod.metadata.name
  let annotations ← pod.metadata.annotations
  let address ← status.podIp
  let phase ← status.phase
  some ⟨uid, name, annotations, address, phase⟩

/-- `str::split`, with a character. -/
def split (separator : Char) (text : String) : List String :=
  (text.toList.splitOn separator).map String.ofList

/-- The loop of `u16::from_str`. -/
def readU16 (n : Nat) : List Char → Except String UInt16
  | [] => .ok (UInt16.ofNat n)
  | c :: text =>
    match toDigit 10 c with
    | none => .error "invalid digit found in string"
    | some digit =>
      if n * 10 + digit < 65536 then readU16 (n * 10 + digit) text
      else .error "number too large to fit in target type"

/-- `str::parse`, for a port. -/
def parseU16 (text : String) : Except String UInt16 :=
  match text.toList with
  | [] => .error "cannot parse integer from empty string"
  | ['+'] => .error "invalid digit found in string"
  | '+' :: digits => readU16 0 digits
  | digits => readU16 0 digits

namespace KubernetesDiscoveryRuntime

def new (name : String) (sender : Sender EndpointEvent) : KubernetesDiscoveryRuntime :=
  ⟨name, sender, ∅, []⟩

/-- `with_context`. -/
def withContext {α : Type} (context : String) (x : RuntimeM α) : RuntimeM α := fun r =>
  match x r with
  | .ok a r' => .ok a r'
  | .error e r' => .error (context :: e) r'

def warn (line : String) : RuntimeM Unit :=
  modify fun r => { r with warnings := r.warnings ++ [line] }

def setKnown (uids : Finset String) : RuntimeM Unit :=
  modify fun r => { r with knownPodUids := uids }

def send (event : EndpointEvent) : RuntimeM Unit := fun r =>
  match r.sender.send event with
  | none => .error ["channel closed"] r
  | some sender => .ok () { r with sender }

def parsePort (port : String) : RuntimeM UInt16 :=
  match parseU16 port with
  | .ok port => pure port
  | .error message => throw [s!"'{port}' is not a port number", message]

/-- `address.parse()`, with its context. -/
def parseAddress (report : Report) : RuntimeM IpAddr := do
  let clusterName := (← get).name
  let address := report.address
  let podName := report.name
  let uid := report.uid
  match parseIpAddr address with
  | some ip => pure ip
  | none => throw [s!"while parsing the address {address} of pod {podName} ({uid}) from the Kubernetes cluster: {clusterName}",
      "invalid IP address syntax"]

/-- The `match` on the parts of a service string. -/
def sendParts (uid : String) (podAddress : IpAddr) : List String → RuntimeM Unit
  | externalPort :: externalProtocol :: backendPort :: backendProtocol :: _ => do
    let externalPort ← parsePort externalPort
    let backendPort ← parsePort backendPort
    send (.add uid false externalPort externalProtocol (.new podAddress backendPort) backendProtocol)
  | _ => throw ["invalid service string"]

def sendServiceFromString (serviceString uid podName : String) (podAddress : IpAddr) :
    RuntimeM Unit := do
  let clusterName := (← get).name
  if 4 < (split ':' serviceString).length then
    warn s!"{clusterName}: service definition '{podName}' for pod {uid} ({serviceString}) has garbage at the end"
  sendParts uid podAddress (split ':' serviceString)

/-- The loop of `discover_services`. -/
def sendServices (uid podName : String) (podAddress : IpAddr) : List String → RuntimeM Unit
  | [] => pure ()
  | serviceString :: rest => do
    let clusterName := (← get).name
    withContext s!"while handling service string '{serviceString}' for pod {podName} ({uid}) from Kubernetes cluster: {clusterName}"
      (sendServiceFromString serviceString uid podName podAddress)
    sendServices uid podName podAddress rest

def discoverServices (annotations : HashMap String String) (uid podName : String)
    (podAddress : IpAddr) : RuntimeM Unit := do
  let serviceStrings := ((annotations.lookup servicesAnnotation).map (split ',')).getD []
  sendServices uid podName podAddress serviceStrings
  if serviceStrings = [] then warn s!"pod {podName} ({uid}) does not define any services"

/-- The `match` on the phase of a pod. -/
def followPhase (report : Report) : RuntimeM Unit := do
  let clusterName := (← get).name
  let podName := report.name
  let uid := report.uid
  let phase := report.phase
  if phase = "Running" then send (.resume uid)
  else if phase = "Succeeded" then do
    setKnown ((← get).knownPodUids.erase uid)
    send (.delete uid)
  else if phase = "Failed" then send (.suspend uid)
  else if phase = "Unknown" then do
    warn s!"{clusterName}: pod {podName} ({uid}) is in an unknown state. Suspending pod until the situation resolves"
    send (.suspend uid)
  else if phase = "Pending" then pure ()
  else do
    warn s!"{clusterName}: received an unknown pod status from Kubernetes for pod {podName} ({uid}): {phase}. Suspending pod until the situation resolves"
    send (.suspend uid)

def applyPod (pod : Pod) : RuntimeM Unit :=
  match pod.report with
  | none => pure ()
  | some report => do
    let address ← parseAddress report
    let known := (← get).knownPodUids
    setKnown (insert report.uid known)
    if report.uid ∉ known then
      discoverServices report.annotations report.uid report.name address
    followPhase report

/-- The loop over the pods of a re-list: it returns `current_pod_uids`. -/
def applyPods (currentPodUids : Finset String) : List Pod → RuntimeM (Finset String)
  | [] => pure currentPodUids
  | pod :: pods =>
    match pod.metadata.uid with
    | none => applyPods currentPodUids pods
    | some uid => do
      applyPod pod
      applyPods (insert uid currentPodUids) pods

/-- The loop over the uids that were known before a re-list. -/
def deleteUnknown : List String → RuntimeM Unit
  | [] => pure ()
  | uid :: uids => do
    if uid ∉ (← get).knownPodUids then send (.delete uid)
    deleteUnknown uids

def handlePodEvent (order : IterOrder String) : PodEvent → RuntimeM Unit
  | .applied pod => if pod.metadata.uid.isSome then applyPod pod else pure ()
  | .deleted pod =>
    match pod.metadata.uid with
    | some uid => do
      setKnown ((← get).knownPodUids.erase uid)
      send (.delete uid)
    | none => do
      let clusterName := (← get).name
      warn s!"{clusterName}: Received a pod deletion event without the pod UID"
  | .restarted pods => do
    let currentPodUids ← applyPods ∅ pods
    let oldPodUids := (← get).knownPodUids
    setKnown currentPodUids
    deleteUnknown (order.visit oldPodUids)

/-- The loop of `KubernetesEndpointDiscovery::run` over the items of the pod watch, after which the
watch is closed.  Each item comes with the order in which the uids known before it are visited. -/
def run : List (IterOrder String × Except Error PodEvent) → RuntimeM Unit
  | [] => do
    let clusterName := (← get).name
    throw [s!"pod watch stream closed unexpectedly for Kubernetes cluster: {clusterName}"]
  | (_, .error e) :: _ => do
    let clusterName := (← get).name
    throw (s!"while watching pods for the Kubernetes cluster: {clusterName}" :: e)
  | (order, .ok event) :: items => do
    handlePodEvent order event
    run items

end KubernetesDiscoveryRuntime

end StateProxy.Kubernetes
