import StateProxy.Protocol.Buffer
import StateProxy.Protocol.Format
import StateProxy.ProofKit.Map

/-! The endpoint protocol and its client, from `new` and `new_client` to the end of the negotiation.  The
base connection is whatever it is: what it will receive is a list of results, after which it waits, and
its sends may fail.  `new` asks for the only reference to a value that a weak reference also points to,
and gets none.  In the client the error of an unknown channel is built before it is known whether it is
needed, and unwraps the id of the channel; and the buffers hold the default channel only.  So the first
message with data ends the negotiation. -/

namespace StateProxy.Protocol

open Net ProofKit

def endpointProtocolVersion : UInt32 := 0

structure ProtocolCapabilities where
  client : Bool
  server : Bool
  disasm : Bool
  messageBoundaries : Bool
  multiplexing : UInt32
  nonZero : multiplexing ≠ 0
  sockets : Bool

structure Message where
  data : Option Reader
  size : Option UInt64
  channelId : Option UInt32
deriving DecidableEq, Repr

namespace Message

def withData (data : Reader) : Message := ⟨some data, none, none⟩

def withDataFromBuffer (buffer : List UInt8) : Message :=
  { withData ⟨buffer, [], none⟩ with size := some (UInt64.ofNat buffer.length) }

end Message

/-- A base connection: the protocol it speaks, the results of its next calls to `receive`, after which
it waits, and the messages it was given to send, with the error of a send that fails. -/
structure Connection where
  protocolName : String
  capabilities : ProtocolCapabilities
  inbox : List (Except String Message)
  outbox : Sender Message
  sendError : String

inductive Error
  | connectionError (error : String)
  | ioError (error : String)
  | messageTooLarge
  | moreThanOneClient
  | serverCreatedChannel (channelId : UInt32)
  | unknownSerializationFormat (expected : List String) (received : String)
  | wrongMessage (expected : List String) (received : String)
  | wrongVersion (expected received : UInt32)
deriving DecidableEq, Repr

inductive Panic
  /-- `unwrap` of `None`. -/
  | unwrapOnNone
  /-- A message that cannot be sent: its channel is missing, or it cannot be encoded. -/
  | unsendable
  /-- "BUG: the default channel is not present in the read buffer map". -/
  | defaultChannelMissing
  | fillBuffer (failure : FillFailure)
  | notImplemented
deriving DecidableEq, Repr

/-- Why a call does not return `Ok`: an error, one of `anyhow`, a panic, or a base connection that never
answers. -/
inductive Stop
  | error (e : Error)
  | anyhow (message : String)
  | panic (p : Panic)
  | waiting
deriving DecidableEq, Repr

structure EndpointProtocolClient where
  baseConnection : Connection
  baseCapabilities : ProtocolCapabilities
  readBufferMap : HashMap (Option UInt32) (List UInt8)
  streamLeft : Option (Reader × UInt32)
  serializationFormat : SerializationFormat

abbrev ClientM := EStateM Stop EndpointProtocolClient

/-- The names of the variants: `IntoStaticStr`. -/
def SerializationFormat.name : SerializationFormat → String
  | .json => "Json"

/-- `EnumString`. -/
def SerializationFormat.tryFrom (name : String) : Option SerializationFormat :=
  if name = "Json" then some .json else none

/-- The names of all formats. -/
def serializationFormats : List String := [SerializationFormat.json.name]

/-- `IntoStaticStr` for the messages of the server. -/
def ServerMessageV0.name : ServerMessageV0 → String
  | .hello .. => "Hello"
  | .accept .. => "Accept"
  | .deny .. => "Deny"
  | .dataStart .. => "DataStart"
  | .dataChunk .. => "DataChunk"
  | .dataEnd .. => "DataEnd"
  | .setState .. => "SetState"
  | .openSocket .. => "OpenSocket"
  | .socketDataStart .. => "SocketDataStart"
  | .closeSocket .. => "CloseSocket"

structure OwnedServerMessageV0 where
  message : ServerMessageV0

/-- `OwnedServerMessageV0::get`. -/
def OwnedServerMessageV0.get (_ : OwnedServerMessageV0) : ClientM ServerMessageV0 :=
  throw (.panic .notImplemented)

namespace EndpointProtocolClient

def setInbox (inbox : List (Except String Message)) : ClientM Unit :=
  modify fun c => { c with baseConnection := { c.baseConnection with inbox } }

def setReadBuffer (channelId : Option UInt32) (buffer : List UInt8) : ClientM Unit :=
  modify fun c => { c with readBufferMap := c.readBufferMap.insert channelId buffer }

/-- `self.base_connection.send`. -/
def baseSend (message : Message) : ClientM Unit := do
  let c ← get
  match c.baseConnection.outbox.send message with
  | none => throw (.error (.connectionError c.baseConnection.sendError))
  | some outbox => set { c with baseConnection := { c.baseConnection with outbox } }

def sendClientMessage (s : SerdeJson) (message : ClientMessageV0) : ClientM Unit := do
  let c ← get
  match Protocol.sendClientMessage s c.serializationFormat c.baseCapabilities.multiplexing message with
  | none => throw (.panic .unsendable)
  | some (payload, channelId) => baseSend { Message.withDataFromBuffer payload with channelId }

/-- The loop of `receive_message_with_data`, over what the base connection receives. -/
def receiveData : List (Except String Message) → ClientM (Reader × Option UInt32)
  | [] => throw .waiting
  | .error e :: inbox => do
    setInbox inbox
    throw (.error (.connectionError e))
  | .ok message :: inbox => do
    setInbox inbox
    match message.data with
    | none => receiveData inbox
    | some data =>
      let multiplexing := (← get).baseCapabilities.multiplexing
      pure (data, if multiplexing = 1 then none else message.channelId)

def receiveMessageWithData : ClientM (Reader × Option UInt32) := do
  receiveData (← get).baseConnection.inbox

/-- `self.stream_left.take()`, or the next message with data. -/
def nextData : ClientM (Reader × Option UInt32) := do
  let c ← get
  match c.streamLeft with
  | some (data, channelId) =>
    set { c with streamLeft := none }
    pure (data, some channelId)
  | none => receiveMessageWithData

/-- The id of a channel, for the error of a channel that the client does not know. -/
def expectChannelId : Option UInt32 → ClientM UInt32
  | none => throw (.panic .defaultChannelMissing)
  | some channelId => pure channelId

/-- The rest of a round of `receive_server_message`: reads the data of a message into the buffer of its
channel. -/
def fillChannel (data : Reader) (channelId : Option UInt32) : ClientM Unit := do
  let c ← get
  -- the argument of `ok_or` is evaluated whether there is a buffer or not
  let newChannelId ← expectChannelId channelId
  match c.readBufferMap.lookup channelId with
  | none => throw (.error (.serverCreatedChannel newChannelId))
  | some buffer =>
    match fillBufferFrom ⟨buffer, data⟩ with
    | .error (.io e) filling =>
      setReadBuffer channelId filling.readBuffer
      throw (.error (.ioError e))
    | .error failure filling =>
      setReadBuffer channelId filling.readBuffer
      throw (.panic (.fillBuffer failure))
    | .ok _ filling =>
      if maxMessageBinarySize < filling.readBuffer.length ∧ c.baseCapabilities.messageBoundaries then
        setReadBuffer channelId []
        throw (.error .messageTooLarge)
      setReadBuffer channelId filling.readBuffer

/-- A round of the loop of `receive_server_message`. -/
def receiveStep : ClientM Unit := do
  let next ← nextData
  fillChannel next.1 next.2

/-- A number of rounds of the loop of `receive_server_message`. -/
def receiveLoop : Nat → ClientM OwnedServerMessageV0
  | 0 => throw .waiting
  | rounds + 1 => do
    receiveStep
    receiveLoop rounds

/-- `receive_server_message`.  Each round takes a message of the base connection or the stream that is
left, so after this many rounds the client waits. -/
def receiveServerMessage : ClientM OwnedServerMessageV0 := do
  receiveLoop ((← get).baseConnection.inbox.length + 2)

def init (s : SerdeJson) : ClientM Unit := do
  sendClientMessage s (.hello endpointProtocolVersion serializationFormats)
  let reply ← receiveServerMessage
  match ← reply.get with
  | .hello version serializationFormat =>
    if version ≠ endpointProtocolVersion then
      throw (.error (.wrongVersion endpointProtocolVersion version))
    else match SerializationFormat.tryFrom serializationFormat with
      | some format => modify fun c => { c with serializationFormat := format }
      | none => throw (.error (.unknownSerializationFormat serializationFormats serializationFormat))
  | message => throw (.error (.wrongMessage ["Hello"] message.name))

/-- The client before its negotiation. -/
def initial (baseConnection : Connection) : EndpointProtocolClient where
  baseConnection
  baseCapabilities := baseConnection.capabilities
  readBufferMap := (∅ : HashMap (Option UInt32) (List UInt8)).insert none []
  streamLeft := none
  serializationFormat := .json

def new (s : SerdeJson) (baseConnection : Connection) : Except Stop EndpointProtocolClient :=
  match init s (initial baseConnection) with
  | .ok _ c => .ok c
  | .error stop _ => .error stop

end EndpointProtocolClient

/-- The references to the value of an `Arc`. -/
structure References where
  strong : Nat
  weak : Nat
deriving DecidableEq, Repr

structure Arc (α : Type) where
  value : α
  references : References

/-- A `Weak`, with the references to the value that it points to, if it points to one. -/
structure Weak where
  references : Option References
deriving DecidableEq, Repr

namespace Weak

/-- `Weak::new`: it points to nothing. -/
def new : Weak := ⟨none⟩

end Weak

namespace Arc

variable {α : Type}

def new (value : α) : Arc α := ⟨value, 1, 0⟩

/-- `Arc::downgrade`: the new `Weak`, and the `Arc` it points to. -/
def downgrade (res : Arc α) : Weak × Arc α :=
  let references := { res.references with weak := res.references.weak + 1 }
  (⟨some references⟩, { res with references })

/-- `Arc::get_mut`: the value can be changed through its only reference. -/
def getMut (res : Arc α) : Option α :=
  if res.references = ⟨1, 0⟩ then some res.value else none

end Arc

structure EndpointProtocol where
  name : String
  multiplexing : UInt32
  nonZero : multiplexing ≠ 0
  sockets : Bool
  baseConnection : Option Connection
  this : Weak

namespace EndpointProtocol

/-- The value that `new` puts into an `Arc`. -/
def initial (baseConnection : Connection) : EndpointProtocol where
  name := s!"endpoint protocol over {baseConnection.protocolName}"
  multiplexing :=
    if baseConnection.capabilities.multiplexing = 1 then 4294967295
    else baseConnection.capabilities.multiplexing
  nonZero := by
    split
    · decide
    · exact baseConnection.capabilities.nonZero
  sockets := false
  baseConnection := some baseConnection
  this := .new

def new (baseConnection : Connection) : Except Panic (Arc EndpointProtocol) :=
  let downgraded := (Arc.new (initial baseConnection)).downgrade
  match downgraded.2.getMut with
  | none => .error .unwrapOnNone
  | some res => .ok { downgraded.2 with value := { res with this := downgraded.1 } }

def capabilities (p : EndpointProtocol) : ProtocolCapabilities where
  client := true
  server := true
  disasm := false
  messageBoundaries := true
  multiplexing := p.multiplexing
  nonZero := p.nonZero
  sockets := p.sockets

end EndpointProtocol

/-! ### The end of the negotiation -/

namespace EndpointProtocolClient

end EndpointProtocolClient

section Clients

open EndpointProtocol

variable {s : SerdeJson} {p : EndpointProtocol}

end Clients

section Negotiation

variable {s : SerdeJson} (documented : s.Documented)
include documented

end Negotiation

end StateProxy.Protocol
