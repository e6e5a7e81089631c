import StateProxy.Net.RoundTrip
import StateProxy.ProofKit.Serde
import StateProxy.Protocol.Message

/-! How the messages of the endpoint protocol are encoded.  Both enumerations are written as externally
tagged objects; the types of their fields decide what can be read back.  A borrowed string comes back
only when its literal has no escape sequence, borrowed bytes never do, and the text of a socket address
has no flow information. -/

namespace StateProxy.Protocol

open Net ProofKit

/-- A socket address is written as the text that is displayed of it. -/
def socketAddr : Codec SocketAddr where
  serialize address := .string (utf8 (String.ofList address.display))
  deserialize
    | .string literal => (ofUtf8 literal.bytes).bind parseSocketAddr
    | _ => none
  missing := none
  Recovers address := address.displayed = address
  recovers_iff address := by simp [Json.literals, Literal.of, parseSocketAddr_display]
  maxDepth := 0
  depth_le _ := by simp [Json.depth]

def channelIdField : Fields (Option UInt32) := .field "channel_id" (.option .u32)

namespace ServerMessageV0

namespace Tagged

def hello : Variant ServerMessageV0 where
  name := "Hello"
  fields := (Fields.field "version" .u32).and (.field "serialization_format" .str)
  build := fun (version, serializationFormat) => .hello version serializationFormat

def accept : Variant ServerMessageV0 where
  name := "Accept"
  fields := channelIdField
  build := fun channelId => .accept channelId

def deny : Variant ServerMessageV0 where
  name := "Deny"
  fields := channelIdField.and (.field "error" .str)
  build := fun (channelId, error) => .deny channelId error

def dataStart : Variant ServerMessageV0 where
  name := "DataStart"
  fields := channelIdField.and ((Fields.field "size" (.option .u64)).and
    (.field "state" (.option .byteSlice)))
  build := fun (channelId, size, state) => .dataStart channelId size state

def dataChunk : Variant ServerMessageV0 where
  name := "DataChunk"
  fields := channelIdField.and ((Fields.field "size" .u64).and
    (.field "state" (.option .byteSlice)))
  build := fun (channelId, size, state) => .dataChunk channelId size state

def dataEnd : Variant ServerMessageV0 where
  name := "DataEnd"
  fields := channelIdField.and (.field "state" (.option .byteSlice))
  build := fun (channelId, state) => .dataEnd channelId state

def setState : Variant ServerMessageV0 where
  name := "SetState"
  fields := channelIdField.and (.field "state" (.option .byteSlice))
  build := fun (channelId, state) => .setState channelId state

def openSocket : Variant ServerMessageV0 where
  name := "OpenSocket"
  fields := channelIdField.and ((Fields.field "socket_id" .u32).and
    ((Fields.field "protocol" .str).and (.field "address" .str)))
  build := fun (channelId, socketId, protocol, address) =>
    .openSocket channelId socketId protocol address

def socketDataStart : Variant ServerMessageV0 where
  name := "SocketDataStart"
  fields := channelIdField.and ((Fields.field "socket_id" .u32).and (.field "size" (.option .u64)))
  build := fun (channelId, socketId, size) => .socketDataStart channelId socketId size

def closeSocket : Variant ServerMessageV0 where
  name := "CloseSocket"
  fields := channelIdField.and (.field "socket_id" .u32)
  build := fun (channelId, socketId) => .closeSocket channelId socketId

def variants : List (Variant ServerMessageV0) :=
  [hello, accept, deny, dataStart, dataChunk, dataEnd, setState, openSocket, socketDataStart,
    closeSocket]

end Tagged

/-- The derived `Serialize`. -/
def serialize : ServerMessageV0 → Json (List UInt8)
  | .hello version serializationFormat => Tagged.hello.serialize (version, serializationFormat)
  | .accept channelId => Tagged.accept.serialize channelId
  | .deny channelId error => Tagged.deny.serialize (channelId, error)
  | .dataStart channelId size state => Tagged.dataStart.serialize (channelId, size, state)
  | .dataChunk channelId size state => Tagged.dataChunk.serialize (channelId, size, state)
  | .dataEnd channelId state => Tagged.dataEnd.serialize (channelId, state)
  | .setState channelId state => Tagged.setState.serialize (channelId, state)
  | .openSocket channelId socketId protocol address =>
    Tagged.openSocket.serialize (channelId, socketId, protocol, address)
  | .socketDataStart channelId socketId size =>
    Tagged.socketDataStart.serialize (channelId, socketId, size)
  | .closeSocket channelId socketId => Tagged.closeSocket.serialize (channelId, socketId)

/-- The derived `Deserialize`. -/
def deserialize : Json Literal → Option ServerMessageV0 :=
  Variant.read Tagged.variants

end ServerMessageV0

namespace ClientMessageV0

namespace Tagged

def hello : Variant ClientMessageV0 where
  name := "Hello"
  fields := (Fields.field "version" .u32).and (.field "serialization_formats" (.vec .string))
  build := fun (version, serializationFormats) => .hello version serializationFormats

def newChannel : Variant ClientMessageV0 where
  name := "NewChannel"
  fields := channelIdField.and (.field "from" socketAddr)
  build := fun (channelId, origin) => .newChannel channelId origin

def recoverChannel : Variant ClientMessageV0 where
  name := "RecoverChannel"
  fields := channelIdField.and ((Fields.field "from" socketAddr).and (.field "state" .byteSlice))
  build := fun (channelId, origin, state) => .recoverChannel channelId origin state

def closeChannel : Variant ClientMessageV0 where
  name := "CloseChannel"
  fields := channelIdField.and (.field "error" (.option .str))
  build := fun (channelId, error) => .closeChannel channelId error

def dataStart : Variant ClientMessageV0 where
  name := "DataStart"
  fields := channelIdField.and (.field "size" (.option .u64))
  build := fun (channelId, size) => .dataStart channelId size

def dataChunk : Variant ClientMessageV0 where
  name := "DataChunk"
  fields := channelIdField.and (.field "size" (.option .u64))
  build := fun (channelId, size) => .dataChunk channelId size

def dataEnd : Variant ClientMessageV0 where
  name := "DataEnd"
  fields := channelIdField
  build := fun channelId => .dataEnd channelId

def socketOpened : Variant ClientMessageV0 where
  name := "SocketOpened"
  fields := channelIdField.and (.field "socket_id" .u32)
  build := fun (channelId, socketId) => .socketOpened channelId socketId

def socketNotOpened : Variant ClientMessageV0 where
  name := "SocketNotOpened"
  fields := channelIdField.and ((Fields.field "socket_id" .u32).and (.field "error" .str))
  build := fun (channelId, socketId, error) => .socketNotOpened channelId socketId error

def socketError : Variant ClientMessageV0 where
  name := "SocketError"
  fields := channelIdField.and ((Fields.field "socket_id" .u32).and (.field "error" .str))
  build := fun (channelId, socketId, error) => .socketError channelId socketId error

def socketDataStart : Variant ClientMessageV0 where
  name := "SocketDataStart"
  fields := channelIdField.and ((Fields.field "socket_id" .u32).and (.field "size" (.option .u64)))
  build := fun (channelId, socketId, size) => .socketDataStart channelId socketId size

def socketClosed : Variant ClientMessageV0 where
  name := "SocketClosed"
  fields := channelIdField.and (.field "socket_id" .u32)
  build := fun (channelId, socketId) => .socketClosed channelId socketId

def variants : List (Variant ClientMessageV0) :=
  [hello, newChannel, recoverChannel, closeChannel, dataStart, dataChunk, dataEnd, socketOpened,
    socketNotOpened, socketError, socketDataStart, socketClosed]

end Tagged

/-- The derived `Serialize`. -/
def serialize : ClientMessageV0 → Json (List UInt8)
  | .hello version serializationFormats => Tagged.hello.serialize (version, serializationFormats)
  | .newChannel channelId origin => Tagged.newChannel.serialize (channelId, origin)
  | .recoverChannel channelId origin state =>
    Tagged.recoverChannel.serialize (channelId, origin, state)
  | .closeChannel channelId error => Tagged.closeChannel.serialize (channelId, error)
  | .dataStart channelId size => Tagged.dataStart.serialize (channelId, size)
  | .dataChunk channelId size => Tagged.dataChunk.serialize (channelId, size)
  | .dataEnd channelId => Tagged.dataEnd.serialize channelId
  | .socketOpened channelId socketId => Tagged.socketOpened.serialize (channelId, socketId)
  | .socketNotOpened channelId socketId error =>
    Tagged.socketNotOpened.serialize (channelId, socketId, error)
  | .socketError channelId socketId error =>
    Tagged.socketError.serialize (channelId, socketId, error)
  | .socketDataStart channelId socketId size =>
    Tagged.socketDataStart.serialize (channelId, socketId, size)
  | .socketClosed channelId socketId => Tagged.socketClosed.serialize (channelId, socketId)

/-- The derived `Deserialize`. -/
def deserialize : Json Literal → Option ClientMessageV0 :=
  Variant.read Tagged.variants

end ClientMessageV0

/-! ### What can be read back -/

namespace ServerMessageV0

/-- No borrowed string of the message needs an escape sequence, and it carries no state. -/
def Plain : ServerMessageV0 → Prop
  | .hello _ serializationFormat => Raw serializationFormat
  | .deny _ error => Raw error
  | .dataStart _ _ state | .dataChunk _ _ state | .dataEnd _ state | .setState _ state => state = none
  | .openSocket _ _ protocol address => Raw protocol ∧ Raw address
  | .accept _ | .socketDataStart _ _ _ | .closeSocket _ _ => True

end ServerMessageV0

namespace ClientMessageV0

/-- No borrowed string of the message needs an escape sequence, it carries no state, and its socket
address has no flow information. -/
def Plain : ClientMessageV0 → Prop
  | .newChannel _ origin => origin.flowinfo = 0
  | .recoverChannel _ _ _ => False
  | .closeChannel _ error => ∀ text, error = some text → Raw text
  | .socketNotOpened _ _ error | .socketError _ _ error => Raw error
  | .hello _ _ | .dataStart _ _ | .dataChunk _ _ | .dataEnd _ | .socketOpened _ _
  | .socketDataStart _ _ _ | .socketClosed _ _ => True

end ClientMessageV0

@[simp] theorem channelIdField_recovers (channelId : Option UInt32) :
    channelIdField.Recovers channelId :=
  Codec.option_u32_recovers channelId

@[simp] theorem socketAddr_recovers (address : SocketAddr) :
    socketAddr.Recovers address ↔ address.flowinfo = 0 := by
  cases address <;> simp [socketAddr, SocketAddr.displayed, SocketAddr.flowinfo, eq_comm]

/-- Every message is one of the variants, and its fields come back exactly when it is plain. -/
theorem ServerMessageV0.tagged (message : ServerMessageV0) :
    ∃ v ∈ Tagged.variants, ∃ a : v.Content, v.build a = message ∧
      message.serialize = v.serialize a ∧ (v.fields.Recovers a ↔ message.Plain) := by
  cases message with
  | hello version serializationFormat =>
    exact ⟨Tagged.hello, by simp [Tagged.variants], (version, serializationFormat), rfl, rfl,
      by simp [Tagged.hello, Plain]⟩
  | accept channelId =>
    exact ⟨Tagged.accept, by simp [Tagged.variants], channelId, rfl, rfl,
      by simp [Tagged.accept, Plain]⟩
  | deny channelId error =>
    exact ⟨Tagged.deny, by simp [Tagged.variants], (channelId, error), rfl, rfl,
      by simp [Tagged.deny, Plain]⟩
  | dataStart channelId size state =>
    exact ⟨Tagged.dataStart, by simp [Tagged.variants], (channelId, size, state), rfl, rfl,
      by simp [Tagged.dataStart, Plain]⟩
  | dataChunk channelId size state =>
    exact ⟨Tagged.dataChunk, by simp [Tagged.variants], (channelId, size, state), rfl, rfl,
      by simp [Tagged.dataChunk, Plain]⟩
  | dataEnd channelId state =>
    exact ⟨Tagged.dataEnd, by simp [Tagged.variants], (channelId, state), rfl, rfl,
      by simp [Tagged.dataEnd, Plain]⟩
  | setState channelId state =>
    exact ⟨Tagged.setState, by simp [Tagged.variants], (channelId, state), rfl, rfl,
      by simp [Tagged.setState, Plain]⟩
  | openSocket channelId socketId protocol address =>
    exact ⟨Tagged.openSocket, by simp [Tagged.variants], (channelId, socketId, protocol, address), rfl, rfl,
      by simp [Tagged.openSocket, Plain]⟩
  | socketDataStart channelId socketId size =>
    exact ⟨Tagged.socketDataStart, by simp [Tagged.variants], (channelId, socketId, size), rfl, rfl,
      by simp [Tagged.socketDataStart, Plain]⟩
  | closeSocket channelId socketId =>
    exact ⟨Tagged.closeSocket, by simp [Tagged.variants], (channelId, socketId), rfl, rfl,
      by simp [Tagged.closeSocket, Plain]⟩

/-- Every message is one of the variants, and its fields come back exactly when it is plain. -/
theorem ClientMessageV0.tagged (message : ClientMessageV0) :
    ∃ v ∈ Tagged.variants, ∃ a : v.Content, v.build a = message ∧
      message.serialize = v.serialize a ∧ (v.fields.Recovers a ↔ message.Plain) := by
  cases message with
  | hello version serializationFormats =>
    exact ⟨Tagged.hello, by simp [Tagged.variants], (version, serializationFormats), rfl, rfl,
      by simp [Tagged.hello, Plain]⟩
  | newChannel channelId origin =>
    exact ⟨Tagged.newChannel, by simp [Tagged.variants], (channelId, origin), rfl, rfl,
      by simp [Tagged.newChannel, Plain]⟩
  | recoverChannel channelId origin state =>
    exact ⟨Tagged.recoverChannel, by simp [Tagged.variants], (channelId, origin, state), rfl, rfl,
      by simp [Tagged.recoverChannel, Plain]⟩
  | closeChannel channelId error =>
    exact ⟨Tagged.closeChannel, by simp [Tagged.variants], (channelId, error), rfl, rfl,
      by simp [Tagged.closeChannel, Plain]⟩
  | dataStart channelId size =>
    exact ⟨Tagged.dataStart, by simp [Tagged.variants], (channelId, size), rfl, rfl,
      by simp [Tagged.dataStart, Plain]⟩
  | dataChunk channelId size =>
    exact ⟨Tagged.dataChunk, by simp [Tagged.variants], (channelId, size), rfl, rfl,
      by simp [Tagged.dataChunk, Plain]⟩
  | dataEnd channelId =>
    exact ⟨Tagged.dataEnd, by simp [Tagged.variants], channelId, rfl, rfl,
      by simp [Tagged.dataEnd, Plain]⟩
  | socketOpened channelId socketId =>
    exact ⟨Tagged.socketOpened, by simp [Tagged.variants], (channelId, socketId), rfl, rfl,
      by simp [Tagged.socketOpened, Plain]⟩
  | socketNotOpened channelId socketId error =>
    exact ⟨Tagged.socketNotOpened, by simp [Tagged.variants], (channelId, socketId, error), rfl, rfl,
      by simp [Tagged.socketNotOpened, Plain]⟩
  | socketError channelId socketId error =>
    exact ⟨Tagged.socketError, by simp [Tagged.variants], (channelId, socketId, error), rfl, rfl,
      by simp [Tagged.socketError, Plain]⟩
  | socketDataStart channelId socketId size =>
    exact ⟨Tagged.socketDataStart, by simp [Tagged.variants], (channelId, socketId, size), rfl, rfl,
      by simp [Tagged.socketDataStart, Plain]⟩
  | socketClosed channelId socketId =>
    exact ⟨Tagged.socketClosed, by simp [Tagged.variants], (channelId, socketId), rfl, rfl,
      by simp [Tagged.socketClosed, Plain]⟩

end StateProxy.Protocol
