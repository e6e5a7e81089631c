import StateProxy.Net

/-! The messages of the endpoint protocol: what the proxy sends to an endpoint and what the endpoint
answers.  All but the `Hello`s belong to a channel. -/

namespace StateProxy.Protocol

open Net

inductive TakeChannelIdResult
  | id (channelId : UInt32)
  | uneeded
  | missing
deriving DecidableEq

inductive ServerMessageV0
  | hello (version : UInt32) (serializationFormat : String)
  | accept (channelId : Option UInt32)
  | deny (channelId : Option UInt32) (error : String)
  | dataStart (channelId : Option UInt32) (size : Option UInt64) (state : Option (List UInt8))
  | dataChunk (channelId : Option UInt32) (size : UInt64) (state : Option (List UInt8))
  | dataEnd (channelId : Option UInt32) (state : Option (List UInt8))
  | setState (channelId : Option UInt32) (state : Option (List UInt8))
  | openSocket (channelId : Option UInt32) (socketId : UInt32) (protocol address : String)
  | socketDataStart (channelId : Option UInt32) (socketId : UInt32) (size : Option UInt64)
  | closeSocket (channelId : Option UInt32) (socketId : UInt32)
deriving DecidableEq

inductive ClientMessageV0
  | hello (version : UInt32) (serializationFormats : List String)
  | newChannel (channelId : Option UInt32) (origin : SocketAddr)
  | recoverChannel (channelId : Option UInt32) (origin : SocketAddr) (state : List UInt8)
  | closeChannel (channelId : Option UInt32) (error : Option String)
  | dataStart (channelId : Option UInt32) (size : Option UInt64)
  | dataChunk (channelId : Option UInt32) (size : Option UInt64)
  | dataEnd (channelId : Option UInt32)
  | socketOpened (channelId : Option UInt32) (socketId : UInt32)
  | socketNotOpened (channelId : Option UInt32) (socketId : UInt32) (error : String)
  | socketError (channelId : Option UInt32) (socketId : UInt32) (error : String)
  | socketDataStart (channelId : Option UInt32) (socketId : UInt32) (size : Option UInt64)
  | socketClosed (channelId : Option UInt32) (socketId : UInt32)
deriving DecidableEq

/-! ### The id of the channel -/

namespace ClientMessageV0

/-- The id of the channel, where the message has a place for one. -/
def channelId? : ClientMessageV0 → Option (Option UInt32)
  | hello _ _ => none
  | newChannel channelId _ | recoverChannel channelId _ _ | closeChannel channelId _
  | dataStart channelId _ | dataChunk channelId _ | dataEnd channelId | socketOpened channelId _
  | socketNotOpened channelId _ _ | socketError channelId _ _ | socketDataStart channelId _ _
  | socketClosed channelId _ => some channelId

def withChannelId (channelId : Option UInt32) : ClientMessageV0 → ClientMessageV0
  | hello version serializationFormats => hello version serializationFormats
  | newChannel _ origin => newChannel channelId origin
  | recoverChannel _ origin state => recoverChannel channelId origin state
  | closeChannel _ error => closeChannel channelId error
  | dataStart _ size => dataStart channelId size
  | dataChunk _ size => dataChunk channelId size
  | dataEnd _ => dataEnd channelId
  | socketOpened _ socketId => socketOpened channelId socketId
  | socketNotOpened _ socketId error => socketNotOpened channelId socketId error
  | socketError _ socketId error => socketError channelId socketId error
  | socketDataStart _ socketId size => socketDataStart channelId socketId size
  | socketClosed _ socketId => socketClosed channelId socketId

/-- `take_channel_id`, with the message that is left. -/
def takeChannelId (message : ClientMessageV0) : TakeChannelIdResult × ClientMessageV0 :=
  match message.channelId? with
  | none => (.uneeded, message)
  | some none => (.missing, message)
  | some (some channelId) => (.id channelId, message.withChannelId none)

/-- `set_channel_id`. -/
def setChannelId (newChannelId : UInt32) (message : ClientMessageV0) : ClientMessageV0 :=
  message.withChannelId (some newChannelId)

/-- An id that was taken can be put back. -/
theorem setChannelId_takeChannelId {message rest : ClientMessageV0} {channelId : UInt32}
    (h : message.takeChannelId = (.id channelId, rest)) : rest.setChannelId channelId = message := by
  unfold takeChannelId at h
  split at h
  · cases h
  · cases h
  · rename_i id hid
    cases h
    cases message <;> simp_all [channelId?, withChannelId, setChannelId]

end ClientMessageV0

end StateProxy.Protocol
