import StateProxy.Protocol.Serialization

/-! The serialization formats of the endpoint protocol, over a JSON library that behaves as it is
documented.  Decoding undoes encoding exactly for the plain messages; what a client sends comes back
as far as it is plain. -/

namespace StateProxy.Protocol

open Net ProofKit

inductive SerializationFormat
  | json
deriving DecidableEq

namespace SerializationFormat

variable {α : Type} (s : SerdeJson)

def deserialize (format : SerializationFormat) (de : Json Literal → Option α)
    (buffer : List UInt8) : Except s.Error (Option (Nat × α)) :=
  match format with
  | json =>
    match s.next de buffer with
    | some (.ok message) => .ok (some (s.byteOffset de buffer, message))
    | some (.error err) => if s.isEof err then .ok none else .error err
    | none => .ok none

def serialize (format : SerializationFormat) (data : Json (List UInt8)) :
    Except s.Error (List UInt8) :=
  match format with
  | json => s.toVec data

/-- The message is encoded, and decoded again from a buffer that goes on with `rest`. -/
def RoundTrips (format : SerializationFormat) (serializeMessage : α → Json (List UInt8))
    (deserializeMessage : Json Literal → Option α) (message : α) (rest : List UInt8) : Prop :=
  ∃ payload, format.serialize s (serializeMessage message) = .ok payload ∧
    format.deserialize s deserializeMessage (payload ++ rest) = .ok (some (payload.length, message))

end SerializationFormat

open SerializationFormat

section RoundTrip

variable {s : SerdeJson} (documented : s.Documented)
include documented

/-- Decoding undoes encoding exactly when the literals of the encoded message make the message. -/
theorem roundTrips_iff {α : Type} {serializeMessage : α → Json (List UInt8)}
    {deserializeMessage : Json Literal → Option α} {message : α}
    {members : List (List UInt8 × Json (List UInt8))}
    (hobject : serializeMessage message = .object members)
    (hdepth : (Json.object members).depth < 128) (rest : List UInt8) :
    RoundTrips s json serializeMessage deserializeMessage message rest ↔
      deserializeMessage (serializeMessage message).literals = some message := by
  obtain ⟨payload, hpayload⟩ := documented.writes (.object members)
  rw [RoundTrips, hobject]
  constructor
  · rintro ⟨payload', hpayload', hread⟩
    cases Except.ok.inj (hpayload.symm.trans hpayload')
    cases hde : deserializeMessage (Json.object members).literals with
    | none =>
      obtain ⟨e, hnext⟩ := documented.rejects deserializeMessage rest hdepth hpayload hde
      simp only [deserialize, hnext] at hread
      split at hread <;> cases hread
    | some received =>
      obtain ⟨hnext, -⟩ := documented.reads deserializeMessage rest hdepth hpayload hde
      simp only [deserialize, hnext] at hread
      rw [(Prod.mk.inj (Option.some.inj (Except.ok.inj hread))).2]
  · intro hde
    obtain ⟨hnext, hoffset⟩ := documented.reads deserializeMessage rest hdepth hpayload hde
    exact ⟨payload, hpayload, by simp only [deserialize, hnext, hoffset]⟩

/-- A variant comes back exactly when its fields do. -/
theorem roundTrips_variant_iff {α : Type} {variants : List (Variant α)}
    (hnodup : (variants.map Variant.name).Nodup) {serializeMessage : α → Json (List UInt8)}
    {v : Variant α} (hmem : v ∈ variants) {a : v.Content} {message : α}
    (hbuild : v.build a = message) (hserialize : serializeMessage message = v.serialize a)
    (hdepth : v.fields.maxDepth < 126) (rest : List UInt8) :
    RoundTrips s json serializeMessage (Variant.read variants) message rest ↔
      v.fields.Recovers a := by
  have hshallow := v.depth_serialize a
  rw [roundTrips_iff documented hserialize (by rw [Variant.serialize] at hshallow; omega),
    hserialize, ← hbuild]
  exact Variant.read_serialize_iff hnodup hmem a

end RoundTrip

theorem ServerMessageV0.Tagged.names_nodup : (variants.map Variant.name).Nodup := by
  decide

theorem ClientMessageV0.Tagged.names_nodup : (variants.map Variant.name).Nodup := by
  decide

theorem ServerMessageV0.Tagged.maxDepth_lt : ∀ v ∈ variants, v.fields.maxDepth < 126 := by
  simp only [variants, List.forall_mem_cons]
  decide

theorem ClientMessageV0.Tagged.maxDepth_lt : ∀ v ∈ variants, v.fields.maxDepth < 126 := by
  simp only [variants, List.forall_mem_cons]
  decide

section Messages

variable {s : SerdeJson} (documented : s.Documented)
include documented

theorem ServerMessageV0.roundTrips_iff (message : ServerMessageV0) (rest : List UInt8) :
    RoundTrips s json serialize deserialize message rest ↔ message.Plain := by
  obtain ⟨v, hmem, a, hbuild, hserialize, hplain⟩ := message.tagged
  rw [← hplain]
  exact roundTrips_variant_iff documented Tagged.names_nodup hmem hbuild hserialize
    (Tagged.maxDepth_lt v hmem) rest

theorem ClientMessageV0.roundTrips_iff (message : ClientMessageV0) (rest : List UInt8) :
    RoundTrips s json serialize deserialize message rest ↔ message.Plain := by
  obtain ⟨v, hmem, a, hbuild, hserialize, hplain⟩ := message.tagged
  rw [← hplain]
  exact roundTrips_variant_iff documented Tagged.names_nodup hmem hbuild hserialize
    (Tagged.maxDepth_lt v hmem) rest

/-- Decoding undoes encoding for exactly those messages that are plain, whatever the buffer goes on
with. -/
theorem json_round_trips_iff_plain :
    (∀ (message : ClientMessageV0) (rest : List UInt8),
      RoundTrips s json ClientMessageV0.serialize ClientMessageV0.deserialize message rest ↔
        message.Plain) ∧
    ∀ (message : ServerMessageV0) (rest : List UInt8),
      RoundTrips s json ServerMessageV0.serialize ServerMessageV0.deserialize message rest ↔
        message.Plain :=
  ⟨ClientMessageV0.roundTrips_iff documented, ServerMessageV0.roundTrips_iff documented⟩

end Messages

/-- A plain message, which comes back, and the same message with an escape sequence. -/
theorem json_round_trips_socketError :
    RoundTrips .compact json ClientMessageV0.serialize ClientMessageV0.deserialize
        (.socketError (some 1) 7 "refused") [0x7b] ∧
      ¬ RoundTrips .compact json ClientMessageV0.serialize ClientMessageV0.deserialize
        (.socketError (some 1) 7 "\"refused\"") [0x7b] := by
  have hboth := (json_round_trips_iff_plain SerdeJson.compact_documented).1
  have hplain : Raw "refused" := by decide +kernel
  have hescaped : ¬ Raw "\"refused\"" := by decide +kernel
  exact ⟨(hboth _ _).mpr hplain, fun h => hescaped ((hboth _ _).mp h)⟩

/-- The state of a channel is written as an array of numbers, and is not read back from it. -/
theorem not_round_trips_setState :
    ¬ ∀ s : SerdeJson, s.Documented →
      (∀ (message : ClientMessageV0) (rest : List UInt8),
        RoundTrips s json ClientMessageV0.serialize ClientMessageV0.deserialize message rest) ∧
      ∀ (message : ServerMessageV0) (rest : List UInt8),
        RoundTrips s json ServerMessageV0.serialize ServerMessageV0.deserialize message rest := by
  intro hall
  have hround := (hall .compact SerdeJson.compact_documented).2 (.setState (some 1) (some [0x6f, 0x6b])) []
  have hnone := (ServerMessageV0.roundTrips_iff SerdeJson.compact_documented _ _).mp hround
  cases hnone

/-! ### What a client sends -/

/-- `send_client_message`, up to the message that it gives to the base connection: its payload and
channel.  It panics when the id of the channel is missing. -/
def sendClientMessage (s : SerdeJson) (format : SerializationFormat) (multiplexing : UInt32)
    (message : ClientMessageV0) : Option (List UInt8 × Option UInt32) :=
  let (taken, message) := message.takeChannelId
  match taken with
  | .missing => none
  | .uneeded => (format.serialize s message.serialize).toOption.map fun payload => (payload, none)
  | .id channelId =>
    if multiplexing = 1 then
      (format.serialize s (message.setChannelId channelId).serialize).toOption.map fun payload =>
        (payload, none)
    else
      (format.serialize s message.serialize).toOption.map fun payload => (payload, some channelId)

theorem ClientMessageV0.plain_takeChannelId (message : ClientMessageV0) :
    message.takeChannelId.2.Plain ↔ message.Plain := by
  unfold takeChannelId
  split
  · rfl
  · rfl
  · cases message <;> rfl

/-- A message with the id of the channel that it came on put back. -/
def ClientMessageV0.receivedOn (received : ClientMessageV0) : Option UInt32 → ClientMessageV0
  | none => received
  | some channelId => received.setChannelId channelId

section Sending

variable {s : SerdeJson} (documented : s.Documented)
include documented

theorem deserialize_of_plain {message : ClientMessageV0} (hplain : message.Plain)
    {payload : List UInt8} (h : json.serialize s message.serialize = .ok payload)
    (rest : List UInt8) :
    json.deserialize s ClientMessageV0.deserialize (payload ++ rest) =
      .ok (some (payload.length, message)) := by
  obtain ⟨payload', hpayload, hread⟩ :=
    (ClientMessageV0.roundTrips_iff documented message rest).mpr hplain
  cases Except.ok.inj (h.symm.trans hpayload)
  exact hread

/-- What a client sends of a plain message is the message, for who puts the channel on which it
arrives back into it. -/
theorem sendClientMessage_received {multiplexing : UInt32} {message : ClientMessageV0}
    (hplain : message.Plain) {payload : List UInt8} {channelId : Option UInt32}
    (hsend : sendClientMessage s json multiplexing message = some (payload, channelId))
    (rest : List UInt8) :
    ∃ received, received.receivedOn channelId = message ∧
      json.deserialize s ClientMessageV0.deserialize (payload ++ rest) =
        .ok (some (payload.length, received)) := by
  have hserialized : ∀ {m : ClientMessageV0} {channel : Option UInt32},
      (json.serialize s m.serialize).toOption.map (fun payload => (payload, channel)) =
        some (payload, channelId) → json.serialize s m.serialize = .ok payload ∧ channel = channelId := by
    intro m channel h
    cases hm : json.serialize s m.serialize with
    | error e => simp [hm, Except.toOption] at h
    | ok bytes => simpa [hm, Except.toOption] using h
  have hleft := message.plain_takeChannelId.mpr hplain
  rcases htaken : message.takeChannelId with ⟨taken, left⟩
  rw [htaken] at hleft
  simp only [sendClientMessage, htaken] at hsend
  split at hsend
  · cases hsend
  · obtain ⟨hpayload, rfl⟩ := hserialized hsend
    refine ⟨left, ?_, deserialize_of_plain documented hleft hpayload rest⟩
    unfold ClientMessageV0.takeChannelId at htaken
    split at htaken <;> cases htaken
    rfl
  · have hback := ClientMessageV0.setChannelId_takeChannelId htaken
    split at hsend
    · obtain ⟨hpayload, rfl⟩ := hserialized hsend
      rw [hback] at hpayload
      exact ⟨message, rfl, deserialize_of_plain documented hplain hpayload rest⟩
    · obtain ⟨hpayload, rfl⟩ := hserialized hsend
      exact ⟨left, hback, deserialize_of_plain documented hleft hpayload rest⟩

end Sending

end StateProxy.Protocol
