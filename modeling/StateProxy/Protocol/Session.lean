import StateProxy.Protocol.Format

/-! What an endpoint gets of a whole session.  The client sends its messages one after the other, in any
mixture of channels; a base protocol without message boundaries turns what goes out on one channel into
one stream of bytes.  Every payload says where it ends, so the messages of the channel can be read back
from the stream, in order. -/

namespace StateProxy.Protocol

open Net ProofKit SerializationFormat

/-- The channel of the base connection on which a message goes out. -/
def ClientMessageV0.baseChannel (multiplexing : UInt32) (message : ClientMessageV0) :
    Option UInt32 :=
  if multiplexing = 1 then none else message.channelId?.join

/-- The stream of one channel: the payloads that went out on it. -/
def onChannel (channel : Option UInt32) (sent : List (List UInt8 × Option UInt32)) :
    List (List UInt8) :=
  sent.filterMap fun (payload, channelId) => if channelId = channel then some payload else none

/-- Reads a number of messages from a buffer, and returns them with what is left of it. -/
def readMessages (s : SerdeJson) (format : SerializationFormat) :
    Nat → List UInt8 → Option (List ClientMessageV0 × List UInt8)
  | 0, buffer => some ([], buffer)
  | count + 1, buffer =>
    match format.deserialize s ClientMessageV0.deserialize buffer with
    | .ok (some (size, message)) =>
      (readMessages s format count (buffer.drop size)).map fun (messages, rest) =>
        (message :: messages, rest)
    | _ => none

theorem channelId_of_send {s : SerdeJson} {multiplexing : UInt32} {message : ClientMessageV0}
    {payload : List UInt8} {channelId : Option UInt32}
    (hsend : sendClientMessage s json multiplexing message = some (payload, channelId)) :
    channelId = message.baseChannel multiplexing := by
  have hchannel : ∀ {bytes : Option (List UInt8)} {channel : Option UInt32},
      bytes.map (fun payload => (payload, channel)) = some (payload, channelId) →
        channelId = channel := by
    intro bytes channel h
    obtain ⟨_, -, heq⟩ := Option.map_eq_some_iff.mp h
    exact (Prod.mk.inj heq).2.symm
  unfold sendClientMessage ClientMessageV0.takeChannelId at hsend
  unfold ClientMessageV0.baseChannel
  cases hid : message.channelId? with
  | none =>
    simp only [hid] at hsend
    rw [hchannel hsend]
    simp
  | some place =>
    cases place with
    | none =>
      simp only [hid] at hsend
      cases hsend
    | some id =>
      simp only [hid] at hsend
      split at hsend
      · rename_i hone
        rw [hchannel hsend, if_pos hone]
      · rename_i hmany
        rw [hchannel hsend, if_neg hmany]
        rfl

/-- Each channel of a session of plain messages reads back as the messages that went out on it, in order
and with the id of the channel put back, whatever comes after them. -/
theorem session_is_read_back {s : SerdeJson} (documented : s.Documented) {multiplexing : UInt32}
    {messages : List ClientMessageV0} (hplain : ∀ message ∈ messages, message.Plain)
    {sent : List (List UInt8 × Option UInt32)}
    (hsent : messages.mapM (sendClientMessage s json multiplexing) = some sent)
    (channel : Option UInt32) (rest : List UInt8) :
    ∃ received, readMessages s json (onChannel channel sent).length
        ((onChannel channel sent).flatten ++ rest) = some (received, rest) ∧
      received.map (·.receivedOn channel) =
        messages.filter (fun message => message.baseChannel multiplexing = channel) := by
  induction messages generalizing sent with
  | nil =>
    rw [List.mapM_nil] at hsent
    cases hsent
    exact ⟨[], rfl, rfl⟩
  | cons message messages ih =>
    rw [List.mapM_cons] at hsent
    obtain ⟨⟨payload, channelId⟩, hsend, hsent⟩ := Option.bind_eq_some_iff.mp hsent
    obtain ⟨more, hmore, hsent⟩ := Option.bind_eq_some_iff.mp hsent
    cases hsent
    obtain ⟨hfirst, hlater⟩ := List.forall_mem_cons.mp hplain
    obtain ⟨received, hread, hreceived⟩ := ih hlater hmore
    have hchannel := channelId_of_send hsend
    by_cases hown : channelId = channel
    · subst hown
      obtain ⟨first, hback, hdecode⟩ := sendClientMessage_received documented hfirst hsend
        ((onChannel channelId more).flatten ++ rest)
      have hon : onChannel channelId ((payload, channelId) :: more) =
          payload :: onChannel channelId more := by simp [onChannel]
      refine ⟨first :: received, ?_, ?_⟩
      · rw [hon, List.length_cons, List.flatten_cons, List.append_assoc, readMessages, hdecode]
        simp only [List.drop_left, hread, Option.map_some]
      · rw [List.map_cons, hback, hreceived, List.filter_cons_of_pos (by simp [hchannel])]
    · have hon : onChannel channel ((payload, channelId) :: more) = onChannel channel more := by
        simp [onChannel, hown]
      rw [hchannel] at hown
      rw [hon, List.filter_cons_of_neg (by simpa using hown)]
      exact ⟨received, hread, hreceived⟩

/-- Two channels that take turns. -/
def twoChannels : List ClientMessageV0 :=
  [.dataStart (some 1) none, .socketOpened (some 2) 7, .dataEnd (some 1)]

theorem session_of_two_channels_is_read_back :
    ∃ sent, twoChannels.mapM (sendClientMessage .compact json 2) = some sent ∧
      ∃ received, readMessages .compact json (onChannel (some 1) sent).length
          ((onChannel (some 1) sent).flatten ++ [0x7b]) = some (received, [0x7b]) ∧
        received.map (·.receivedOn (some 1)) = [.dataStart (some 1) none, .dataEnd (some 1)] := by
  have hsent : (twoChannels.mapM (sendClientMessage .compact json 2)).isSome := by decide +kernel
  obtain ⟨sent, hsent⟩ := Option.isSome_iff_exists.mp hsent
  have hplain : ∀ message ∈ twoChannels, message.Plain := by
    simp [twoChannels, ClientMessageV0.Plain]
  obtain ⟨received, hread, hreceived⟩ :=
    session_is_read_back SerdeJson.compact_documented hplain hsent (some 1) [0x7b]
  exact ⟨sent, hsent, received, hread, hreceived⟩

end StateProxy.Protocol
