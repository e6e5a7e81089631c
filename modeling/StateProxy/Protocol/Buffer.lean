import StateProxy.ProofKit.Outcome
import Mathlib.Tactic.Common

/-! Filling the message buffer from a stream of bytes.  The reader may deliver its bytes in parts of any
size.  After each part the loop goes on behind as many bytes of the slice that is left as there are in
the whole buffer, and not behind the part itself: so only the first part lands where it belongs, and
the second one when the buffer was empty. -/

namespace StateProxy.Protocol

open ProofKit

def maxMessageBinarySize : Nat := 1024

def messageBufferSize : Nat := maxMessageBinarySize + 1

/-- A reader: the bytes that it still delivers, how many of them each of the next reads returns at
most, all that there are after that, and the error that follows the bytes, if the stream does not end
there. -/
structure Reader where
  bytes : List UInt8
  sizes : List Nat
  failure : Option String
deriving DecidableEq, Repr

namespace Reader

/-- How many bytes a read into a slice of length `room` returns. -/
def count (data : Reader) (room : Nat) : Nat :=
  min (max 1 (data.sizes.headD data.bytes.length)) (min room data.bytes.length)

def advance (data : Reader) (n : Nat) : Reader :=
  ⟨data.bytes.drop n, data.sizes.tail, data.failure⟩

/-- `read`, into a slice of length `room`. -/
def read (data : Reader) (room : Nat) : Except String (List UInt8 × Reader) :=
  if room = 0 then .ok ([], data)
  else if data.bytes = [] then
    match data.failure with
    | none => .ok ([], data)
    | some e => .error e
  else .ok (data.bytes.take (data.count room), data.advance (data.count room))

end Reader

/-- What `fill_buffer_from` has borrowed. -/
structure Filling where
  readBuffer : List UInt8
  data : Reader
deriving DecidableEq, Repr

inductive FillFailure
  | io (error : String)
  /-- `assert!(in_buffer <= MESSAGE_BUFFER_SIZE)`. -/
  | assertionFailed
  /-- `read_buffer_slice[in_buffer..]` with a larger index than length. -/
  | rangeStartOutOfRange
deriving DecidableEq, Repr

abbrev FillM := EStateM FillFailure Filling

/-- The buffer with `bytes` written from `start` on. -/
def overwrite (buffer : List UInt8) (start : Nat) (bytes : List UInt8) : List UInt8 :=
  buffer.take start ++ bytes ++ buffer.drop (start + bytes.length)

/-- `data.read(read_buffer_slice)`, for the slice from `start` on. -/
def readInto (start : Nat) : FillM Nat := fun s =>
  match s.data.read (s.readBuffer.length - start) with
  | .error e => .error (.io e) s
  | .ok (bytes, data) => .ok bytes.length ⟨overwrite s.readBuffer start bytes, data⟩

/-- The loop of `fill_buffer_from`, for the slice from `start` on: it returns `in_buffer`. -/
def fillLoop (start inBuffer : Nat) : FillM Nat := do
  let read ← readInto start
  let total := inBuffer + read
  if read = 0 ∨ maxMessageBinarySize < total then
    pure total
  else
    let length := (← get).readBuffer.length - start
    if length < total then throw .rangeStartOutOfRange
    fillLoop (start + total) total
termination_by messageBufferSize - inBuffer
decreasing_by
  rename_i h _
  simp only [not_or, Nat.not_lt] at h
  unfold messageBufferSize
  omega

/-- `resize`, with zeros. -/
def resize (buffer : List UInt8) (length : Nat) : List UInt8 :=
  buffer.take length ++ List.replicate (length - buffer.length) 0

def fillBufferFrom : FillM Bool := do
  let inBuffer := (← get).readBuffer.length
  if messageBufferSize < inBuffer then throw .assertionFailed
  modify fun s => { s with readBuffer := resize s.readBuffer messageBufferSize }
  let inBuffer ← fillLoop inBuffer inBuffer
  modify fun s => { s with readBuffer := s.readBuffer.take inBuffer }
  pure (inBuffer < messageBufferSize)

/-- The buffer gets the first bytes of the stream that fit into it, and nothing else is read of it. -/
def Filled (buffer : List UInt8) (data : Reader) : Prop :=
  let n := min data.bytes.length (messageBufferSize - buffer.length)
  ∃ data', fillBufferFrom ⟨buffer, data⟩ =
      .ok (buffer.length + data.bytes.length < messageBufferSize)
        ⟨buffer ++ data.bytes.take n, data'⟩ ∧
    data'.bytes = data.bytes.drop n

/-- With `k` bytes in the buffer, one read ends the loop as it should: there is no room or nothing to
read, or it fills the buffer, or it takes all that there is and the slice is long enough to go on. -/
def OneRead (k : Nat) (data : Reader) : Prop :=
  let r := data.count (messageBufferSize - k)
  k = messageBufferSize ∨ data.bytes = [] ∨ k + r = messageBufferSize ∨
    2 * k + r ≤ messageBufferSize ∧ data.bytes.length = r

/-- One read suffices, or the buffer is empty and two reads do. -/
def Fits (buffer : List UInt8) (data : Reader) : Prop :=
  let r := data.count messageBufferSize
  OneRead buffer.length data ∨ buffer = [] ∧ OneRead r (data.advance r)

/-! ### Reads -/

section Reads

variable {data : Reader} {room : Nat}

theorem Reader.count_le_room (data : Reader) (room : Nat) : data.count room ≤ room := by
  unfold count
  omega

theorem Reader.count_le_length (data : Reader) (room : Nat) :
    data.count room ≤ data.bytes.length := by
  unfold count
  omega

theorem Reader.count_pos (hroom : room ≠ 0) (hbytes : data.bytes ≠ []) : 0 < data.count room := by
  have hlength := List.length_pos_of_ne_nil hbytes
  unfold count
  omega

theorem length_take_count (data : Reader) (room : Nat) :
    (data.bytes.take (data.count room)).length = data.count room := by
  have hle := data.count_le_length room
  rw [List.length_take]
  omega

theorem overwrite_nil (buffer : List UInt8) (start : Nat) : overwrite buffer start [] = buffer := by
  simp [overwrite]

theorem length_overwrite {buffer bytes : List UInt8} {start : Nat}
    (h : start + bytes.length ≤ buffer.length) :
    (overwrite buffer start bytes).length = buffer.length := by
  simp only [overwrite, List.length_append, List.length_take, List.length_drop]
  omega

theorem getElem?_overwrite {buffer bytes : List UInt8} {start i : Nat} (hi : i < start)
    (hstart : start ≤ buffer.length) : (overwrite buffer start bytes)[i]? = buffer[i]? := by
  have hlength : i < (buffer.take start).length := by
    rw [List.length_take]
    omega
  rw [overwrite, List.append_assoc, List.getElem?_append_left hlength, List.getElem?_take_of_lt hi]

variable {buffer : List UInt8} {start inBuffer : Nat}

theorem length_overwrite_read (data : Reader) (hstart : start ≤ buffer.length) :
    (overwrite buffer start (data.bytes.take (data.count (buffer.length - start)))).length =
      buffer.length := by
  have hroom := data.count_le_room (buffer.length - start)
  refine length_overwrite ?_
  rw [length_take_count]
  omega

/-- A read of no bytes ends the loop. -/
theorem fillLoop_stops (hread : data.read (buffer.length - start) = .ok ([], data)) :
    fillLoop start inBuffer ⟨buffer, data⟩ = .ok inBuffer ⟨buffer, data⟩ := by
  have hinto : readInto start ⟨buffer, data⟩ = .ok 0 ⟨buffer, data⟩ := by
    simp [readInto, hread, overwrite_nil]
  rw [fillLoop.eq_1, bind_of_ok hinto, if_pos (.inl rfl)]
  rfl

/-- Without room nothing is read, also when the reader would fail. -/
theorem fillLoop_full (inBuffer : Nat) (data : Reader) (h : buffer.length ≤ start) :
    fillLoop start inBuffer ⟨buffer, data⟩ = .ok inBuffer ⟨buffer, data⟩ := by
  have hroom : buffer.length - start = 0 := by omega
  exact fillLoop_stops (by rw [Reader.read, if_pos hroom])

/-- Without room or bytes, the loop ends at once. -/
theorem fillLoop_ends (hend : data.failure = none)
    (h : start = buffer.length ∨ data.bytes = []) :
    fillLoop start inBuffer ⟨buffer, data⟩ = .ok inBuffer ⟨buffer, data⟩ := by
  rcases h with rfl | hbytes
  · exact fillLoop_full inBuffer data le_rfl
  · refine fillLoop_stops ?_
    unfold Reader.read
    simp [hbytes, hend]

/-- The error of a reader that has delivered its bytes ends the loop and leaves the buffer alone. -/
theorem fillLoop_fails (inBuffer : Nat) (hroom : start < buffer.length) (hbytes : data.bytes = [])
    {error : String} (hfailure : data.failure = some error) :
    fillLoop start inBuffer ⟨buffer, data⟩ = .error (.io error) ⟨buffer, data⟩ := by
  have hread : data.read (buffer.length - start) = .error error := by
    simp only [Reader.read, if_neg (show buffer.length - start ≠ 0 by omega), if_pos hbytes, hfailure]
  have hinto : readInto start ⟨buffer, data⟩ = .error (.io error) ⟨buffer, data⟩ := by
    simp only [readInto, hread]
  rw [fillLoop.eq_1]
  exact bind_error.mpr (.inl hinto)

/-- One turn of the loop that reads something. -/
theorem fillLoop_reads (inBuffer : Nat) (hroom : start < buffer.length) (hbytes : data.bytes ≠ []) :
    let r := data.count (buffer.length - start)
    let after : Filling := ⟨overwrite buffer start (data.bytes.take r), data.advance r⟩
    fillLoop start inBuffer ⟨buffer, data⟩ =
      if maxMessageBinarySize < inBuffer + r then .ok (inBuffer + r) after
      else if buffer.length - start < inBuffer + r then .error .rangeStartOutOfRange after
      else fillLoop (start + (inBuffer + r)) (inBuffer + r) after := by
  intro r after
  have hpos : 0 < data.count (buffer.length - start) := Reader.count_pos (by omega) hbytes
  have hlength : (data.bytes.take r).length = r := length_take_count data _
  have hinto : readInto start ⟨buffer, data⟩ = .ok r after := by
    simp only [readInto, Reader.read, if_neg (show buffer.length - start ≠ 0 by omega), if_neg hbytes]
    rw [hlength]
  have hsame : after.readBuffer.length = buffer.length := length_overwrite_read data hroom.le
  rw [fillLoop.eq_1, bind_of_ok hinto]
  have hne : r ≠ 0 := by omega
  by_cases hfull : maxMessageBinarySize < inBuffer + r
  · simp only [hne, hfull, or_true, if_true]
    rfl
  · simp only [hne, hfull, or_self, if_false]
    have hget : (get : FillM _) after = .ok after after := rfl
    rw [bind_of_ok hget, hsame]
    split
    · rfl
    · rfl

/-- The loop does not touch the bytes before its slice. -/
theorem fillLoop_keeps (hend : data.failure = none) (hstart : start ≤ buffer.length) {m : Nat}
    {after : Filling} (h : fillLoop start inBuffer ⟨buffer, data⟩ = .ok m after) {i : Nat}
    (hi : i < start) : after.readBuffer[i]? = buffer[i]? := by
  induction start, inBuffer using fillLoop.induct generalizing buffer data with
  | case1 start inBuffer ih =>
    by_cases hstop : start = buffer.length ∨ data.bytes = []
    · rw [fillLoop_ends hend hstop] at h
      cases h
      rfl
    · obtain ⟨hroom, hbytes⟩ := not_or.mp hstop
      rw [fillLoop_reads inBuffer (by omega) hbytes] at h
      have hpos : 0 < data.count (buffer.length - start) := Reader.count_pos (by omega) hbytes
      have hkept : (overwrite buffer start
          (data.bytes.take (data.count (buffer.length - start))))[i]? = buffer[i]? :=
        getElem?_overwrite hi hstart
      split_ifs at h with hfull hpanic
      · cases h
        exact hkept
      · rw [← hkept]
        have hafter : (data.advance (data.count (buffer.length - start))).failure = none := hend
        refine ih (data.count (buffer.length - start)) (by omega) hafter ?_ h (by omega)
        rw [length_overwrite_read data hstart]
        omega

/-- However the loop fails, the buffer keeps the length that it has been resized to. -/
theorem fillLoop_error {e : FillFailure} {after : Filling}
    (h : fillLoop start inBuffer ⟨buffer, data⟩ = .error e after) :
    after.readBuffer.length = buffer.length := by
  induction start, inBuffer using fillLoop.induct generalizing buffer data with
  | case1 start inBuffer ih =>
    by_cases hroom : buffer.length ≤ start
    · rw [fillLoop_full inBuffer data hroom] at h
      cases h
    by_cases hbytes : data.bytes = []
    · cases hfailure : data.failure with
      | none =>
        rw [fillLoop_ends hfailure (.inr hbytes)] at h
        cases h
      | some error =>
        rw [fillLoop_fails inBuffer (by omega) hbytes hfailure] at h
        cases h
        rfl
    · rw [fillLoop_reads inBuffer (by omega) hbytes] at h
      have hpos : 0 < data.count (buffer.length - start) := Reader.count_pos (by omega) hbytes
      have hlength := length_overwrite_read data (show start ≤ buffer.length by omega)
      split_ifs at h with hfull hpanic
      · cases h
        exact hlength
      · rw [← hlength]
        exact ih (data.count (buffer.length - start)) (by omega) h

end Reads

/-! ### The first read, and the second one -/

/-- The buffer after `resize`. -/
def padded (p : List UInt8) : List UInt8 :=
  p ++ List.replicate (messageBufferSize - p.length) 0

theorem length_padded {p : List UInt8} (h : p.length ≤ messageBufferSize) :
    (padded p).length = messageBufferSize := by
  rw [padded, List.length_append, List.length_replicate]
  omega

theorem take_padded (p : List UInt8) : (padded p).take p.length = p := by
  simp [padded]

/-- Bytes are written behind those that are there, over zeros. -/
theorem overwrite_padded (p bytes : List UInt8) :
    overwrite (padded p) p.length bytes = padded (p ++ bytes) := by
  simp [overwrite, padded, List.drop_append, Nat.sub_sub]

/-- One turn of the loop that begins right behind the bytes of the buffer and reads something. -/
theorem fillLoop_padded {p : List UInt8} {data : Reader} (hroom : p.length < messageBufferSize)
    (hbytes : data.bytes ≠ []) {r : Nat} (hr : data.count (messageBufferSize - p.length) = r) :
    fillLoop p.length p.length ⟨padded p, data⟩ =
      if p.length + r = messageBufferSize then
        .ok (p.length + r) ⟨padded (p ++ data.bytes.take r), data.advance r⟩
      else if messageBufferSize < 2 * p.length + r then
        .error .rangeStartOutOfRange ⟨padded (p ++ data.bytes.take r), data.advance r⟩
      else fillLoop (2 * p.length + r) (p.length + r)
        ⟨padded (p ++ data.bytes.take r), data.advance r⟩ := by
  have hsize : messageBufferSize = maxMessageBinarySize + 1 := rfl
  have hlength : (padded p).length = messageBufferSize := length_padded (by omega)
  have hle := data.count_le_room (messageBufferSize - p.length)
  have hfull : maxMessageBinarySize < p.length + r ↔ p.length + r = messageBufferSize := by omega
  have hpanic : messageBufferSize - p.length < p.length + r ↔
      messageBufferSize < 2 * p.length + r := by omega
  have hstart : p.length + (p.length + r) = 2 * p.length + r := by omega
  have hreads := fillLoop_reads p.length (show p.length < (padded p).length by omega) hbytes
  simp only [hlength, hr, overwrite_padded, hfull, hpanic, hstart] at hreads
  exact hreads

/-- The loop, when it begins right behind the bytes of the buffer, leaves what it should. -/
def Ends (p : List UInt8) (data : Reader) : Prop :=
  let n := min data.bytes.length (messageBufferSize - p.length)
  ∃ m after, fillLoop p.length p.length ⟨padded p, data⟩ = .ok m after ∧
    (m < messageBufferSize ↔ p.length + data.bytes.length < messageBufferSize) ∧
    after.readBuffer.take m = p ++ data.bytes.take n ∧ after.data.bytes = data.bytes.drop n

theorem fillBufferFrom_eq {p : List UInt8} (data : Reader) (h : p.length ≤ messageBufferSize) :
    fillBufferFrom ⟨p, data⟩ =
      match fillLoop p.length p.length ⟨padded p, data⟩ with
      | .ok m after => .ok (m < messageBufferSize) ⟨after.readBuffer.take m, after.data⟩
      | .error e after => .error e after := by
  have hresize : resize p messageBufferSize = padded p := by
    rw [resize, padded, List.take_of_length_le h]
  have hget : (get : FillM _) ⟨p, data⟩ = .ok ⟨p, data⟩ ⟨p, data⟩ := rfl
  have hmodify : (modify fun s => { s with readBuffer := resize s.readBuffer messageBufferSize } :
      FillM _) ⟨p, data⟩ = .ok () ⟨padded p, data⟩ := by
    rw [← hresize]
    rfl
  rw [fillBufferFrom, bind_of_ok hget]
  simp only [if_neg (show ¬ messageBufferSize < p.length by omega)]
  rw [bind_of_ok hmodify]
  cases hloop : fillLoop p.length p.length ⟨padded p, data⟩ with
  | ok m after =>
    rw [bind_of_ok hloop]
    rfl
  | error e after => exact bind_error.mpr (.inl hloop)

theorem filled_iff {p : List UInt8} {data : Reader} (h : p.length ≤ messageBufferSize) :
    Filled p data ↔ Ends p data := by
  unfold Filled Ends
  rw [fillBufferFrom_eq data h]
  constructor
  · rintro ⟨data', hok, hdata⟩
    split at hok
    · rename_i m after hloop
      obtain ⟨hflag, hstate⟩ := EStateM.Result.ok.inj hok
      obtain ⟨hbuffer, rfl⟩ := Filling.mk.inj hstate
      exact ⟨m, after, hloop, by simpa using hflag, hbuffer, hdata⟩
    · cases hok
  · rintro ⟨m, after, hloop, hflag, hbuffer, hdata⟩
    refine ⟨after.data, ?_, hdata⟩
    rw [hloop, ← hbuffer]
    simp only [hflag]

section Ends

variable {p : List UInt8} {data : Reader}

theorem length_append_take {r : Nat} (h : r ≤ data.bytes.length) :
    (p ++ data.bytes.take r).length = p.length + r := by
  rw [List.length_append, List.length_take]
  omega

/-- Without room or bytes, the loop leaves what it should. -/
theorem ends_at_once (hend : data.failure = none) (hp : p.length ≤ messageBufferSize)
    (hstop : p.length = messageBufferSize ∨ data.bytes = []) : Ends p data := by
  have hn : min data.bytes.length (messageBufferSize - p.length) = 0 := by
    rcases hstop with hfull | hbytes
    · omega
    · simp [hbytes]
  have hroom : p.length = (padded p).length ∨ data.bytes = [] := by rwa [length_padded hp]
  refine ⟨p.length, _, fillLoop_ends hend hroom, ?_, ?_, ?_⟩
  · rcases hstop with hfull | hbytes
    · omega
    · simp [hbytes]
  · rw [hn, take_padded, List.take_zero, List.append_nil]
  · rw [hn, List.drop_zero]

/-- When one read ends the loop as it should, the loop leaves what it should. -/
theorem ends_of_oneRead (hend : data.failure = none) (hp : p.length ≤ messageBufferSize)
    (h : OneRead p.length data) : Ends p data := by
  rcases h with hfull | hnone | h
  · exact ends_at_once hend hp (.inl hfull)
  · exact ends_at_once hend hp (.inr hnone)
  by_cases hstop : p.length = messageBufferSize ∨ data.bytes = []
  · exact ends_at_once hend hp hstop
  obtain ⟨hroom, hbytes⟩ := not_or.mp hstop
  have hle := data.count_le_length (messageBufferSize - p.length)
  have hloop := fillLoop_padded (by omega) hbytes (rfl : data.count (messageBufferSize - p.length) = _)
  generalize data.count (messageBufferSize - p.length) = r at h hle hloop
  have htake : (p ++ data.bytes.take r).length = p.length + r := length_append_take hle
  have hn : min data.bytes.length (messageBufferSize - p.length) = r := by omega
  have hbuffer : (padded (p ++ data.bytes.take r)).take (p.length + r) = p ++ data.bytes.take r := by
    rw [← htake, take_padded]
  have hflag : p.length + r < messageBufferSize ↔
      p.length + data.bytes.length < messageBufferSize := by omega
  refine ⟨p.length + r, ⟨padded (p ++ data.bytes.take r), data.advance r⟩, ?_, hflag, ?_, ?_⟩
  · by_cases hfills : p.length + r = messageBufferSize
    · rw [hloop, if_pos hfills]
    · obtain ⟨hgoes, hall⟩ := h.resolve_left hfills
      -- the second read finds the end of the stream
      have hrest : (data.advance r).bytes = [] := by
        rw [Reader.advance, ← hall, List.drop_length]
      have hend' : (data.advance r).failure = none := hend
      rw [hloop, if_neg hfills, if_neg (by omega), fillLoop_ends hend' (.inr hrest)]
  · rw [hn, hbuffer]
  · rw [hn]
    rfl

/-- When the buffer was not empty and one read does not suffice, the loop panics or leaves a zero
behind the bytes of the first read. -/
theorem oneRead_of_ends (hend : data.failure = none) (hp : p.length ≤ messageBufferSize)
    (hne : p ≠ []) (hzero : 0 ∉ data.bytes) (h : Ends p data) : OneRead p.length data := by
  by_contra hnot
  obtain ⟨m, after, hok, -, hbuffer, -⟩ := h
  unfold OneRead at hnot
  obtain ⟨hroom, hnot⟩ := not_or.mp hnot
  obtain ⟨hbytes, hnot⟩ := not_or.mp hnot
  obtain ⟨hfills, hnot⟩ := not_or.mp hnot
  have hle := data.count_le_length (messageBufferSize - p.length)
  have hroom' := data.count_le_room (messageBufferSize - p.length)
  have hloop := fillLoop_padded (by omega) hbytes (rfl : data.count (messageBufferSize - p.length) = _)
  generalize data.count (messageBufferSize - p.length) = r at hnot hfills hle hroom' hloop
  have hpos := List.length_pos_of_ne_nil hne
  have htake : (p ++ data.bytes.take r).length = p.length + r := length_append_take hle
  rw [hloop, if_neg hfills] at hok
  by_cases hpanic : messageBufferSize < 2 * p.length + r
  · rw [if_pos hpanic] at hok
    cases hok
  · rw [if_neg hpanic] at hok
    have hmore : r < data.bytes.length := by omega
    have hn : r < min data.bytes.length (messageBufferSize - p.length) := by omega
    have hend' : (data.advance r).failure = none := hend
    have hlength : (padded (p ++ data.bytes.take r)).length = messageBufferSize :=
      length_padded (by omega)
    have hkept := fillLoop_keeps hend' (by omega) hok (show p.length + r < 2 * p.length + r by omega)
    have hpadding : (padded (p ++ data.bytes.take r))[p.length + r]? = some 0 := by
      rw [padded, List.getElem?_append_right (by omega), List.getElem?_replicate, if_pos (by omega)]
    have hexpected : (after.readBuffer.take m)[p.length + r]? = data.bytes[r]? := by
      rw [hbuffer, List.getElem?_append_right (by omega), Nat.add_sub_cancel_left,
        List.getElem?_take_of_lt hn]
    rw [List.getElem?_take, hkept, hpadding, List.getElem?_eq_getElem hmore] at hexpected
    split at hexpected
    · exact hzero (List.mem_of_getElem (Option.some.inj hexpected).symm)
    · cases hexpected

/-- From an empty buffer, the second read begins right behind the first one. -/
theorem ends_second_read (hone : ¬ OneRead 0 data) {r : Nat}
    (hr : data.count messageBufferSize = r) :
    Ends [] data ↔ Ends (data.bytes.take r) (data.advance r) := by
  have hbytes : data.bytes ≠ [] := fun hnone => hone (.inr (.inl hnone))
  have hfills : r ≠ messageBufferSize :=
    fun hfills => hone (.inr (.inr (.inl (by simpa [hr] using hfills))))
  have hle := data.count_le_length messageBufferSize
  have hroom := data.count_le_room messageBufferSize
  have hlength := length_take_count data messageBufferSize
  rw [hr] at hle hroom hlength
  have hloop := fillLoop_padded (p := []) (by decide) hbytes hr
  simp only [List.length_nil, Nat.zero_add, Nat.mul_zero, List.nil_append] at hloop
  rw [if_neg hfills, if_neg (by omega)] at hloop
  have hadvance : (data.advance r).bytes = data.bytes.drop r := rfl
  have htotal : r + (data.bytes.length - r) = data.bytes.length := by omega
  have hn : min data.bytes.length messageBufferSize =
      r + min (data.bytes.length - r) (messageBufferSize - r) := by omega
  unfold Ends
  simp only [List.length_nil, Nat.zero_add, Nat.sub_zero, List.nil_append]
  rw [hlength, hloop, hadvance, List.length_drop, htotal, hn, List.take_add, List.drop_drop]

theorem ends_of_fits (hend : data.failure = none) (hp : p.length ≤ messageBufferSize)
    (h : Fits p data) : Ends p data := by
  rcases h with hone | ⟨rfl, htwo⟩
  · exact ends_of_oneRead hend hp hone
  · by_cases hone : OneRead 0 data
    · exact ends_of_oneRead hend hp hone
    · rw [ends_second_read hone rfl]
      have hroom := data.count_le_room messageBufferSize
      have hlength := length_take_count data messageBufferSize
      refine ends_of_oneRead hend (by omega) ?_
      rwa [hlength]

theorem fits_of_ends (hend : data.failure = none) (hp : p.length ≤ messageBufferSize)
    (hzero : 0 ∉ data.bytes) (h : Ends p data) : Fits p data := by
  by_cases hempty : p = []
  · subst hempty
    by_cases hone : OneRead 0 data
    · exact .inl hone
    · rw [ends_second_read hone rfl] at h
      have hpos : 0 < data.count messageBufferSize :=
        Reader.count_pos (by decide) fun hnone => hone (.inr (.inl hnone))
      have hroom := data.count_le_room messageBufferSize
      have hlength := length_take_count data messageBufferSize
      have hne : data.bytes.take (data.count messageBufferSize) ≠ [] := by
        rw [← List.length_pos_iff]
        omega
      have hend' : (data.advance (data.count messageBufferSize)).failure = none := hend
      have hrest : 0 ∉ (data.advance (data.count messageBufferSize)).bytes :=
        fun hmem => hzero (List.mem_of_mem_drop hmem)
      have htwo := oneRead_of_ends hend' (by omega) hne hrest h
      rw [hlength] at htwo
      exact .inr ⟨rfl, htwo⟩
  · exact .inl (oneRead_of_ends hend hp hempty hzero h)

end Ends

/-- The buffer is filled as it should be when one read suffices, or two reads into an empty buffer;
and only then, unless the stream has a zero, which cannot be told from the padding. -/
theorem fillBufferFrom_fits {buffer bytes : List UInt8} {sizes : List Nat}
    (hbuffer : buffer.length ≤ messageBufferSize) :
    (Fits buffer ⟨bytes, sizes, none⟩ → Filled buffer ⟨bytes, sizes, none⟩) ∧
    (0 ∉ bytes → Filled buffer ⟨bytes, sizes, none⟩ → Fits buffer ⟨bytes, sizes, none⟩) := by
  rw [filled_iff hbuffer]
  exact ⟨ends_of_fits rfl hbuffer, fun hzero hends => fits_of_ends rfl hbuffer hzero hends⟩

theorem fillBufferFrom_fits_whole : Filled [1] ⟨[2, 3], [], none⟩ :=
  (fillBufferFrom_fits (by decide)).1 (.inl (.inr (.inr (.inr (by decide)))))

/-- Without the condition the buffer can get a zero that is not in the stream, here when two bytes are
read one by one into a buffer that has a byte already. -/
theorem not_filled_one_by_one :
    ¬ ∀ (buffer bytes : List UInt8) (sizes : List Nat), buffer.length ≤ messageBufferSize →
      Filled buffer ⟨bytes, sizes, none⟩ := by
  intro hall
  have hbuffer : ([1] : List UInt8).length ≤ messageBufferSize := by decide
  have hone := oneRead_of_ends rfl hbuffer (by decide) (by decide)
    ((filled_iff hbuffer).mp (hall [1] [2, 3] [1] hbuffer))
  revert hone
  unfold OneRead
  decide

/-! ### Readers that fail

The error of a read leaves the function before the buffer is cut back to what it holds. -/

/-- The stream fails behind `bytes`, and the buffer is left with the bytes that it had and these. -/
def KeptOnFailure (buffer bytes : List UInt8) (sizes : List Nat) (error : String) : Prop :=
  ∃ data', fillBufferFrom ⟨buffer, ⟨bytes, sizes, some error⟩⟩ =
    .error (.io error) ⟨buffer ++ bytes, data'⟩

theorem fillBufferFrom_error {buffer : List UInt8} {data : Reader} {e : FillFailure}
    {after : Filling} (hbuffer : buffer.length ≤ messageBufferSize)
    (h : fillBufferFrom ⟨buffer, data⟩ = .error e after) :
    after.readBuffer.length = messageBufferSize := by
  rw [fillBufferFrom_eq data hbuffer] at h
  split at h
  · cases h
  · rename_i e' after' hloop
    obtain ⟨-, rfl⟩ := EStateM.Result.error.inj h
    rw [fillLoop_error hloop, length_padded hbuffer]

/-- A full buffer takes no bytes, from any reader. -/
theorem fillBufferFrom_full {buffer : List UInt8} (h : buffer.length = messageBufferSize)
    (data : Reader) : fillBufferFrom ⟨buffer, data⟩ = .ok false ⟨buffer, data⟩ := by
  have hpadded : padded buffer = buffer := by simp [padded, h]
  rw [fillBufferFrom_eq data h.le, hpadded, fillLoop_full buffer.length data le_rfl]
  simp [h, List.take_of_length_le h.le]

theorem not_keptOnFailure {buffer bytes : List UInt8} (sizes : List Nat) (error : String)
    (h : buffer.length + bytes.length < messageBufferSize) :
    ¬ KeptOnFailure buffer bytes sizes error := by
  rintro ⟨data', hfails⟩
  have hlength := fillBufferFrom_error (by omega) hfails
  rw [List.length_append] at hlength
  omega

/-- A reader that fails before the buffer is full never leaves the buffer with what has been received:
whatever error comes out, the buffer is padded to its full length, and no later call reads anything into
it. -/
theorem fillBufferFrom_failure_pads {buffer bytes : List UInt8} (sizes : List Nat) (error : String)
    (h : buffer.length + bytes.length < messageBufferSize) :
    ¬ KeptOnFailure buffer bytes sizes error ∧
    ∀ e after, fillBufferFrom ⟨buffer, ⟨bytes, sizes, some error⟩⟩ = .error e after →
      after.readBuffer.length = messageBufferSize ∧
      ∀ next, fillBufferFrom ⟨after.readBuffer, next⟩ = .ok false ⟨after.readBuffer, next⟩ := by
  refine ⟨not_keptOnFailure sizes error h, fun e after hfails => ?_⟩
  have hfull := fillBufferFrom_error (by omega) hfails
  exact ⟨hfull, fun next => fillBufferFrom_full hfull next⟩

theorem fillBufferFrom_failure_pads_reset :
    ¬ KeptOnFailure [1] [2] [] "connection reset" :=
  (fillBufferFrom_failure_pads [] "connection reset" (by decide)).1

/-- A byte is in the buffer, another one is read, and then the connection is reset: 1023 zeros stay
behind the two bytes. -/
theorem not_keptOnFailure_reset :
    fillBufferFrom ⟨[1], ⟨[2], [], some "connection reset"⟩⟩ =
      .error (.io "connection reset")
        ⟨[1, 2] ++ List.replicate 1023 0, ⟨[], [], some "connection reset"⟩⟩ ∧
    ¬ ∀ (buffer bytes : List UInt8) (sizes : List Nat) (error : String),
      buffer.length ≤ messageBufferSize → buffer.length + bytes.length < messageBufferSize →
      KeptOnFailure buffer bytes sizes error := by
  have hroom : ([1] : List UInt8).length + ([2] : List UInt8).length < messageBufferSize := by decide
  constructor
  · have hread := fillLoop_padded (p := [1]) (by decide) (by decide)
      (rfl : (⟨[2], [], some "connection reset"⟩ : Reader).count (messageBufferSize - 1) = 1)
    rw [fillBufferFrom_eq _ (by decide), hread, if_neg (by decide), if_neg (by decide),
      fillLoop_fails _ (by rw [length_padded (by decide)]; decide) (by decide) rfl]
    rfl
  · intro hall
    exact not_keptOnFailure [] "connection reset" hroom
      (hall [1] [2] [] "connection reset" (by decide) hroom)

end StateProxy.Protocol
