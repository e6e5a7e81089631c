import StateProxy.ProofKit.Registry

/-! The map of the external connections.  A handle of a protocol is a value of any type.  Tasks register
connections under a lock, so their calls follow one another; a call that panics gives the lock back and
leaves the map as it was. -/

namespace StateProxy.State

open ProofKit

variable {H : Type}

/-- An external connection with the state that belongs to it. -/
structure Connection (H : Type) where
  externalConnection : H
  applicationState : List UInt8
  applicationSockets : HashMap String H

def Connection.new (externalConnection : H) : Connection H := ⟨externalConnection, [], ∅⟩

structure ConnectionMap (H : Type) where
  nextId : UInt64
  connections : HashMap UInt64 (Connection H)

inductive Panic
  /-- `id.checked_add(1).unwrap()` at the last id. -/
  | unwrapOnNone
deriving DecidableEq, Repr

/-- `checked_add`. -/
def checkedAdd (a b : UInt64) : Option UInt64 :=
  if a.toNat + b.toNat < 2 ^ 64 then some (a + b) else none

namespace ConnectionMap

def new : ConnectionMap H := ⟨0, ∅⟩

def register (externalConnection : H) : EStateM Panic (ConnectionMap H) UInt64 := do
  let map ← get
  match checkedAdd map.nextId 1 with
  | none => throw .unwrapOnNone
  | some nextId =>
    set (⟨nextId, map.connections.insert map.nextId (.new externalConnection)⟩ : ConnectionMap H)
    return map.nextId

/-- The number of calls that can succeed. -/
def capacity : Nat := 2 ^ 64 - 1

/-- The map after the handles: of those that fit, each has its position as its id. -/
structure Holds (handles : List H) (map : ConnectionMap H) : Prop where
  nextId : map.nextId.toNat = min handles.length capacity
  lookup : ∀ id, map.connections.lookup id = ((handles.take capacity)[id.toNat]?).map Connection.new

theorem Holds.new : Holds [] (new : ConnectionMap H) := ⟨rfl, fun id => Finmap.lookup_empty id⟩

theorem register_of_lt {map : ConnectionMap H} (h : map.nextId.toNat < capacity) (handle : H) :
    register handle map = .ok map.nextId
      ⟨map.nextId + 1, map.connections.insert map.nextId (.new handle)⟩ := by
  have hget : (get : EStateM Panic (ConnectionMap H) _) map = .ok map map := rfl
  have hadd : checkedAdd map.nextId 1 = some (map.nextId + 1) := by
    rw [checkedAdd, if_pos]
    unfold capacity at h
    change map.nextId.toNat + 1 < 2 ^ 64
    omega
  simp only [register, bind_of_ok hget, hadd]
  rfl

theorem register_of_le {map : ConnectionMap H} (h : capacity ≤ map.nextId.toNat) (handle : H) :
    register handle map = .error .unwrapOnNone map := by
  have hget : (get : EStateM Panic (ConnectionMap H) _) map = .ok map map := rfl
  have hadd : checkedAdd map.nextId 1 = none := by
    rw [checkedAdd, if_neg]
    unfold capacity at h
    change ¬ map.nextId.toNat + 1 < 2 ^ 64
    omega
  simp only [register, bind_of_ok hget, hadd]
  rfl

theorem toNat_add_one {id : UInt64} (h : id.toNat < capacity) : (id + 1).toNat = id.toNat + 1 := by
  unfold capacity at h
  rw [UInt64.toNat_add]
  change (id.toNat + 1) % 2 ^ 64 = _
  omega

/-- A handle that fits gets the next position. -/
theorem Holds.insert {handles : List H} {map : ConnectionMap H} (holds : Holds handles map)
    (hfits : handles.length < capacity) (handle : H) :
    Holds (handles ++ [handle])
      ⟨map.nextId + 1, map.connections.insert map.nextId (.new handle)⟩ := by
  have hnext : map.nextId.toNat = handles.length := by
    rw [holds.nextId]
    omega
  constructor
  · change (map.nextId + 1).toNat = _
    rw [toNat_add_one (by omega), hnext, List.length_append, List.length_singleton]
    omega
  · intro id
    change (map.connections.insert map.nextId _).lookup id = _
    have htake : (handles ++ [handle]).take capacity = handles ++ [handle] :=
      List.take_of_length_le (by simp; omega)
    have hbefore := holds.lookup id
    rw [List.take_of_length_le (by omega)] at hbefore
    rw [lookup_insert_eq, htake, hbefore]
    by_cases heq : id = map.nextId
    · rw [if_pos heq, heq, hnext, List.getElem?_concat_length]
      rfl
    · have hne : id.toNat ≠ handles.length := fun hlength =>
        heq (UInt64.toNat_inj.mp (hlength.trans hnext.symm))
      rw [if_neg heq, List.getElem?_append]
      split
      · rfl
      · rename_i hle
        have hpast : 1 ≤ id.toNat - handles.length := by omega
        rw [List.getElem?_eq_none (Nat.le_of_not_lt hle), List.getElem?_eq_none hpast]

/-- A handle that does not fit changes nothing. -/
theorem Holds.keep {handles : List H} {map : ConnectionMap H} (holds : Holds handles map)
    (hfull : capacity ≤ handles.length) (handle : H) : Holds (handles ++ [handle]) map := by
  constructor
  · rw [holds.nextId, List.length_append]
    omega
  · intro id
    rw [holds.lookup, List.take_append_of_le_length hfull]

theorem register_answers : Answers (register (H := H)) Holds (fun before _ =>
    if before.length < capacity then .ok (.ofNat before.length) else .error .unwrapOnNone) := by
  intro before handle map holds
  dsimp only
  by_cases hfits : before.length < capacity
  · have hnext : map.nextId.toNat = before.length := by
      rw [holds.nextId]
      omega
    have hid : map.nextId = .ofNat before.length := by rw [← hnext, UInt64.ofNat_toNat]
    rw [register_of_lt (by omega), if_pos hfits, ← hid]
    exact ⟨rfl, holds.insert hfits handle⟩
  · have hfull : capacity ≤ map.nextId.toNat := by
      rw [holds.nextId]
      omega
    rw [register_of_le hfull, if_neg hfits]
    exact ⟨rfl, holds.keep (by omega) handle⟩

/-- In whatever order tasks register connections, the calls get the ids from 0 on, one after another, up
to the last but one number of 64 bits; every later call panics.  The connection of every id that was given
stays under it, as it was registered, and no other id has one. -/
theorem connections_keep_their_ids (before after : List H) (handle : H) :
    (callAll register (before ++ handle :: after) new).1[before.length]? =
      some (if before.length < 2 ^ 64 - 1 then .ok (.ofNat before.length) else .error .unwrapOnNone) ∧
    ∀ id, (callAll register (before ++ handle :: after) new).2.connections.lookup id =
      if id.toNat < 2 ^ 64 - 1 then ((before ++ handle :: after)[id.toNat]?).map Connection.new
      else none := by
  refine ⟨register_answers.getElem? Holds.new rfl, fun id => ?_⟩
  rw [(register_answers.invariant Holds.new (before ++ handle :: after)).lookup, List.getElem?_take]
  unfold capacity
  split
  · rfl
  · rfl

end ConnectionMap

end StateProxy.State
