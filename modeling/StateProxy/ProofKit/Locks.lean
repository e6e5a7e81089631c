import Mathlib.Logic.Function.Basic
import Mathlib.Data.List.Nodup

/-! Fair reader-writer locks, and tasks that hold and await them.  A lock serves its requests in the
order of their arrival: readers share it, a writer has it alone, and a request that arrives while
others wait goes to the end of the queue.  `Agrees` relates the locks to the points at which the
tasks are; it survives every lock operation, and when tasks take locks in the order of a rank, a
system whose tasks all wait does not exist (`exists_takable_or_running`). -/

namespace StateProxy.ProofKit

inductive Mode
  | read
  | write
deriving DecidableEq, Repr

/-- A lock: the tasks that hold it, and those that wait for it, in their order of arrival. -/
structure RwLock (T : Type) where
  holders : List (T × Mode)
  queue : List (T × Mode)

namespace RwLock

variable {T : Type}

def free : RwLock T := ⟨[], []⟩

/-- A request can be served beside the holders. -/
def Admits (holders : List (T × Mode)) : Mode → Prop
  | .read => ∀ h ∈ holders, h.2 = .read
  | .write => holders = []

instance [DecidableEq T] (holders : List (T × Mode)) (mode : Mode) :
    Decidable (Admits holders mode) :=
  match mode with
  | .read => inferInstanceAs (Decidable (∀ h ∈ holders, h.2 = .read))
  | .write => inferInstanceAs (Decidable (holders = []))

theorem admits_nil (mode : Mode) : Admits ([] : List (T × Mode)) mode := by
  cases mode <;> simp [Admits]

/-- A request that finds no waiter and can be served is served at once. -/
def Takable (lock : RwLock T) (mode : Mode) : Prop :=
  lock.queue = [] ∧ Admits lock.holders mode

instance [DecidableEq T] (lock : RwLock T) (mode : Mode) : Decidable (lock.Takable mode) :=
  inferInstanceAs (Decidable (_ ∧ _))

def take (lock : RwLock T) (t : T) (mode : Mode) : RwLock T :=
  { lock with holders := (t, mode) :: lock.holders }

/-- The request goes to the end of the queue. -/
def await (lock : RwLock T) (t : T) (mode : Mode) : RwLock T :=
  { lock with queue := lock.queue ++ [(t, mode)] }

/-- The first waiter, when it can be served. -/
def next [DecidableEq T] (lock : RwLock T) : Option (T × Mode) :=
  match lock.queue with
  | [] => none
  | (t, mode) :: _ => if Admits lock.holders mode then some (t, mode) else none

/-- Serves the first waiter. -/
def grant (lock : RwLock T) (t : T) (mode : Mode) : RwLock T :=
  ⟨(t, mode) :: lock.holders, lock.queue.tail⟩

def release [DecidableEq T] (lock : RwLock T) (t : T) : RwLock T :=
  { lock with holders := lock.holders.filter fun h => h.1 ≠ t }

theorem next_eq_some [DecidableEq T] {lock : RwLock T} {t : T} {mode : Mode} :
    lock.next = some (t, mode) ↔
      ∃ rest, lock.queue = (t, mode) :: rest ∧ Admits lock.holders mode := by
  unfold next
  split
  · rename_i h
    simp [h]
  · rename_i t' mode' rest h
    rw [h]
    split
    · rename_i hadmits
      simp only [Option.some.injEq, Prod.mk.injEq, List.cons.injEq]
      constructor
      · rintro ⟨rfl, rfl⟩
        exact ⟨rest, ⟨⟨rfl, rfl⟩, rfl⟩, hadmits⟩
      · rintro ⟨-, ⟨⟨rfl, rfl⟩, -⟩, -⟩
        exact ⟨rfl, rfl⟩
    · rename_i hadmits
      simp only [reduceCtorEq, false_iff, List.cons.injEq, Prod.mk.injEq]
      rintro ⟨-, ⟨⟨-, rfl⟩, -⟩, h'⟩
      exact hadmits h'

theorem mem_release [DecidableEq T] {lock : RwLock T} {t t' : T} {mode : Mode} :
    (t', mode) ∈ (lock.release t).holders ↔ (t', mode) ∈ lock.holders ∧ t' ≠ t := by
  simp [release]

end RwLock

section Systems

variable {L T P : Type}

/-- The locks agree with the points of the tasks: a lock is held by the tasks whose points hold it
and awaited only by tasks whose points want it, each once, and a writer holds its lock alone. -/
structure Agrees (wants : P → Option (L × Mode)) (holds : P → List (L × Mode))
    (locks : L → RwLock T) (point : T → P) : Prop where
  holders : ∀ l t mode, (t, mode) ∈ (locks l).holders ↔ (l, mode) ∈ holds (point t)
  waiting : ∀ l t mode, (t, mode) ∈ (locks l).queue → wants (point t) = some (l, mode)
  nodup : ∀ l, ((locks l).queue.map Prod.fst).Nodup
  alone : ∀ l t, (t, .write) ∈ (locks l).holders → ∀ h ∈ (locks l).holders, h = (t, .write)

variable {wants : P → Option (L × Mode)} {holds : P → List (L × Mode)} {locks : L → RwLock T}
  {point : T → P}

namespace Agrees

theorem not_waiting (agrees : Agrees wants holds locks point) {t : T}
    (h : wants (point t) = none) (l : L) (mode : Mode) : (t, mode) ∉ (locks l).queue := by
  intro hmem
  rw [agrees.waiting l t mode hmem] at h
  cases h

/-- A writer is the only task whose point holds the lock. -/
theorem eq_of_write (agrees : Agrees wants holds locks point) {l : L} {t t' : T} {mode : Mode}
    (h : (l, .write) ∈ holds (point t)) (h' : (l, mode) ∈ holds (point t')) : t' = t := by
  have heq := agrees.alone l t ((agrees.holders l t .write).mpr h) _
    ((agrees.holders l t' mode).mpr h')
  exact (Prod.mk.inj heq).1

theorem not_mem_queue (agrees : Agrees wants holds locks point) {t : T} {l : L} {mode : Mode}
    (hwants : wants (point t) = some (l, mode)) (hnot : (t, mode) ∉ (locks l).queue) (l' : L)
    (mode' : Mode) : (t, mode') ∉ (locks l').queue := by
  intro hmem
  have h := agrees.waiting l' t mode' hmem
  rw [hwants] at h
  cases h
  exact hnot hmem

variable [DecidableEq T]

theorem holders_update {t : T} {p : P} {held : L → List (T × Mode)}
    (hsame : ∀ l t' mode, t' ≠ t → ((t', mode) ∈ held l ↔ (l, mode) ∈ holds (point t')))
    (hmoved : ∀ l mode, (t, mode) ∈ held l ↔ (l, mode) ∈ holds p) (l : L) (t' : T) (mode : Mode) :
    (t', mode) ∈ held l ↔ (l, mode) ∈ holds (Function.update point t p t') := by
  by_cases ht : t' = t
  · subst ht
    rw [Function.update_self]
    exact hmoved l mode
  · rw [Function.update_of_ne ht]
    exact hsame l t' mode ht

theorem waiting_update {t : T} {queue : L → List (T × Mode)}
    (hwaiting : ∀ l t' mode, (t', mode) ∈ queue l → wants (point t') = some (l, mode))
    (hnot : ∀ l mode, (t, mode) ∉ queue l) (p : P) (l : L) (t' : T) (mode : Mode)
    (hmem : (t', mode) ∈ queue l) : wants (Function.update point t p t') = some (l, mode) := by
  have hne : t' ≠ t := by
    rintro rfl
    exact hnot l mode hmem
  rw [Function.update_of_ne hne]
  exact hwaiting l t' mode hmem

/-- A task that does not wait moves to a point with the same locks. -/
theorem move (agrees : Agrees wants holds locks point) {t : T} {p : P}
    (hnot : ∀ l mode, (t, mode) ∉ (locks l).queue)
    (hholds : ∀ l mode, (l, mode) ∈ holds p ↔ (l, mode) ∈ holds (point t)) :
    Agrees wants holds locks (Function.update point t p) where
  holders := holders_update (fun l t' mode _ => agrees.holders l t' mode) fun l mode => by
    rw [hholds]
    exact agrees.holders l t mode
  waiting := waiting_update agrees.waiting hnot p
  nodup := agrees.nodup
  alone := agrees.alone

variable [DecidableEq L]

omit [DecidableEq T] in
/-- A task joins the queue of the lock it wants. -/
theorem await (agrees : Agrees wants holds locks point) {t : T} {l : L} {mode : Mode}
    (hwants : wants (point t) = some (l, mode)) (hnot : (t, mode) ∉ (locks l).queue) :
    Agrees wants holds (Function.update locks l ((locks l).await t mode)) point where
  holders := (Function.forall_update_iff locks fun l' lock => ∀ t' mode',
    (t', mode') ∈ lock.holders ↔ (l', mode') ∈ holds (point t')).mpr
      ⟨agrees.holders l, fun l' _ => agrees.holders l'⟩
  waiting := (Function.forall_update_iff locks fun l' lock => ∀ t' mode',
    (t', mode') ∈ lock.queue → wants (point t') = some (l', mode')).mpr <| by
      refine ⟨fun t' mode' hmem => ?_, fun l' _ => agrees.waiting l'⟩
      rcases List.mem_append.mp hmem with hmem | hmem
      · exact agrees.waiting l t' mode' hmem
      · obtain ⟨rfl, rfl⟩ := Prod.mk.inj (List.mem_singleton.mp hmem)
        exact hwants
  nodup := (Function.forall_update_iff locks fun _ lock => (lock.queue.map Prod.fst).Nodup).mpr <| by
    refine ⟨?_, fun l' _ => agrees.nodup l'⟩
    simp only [RwLock.await, List.map_append, List.map_cons, List.map_nil]
    refine List.Nodup.append (agrees.nodup l) (by simp) ?_
    intro t' hmem hlast
    obtain ⟨⟨t'', mode''⟩, hqueue, rfl⟩ := List.mem_map.mp hmem
    obtain rfl : t'' = t := by simpa using hlast
    exact agrees.not_mem_queue hwants hnot l mode'' hqueue
  alone := (Function.forall_update_iff locks fun _ lock => ∀ t, (t, .write) ∈ lock.holders →
    ∀ h ∈ lock.holders, h = (t, .write)).mpr <| by
      refine ⟨?_, fun l' _ => agrees.alone l'⟩
      exact agrees.alone l

/-- A task becomes a holder of a lock, whose queue loses at most waiters, and moves on. -/
theorem acquire (agrees : Agrees wants holds locks point) {t : T} {l : L} {mode : Mode} {p : P}
    {queue : List (T × Mode)} (hadmits : RwLock.Admits (locks l).holders mode)
    (hsub : ∀ h ∈ queue, h ∈ (locks l).queue) (hnodup : (queue.map Prod.fst).Nodup)
    (hqueue : ∀ mode', (t, mode') ∉ queue)
    (hother : ∀ l', l' ≠ l → ∀ mode', (t, mode') ∉ (locks l').queue)
    (hholds : ∀ l' mode', (l', mode') ∈ holds p ↔
      (l', mode') ∈ holds (point t) ∨ (l', mode') = (l, mode)) :
    Agrees wants holds (Function.update locks l ⟨(t, mode) :: (locks l).holders, queue⟩)
      (Function.update point t p) where
  holders := by
    refine holders_update ((Function.forall_update_iff locks fun l' lock => ∀ t' mode', t' ≠ t →
      ((t', mode') ∈ lock.holders ↔ (l', mode') ∈ holds (point t'))).mpr
        ⟨fun t' mode' ht => ?_, fun l' _ t' mode' _ => agrees.holders l' t' mode'⟩)
      ((Function.forall_update_iff locks fun l' lock => ∀ mode',
        ((t, mode') ∈ lock.holders ↔ (l', mode') ∈ holds p)).mpr
          ⟨fun mode' => ?_, fun l' hl mode' => ?_⟩)
    · rw [List.mem_cons, ← agrees.holders]
      simp [ht]
    · rw [hholds, ← agrees.holders, List.mem_cons]
      simp [or_comm]
    · rw [hholds, ← agrees.holders]
      simp [hl]
  waiting := waiting_update
    ((Function.forall_update_iff locks fun l' lock => ∀ t' mode',
      (t', mode') ∈ lock.queue → wants (point t') = some (l', mode')).mpr
        ⟨fun t' mode' hmem => agrees.waiting l t' mode' (hsub _ hmem),
          fun l' _ => agrees.waiting l'⟩)
    ((Function.forall_update_iff locks fun _ lock => ∀ mode', (t, mode') ∉ lock.queue).mpr
      ⟨hqueue, hother⟩) p
  nodup := (Function.forall_update_iff locks fun _ lock => (lock.queue.map Prod.fst).Nodup).mpr
    ⟨hnodup, fun l' _ => agrees.nodup l'⟩
  alone := (Function.forall_update_iff locks fun _ lock => ∀ t, (t, .write) ∈ lock.holders →
    ∀ h ∈ lock.holders, h = (t, .write)).mpr <| by
      refine ⟨fun t' hmem h hh => ?_, fun l' _ => agrees.alone l'⟩
      cases mode with
      | read =>
        have hold : (t', .write) ∈ (locks l).holders := by simpa using hmem
        exact Mode.noConfusion (hadmits _ hold)
      | write =>
        have hnone : (locks l).holders = [] := hadmits
        simp only [hnone] at hmem hh
        rw [List.mem_singleton.mp hh, List.mem_singleton.mp hmem]

/-- A request that is served at once. -/
theorem take (agrees : Agrees wants holds locks point) {t : T} {l : L} {mode : Mode} {p : P}
    (hwants : wants (point t) = some (l, mode)) (htakable : (locks l).Takable mode)
    (hholds : ∀ l' mode', (l', mode') ∈ holds p ↔
      (l', mode') ∈ holds (point t) ∨ (l', mode') = (l, mode)) :
    Agrees wants holds (Function.update locks l ((locks l).take t mode))
      (Function.update point t p) := by
  have hnot : (t, mode) ∉ (locks l).queue := by simp [htakable.1]
  exact agrees.acquire htakable.2 (fun _ h => h) (agrees.nodup l)
    (agrees.not_mem_queue hwants hnot l) (fun l' _ => agrees.not_mem_queue hwants hnot l') hholds

/-- The first waiter is served. -/
theorem grant (agrees : Agrees wants holds locks point) {t : T} {l : L} {mode : Mode} {p : P}
    (hnext : (locks l).next = some (t, mode))
    (hholds : ∀ l' mode', (l', mode') ∈ holds p ↔
      (l', mode') ∈ holds (point t) ∨ (l', mode') = (l, mode)) :
    Agrees wants holds (Function.update locks l ((locks l).grant t mode))
      (Function.update point t p) := by
  obtain ⟨rest, hqueue, hadmits⟩ := RwLock.next_eq_some.mp hnext
  have hwants : wants (point t) = some (l, mode) :=
    agrees.waiting l t mode (by rw [hqueue]; exact List.mem_cons_self)
  have hnodup := agrees.nodup l
  rw [hqueue, List.map_cons, List.nodup_cons] at hnodup
  refine agrees.acquire hadmits (fun h hh => List.mem_of_mem_tail hh) ?_ ?_ ?_ hholds
  · rw [hqueue]
    exact hnodup.2
  · intro mode' hmem
    rw [hqueue] at hmem
    exact hnodup.1 (List.mem_map.mpr ⟨(t, mode'), hmem, rfl⟩)
  · intro l' hl mode' hmem
    have h := agrees.waiting l' t mode' hmem
    rw [hwants] at h
    cases h
    exact hl rfl

/-- A task gives back a lock. -/
theorem release (agrees : Agrees wants holds locks point) {t : T} {l : L} {p : P}
    (hwants : wants (point t) = none)
    (hholds : ∀ l' mode', (l', mode') ∈ holds p ↔ (l', mode') ∈ holds (point t) ∧ l' ≠ l) :
    Agrees wants holds (Function.update locks l ((locks l).release t))
      (Function.update point t p) where
  holders := by
    refine holders_update ((Function.forall_update_iff locks fun l' lock => ∀ t' mode', t' ≠ t →
      ((t', mode') ∈ lock.holders ↔ (l', mode') ∈ holds (point t'))).mpr
        ⟨fun t' mode' ht => ?_, fun l' _ t' mode' _ => agrees.holders l' t' mode'⟩)
      ((Function.forall_update_iff locks fun l' lock => ∀ mode',
        ((t, mode') ∈ lock.holders ↔ (l', mode') ∈ holds p)).mpr
          ⟨fun mode' => ?_, fun l' hl mode' => ?_⟩)
    · rw [RwLock.mem_release, ← agrees.holders]
      simp [ht]
    · rw [hholds, RwLock.mem_release]
      simp
    · rw [hholds, ← agrees.holders]
      simp [hl]
  waiting := by
    refine waiting_update ((Function.forall_update_iff locks fun l' lock => ∀ t' mode',
      (t', mode') ∈ lock.queue → wants (point t') = some (l', mode')).mpr
        ⟨?_, fun l' _ => agrees.waiting l'⟩)
      ((Function.forall_update_iff locks fun _ lock => ∀ mode', (t, mode') ∉ lock.queue).mpr
        ⟨?_, fun l' _ => agrees.not_waiting hwants l'⟩) p
    · exact agrees.waiting l
    · exact agrees.not_waiting hwants l
  nodup := (Function.forall_update_iff locks fun _ lock => (lock.queue.map Prod.fst).Nodup).mpr
    ⟨agrees.nodup l, fun l' _ => agrees.nodup l'⟩
  alone := (Function.forall_update_iff locks fun _ lock => ∀ t, (t, .write) ∈ lock.holders →
    ∀ h ∈ lock.holders, h = (t, .write)).mpr
      ⟨fun t' hmem h hh => agrees.alone l t' (RwLock.mem_release.mp hmem).1 h
        (List.mem_of_mem_filter hh), fun l' _ => agrees.alone l'⟩

omit [DecidableEq L] in
/-- When every task takes its locks in the order of `rank`, a task that wants a lock is not alone
in waiting: some request can be served, or some task holds a lock and wants none. -/
theorem exists_takable_or_running (agrees : Agrees wants holds locks point) (rank : L → Nat)
    (bound : Nat) (hbound : ∀ l, rank l < bound)
    (hrank : ∀ p l mode l' mode', wants p = some (l, mode) → (l', mode') ∈ holds p →
      rank l' < rank l) {t : T} {l : L} {mode : Mode} (hwants : wants (point t) = some (l, mode)) :
    (∃ l' t' mode', (locks l').next = some (t', mode')) ∨
    (∃ t' l' mode', wants (point t') = some (l', mode') ∧ (locks l').Takable mode') ∨
    ∃ t' l' mode', (l', mode') ∈ holds (point t') ∧ wants (point t') = none := by
  obtain ⟨n, hn⟩ : ∃ n, bound - rank l = n := ⟨_, rfl⟩
  induction n using Nat.strongRecOn generalizing t l mode with
  | _ n ih =>
    cases hheld : (locks l).holders with
    | nil =>
      cases hqueue : (locks l).queue with
      | nil =>
        exact .inr (.inl ⟨t, l, mode, hwants, hqueue, by rw [hheld]; exact RwLock.admits_nil mode⟩)
      | cons first rest =>
        exact .inl ⟨l, first.1, first.2, RwLock.next_eq_some.mpr
          ⟨rest, hqueue, by rw [hheld]; exact RwLock.admits_nil _⟩⟩
    | cons holder others =>
      obtain ⟨t', mode'⟩ := holder
      have hholds : (l, mode') ∈ holds (point t') :=
        (agrees.holders l t' mode').mp (by rw [hheld]; exact List.mem_cons_self)
      cases hwants' : wants (point t') with
      | none => exact .inr (.inr ⟨t', l, mode', hholds, hwants'⟩)
      | some wanted =>
        obtain ⟨l₂, mode₂⟩ := wanted
        have hlt := hrank _ _ _ _ _ hwants' hholds
        have hl₂ := hbound l₂
        exact ih (bound - rank l₂) (by omega) hwants' rfl

end Agrees

end Systems

end StateProxy.ProofKit
