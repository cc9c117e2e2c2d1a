import EnclaveNetworkGateway.Conduit

/-!
# Bounded queues and socket buffers

A first-in first-out queue that carries its capacity bound, so that no queue
above its capacity can be built. Appending is refused as a whole when there is
no room for it.
-/
namespace EnclaveNetworkGateway

variable {α : Type*} {cap : ℕ}

@[ext] structure Fifo (α : Type*) (cap : ℕ) where
  items : List α
  length_le : items.length ≤ cap
  deriving DecidableEq

namespace Fifo

def empty : Fifo α cap := ⟨[], Nat.zero_le cap⟩

/-- Append `xs` behind the queue if they all fit. -/
def append (q : Fifo α cap) (xs : List α) : Option (Fifo α cap) :=
  if h : (q.items ++ xs).length ≤ cap then some ⟨q.items ++ xs, h⟩ else none

/-- The queue without its `n` oldest items. -/
def drop (q : Fifo α cap) (n : ℕ) : Fifo α cap :=
  ⟨q.items.drop n, (by simp : (q.items.drop n).length ≤ q.items.length).trans q.length_le⟩

/-- The `n` oldest items of the queue. -/
def truncate (q : Fifo α cap) (n : ℕ) : Fifo α cap :=
  ⟨q.items.take n, (by simp : (q.items.take n).length ≤ q.items.length).trans q.length_le⟩

/-- How many items can still be appended. -/
def room (q : Fifo α cap) : ℕ := cap - q.items.length

@[simp] theorem empty_items : (empty : Fifo α cap).items = [] := rfl

@[simp] theorem drop_items (q : Fifo α cap) (n : ℕ) : (q.drop n).items = q.items.drop n := rfl

@[simp] theorem truncate_items (q : Fifo α cap) (n : ℕ) :
    (q.truncate n).items = q.items.take n := rfl

theorem append_eq_some {q q' : Fifo α cap} {xs : List α} :
    q.append xs = some q' ↔ q'.items = q.items ++ xs := by
  constructor
  · intro h
    simp only [append] at h
    split at h
    · exact (Option.some.inj h) ▸ rfl
    · simp at h
  · intro h
    have hle : (q.items ++ xs).length ≤ cap := h ▸ q'.length_le
    simp only [append, hle, dite_true, Option.some.injEq]
    exact Fifo.ext h.symm

theorem append_eq_none {q : Fifo α cap} {xs : List α} :
    q.append xs = none ↔ q.room < xs.length := by
  have := q.length_le
  simp only [append, List.length_append, dite_eq_right_iff, reduceCtorEq, imp_false, not_le, room]
  omega

theorem room_eq_zero {q : Fifo α cap} : q.room = 0 ↔ q.items.length = cap := by
  have := q.length_le
  simp only [room]
  omega

theorem ne_nil_of_room_eq_zero {q : Fifo α cap} (hc : 0 < cap) (h : q.room = 0) :
    q.items ≠ [] := by
  rw [room_eq_zero] at h
  exact List.ne_nil_of_length_pos (by omega)

end Fifo

/-- One direction of a TCP connection: the bytes that the sending side was allowed to hand over
and that the receiving side has not read. The capacity stands for both kernel buffers together
and is at least one byte. -/
structure Socket where
  cap : ℕ
  cap_pos : 0 < cap
  queue : Fifo UInt8 cap
  deriving DecidableEq

namespace Socket

def empty (cap : ℕ) (h : 0 < cap) : Socket := ⟨cap, h, .empty⟩

def items (q : Socket) : List UInt8 := q.queue.items

def room (q : Socket) : ℕ := q.queue.room

def append (q : Socket) (bs : List UInt8) : Option Socket :=
  (q.queue.append bs).map fun f => { q with queue := f }

def drop (q : Socket) (n : ℕ) : Socket := { q with queue := q.queue.drop n }

/-- Keep the first `n` bytes only. -/
def truncate (q : Socket) (n : ℕ) : Socket := { q with queue := q.queue.truncate n }

@[simp] theorem empty_items (cap : ℕ) (h : 0 < cap) : (empty cap h).items = [] := rfl

@[simp] theorem drop_items (q : Socket) (n : ℕ) : (q.drop n).items = q.items.drop n := rfl

@[simp] theorem truncate_items (q : Socket) (n : ℕ) : (q.truncate n).items = q.items.take n := rfl

theorem items_of_append {q q' : Socket} {bs : List UInt8} (h : q.append bs = some q') :
    q'.items = q.items ++ bs := by
  simp only [append, Option.map_eq_some_iff] at h
  obtain ⟨f, hf, rfl⟩ := h
  exact Fifo.append_eq_some.mp hf

theorem room_of_append {q q' : Socket} {bs : List UInt8} (h : q.append bs = some q') :
    q.room = q'.room + bs.length := by
  simp only [append, Option.map_eq_some_iff] at h
  obtain ⟨f, hf, rfl⟩ := h
  have hlen := f.length_le
  have hitems := congrArg List.length (Fifo.append_eq_some.mp hf)
  rw [List.length_append] at hitems
  simp only [room, Fifo.room]
  omega

theorem drop_room {q : Socket} {n : ℕ} (h : n ≤ q.items.length) : (q.drop n).room = q.room + n := by
  have hlen := q.queue.length_le
  simp only [items] at h
  simp only [room, drop, Fifo.room, Fifo.drop_items, List.length_drop]
  omega

theorem append_eq_none {q : Socket} {bs : List UInt8} :
    q.append bs = none ↔ q.room < bs.length := by
  simp [append, room, Fifo.append_eq_none]

theorem ne_nil_of_room_eq_zero {q : Socket} (h : q.room = 0) : q.items ≠ [] :=
  Fifo.ne_nil_of_room_eq_zero q.cap_pos h

end Socket

end EnclaveNetworkGateway
