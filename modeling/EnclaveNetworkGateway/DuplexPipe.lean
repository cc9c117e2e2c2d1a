import EnclaveNetworkGateway.FrameCodec
import EnclaveNetworkGateway.Fifo

/-!
# In-memory duplex streams

`tokio::io::duplex(1024)` gives two `DuplexStream`s that share two pipes. A pipe
buffers at most 1024 bytes. Closing it, from whichever end, refuses further
writes at once and lets the reader drain the buffer before it sees the end.
-/
namespace EnclaveNetworkGateway

/-- Result of polling an operation. -/
inductive Poll (α : Type*) where
  | pending
  | ready (a : α)
  deriving DecidableEq, Repr

/-- `max_buf_size` of the two pipes, and the length of the tasks' buffers. -/
def duplexSize : ℕ := 1024

/-- One direction of a duplex stream. -/
structure DuplexPipe where
  buffer : Fifo UInt8 duplexSize
  isClosed : Bool
  deriving DecidableEq

namespace DuplexPipe

/-- A fresh pipe of `duplex(1024)`. -/
def new : DuplexPipe := ⟨.empty, false⟩

/-- `close_read` and `close_write`: both set the same flag. -/
def close (p : DuplexPipe) : DuplexPipe := { p with isClosed := true }

/-- `poll_read` into `n` bytes of space; no bytes mean the end of the stream. -/
def pollRead (p : DuplexPipe) (n : ℕ) : Poll (Bytes × DuplexPipe) :=
  if p.buffer.items ≠ [] then
    .ready (p.buffer.items.take n, { p with buffer := p.buffer.drop n })
  else if p.isClosed then .ready ([], p)
  else .pending

/-- `poll_write`: as many bytes as there is room for, or `none` for a broken pipe. -/
def pollWrite (p : DuplexPipe) (bs : Bytes) : Poll (Option (ℕ × DuplexPipe)) :=
  if p.isClosed then .ready none
  else if p.buffer.room = 0 then .pending
  else
    match p.buffer.append (bs.take p.buffer.room) with
    | some b => .ready (some (min bs.length p.buffer.room, { p with buffer := b }))
    | none => .pending

@[simp] theorem close_buffer (p : DuplexPipe) : p.close.buffer = p.buffer := rfl

@[simp] theorem close_isClosed (p : DuplexPipe) : p.close.isClosed = true := rfl

/-- What the pipe holds; a closed pipe takes nothing more. -/
def conduit (p : DuplexPipe) : Conduit UInt8 := ⟨p.buffer.items, !p.isClosed⟩

@[simp] theorem conduit_live (p : DuplexPipe) : p.conduit.live = !p.isClosed := rfl

@[simp] theorem conduit_held (p : DuplexPipe) : p.conduit.held = p.buffer.items := rfl

theorem conduit_close (p : DuplexPipe) : p.close.conduit = .cut p.buffer.items := rfl

theorem conduit_close_le (p : DuplexPipe) : p.close.conduit ≤ p.conduit :=
  Conduit.cut_le List.prefix_rfl

theorem conduit_of_open {p : DuplexPipe} (h : p.isClosed = false) :
    p.conduit = .flow p.buffer.items := by
  simp [conduit, h, Conduit.flow]

theorem pollWrite_append {p : DuplexPipe} (bs : Bytes) :
    ∃ b, p.buffer.append (bs.take p.buffer.room) = some b := by
  by_contra h
  have hn : p.buffer.append (bs.take p.buffer.room) = none := by
    simpa [Option.eq_none_iff_forall_ne_some] using h
  rw [Fifo.append_eq_none] at hn
  simp at hn

/-- A write is refused exactly when the pipe is closed, and pends exactly when an
open pipe is full. -/
theorem pollWrite_eq_broken {p : DuplexPipe} {bs : Bytes} :
    p.pollWrite bs = .ready none ↔ p.isClosed = true := by
  obtain ⟨b, hb⟩ := pollWrite_append (p := p) bs
  simp only [pollWrite, hb]
  split_ifs with hc hr
  · simp [hc]
  · simp [hc]
  · simp [hc]

theorem pollWrite_eq_pending {p : DuplexPipe} {bs : Bytes} :
    p.pollWrite bs = .pending ↔ p.isClosed = false ∧ p.buffer.room = 0 := by
  obtain ⟨b, hb⟩ := pollWrite_append (p := p) bs
  simp only [pollWrite, hb]
  split_ifs with hc hr
  · simp [hc]
  · simp [hc, hr]
  · simp [hr]

/-- A read pends exactly when the pipe is empty and open. -/
theorem pollRead_eq_pending {p : DuplexPipe} {n : ℕ} :
    p.pollRead n = .pending ↔ p.buffer.items = [] ∧ p.isClosed = false := by
  simp only [pollRead]
  split_ifs with hb hc
  · simp [hb]
  · simp [hc]
  · simp [hc] at hb ⊢
    exact hb

/-- The bytes a write accepts are appended to the open pipe. -/
theorem pollWrite_accepted {p q : DuplexPipe} {bs : Bytes} {n : ℕ}
    (h : p.pollWrite bs = .ready (some (n, q))) :
    p.isClosed = false ∧ q.isClosed = false ∧ q.buffer.items = p.buffer.items ++ bs.take n := by
  obtain ⟨b, hb⟩ := pollWrite_append (p := p) bs
  simp only [pollWrite, hb] at h
  split_ifs at h with hc hr
  · simp at h
  simp only [Poll.ready.injEq, Option.some.injEq, Prod.mk.injEq] at h
  obtain ⟨rfl, rfl⟩ := h
  have hc' : p.isClosed = false := by simpa using hc
  refine ⟨hc', hc', ?_⟩
  rw [Fifo.append_eq_some.mp hb]
  congr 1
  rcases le_total bs.length p.buffer.room with hle | hle
  · rw [min_eq_left hle, List.take_of_length_le hle, List.take_length]
  · rw [min_eq_right hle]

/-- An accepted write of some bytes takes at least one of them. -/
theorem pollWrite_pos {p q : DuplexPipe} {bs : Bytes} {n : ℕ} (hne : bs ≠ [])
    (h : p.pollWrite bs = .ready (some (n, q))) : 0 < n ∧ n ≤ bs.length := by
  obtain ⟨b, hb⟩ := pollWrite_append (p := p) bs
  have hlen : 0 < bs.length := List.length_pos_iff.mpr hne
  simp only [pollWrite, hb] at h
  split_ifs at h with hc hr
  · simp at h
  simp only [Poll.ready.injEq, Option.some.injEq, Prod.mk.injEq] at h
  omega

/-- A read takes the oldest bytes, and returns none of them only at the end of a
closed and drained pipe. -/
theorem pollRead_ready {p q : DuplexPipe} {n : ℕ} {bs : Bytes}
    (h : p.pollRead n = .ready (bs, q)) :
    p.buffer.items = bs ++ q.buffer.items ∧ q.isClosed = p.isClosed ∧
      (0 < n → bs = [] → p.buffer.items = [] ∧ p.isClosed = true) := by
  simp only [pollRead] at h
  split_ifs at h with hb hc
  · simp only [Poll.ready.injEq, Prod.mk.injEq] at h
    obtain ⟨rfl, rfl⟩ := h
    refine ⟨by simp, rfl, fun hn hnil => ?_⟩
    rw [List.take_eq_nil_iff] at hnil
    rcases hnil with rfl | hnil
    · omega
    · exact absurd hnil hb
  · simp only [Poll.ready.injEq, Prod.mk.injEq] at h
    obtain ⟨rfl, rfl⟩ := h
    exact ⟨by simp, rfl, fun _ _ => ⟨by simpa using hb, hc⟩⟩

/-- A read never returns more than there is space for. -/
theorem pollRead_length {p q : DuplexPipe} {n : ℕ} {bs : Bytes}
    (h : p.pollRead n = .ready (bs, q)) : bs.length ≤ n := by
  simp only [pollRead] at h
  split_ifs at h
  · simp only [Poll.ready.injEq, Prod.mk.injEq] at h
    obtain ⟨rfl, rfl⟩ := h
    simp
  · simp only [Poll.ready.injEq, Prod.mk.injEq] at h
    obtain ⟨rfl, rfl⟩ := h
    simp

end DuplexPipe

end EnclaveNetworkGateway
