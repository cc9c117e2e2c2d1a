import EnclaveNetworkGateway.EntaLedger
import EnclaveNetworkGateway.LinkQuiescence

/-!
# ENTA at rest

An ENTA all of whose own steps wait for its stream is reading that stream, and unless
both of its functions run it is also writing to it.
-/
namespace EnclaveNetworkGateway

/-- The steps that an ENTA takes by itself. Packets, the end of the TUN stream, errors of
the device and the signal come from outside. -/
def EntaAct.own : EntaAct → Bool
  | capture _ | tunReadErr | tunEnd | tunWriteErr | ctrlC => false
  | _ => true

namespace Enta

/-- Each enabled step of its own is a poll that waits on the stream. -/
def Waiting (codec : TunCodec) (e : Enta) (l : Link) (s : Side) : Prop :=
  ∀ a e', a.own = true → e.step codec a = some e' → ∃ op, a.op = some op ∧ l.io s op = none

namespace Waiting

variable {codec : TunCodec} {e : Enta} {l : Link} {s : Side}

/-- A step that polls nothing is not enabled. -/
theorem eq_none (h : e.Waiting codec l s) {a : EntaAct} (hown : a.own = true) (hop : a.op = none) :
    e.step codec a = none := by
  rw [Option.eq_none_iff_forall_ne_some]
  intro e' he'
  obtain ⟨op, hop', _⟩ := h a e' hown he'
  simp [hop] at hop'

/-- `to_tun` waits for a packet. -/
theorem toTun_eq (h : e.Waiting codec l s) (hm : e.main = .run) {v : WithTun}
    (hv : e.withTun = .running v) : v.toTun = .recv := by
  obtain ⟨t, f⟩ := v
  cases t with
  | recv => rfl
  | send p =>
    have hwrite := h.eq_none (a := .tunWrite) rfl rfl
    simp only [step, hm, ne_eq, not_true_eq_false, if_false, tunWrite, hv] at hwrite
    split at hwrite <;> simp at hwrite

/-- There is none, and there may still come one. -/
theorem toTun (h : e.Waiting codec l s) (hm : e.main = .run) {v : WithTun}
    (hv : e.withTun = .running v) : e.inbound.items = [] ∧ e.withEntg.isRunning = true := by
  obtain ⟨t, f⟩ := v
  obtain rfl : t = .recv := h.toTun_eq hm hv
  have hrecv := h.eq_none (a := .recvInbound) rfl rfl
  simp only [step, hm, ne_eq, not_true_eq_false, if_false, recvInbound, hv] at hrecv
  split at hrecv
  · simp at hrecv
  · simp at hrecv
  · rename_i hq
    refine ⟨hq, ?_⟩
    by_contra hw
    simp [hw] at hrecv

theorem withEntg (h : e.Waiting codec l s) (hm : e.main = .run) : e.withEntg.isRunning = true := by
  cases hv : e.withTun with
  | running v => exact (h.toTun hm hv).2
  | returned x =>
    have hjoined := h.eq_none (a := .joined) rfl rfl
    have ht : e.withTun.isRunning = false := by rw [hv, Task.isRunning]
    by_contra hw
    simp [step, hm, joined, ht, hw] at hjoined

/-- `from_entg` waits for bytes. -/
theorem readPending (h : e.Waiting codec l s) (hm : e.main = .run) {w : WithEntg}
    (hw : e.withEntg = .running w) : l.ReadPending s := by
  obtain ⟨t, f⟩ := w
  cases f with
  | put r p =>
    have hput := h.eq_none (a := .putInbound) rfl rfl
    simp only [step, hm, ne_eq, not_true_eq_false, if_false, putInbound, hw] at hput
    cases hv : e.withTun with
    | running v =>
      have ht : e.withTun.isRunning = true := by rw [hv, Task.isRunning]
      rw [if_pos ht, Option.map_eq_none_iff, Fifo.append_eq_none, List.length_singleton] at hput
      have hroom : e.inbound.room = 0 := by omega
      exact absurd (h.toTun hm hv).1 (Fifo.ne_nil_of_room_eq_zero (by decide) hroom)
    | returned x =>
      have ht : ¬ e.withTun.isRunning = true := by simp [hv, Task.isRunning]
      simp [ht] at hput
  | next r =>
    have hbusy : r.busy = false := by
      by_contra hb
      have hpoll := h.eq_none (a := .pollEntg) rfl rfl
      simp [step, hm, pollEntg, hw, hb] at hpoll
    have hblocked : ∀ op e', e.readEntg op = some e' → l.io s op = none := by
      intro op e' he'
      obtain ⟨op', hop, hio⟩ := h (.readEntg op) e' rfl (by simpa [step, hm] using he')
      obtain rfl := Option.some.inj hop
      exact hio
    constructor
    · intro bs hbs
      exact hblocked (.read bs) (e.onPolled t (r.afterRead bs)) (by simp [readEntg, hw, hbusy, hbs])
    · exact hblocked .readEof (e.onPolled t (r.afterRead [])) (by simp [readEntg, hw, hbusy])
    · exact hblocked .readErr (e.onPolled t r.failRead) (by simp [readEntg, hw, hbusy])

/-- Without the other function `to_entg` waits inside a send. -/
theorem writePending (h : e.Waiting codec l s) (hm : e.main = .run) (he : e.Wf) {w : WithEntg}
    (hw : e.withEntg = .running w) (ht : e.withTun.isRunning = false) :
    ∃ buf, buf ≠ [] ∧ l.WritePending s buf := by
  obtain ⟨t, f⟩ := w
  cases t with
  | recv =>
    have hrecv := h.eq_none (a := .recvOutbound) rfl rfl
    simp only [step, hm, ne_eq, not_true_eq_false, if_false, recvOutbound, hw, ht] at hrecv
    split at hrecv
    · split at hrecv <;> simp at hrecv
    · simp at hrecv
  | send p buf =>
    have hblocked : ∀ op e', e.sendEntg op = some e' → l.io s op = none := by
      intro op e' he'
      obtain ⟨op', hop, hio⟩ := h (.sendEntg op) e' rfl (by simpa [step, hm] using he')
      obtain rfl := Option.some.inj hop
      exact hio
    refine ⟨buf, he.sending f p buf hw, ?_, ?_⟩
    · intro n hn hle
      by_cases hlt : n < buf.length
      · exact hblocked (.write buf n) { e with withEntg := .running ⟨.send p (buf.drop n), f⟩ }
          (by simp [sendEntg, hw, hn, hle, hlt])
      · exact hblocked (.write buf n) { e with
          withEntg := .running ⟨.recv, f⟩
          log := { e.log with sent := e.log.sent ++ [p] } } (by simp [sendEntg, hw, hn, hle, hlt])
    · exact hblocked .writeErr (e.leaveEntg .sendFailed) (by simp [sendEntg, hw])

end Waiting

end Enta

end EnclaveNetworkGateway
