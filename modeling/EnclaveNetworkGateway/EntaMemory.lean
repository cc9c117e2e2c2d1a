import EnclaveNetworkGateway.EntaStream
import Mathlib.Algebra.Group.Action.Defs
import Mathlib.Algebra.Order.BigOperators.Group.List

/-!
# The memory that ENTA needs

The two channels are bounded, a frame above the limit is refused before its payload is stored,
and nothing is read while a packet waits. So a bound on single reads and on captured packets is
one on all the bytes that ENTA holds, whatever the ENTG sends.
-/
namespace EnclaveNetworkGateway

namespace FrameCodec

namespace Decoder

theorem decodeData_buffer_le {n : ℕ} (le : n ≤ maxFrameLen) (src : Bytes) :
    (decodeData n le src).2.buffer.length ≤ src.length ∧
      ((decodeData n le src).1 = none → (decodeData n le src).2.buffer.length ≤ maxFrameLen) := by
  unfold decodeData
  split_ifs with hlen
  · dsimp only
    exact ⟨le_refl _, fun _ => by omega⟩
  · simp

/-- Decoding stores nothing, and a decoder that asks for more holds less than one frame. -/
theorem decode_buffer_le {d d' : Decoder} {x : Except FrameError (Option ENPacket)}
    (h : d.decode = (x, d')) : d'.buffer.length ≤ d.buffer.length ∧
      (x = .ok none → d'.buffer.length ≤ maxFrameLen) := by
  obtain ⟨state, buffer⟩ := d
  simp only [decode] at h
  split at h
  · rename_i a b c e src
    split at h
    · rename_i hle
      obtain ⟨hlen, hnone⟩ := decodeData_buffer_le hle src
      obtain ⟨rfl, rfl⟩ := Prod.mk.inj h
      refine ⟨?_, fun hx => hnone (Except.ok.inj hx)⟩
      simp only [List.length_cons]
      omega
    · obtain ⟨rfl, rfl⟩ := Prod.mk.inj h
      exact ⟨le_refl _, fun hx => by cases hx⟩
  · rename_i hshort
    obtain ⟨rfl, rfl⟩ := Prod.mk.inj h
    refine ⟨le_refl _, fun _ => ?_⟩
    have hlen : buffer.length < 4 := by
      by_contra hlen
      obtain ⟨a, b, c, e, src, hbuffer⟩ : ∃ a b c e src, buffer = a :: b :: c :: e :: src := by
        rcases buffer with _ | ⟨a, _ | ⟨b, _ | ⟨c, _ | ⟨e, src⟩⟩⟩⟩
        · simp at hlen
        · simp at hlen
        · simp at hlen
        · simp at hlen
        · exact ⟨a, b, c, e, src, rfl⟩
      exact hshort a b c e src hbuffer
    show buffer.length ≤ maxFrameLen
    rw [maxFrameLen]
    omega
  · rename_i n hle
    obtain ⟨hlen, hnone⟩ := decodeData_buffer_le hle buffer
    obtain ⟨rfl, rfl⟩ := Prod.mk.inj h
    exact ⟨hlen, fun hx => hnone (Except.ok.inj hx)⟩

end Decoder

namespace FramedRead

variable {k : ℕ} {r : FramedRead}

/-- The buffer with reads of at most `k` bytes: a read appends to less than one frame. -/
structure Within (k : ℕ) (r : FramedRead) : Prop where
  buffer_le : r.decoder.buffer.length ≤ maxFrameLen + k
  idle_le : r.busy = false → r.decoder.buffer.length ≤ maxFrameLen

/-- The outcome of a pass ends the stream, or the buffer stays within its bound. -/
def OutcomeWithin (k : ℕ) (x : Polled × FramedRead) : Prop := x.1 = .ready none ∨ x.2.Within k

theorem poll_within (h : r.Within k) : OutcomeWithin k r.poll := by
  have hpass := pass_of_poll r
  generalize r.poll = x at hpass
  cases hpass with
  | idle => exact .inr h
  | errored | drained => exact .inl rfl
  | @packet p d hf hr hd =>
    have hle := (Decoder.decode_buffer_le hd).1
    exact .inr ⟨hle.trans h.buffer_le, by simp [busy, hr]⟩
  | @refused e d hf hr hd =>
    have hle := (Decoder.decode_buffer_le hd).1
    exact .inr ⟨hle.trans h.buffer_le, by simp [busy]⟩
  | @leftover d hf hr he hd =>
    have hle := (Decoder.decode_buffer_le hd).1
    exact .inr ⟨hle.trans h.buffer_le, by simp [busy]⟩
  | @more d hf hr he hd =>
    have hle := (Decoder.decode_buffer_le hd).2
    exact .inr ⟨(hle rfl).trans (Nat.le_add_right _ _), fun _ => hle rfl⟩

theorem afterRead_within {bs : Bytes} (h : r.Within k) (hb : r.busy = false) (hbs : bs.length ≤ k) :
    OutcomeWithin k (r.afterRead bs) := by
  have hle := h.idle_le hb
  unfold afterRead
  split_ifs
  · exact .inl rfl
  · exact .inr ⟨h.buffer_le, by simp [busy]⟩
  · refine .inr ⟨?_, by simp [busy]⟩
    rw [List.length_append]
    omega

theorem failRead_within (h : r.Within k) : OutcomeWithin k r.failRead :=
  .inr ⟨h.buffer_le, by simp [failRead, busy]⟩

end FramedRead

end FrameCodec

/-- The bytes that `to_entg` has still to write. -/
def ToEntg.buffered : ToEntg → ℕ
  | recv => 0
  | send _ buf => buf.length

namespace Enta

open FrameCodec

/-- All bytes of a list of packets. -/
def size (ps : List ENPacket) : ℕ := (ps.map List.length).sum

/-- The bytes that came from the ENTG and are held in memory. -/
def inboundBytes (e : Enta) : ℕ :=
  (match e.withEntg with
    | .running w => w.fromEntg.reader.decoder.buffer.length
    | .returned _ => 0) + size e.arriving +
  match e.withTun with
    | .running v => size v.toTun.held
    | .returned _ => 0

/-- The bytes that came from the TUN device and are held in memory. -/
def outboundBytes (e : Enta) : ℕ :=
  (match e.withEntg with
    | .running w => w.toEntg.buffered
    | .returned _ => 0) + size e.leaving

/-- With reads of at most `k` bytes and captured packets of at most `m` bytes. -/
structure Within (k m : ℕ) (e : Enta) : Prop where
  wf : e.Wf
  reader : ∀ w, e.withEntg = .running w → w.fromEntg.reader.Within k
  buffered : ∀ w, e.withEntg = .running w → w.toEntg.buffered ≤ m + 4
  outbound : ∀ p ∈ e.outbound.items, p.length ≤ m
  fromTun : ∀ v, e.withTun = .running v → ∀ p ∈ v.fromTun.held, p.length ≤ m
  toTun : ∀ v, e.withTun = .running v → ∀ p ∈ v.toTun.held, p.length ≤ maxFrameLen

variable {codec : TunCodec} {e e' : Enta} {k m : ℕ}

theorem size_le {ps : List ENPacket} {n b : ℕ} (hn : ps.length ≤ n) (h : ∀ p ∈ ps, p.length ≤ b) :
    size ps ≤ n * b := by
  have hsum := List.sum_le_card_nsmul (ps.map List.length) b (by simpa using h)
  rw [List.length_map, smul_eq_mul] at hsum
  exact hsum.trans (Nat.mul_le_mul_right b hn)

theorem Within.inbound_le (h : e.Within k m) : e.inboundBytes ≤ 131 * maxFrameLen + k := by
  have hqueue : e.inbound.items.length ≤ 128 := e.inbound.length_le
  have hreader : (match e.withEntg with
      | .running w => w.fromEntg.reader.decoder.buffer.length
      | .returned _ => 0) ≤ maxFrameLen + k := by
    split
    · rename_i w hw
      exact (h.reader w hw).buffer_le
    · exact Nat.zero_le _
  have harriving : size e.arriving ≤ 129 * maxFrameLen := by
    unfold arriving
    split
    · rename_i w hw
      apply size_le
      · rw [List.length_append]
        have hheld : w.fromEntg.held.length ≤ 1 := by cases w.fromEntg <;> simp [FromEntg.held]
        omega
      · exact fun p hp => (List.mem_append.mp hp).elim (h.wf.inbound_le p) (h.wf.held_le w hw p)
    · rw [List.append_nil]
      exact size_le (by omega) h.wf.inbound_le
  have htun : (match e.withTun with
      | .running v => size v.toTun.held
      | .returned _ => 0) ≤ 1 * maxFrameLen := by
    split
    · rename_i v hv
      exact size_le (by cases v.toTun <;> simp [ToTun.held]) (h.toTun v hv)
    · exact Nat.zero_le _
  unfold inboundBytes
  omega

theorem Within.outbound_le (h : e.Within k m) : e.outboundBytes ≤ 130 * m + 4 := by
  have hqueue : e.outbound.items.length ≤ 128 := e.outbound.length_le
  have hbuffered : (match e.withEntg with
      | .running w => w.toEntg.buffered
      | .returned _ => 0) ≤ m + 4 := by
    split
    · rename_i w hw
      exact h.buffered w hw
    · exact Nat.zero_le _
  have hleaving : size e.leaving ≤ 129 * m := by
    unfold leaving
    split
    · rename_i v hv
      apply size_le
      · rw [List.length_append]
        have hheld : v.fromTun.held.length ≤ 1 := by cases v.fromTun <;> simp [FromTun.held]
        omega
      · exact fun p hp => (List.mem_append.mp hp).elim (h.outbound p) (h.fromTun v hv p)
    · rw [List.append_nil]
      exact size_le (by omega) h.outbound
  unfold outboundBytes
  omega

theorem new_within : new.Within k m := by
  refine ⟨new_wf, fun w hw => ?_, fun w hw => ?_, by simp [new], fun v hv => ?_, fun v hv => ?_⟩
  · obtain rfl := Task.running.inj hw
    exact ⟨Nat.zero_le _, fun _ => Nat.zero_le _⟩
  · obtain rfl := Task.running.inj hw
    exact Nat.zero_le _
  · obtain rfl := Task.running.inj hv
    simp [FromTun.held]
  · obtain rfl := Task.running.inj hv
    simp [ToTun.held]

theorem Within.leaveEntg (h : e.Within k m) (x : EntgExit) : (e.leaveEntg x).Within k m :=
  ⟨h.wf.leaveEntg x, by simp [Enta.leaveEntg], by simp [Enta.leaveEntg], by simp [Enta.leaveEntg],
    h.fromTun, h.toTun⟩

theorem Within.leaveTun (h : e.Within k m) (x : TunExit) : (e.leaveTun x).Within k m :=
  ⟨h.wf.leaveTun x, h.reader, h.buffered, h.outbound, by simp [Enta.leaveTun],
    by simp [Enta.leaveTun]⟩

theorem Within.stop (h : e.Within k m) (s : MainState) : (e.stop s).Within k m := by
  have hw : ∀ w, (e.stop s).withEntg ≠ .running w := by
    intro w
    simp only [Enta.stop, Task.cancel]
    split <;> simp
  have hv : ∀ v, (e.stop s).withTun ≠ .running v := by
    intro v
    simp only [Enta.stop, Task.cancel]
    split <;> simp
  exact ⟨h.wf.stop s, fun w hw' => absurd hw' (hw w), fun w hw' => absurd hw' (hw w),
    by simp [Enta.stop], fun v hv' => absurd hv' (hv v), fun v hv' => absurd hv' (hv v)⟩

theorem Within.onPolled (h : e.Within k m) {t : ToEntg} {r : FramedRead}
    (hw : e.withEntg = .running ⟨t, .next r⟩) {x : Polled × FramedRead}
    (hwf : (e.onPolled t x).Wf) (hx : FramedRead.OutcomeWithin k x) :
    (e.onPolled t x).Within k m := by
  have hbuffered := h.buffered _ hw
  obtain ⟨y, r'⟩ := x
  cases hx with
  | inl hend =>
    obtain rfl : y = .ready none := hend
    exact h.leaveEntg _
  | inr hr =>
    have hkept : ∀ f : FromEntg, f.reader = r' →
        ∀ w, (.running ⟨t, f⟩ : Task WithEntg EntgExit) = .running w →
          w.fromEntg.reader.Within k ∧ w.toEntg.buffered ≤ m + 4 := by
      intro f hf w hw'
      obtain rfl := Task.running.inj hw'
      exact ⟨hf ▸ hr, hbuffered⟩
    match y with
    | .again => exact ⟨hwf, fun w hw' => (hkept _ rfl w hw').1, fun w hw' => (hkept _ rfl w hw').2,
        h.outbound, h.fromTun, h.toTun⟩
    | .ready none => exact h.leaveEntg _
    | .ready (some (.ok p)) => exact ⟨hwf, fun w hw' => (hkept _ rfl w hw').1,
        fun w hw' => (hkept _ rfl w hw').2, h.outbound, h.fromTun, h.toTun⟩
    | .ready (some (.error _)) => exact ⟨hwf, fun w hw' => (hkept _ rfl w hw').1,
        fun w hw' => (hkept _ rfl w hw').2, h.outbound, h.fromTun, h.toTun⟩

theorem Move.within {a : EntaAct} (h : Move codec e a e') (he : e.Within k m)
    (hread : a.taken.length ≤ k) (hcapture : ∀ p ∈ a.captured, p.length ≤ m) :
    e'.Within k m := by
  have hwf := h.wf he.wf
  cases h with
  | @recvOutbound f p q hw hq hp =>
    have hreader := he.reader _ hw
    have hlen := he.outbound p (by simp [hq])
    refine ⟨hwf, ?_, ?_, fun x hx => he.outbound x (by simp [hq, hx]), he.fromTun, he.toTun⟩
    · rintro w ⟨⟩
      exact hreader
    · rintro w ⟨⟩
      rw [ToEntg.buffered, frame_length]
      omega
  | refused | outboundEnd | sendErr | capturersClosed => exact he.leaveEntg _
  | @sendSome f p buf n hw hn =>
    have hreader := he.reader _ hw
    have hbuffered := he.buffered _ hw
    refine ⟨hwf, ?_, ?_, he.outbound, he.fromTun, he.toTun⟩
    · rintro w ⟨⟩
      exact hreader
    · rintro w ⟨⟩
      rw [ToEntg.buffered, List.length_drop]
      exact (Nat.sub_le _ _).trans hbuffered
  | sendLast hw hn =>
    have hreader := he.reader _ hw
    refine ⟨hwf, ?_, ?_, he.outbound, he.fromTun, he.toTun⟩
    · rintro w ⟨⟩
      exact hreader
    · rintro w ⟨⟩
      exact Nat.zero_le _
  | pollEntg hw hb => exact he.onPolled hw hwf (FramedRead.poll_within (he.reader _ hw))
  | readSome hw hb hne =>
    exact he.onPolled hw hwf (FramedRead.afterRead_within (he.reader _ hw) hb hread)
  | readEof hw hb =>
    exact he.onPolled hw hwf (FramedRead.afterRead_within (he.reader _ hw) hb (Nat.zero_le _))
  | readErr hw hb => exact he.onPolled hw hwf (FramedRead.failRead_within (he.reader _ hw))
  | putInbound hw ht hq =>
    have hreader := he.reader _ hw
    have hbuffered := he.buffered _ hw
    refine ⟨hwf, ?_, ?_, he.outbound, he.fromTun, he.toTun⟩
    · rintro w ⟨⟩
      exact hreader
    · rintro w ⟨⟩
      exact hbuffered
  | @recvInbound f p q ht hq hp =>
    have hfrom := he.fromTun _ ht
    have hlen := he.wf.inbound_le p (by simp [hq])
    refine ⟨hwf, he.reader, he.buffered, he.outbound, ?_, ?_⟩
    · rintro v ⟨⟩
      exact hfrom
    · rintro v ⟨⟩
      simpa [ToTun.held] using hlen
  | panic | ctrlC => exact he.stop _
  | inboundEnd | tunRefused | tunWriteErr | pollTun | tunEnd | outboundClosed => exact he.leaveTun _
  | tunWrite ht =>
    have hfrom := he.fromTun _ ht
    refine ⟨hwf, he.reader, he.buffered, he.outbound, ?_, ?_⟩
    · rintro v ⟨⟩
      exact hfrom
    · rintro v ⟨⟩
      simp [ToTun.held]
  | @capture t p ht =>
    have hto := he.toTun _ ht
    have hlen := hcapture p (by simp [EntaAct.captured])
    refine ⟨hwf, he.reader, he.buffered, he.outbound, ?_, ?_⟩
    · rintro v ⟨⟩
      simpa [FromTun.held] using hlen
    · rintro v ⟨⟩
      exact hto
  | tunReadErr ht =>
    have hto := he.toTun _ ht
    refine ⟨hwf, he.reader, he.buffered, he.outbound, ?_, ?_⟩
    · rintro v ⟨⟩
      simp [FromTun.held]
    · rintro v ⟨⟩
      exact hto
  | @putOutbound t p q ht hw hq =>
    have hto := he.toTun _ ht
    have hlen := he.fromTun _ ht p (by simp [FromTun.held])
    refine ⟨hwf, he.reader, he.buffered, fun x hx => ?_, ?_, ?_⟩
    · rw [hq] at hx
      cases List.mem_append.mp hx with
      | inl hmem => exact he.outbound x hmem
      | inr hmem => exact List.mem_singleton.mp hmem ▸ hlen
    · rintro v ⟨⟩
      simp [FromTun.held]
    · rintro v ⟨⟩
      exact hto
  | joined hw ht => exact ⟨hwf, he.reader, he.buffered, he.outbound, he.fromTun, he.toTun⟩

/-- However large the frames that the ENTG announces and however much it sends, ENTA holds at
most 131 frames and one read that came from it, and at most 130 packets and a length field on
the other way. -/
theorem memory_le {as : List EntaAct} (hread : ∀ a ∈ as, a.taken.length ≤ k)
    (hcapture : ∀ a ∈ as, ∀ p ∈ a.captured, p.length ≤ m)
    (hrun : run (step codec) new as = some e) :
    e.inboundBytes ≤ 131 * maxFrameLen + k ∧ e.outboundBytes ≤ 130 * m + 4 := by
  have hwithin : e.Within k m := by
    have hstep : ∀ (s : Enta) (a : EntaAct) (t : Enta), s.Within k m →
        (a.taken.length ≤ k ∧ ∀ p ∈ a.captured, p.length ≤ m) → s.step codec a = some t →
          t.Within k m :=
      fun s a t hs ha hst => (move_of_step hst).2.within hs ha.1 ha.2
    exact Run.invariant_of_forall hstep (fun a ha => ⟨hread a ha, hcapture a ha⟩) new_within hrun
  exact ⟨hwithin.inbound_le, hwithin.outbound_le⟩

/-- A packet on each way, the one from the ENTG in two reads. -/
def storingRun : List EntaAct :=
  [.capture [69], .putOutbound, .recvOutbound, .readEntg (.read [0, 0, 0, 2, 69]), .pollEntg,
    .readEntg (.read [1]), .pollEntg, .putInbound]

theorem storingRun_memory : ∃ e, run (step ipCodec) new storingRun = some e ∧
    (e.inboundBytes = 2 ∧ e.outboundBytes = 5) ∧
      e.inboundBytes ≤ 131 * maxFrameLen + 5 ∧ e.outboundBytes ≤ 130 * 1 + 4 := by
  obtain ⟨e, hrun, hbytes⟩ := Run.exists_of_any (step ipCodec) new storingRun
    (fun e => e.inboundBytes = 2 ∧ e.outboundBytes = 5) (by decide)
  exact ⟨e, hrun, hbytes, memory_le (by decide) (by decide) hrun⟩

end Enta

end EnclaveNetworkGateway
