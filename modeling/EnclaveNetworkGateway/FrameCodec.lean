import EnclaveNetworkGateway.Conduit
import EnclaveNetworkGateway.PrefixCode
import Mathlib.Tactic.Ring

/-!
# Length-delimited frames

`LengthDelimitedCodec` of tokio-util with its default builder: a big-endian
length field of four bytes in front of every packet, and no frame longer than
8 MiB. The decoder keeps its state between reads; `FramedRead` is the polling
loop of `Framed` around it, one pass of the loop at a time.
-/
namespace EnclaveNetworkGateway

abbrev Bytes := List UInt8

/-- `packet.rs`: a packet is the bytes of an IP packet. -/
abbrev ENPacket := Bytes

namespace FrameCodec

/-- `max_frame_len` of the default builder. -/
def maxFrameLen : ℕ := 8 * 1024 * 1024

/-- `put_uint(n, 4)`: the low four bytes of `n`, most significant first. -/
def putUint (n : ℕ) : Bytes :=
  [.ofNat (n / 2 ^ 24), .ofNat (n / 2 ^ 16), .ofNat (n / 2 ^ 8), .ofNat n]

/-- `get_uint(4)` on the four bytes of a length field. -/
def getUint (a b c d : UInt8) : ℕ :=
  a.toNat * 2 ^ 24 + b.toNat * 2 ^ 16 + c.toNat * 2 ^ 8 + d.toNat

theorem putUint_getUint (a b c d : UInt8) : putUint (getUint a b c d) = [a, b, c, d] := by
  have ha := a.toNat_lt
  have hb := b.toNat_lt
  have hc := c.toNat_lt
  have hd := d.toNat_lt
  simp only [putUint, getUint, List.cons.injEq, and_true, ← UInt8.toNat_inj, UInt8.toNat_ofNat']
  refine ⟨?_, ?_, ?_, ?_⟩ <;> omega

/-- A length field of four bytes can be read back. -/
theorem getUint_putUint {n : ℕ} (hn : n < 2 ^ 32) {a b c d : UInt8} (h : putUint n = [a, b, c, d]) :
    getUint a b c d = n := by
  simp only [putUint, List.cons.injEq, and_true, ← UInt8.toNat_inj, UInt8.toNat_ofNat'] at h
  simp only [getUint]
  omega

theorem maxFrameLen_lt : maxFrameLen < 2 ^ 32 := by decide

/-- A length field determines the length it was written for. -/
theorem putUint_inj {m n : ℕ} (hm : m < 2 ^ 32) (hn : n < 2 ^ 32) (h : putUint m = putUint n) :
    m = n :=
  (getUint_putUint hm rfl).symm.trans (getUint_putUint hn h.symm)

/-- The bytes of one frame on the wire. -/
def frame (p : ENPacket) : Bytes := putUint p.length ++ p

/-- `Encoder::encode`: the frame to append to the write buffer, or the error for
a packet above the limit. -/
def encode (p : ENPacket) : Option Bytes :=
  if p.length ≤ maxFrameLen then some (frame p) else none

theorem frame_ne_nil (p : ENPacket) : frame p ≠ [] := by simp [frame, putUint]

theorem frame_length (p : ENPacket) : (frame p).length = p.length + 4 := by
  simp only [frame, putUint, List.length_append, List.length_cons, List.length_nil]
  omega

theorem encode_eq_some {p : ENPacket} {w : Bytes} :
    encode p = some w ↔ p.length ≤ maxFrameLen ∧ w = frame p := by
  simp [encode, eq_comm]

theorem encode_eq_none {p : ENPacket} : encode p = none ↔ maxFrameLen < p.length := by
  simp [encode]

/-- Frames within the limit are self-delimiting. -/
theorem frame_prefixCode : PrefixCode frame (fun p => p.length ≤ maxFrameLen) where
  ne_nil := frame_ne_nil
  head_eq := by
    intro p q x y hp hq h
    simp only [frame, List.append_assoc] at h
    obtain ⟨hlen, hrest⟩ := List.append_inj h rfl
    have heq := putUint_inj (hp.trans_lt maxFrameLen_lt) (hq.trans_lt maxFrameLen_lt) hlen
    exact (List.append_inj hrest heq).1

/-- No whole frame within the limit stands at the front. -/
def Frameless (x : Bytes) : Prop := Wordless frame (fun p => p.length ≤ maxFrameLen) x

/-- The payloads of the whole frames within the limit at the front of a stream. -/
def Payloads (x : Bytes) (ps : List ENPacket) : Prop :=
  LongestWords frame (fun p => p.length ≤ maxFrameLen) x ps

/-- Nothing behind a length field above the limit is a frame at the front. -/
theorem frameless_of_tooBig {n : ℕ} (hn : maxFrameLen < n) (hlt : n < 2 ^ 32) (y : Bytes) :
    Frameless (putUint n ++ y) := by
  rintro p hp ⟨z, hz⟩
  rw [frame, List.append_assoc] at hz
  have heq := putUint_inj (hp.trans_lt maxFrameLen_lt) hlt (List.append_inj hz rfl).1
  omega

/-! ## Decoder -/

/-- Between two reads the decoder waits for a length field, or for the `n`
payload bytes whose length field it has already consumed. -/
inductive DecodeState where
  | head
  | data (n : ℕ) (le : n ≤ maxFrameLen)
  deriving DecidableEq, Repr

inductive FrameError where
  | frameTooBig
  | bytesRemaining
  | io
  deriving DecidableEq, Repr

structure Decoder where
  state : DecodeState
  buffer : Bytes
  deriving DecidableEq, Repr

namespace Decoder

/-- The part of the wire that the decoder has taken in and not handed on. -/
def pending (d : Decoder) : Bytes :=
  match d.state with
  | .head => d.buffer
  | .data n _ => putUint n ++ d.buffer

theorem pending_append (d : Decoder) (bs : Bytes) :
    pending { d with buffer := d.buffer ++ bs } = d.pending ++ bs := by
  cases h : d.state <;> simp [pending, h]

/-- `decode_data`: the payload, once it is there in full. -/
def decodeData (n : ℕ) (le : n ≤ maxFrameLen) (src : Bytes) : Option ENPacket × Decoder :=
  if src.length < n then (none, ⟨.data n le, src⟩) else (some (src.take n), ⟨.head, src.drop n⟩)

/-- `Decoder::decode`: `decode_head` if no length is known yet, then `decode_data`. -/
def decode (d : Decoder) : Except FrameError (Option ENPacket) × Decoder :=
  match d.state, d.buffer with
  | .head, a :: b :: c :: e :: src =>
    if le : getUint a b c e ≤ maxFrameLen then
      let r := decodeData (getUint a b c e) le src
      (.ok r.1, r.2)
    else (.error .frameTooBig, d)
  | .head, _ => (.ok none, d)
  | .data n le, src =>
    let r := decodeData n le src
    (.ok r.1, r.2)

/-- `Decoder::decode_eof`: a frame that is still complete, else an error when
bytes are left over. -/
def decodeEof (d : Decoder) : Except FrameError (Option ENPacket) × Decoder :=
  match d.decode with
  | (.ok none, d') => if d'.buffer = [] then (.ok none, d') else (.error .bytesRemaining, d')
  | r => r

theorem decodeData_none {n : ℕ} {le : n ≤ maxFrameLen} {src : Bytes} {d : Decoder}
    (h : decodeData n le src = (none, d)) : d.pending = putUint n ++ src := by
  unfold decodeData at h
  split at h
  · obtain rfl := (Prod.mk.inj h).2
    rfl
  · simp at h

theorem decodeData_some {n : ℕ} {le : n ≤ maxFrameLen} {src : Bytes} {p : ENPacket} {d : Decoder}
    (h : decodeData n le src = (some p, d)) :
    p.length ≤ maxFrameLen ∧ putUint n ++ src = frame p ++ d.pending := by
  unfold decodeData at h
  split at h
  · simp at h
  · rename_i hlen
    simp only [Prod.mk.injEq, Option.some.injEq] at h
    obtain ⟨rfl, rfl⟩ := h
    have htake : (src.take n).length = n := by simp; omega
    refine ⟨by omega, ?_⟩
    simp only [frame, htake, pending, List.append_assoc, List.take_append_drop]

/-- A decoder that asks for more has kept every byte. -/
theorem decode_none {d d' : Decoder} (h : d.decode = (.ok none, d')) : d'.pending = d.pending := by
  rcases d with ⟨state, buffer⟩
  simp only [decode] at h
  split at h
  · rename_i a b c e src
    split at h
    · simp only [Prod.mk.injEq, Except.ok.injEq] at h
      have hd := decodeData_none (Prod.ext h.1 h.2)
      simpa [pending, putUint_getUint] using hd
    · simp at h
  · simp only [Prod.mk.injEq, true_and] at h
    rw [← h]
  · simp only [Prod.mk.injEq, Except.ok.injEq] at h
    exact decodeData_none (Prod.ext h.1 h.2)

/-- A decoded packet is within the limit, and its frame comes off the front of
the pending bytes. -/
theorem decode_some {d d' : Decoder} {p : ENPacket} (h : d.decode = (.ok (some p), d')) :
    p.length ≤ maxFrameLen ∧ d.pending = frame p ++ d'.pending := by
  rcases d with ⟨state, buffer⟩
  simp only [decode] at h
  split at h
  · rename_i a b c e src
    split at h
    · simp only [Prod.mk.injEq, Except.ok.injEq] at h
      have hd := decodeData_some (Prod.ext h.1 h.2)
      simpa [pending, putUint_getUint] using hd
    · simp at h
  · simp at h
  · simp only [Prod.mk.injEq, Except.ok.injEq] at h
    exact decodeData_some (Prod.ext h.1 h.2)

/-- A decoder that fails stays as it is. -/
theorem decode_error_state {d d' : Decoder} {e : FrameError} (h : d.decode = (.error e, d')) :
    d' = d := by
  unfold decode at h
  split at h
  · split at h
    · simp at h
    · exact (Prod.mk.inj h).2.symm
  · simp at h
  · simp at h

/-- The decoder fails only at a length field above the limit. -/
theorem decode_error {d d' : Decoder} {e : FrameError} (h : d.decode = (.error e, d')) :
    ∃ n rest, maxFrameLen < n ∧ n < 2 ^ 32 ∧ d.pending = putUint n ++ rest := by
  rcases d with ⟨state, buffer⟩
  simp only [decode] at h
  split at h
  · rename_i a b c e src
    split at h
    · simp at h
    · rename_i hlen
      have ha := a.toNat_lt
      have hb := b.toNat_lt
      have hc := c.toNat_lt
      have he := e.toNat_lt
      refine ⟨getUint a b c e, src, by omega, by simp only [getUint]; omega, ?_⟩
      simp [pending, putUint_getUint]
  · simp at h
  · simp at h

/-- A decoder that asks for more has no whole frame. -/
theorem decode_none_frameless {d d' : Decoder} (h : d.decode = (.ok none, d')) :
    Frameless d.pending := by
  rcases d with ⟨state, buffer⟩
  rintro p hp ⟨y, hy⟩
  have hlt := hp.trans_lt maxFrameLen_lt
  cases state with
  | head =>
    obtain rfl : buffer = frame p ++ y := hy.symm
    obtain ⟨a, b, c, e, hfield⟩ : ∃ a b c e, putUint p.length = [a, b, c, e] := ⟨_, _, _, _, rfl⟩
    have hlen := getUint_putUint hlt hfield
    simp [decode, decodeData, frame, hfield, hlen, hp] at h
  | data n le =>
    simp only [pending, frame, List.append_assoc] at hy
    obtain ⟨hfield, rfl⟩ := List.append_inj hy rfl
    obtain rfl := putUint_inj hlt (le.trans_lt maxFrameLen_lt) hfield
    simp [decode, decodeData] at h

/-- A refused stream has no whole frame, whatever comes behind. -/
theorem decode_error_frameless {d d' : Decoder} {e : FrameError} (h : d.decode = (.error e, d'))
    (y : Bytes) : Frameless (d.pending ++ y) := by
  obtain ⟨n, rest, hn, hlt, hpend⟩ := decode_error h
  rw [hpend, List.append_assoc]
  exact frameless_of_tooBig hn hlt _

/-- A frame at the front of the buffer is decoded. -/
theorem decode_frame {p : ENPacket} (hp : p.length ≤ maxFrameLen) (x : Bytes) :
    decode ⟨.head, frame p ++ x⟩ = (.ok (some p), ⟨.head, x⟩) := by
  obtain ⟨a, b, c, e, hfield⟩ : ∃ a b c e, putUint p.length = [a, b, c, e] := ⟨_, _, _, _, rfl⟩
  have hlen := getUint_putUint (hp.trans_lt maxFrameLen_lt) hfield
  simp [decode, decodeData, frame, hfield, hlen, hp]

/-- The front of a stream of frames within the limit is never refused. -/
theorem decode_ne_error {d d' : Decoder} {e : FrameError} {ps : List ENPacket}
    (hp : ∀ p ∈ ps, p.length ≤ maxFrameLen) (h : d.pending <+: ps.flatMap frame) :
    d.decode ≠ (.error e, d') := by
  intro hd
  obtain ⟨y, hy⟩ := h
  cases ps with
  | nil =>
    obtain ⟨n, rest, _, _, hpend⟩ := decode_error hd
    simp [hpend, putUint] at hy
  | cons p ps =>
    refine decode_error_frameless hd y p (hp p (by simp)) ?_
    rw [hy]
    exact List.prefix_append _ _

end Decoder

/-! ## Reading half of `Framed` -/

/-- The flags that `poll_next` keeps between two polls, and the decoder. -/
structure FramedRead where
  eof : Bool
  isReadable : Bool
  hasErrored : Bool
  decoder : Decoder
  deriving DecidableEq, Repr

/-- One pass of the loop of `poll_next` goes round again or yields an item:
`none` at the end of the stream. -/
inductive Polled where
  | again
  | ready (item : Option (Except FrameError ENPacket))
  deriving DecidableEq, Repr

namespace FramedRead

/-- `Framed::new`: nothing read yet. -/
def new : FramedRead := ⟨false, false, false, ⟨.head, []⟩⟩

/-- The pass has something to decode or to report before it reads again. -/
def busy (r : FramedRead) : Bool := r.hasErrored || r.isReadable

/-- A pass without a read. After an error it ends the stream once; a readable
buffer is decoded, at the end of the file by `decode_eof`. -/
def poll (r : FramedRead) : Polled × FramedRead :=
  if r.hasErrored then (.ready none, { r with isReadable := false, hasErrored := false })
  else if r.isReadable then
    if r.eof then
      match r.decoder.decodeEof with
      | (.error e, d) => (.ready (some (.error e)), { r with decoder := d, hasErrored := true })
      | (.ok (some p), d) => (.ready (some (.ok p)), { r with decoder := d })
      | (.ok none, d) => (.ready none, { r with decoder := d, isReadable := false })
    else
      match r.decoder.decode with
      | (.error e, d) => (.ready (some (.error e)), { r with decoder := d, hasErrored := true })
      | (.ok (some p), d) => (.ready (some (.ok p)), { r with decoder := d })
      | (.ok none, d) => (.again, { r with decoder := d, isReadable := false })
  else (.again, r)

/-- A read that returned `bs`. An empty one is the end of the file; the second
one in a row ends the stream. -/
def afterRead (r : FramedRead) (bs : Bytes) : Polled × FramedRead :=
  if bs = [] then
    if r.eof then (.ready none, r) else (.again, { r with eof := true, isReadable := true })
  else
    (.again, { r with
      eof := false
      isReadable := true
      decoder := { r.decoder with buffer := r.decoder.buffer ++ bs } })

/-- A read that failed. -/
def failRead (r : FramedRead) : Polled × FramedRead :=
  (.ready (some (.error .io)), { r with hasErrored := true })

/-- The stream has not ended: at the end of the file something is left to report. -/
def Polling (r : FramedRead) : Prop := r.eof = true → r.busy = true

instance (r : FramedRead) : Decidable r.Polling := inferInstanceAs (Decidable (_ → _))

/-- Neither the end of the file nor an error has been met. -/
def fresh (r : FramedRead) : Bool := !r.eof && !r.hasErrored

/-- The bytes that may still come out as packets. Nothing does after an error,
and nothing is taken in after the end of the file. -/
def conduit (r : FramedRead) : Conduit UInt8 :=
  if r.hasErrored then .cut []
  else if r.eof then .cut (if r.isReadable then r.decoder.pending else [])
  else .flow r.decoder.pending

theorem conduit_live (r : FramedRead) : r.conduit.live = r.fresh := by
  rcases r with ⟨eof, readable, errored, d⟩
  cases eof <;> cases errored <;> simp [conduit, fresh]

theorem conduit_of_fresh {r : FramedRead} (h : r.fresh = true) :
    r.conduit = .flow r.decoder.pending := by
  simp only [fresh, Bool.and_eq_true, Bool.not_eq_true'] at h
  simp [conduit, h]

/-- Everything that a pass without a read can do. -/
inductive Pass (r : FramedRead) : Polled × FramedRead → Prop where
  | idle (hb : r.busy = false) : Pass r (.again, r)
  | errored (hf : r.hasErrored = true) :
      Pass r (.ready none, { r with isReadable := false, hasErrored := false })
  | packet {p : ENPacket} {d : Decoder} (hf : r.hasErrored = false) (hr : r.isReadable = true)
      (hd : r.decoder.decode = (.ok (some p), d)) :
      Pass r (.ready (some (.ok p)), { r with decoder := d })
  | refused {e : FrameError} {d : Decoder} (hf : r.hasErrored = false) (hr : r.isReadable = true)
      (hd : r.decoder.decode = (.error e, d)) :
      Pass r (.ready (some (.error e)), { r with decoder := d, hasErrored := true })
  | leftover {d : Decoder} (hf : r.hasErrored = false) (hr : r.isReadable = true)
      (he : r.eof = true) (hd : r.decoder.decode = (.ok none, d)) :
      Pass r (.ready (some (.error .bytesRemaining)), { r with decoder := d, hasErrored := true })
  | drained {d : Decoder} (hf : r.hasErrored = false) (he : r.eof = true) :
      Pass r (.ready none, { r with decoder := d, isReadable := false })
  | more {d : Decoder} (hf : r.hasErrored = false) (hr : r.isReadable = true) (he : r.eof = false)
      (hd : r.decoder.decode = (.ok none, d)) :
      Pass r (.again, { r with decoder := d, isReadable := false })

theorem pass_of_poll (r : FramedRead) : Pass r r.poll := by
  simp only [poll]
  split_ifs with hf hr he
  · exact .errored hf
  · have hf' : r.hasErrored = false := by simpa using hf
    simp only [Decoder.decodeEof]
    split
    · rename_i e d hd
      split at hd
      · rename_i d' hd'
        split_ifs at hd
        · simp at hd
        · simp only [Prod.mk.injEq, Except.error.injEq] at hd
          obtain ⟨rfl, rfl⟩ := hd
          exact .leftover hf' hr he hd'
      · exact .refused hf' hr hd
    · rename_i p d hd
      split at hd
      · split_ifs at hd <;> simp at hd
      · exact .packet hf' hr hd
    · exact .drained hf' he
  · have hf' : r.hasErrored = false := by simpa using hf
    split
    · exact .refused hf' hr (by assumption)
    · exact .packet hf' hr (by assumption)
    · exact .more hf' hr (by simpa using he) (by assumption)
  · exact .idle (by simp [busy, hf, hr])

/-- A frame at the front of the buffer comes out as its packet. -/
theorem poll_frame {p : ENPacket} (hp : p.length ≤ maxFrameLen) (x : Bytes) :
    poll ⟨false, true, false, ⟨.head, frame p ++ x⟩⟩ =
      (.ready (some (.ok p)), ⟨false, true, false, ⟨.head, x⟩⟩) := by
  simp only [poll, Decoder.decode_frame hp, Bool.false_eq_true, if_false, if_true]

/-- A packet that a pass yields is within the limit, and its frame is taken off
the front of the stream. -/
theorem poll_packet {r r' : FramedRead} {p : ENPacket} (h : r.poll = (.ready (some (.ok p)), r')) :
    p.length ≤ maxFrameLen ∧ .flow (frame p) * r'.conduit = r.conduit ∧ r'.Polling ∧
      r'.fresh = r.fresh := by
  have hpass := pass_of_poll r
  rw [h] at hpass
  cases hpass with
  | packet hf hr hd =>
    obtain ⟨hlen, hp⟩ := Decoder.decode_some hd
    refine ⟨hlen, ?_, by simp [Polling, busy, hr], by simp [fresh]⟩
    cases he : r.eof <;> simp [conduit, hf, hr, he, hp]

/-- A pass that goes round again keeps the stream as it is. -/
theorem poll_again {r r' : FramedRead} (h : r.poll = (.again, r')) :
    r'.conduit = r.conduit ∧ (r.Polling → r'.Polling) ∧ r'.fresh = r.fresh := by
  have hpass := pass_of_poll r
  rw [h] at hpass
  cases hpass with
  | idle => exact ⟨rfl, id, rfl⟩
  | more hf hr he hd =>
    exact ⟨by simp [conduit, hf, he, Decoder.decode_none hd], by simp [Polling, he], by simp [fresh]⟩

/-- An error ends what the stream delivers. In the middle of the stream it is a
refusal of the decoder. -/
theorem poll_error {r r' : FramedRead} {e : FrameError}
    (h : r.poll = (.ready (some (.error e)), r')) :
    r'.conduit = .cut [] ∧ r'.Polling ∧
      (r.fresh = true → ∃ d', r.decoder.decode = (.error e, d')) := by
  have hpass := pass_of_poll r
  rw [h] at hpass
  cases hpass with
  | refused hf hr hd => exact ⟨by simp [conduit], by simp [Polling, busy], fun _ => ⟨_, hd⟩⟩
  | leftover hf hr he hd => exact ⟨by simp [conduit], by simp [Polling, busy], by simp [fresh, he]⟩

/-- Bytes read in the middle of the stream are appended to it. -/
theorem afterRead_chunk {r : FramedRead} {bs : Bytes} (hne : bs ≠ []) (hp : r.Polling)
    (hb : r.busy = false) :
    (r.afterRead bs).1 = .again ∧ (r.afterRead bs).2.conduit = r.conduit * .flow bs ∧
      (r.afterRead bs).2.Polling ∧ (r.afterRead bs).2.fresh = r.fresh := by
  rcases r with ⟨eof, readable, errored, ⟨state, buffer⟩⟩
  cases eof <;> cases readable <;> cases errored <;> simp [Polling, busy] at hp hb
  refine ⟨by simp [afterRead, hne], ?_, by simp [afterRead, hne, Polling],
    by simp [afterRead, hne, fresh]⟩
  simp [afterRead, hne, conduit, ← Decoder.pending_append]

/-- The first end of the file stops the stream at the bytes taken in so far. -/
theorem afterRead_eof {r : FramedRead} (hp : r.Polling) (hb : r.busy = false) :
    (r.afterRead []).1 = .again ∧ (r.afterRead []).2.conduit ≤ r.conduit ∧
      (r.afterRead []).2.Polling := by
  rcases r with ⟨eof, readable, errored, d⟩
  cases eof <;> cases readable <;> cases errored <;> simp [Polling, busy] at hp hb
  refine ⟨by simp [afterRead], ?_, by simp [afterRead, Polling, busy]⟩
  simpa [afterRead, conduit] using Conduit.cut_le_flow d.pending

@[simp] theorem failRead_conduit (r : FramedRead) : r.failRead.2.conduit = .cut [] := by
  simp [failRead, conduit]

@[simp] theorem failRead_polling (r : FramedRead) : r.failRead.2.Polling := by
  simp [failRead, Polling, busy]

end FramedRead

/-! ## Packets as bytes on the wire -/

/-- What a packet puts on the wire: its frame, or the end of the connection when
the encoder refuses it. -/
def packet (p : ENPacket) : Conduit UInt8 :=
  match encode p with
  | some w => .flow w
  | none => .cut []

/-- A queue of packets that are still to be sent. -/
def packets (ps : List ENPacket) : Conduit UInt8 := (ps.map packet).prod

@[simp] theorem packets_nil : packets [] = 1 := rfl

@[simp] theorem packets_cons (p : ENPacket) (ps : List ENPacket) :
    packets (p :: ps) = packet p * packets ps := by simp [packets]

theorem packets_append (ps qs : List ENPacket) : packets (ps ++ qs) = packets ps * packets qs := by
  simp [packets]

theorem packet_of_le {p : ENPacket} (h : p.length ≤ maxFrameLen) : packet p = .flow (frame p) := by
  simp [packet, encode, h]

theorem packet_of_gt {p : ENPacket} (h : maxFrameLen < p.length) : packet p = .cut [] := by
  simp [packet, encode_eq_none.mpr h]

theorem packets_of_le {ps : List ENPacket} (h : ∀ p ∈ ps, p.length ≤ maxFrameLen) :
    packets ps = .flow (ps.flatMap frame) := by
  induction ps with
  | nil => rfl
  | cons p ps ih =>
    have hp := packet_of_le (h p (by simp))
    simp [hp, ih (fun q hq => h q (by simp [hq]))]

/-- The wire carries the frames of the packets in front of the first one that the
encoder refuses. -/
theorem packets_held (ps : List ENPacket) : ∃ ks, ks <+: ps ∧
    (∀ k ∈ ks, k.length ≤ maxFrameLen) ∧ (packets ps).held = ks.flatMap frame := by
  induction ps with
  | nil => exact ⟨[], List.nil_prefix, by simp, rfl⟩
  | cons p ps ih =>
    by_cases hp : p.length ≤ maxFrameLen
    · obtain ⟨ks, hks, hle, hheld⟩ := ih
      refine ⟨p :: ks, by simpa using hks, ?_, ?_⟩
      · simpa [hp] using hle
      · simp [Conduit.mul_held, packet_of_le hp, hheld]
    · exact ⟨[], List.nil_prefix, by simp, by simp [packet_of_gt (not_le.mp hp)]⟩

/-- Whole packets read off the front of the wire are the first packets sent. -/
theorem prefix_of_packets_le {ds cs : List ENPacket} {x : Conduit UInt8}
    (hd : ∀ d ∈ ds, d.length ≤ maxFrameLen) (h : packets ds * x ≤ packets cs) : ds <+: cs := by
  obtain ⟨ks, hks, hle, hheld⟩ := packets_held cs
  have hheld' := Conduit.held_prefix_of_le h
  rw [packets_of_le hd, hheld, Conduit.mul_held] at hheld'
  have hpre := (List.prefix_append _ _).trans hheld'
  exact (frame_prefixCode.prefix_of_flatMap hd hle hpre).trans hks

end FrameCodec

end EnclaveNetworkGateway
