import EnclaveNetworkGateway.EntaLedger

/-!
# What ENTA makes of the stream from the ENTG

The stream that arrives is any sequence of bytes. ENTA reads it in chunks of any size,
between any steps of its other loops, up to the place behind its last byte where it ends
or fails.
-/
namespace EnclaveNetworkGateway

open FrameCodec

/-- ENTA and the bytes that it has not read yet. -/
structure Reception where
  enta : Enta
  incoming : Bytes
  deriving DecidableEq

/-- The steps of the loop `from_entg`. -/
def EntaAct.isFromEntg : EntaAct → Bool
  | pollEntg | readEntg _ | putInbound => true
  | _ => false

namespace Reception

variable {codec : TunCodec}

def start (bs : Bytes) : Reception := ⟨.new, bs⟩

/-- Reads take bytes off the front of the stream and meet its end behind the last one. -/
def step (codec : TunCodec) (s : Reception) (a : EntaAct) : Option Reception :=
  match a with
  | .readEntg (.read bs) =>
    if bs <+: s.incoming then (s.enta.step codec a).map (⟨·, s.incoming.drop bs.length⟩) else none
  | .readEntg .readEof | .readEntg .readErr =>
    if s.incoming = [] then (s.enta.step codec a).map (⟨·, s.incoming⟩) else none
  | _ => (s.enta.step codec a).map (⟨·, s.incoming⟩)

theorem step_eq_some {s s' : Reception} {a : EntaAct} (h : s.step codec a = some s') :
    s.enta.step codec a = some s'.enta ∧ s.incoming = a.taken ++ s'.incoming ∧
      (a = .readEntg .readEof ∨ a = .readEntg .readErr → s.incoming = []) := by
  unfold step at h
  split at h
  · rename_i bs
    split_ifs at h with hpre
    obtain ⟨e, he, rfl⟩ := Option.map_eq_some_iff.mp h
    refine ⟨he, ?_, by simp⟩
    obtain ⟨rest, hrest⟩ := hpre
    simp [EntaAct.taken, StreamOp.taken, ← hrest]
  · split_ifs at h with hend
    obtain ⟨e, he, rfl⟩ := Option.map_eq_some_iff.mp h
    exact ⟨he, rfl, fun _ => hend⟩
  · split_ifs at h with hend
    obtain ⟨e, he, rfl⟩ := Option.map_eq_some_iff.mp h
    exact ⟨he, rfl, fun _ => hend⟩
  · rename_i hread heof herr
    obtain ⟨e, he, rfl⟩ := Option.map_eq_some_iff.mp h
    refine ⟨he, ?_, ?_⟩
    · cases a with
      | readEntg op =>
        cases op with
        | read bs => exact absurd rfl (hread bs)
        | _ => rfl
      | _ => rfl
    · rintro (rfl | rfl)
      · exact absurd rfl heof
      · exact absurd rfl herr

/-- Whatever arrives, ENTA runs as before. -/
theorem enta_run {bs : Bytes} {as : List EntaAct} {s : Reception}
    (hrun : run (step codec) (start bs) as = some s) :
    run (Enta.step codec) .new as = some s.enta := by
  have hsim : ∀ (s : Reception) (e : Enta) (a : EntaAct) (s' : Reception), s.enta = e →
      s.step codec a = some s' →
        ∃ e', run (Enta.step codec) e (some a).toList = some e' ∧ s'.enta = e' := by
    rintro s e a s' rfl hstep
    exact ⟨s'.enta, by simpa using (step_eq_some hstep).1, rfl⟩
  obtain ⟨e, he, rfl⟩ := Run.simulation hsim rfl hrun
  simpa [start] using he

end Reception

/-! ## The reader -/

namespace FrameCodec.FramedRead

/-- With `rest` still to come: a reader that has met the end or an error has no frame to
come, and one that waits for bytes has none at hand. -/
structure Exhausts (r : FramedRead) (rest : Bytes) : Prop where
  ended : r.fresh = false → Frameless (r.decoder.pending ++ rest)
  waiting : r.isReadable = false → Frameless r.decoder.pending

/-- The outcome of a pass accounts for the bytes `buf` at hand: a packet comes with its
frame, and the end of the stream when no frame is left. -/
def Accounts (buf rest : Bytes) (errored : Bool) : Polled × FramedRead → Prop
  | (.again, r) => r.decoder.pending = buf ∧ r.Exhausts rest ∧ r.hasErrored = errored
  | (.ready (some (.ok p)), r) =>
    buf = frame p ++ r.decoder.pending ∧ r.Exhausts rest ∧ r.hasErrored = errored
  | (.ready (some (.error _)), r) =>
    r.decoder.pending = buf ∧ r.Exhausts rest ∧ errored = false ∧ r.hasErrored = true
  | (.ready none, _) => Frameless (buf ++ rest)

variable {r : FramedRead} {rest bs : Bytes}

theorem poll_accounts (h : r.Exhausts rest) :
    Accounts r.decoder.pending rest r.hasErrored r.poll := by
  have hpass := pass_of_poll r
  generalize r.poll = x at hpass
  cases hpass with
  | idle => exact ⟨rfl, h, rfl⟩
  | errored hf => exact h.ended (by simp [fresh, hf])
  | packet hf hr hd =>
    obtain ⟨hlen, hp⟩ := Decoder.decode_some hd
    refine ⟨hp, ⟨fun hfresh => ?_, fun hread => by simp [hr] at hread⟩, rfl⟩
    refine absurd ?_ (h.ended hfresh _ hlen)
    rw [hp, List.append_assoc]
    exact List.prefix_append _ _
  | @refused e d hf hr hd =>
    have hsame : d = r.decoder := Decoder.decode_error_state hd
    exact ⟨by rw [hsame], ⟨fun _ => by rw [hsame]; exact Decoder.decode_error_frameless hd rest,
      fun hread => by simp [hr] at hread⟩, hf, rfl⟩
  | leftover hf hr he hd =>
    have hpend := Decoder.decode_none hd
    exact ⟨hpend, ⟨fun _ => by rw [hpend]; exact h.ended (by simp [fresh, he]),
      fun hread => by simp [hr] at hread⟩, hf, rfl⟩
  | drained hf he => exact h.ended (by simp [fresh, he])
  | more hf hr he hd =>
    have hpend := Decoder.decode_none hd
    exact ⟨hpend, ⟨fun hfresh => by simp [fresh, he, hf] at hfresh,
      fun _ => by rw [hpend]; exact Decoder.decode_none_frameless hd⟩, rfl⟩

/-- A chunk is appended to the bytes at hand. -/
theorem afterRead_accounts (hne : bs ≠ []) (hb : r.busy = false) :
    Accounts (r.decoder.pending ++ bs) rest r.hasErrored (r.afterRead bs) := by
  simp only [busy, Bool.or_eq_false_iff] at hb
  rw [afterRead, if_neg hne]
  exact ⟨r.decoder.pending_append bs, ⟨fun hfresh => by simp [fresh, hb.1] at hfresh,
    fun hread => by simp at hread⟩, rfl⟩

/-- The flags of a reader that has to read. -/
theorem flags_of_idle (hp : r.Polling) (hb : r.busy = false) :
    r.eof = false ∧ r.hasErrored = false ∧ r.isReadable = false := by
  have he : r.eof = false := by
    by_contra heof
    simp [hp (by simpa using heof)] at hb
  simp only [busy, Bool.or_eq_false_iff] at hb
  exact ⟨he, hb⟩

theorem afterEof_accounts (h : r.Exhausts []) (hp : r.Polling) (hb : r.busy = false) :
    Accounts r.decoder.pending [] r.hasErrored (r.afterRead []) := by
  obtain ⟨he, _, hread⟩ := flags_of_idle hp hb
  simp only [afterRead, if_true, he, Bool.false_eq_true, if_false]
  exact ⟨rfl, ⟨fun _ => by simpa using h.waiting hread, fun hread => by simp at hread⟩, rfl⟩

theorem failRead_accounts (h : r.Exhausts []) (hb : r.busy = false) :
    Accounts r.decoder.pending [] r.hasErrored r.failRead := by
  simp only [busy, Bool.or_eq_false_iff] at hb
  exact ⟨rfl, ⟨fun _ => by simpa using h.waiting hb.2, fun hread => h.waiting hread⟩, hb.1, rfl⟩

end FrameCodec.FramedRead

namespace Enta

variable {codec : TunCodec} {e e' : Enta} {a : EntaAct}

/-- The other loops leave `from_entg` where it is, or end it from outside. -/
theorem Move.fromEntg_frame (h : Move codec e a e') (ha : a.isFromEntg = false) :
    e'.log.received = e.log.received ∧ e'.log.errors = e.log.errors ∧
      (∀ w', e'.withEntg = .running w' →
        ∃ w, e.withEntg = .running w ∧ w'.fromEntg = w.fromEntg) ∧
      (e'.withEntg = .returned .entgClosed → e.withEntg = .returned .entgClosed) := by
  cases h with
  | pollEntg | readSome | readEof | readErr | putInbound | capturersClosed =>
    simp [EntaAct.isFromEntg] at ha
  | recvOutbound hw | sendSome hw | sendLast hw =>
    refine ⟨rfl, rfl, fun w' hw' => ⟨_, hw, ?_⟩, fun hx => by simp at hx⟩
    obtain rfl := Task.running.inj hw'
    rfl
  | refused | outboundEnd | sendErr =>
    exact ⟨rfl, rfl, fun w' hw' => by simp [leaveEntg] at hw', fun hx => by simp [leaveEntg] at hx⟩
  | panic | ctrlC =>
    cases hw : e.withEntg <;> simp [stop, Task.cancel, hw]
  | recvInbound | inboundEnd | tunWrite | tunRefused | tunWriteErr | capture | tunReadErr |
    pollTun | tunEnd | putOutbound | outboundClosed | joined =>
    exact ⟨rfl, rfl, fun w' hw' => ⟨w', hw', rfl⟩, id⟩

/-- What `from_entg` has made of the stream `bs` when `rest` is still to come: the frames of
the packets it has passed on, then the bytes that its reader holds. -/
structure Receives (bs rest : Bytes) (e : Enta) : Prop where
  received_le : ∀ p ∈ e.log.received, p.length ≤ maxFrameLen
  delivered : e.log.received.flatMap frame <+: bs
  errors_le : e.log.errors ≤ 1
  taken : ∀ w, e.withEntg = .running w → bs = (e.log.received ++ w.fromEntg.held).flatMap frame ++
    (w.fromEntg.reader.decoder.pending ++ rest)
  exhausts : ∀ w, e.withEntg = .running w → w.fromEntg.reader.Exhausts rest
  errored : ∀ w, e.withEntg = .running w → e.log.errors = w.fromEntg.reader.hasErrored.toNat
  closed : e.withEntg = .returned .entgClosed → Payloads bs e.log.received

variable {bs rest : Bytes}

theorem new_receives (bs : Bytes) : new.Receives bs bs := by
  have hrunning : ∀ w, new.withEntg = .running w → w = ⟨.recv, .next .new⟩ :=
    fun w hw => (Task.running.inj hw).symm
  refine ⟨by simp [new], by simp [new], by simp [new], fun w hw => ?_, fun w hw => ?_,
    fun w hw => ?_, fun hx => by simp [new] at hx⟩
  · rw [hrunning w hw]
    rfl
  · rw [hrunning w hw]
    refine ⟨fun hfresh => by simp [FromEntg.reader, FramedRead.new, FramedRead.fresh] at hfresh,
      fun _ p _ hp => frame_ne_nil p (List.prefix_nil.mp hp)⟩
  · rw [hrunning w hw]
    rfl

/-- A loop that ends from outside leaves what has been passed on. -/
theorem Receives.leaveEntg (h : e.Receives bs rest) {x : EntgExit} (hx : x ≠ .entgClosed) :
    (e.leaveEntg x).Receives bs rest :=
  ⟨h.received_le, h.delivered, h.errors_le, fun w hw => by simp [Enta.leaveEntg] at hw,
    fun w hw => by simp [Enta.leaveEntg] at hw, fun w hw => by simp [Enta.leaveEntg] at hw,
    fun hc => by simp [Enta.leaveEntg, hx] at hc⟩

/-- Passing on the outcome of a pass. `buf` is what the reader had at hand, `rest'` what is
still to come after the pass. -/
theorem Receives.onPolled {t : ToEntg} {r : FramedRead} {buf rest' : Bytes}
    (h : e.Receives bs rest) (hw : e.withEntg = .running ⟨t, .next r⟩)
    (hbuf : r.decoder.pending ++ rest = buf ++ rest') {x : Polled × FramedRead}
    (hx : FramedRead.Accounts buf rest' r.hasErrored x) : (e.onPolled t x).Receives bs rest' := by
  have htaken := h.taken _ hw
  have herrored := h.errored _ hw
  simp only [FromEntg.held, FromEntg.reader, List.append_nil, hbuf] at htaken herrored
  rcases x with ⟨_ | _ | _ | p, r'⟩
  · obtain ⟨hpend, hexhausts, hflag⟩ := hx
    exact ⟨h.received_le, h.delivered, h.errors_le,
      by rintro w ⟨⟩; simpa [Enta.onPolled, FromEntg.held, FromEntg.reader, hpend] using htaken,
      by rintro w ⟨⟩; exact hexhausts,
      by rintro w ⟨⟩; simpa [Enta.onPolled, FromEntg.reader, hflag] using herrored,
      fun hc => by simp [Enta.onPolled] at hc⟩
  · refine ⟨h.received_le, h.delivered, h.errors_le, fun w hw' => by simp [Enta.onPolled,
      Enta.leaveEntg] at hw', fun w hw' => by simp [Enta.onPolled, Enta.leaveEntg] at hw',
      fun w hw' => by simp [Enta.onPolled, Enta.leaveEntg] at hw', fun _ => ?_⟩
    rw [htaken]
    exact LongestWords.of_wordless frame_prefixCode h.received_le hx
  · obtain ⟨hpend, hexhausts, hflag, hflag'⟩ := hx
    have hnone : e.log.errors = 0 := by simpa [hflag] using herrored
    exact ⟨h.received_le, h.delivered, by simp [Enta.onPolled, hnone],
      by rintro w ⟨⟩; simpa [Enta.onPolled, FromEntg.held, FromEntg.reader, hpend] using htaken,
      by rintro w ⟨⟩; exact hexhausts,
      by rintro w ⟨⟩; simp [Enta.onPolled, FromEntg.reader, hflag', hnone],
      fun hc => by simp [Enta.onPolled] at hc⟩
  · obtain ⟨hpend, hexhausts, hflag⟩ := hx
    exact ⟨h.received_le, h.delivered, h.errors_le,
      by rintro w ⟨⟩; simpa [Enta.onPolled, FromEntg.held, FromEntg.reader, hpend] using htaken,
      by rintro w ⟨⟩; exact hexhausts,
      by rintro w ⟨⟩; simpa [Enta.onPolled, FromEntg.reader, hflag] using herrored,
      fun hc => by simp [Enta.onPolled] at hc⟩

/-- The other loops change nothing of it. -/
theorem Move.receives_frame (h : Move codec e a e') (ha : a.isFromEntg = false)
    (hr : e.Receives bs rest) : e'.Receives bs rest := by
  obtain ⟨hreceived, herrors, hrunning, hclosed⟩ := h.fromEntg_frame ha
  refine ⟨hreceived ▸ hr.received_le, hreceived ▸ hr.delivered, herrors ▸ hr.errors_le,
    fun w' hw' => ?_, fun w' hw' => ?_, fun w' hw' => ?_,
    fun hx => hreceived ▸ hr.closed (hclosed hx)⟩
  · obtain ⟨w, hw, heq⟩ := hrunning w' hw'
    rw [hreceived, heq]
    exact hr.taken w hw
  · obtain ⟨w, hw, heq⟩ := hrunning w' hw'
    rw [heq]
    exact hr.exhausts w hw
  · obtain ⟨w, hw, heq⟩ := hrunning w' hw'
    rw [herrors, heq]
    exact hr.errored w hw

theorem Move.receives {rest' : Bytes} (h : Move codec e a e') (he : e.Wf) (hr : e.Receives bs rest)
    (hrest : rest = a.taken ++ rest')
    (hend : a = .readEntg .readEof ∨ a = .readEntg .readErr → rest = []) :
    e'.Receives bs rest' := by
  by_cases ha : a.isFromEntg = false
  · obtain rfl : rest = rest' := by
      cases a <;> first | exact hrest | simp [EntaAct.isFromEntg] at ha
    exact h.receives_frame ha hr
  · cases h with
    | pollEntg hw hb =>
      obtain rfl : rest = rest' := hrest
      exact hr.onPolled hw rfl (FramedRead.poll_accounts (hr.exhausts _ hw))
    | @readSome t r chunk hw hb hne =>
      refine hr.onPolled hw ?_ (FramedRead.afterRead_accounts hne hb)
      rw [hrest, List.append_assoc]
      rfl
    | readEof hw hb =>
      obtain rfl := hend (.inl rfl)
      obtain rfl : rest' = [] := hrest.symm
      exact hr.onPolled hw rfl
        (FramedRead.afterEof_accounts (hr.exhausts _ hw) (he.polling _ hw) hb)
    | readErr hw hb =>
      obtain rfl := hend (.inr rfl)
      obtain rfl : rest' = [] := hrest.symm
      exact hr.onPolled hw rfl (FramedRead.failRead_accounts (hr.exhausts _ hw) hb)
    | @putInbound t r p q hw ht hq =>
      obtain rfl : rest = rest' := hrest
      have htaken := hr.taken _ hw
      have hexhausts := hr.exhausts _ hw
      have herrored := hr.errored _ hw
      have hp : p.length ≤ maxFrameLen := he.held_le _ hw p (by simp [FromEntg.held])
      simp only [FromEntg.held, FromEntg.reader] at htaken herrored
      refine ⟨fun p' hp' => ?_, ?_, hr.errors_le, ?_, by rintro w ⟨⟩; exact hexhausts,
        by rintro w ⟨⟩; exact herrored, fun hx => by simp at hx⟩
      · rcases List.mem_append.mp hp' with hp' | hp'
        · exact hr.received_le p' hp'
        · rw [List.mem_singleton.mp hp']
          exact hp
      · rw [htaken]
        exact List.prefix_append _ _
      · rintro w ⟨⟩
        simpa [FromEntg.held, FromEntg.reader] using htaken
    | capturersClosed hw ht =>
      obtain rfl : rest = rest' := hrest
      exact hr.leaveEntg (by simp)
    | _ => simp [EntaAct.isFromEntg] at ha

/-! ## The work that is left -/

end Enta

namespace FrameCodec.FramedRead

/-- A bound on the steps that the loop can still take with this reader and `n` bytes to
come, counting a packet twice: it is decoded and put into the channel. -/
def work (r : FramedRead) (n : ℕ) : ℕ :=
  if r.hasErrored then 1
  else if r.eof then 2 * r.decoder.pending.length + 2
  else 2 * r.decoder.pending.length + 4 * n + r.isReadable.toNat + 3

/-- The work that the outcome of a pass leaves. -/
def workAfter (n : ℕ) : Polled × FramedRead → ℕ
  | (.again, r) | (.ready (some (.error _)), r) => r.work n
  | (.ready (some (.ok _)), r) => r.work n + 1
  | (.ready none, _) => 0

variable {r : FramedRead} {n : ℕ}

theorem work_pos (r : FramedRead) (n : ℕ) : 0 < r.work n := by
  simp only [work]
  split_ifs <;> omega

theorem poll_work (hb : r.busy = true) : workAfter n r.poll + 1 ≤ r.work n := by
  have hpass := pass_of_poll r
  generalize r.poll = x at hpass
  cases hpass with
  | idle hidle => simp [hidle] at hb
  | errored | drained => exact work_pos r n
  | packet hf hr hd =>
    obtain ⟨_, hp⟩ := Decoder.decode_some hd
    cases he : r.eof <;> simp [workAfter, work, hf, he, hp, frame_length] <;> omega
  | refused hf hr hd | leftover hf hr he hd =>
    cases he : r.eof <;> simp [workAfter, work, hf, he]
  | more hf hr he hd => simp [workAfter, work, hf, hr, he, Decoder.decode_none hd]

theorem afterRead_work {bs rest rest' : Bytes} (hne : bs ≠ []) (hp : r.Polling)
    (hb : r.busy = false) (hrest : rest = bs ++ rest') :
    workAfter rest'.length (r.afterRead bs) + 1 ≤ r.work rest.length := by
  obtain ⟨he, hf, hr⟩ := flags_of_idle hp hb
  have hpos := List.length_pos_iff.mpr hne
  simp [work, workAfter, afterRead, hne, he, hf, hr, Decoder.pending_append, hrest]
  omega

theorem afterEof_work (hp : r.Polling) (hb : r.busy = false) :
    workAfter n (r.afterRead []) + 1 ≤ r.work n := by
  obtain ⟨he, hf, hr⟩ := flags_of_idle hp hb
  simp [work, workAfter, afterRead, he, hf, hr]

theorem failRead_work (hp : r.Polling) (hb : r.busy = false) :
    workAfter n r.failRead + 1 ≤ r.work n := by
  obtain ⟨he, hf, hr⟩ := flags_of_idle hp hb
  simp [work, workAfter, failRead, he, hf]

end FrameCodec.FramedRead

namespace Enta

variable {codec : TunCodec} {e e' : Enta} {a : EntaAct} {n : ℕ}

/-- The work of `from_entg` with `n` bytes to come. -/
def work (e : Enta) (n : ℕ) : ℕ :=
  match e.withEntg with
  | .running ⟨_, .next r⟩ => r.work n
  | .running ⟨_, .put r _⟩ => r.work n + 1
  | .returned _ => 0

theorem work_onPolled (e : Enta) (t : ToEntg) (x : Polled × FramedRead) :
    (e.onPolled t x).work n = FramedRead.workAfter n x := by
  rcases x with ⟨_ | _ | _ | p, r⟩ <;> rfl

theorem work_of_next {t : ToEntg} {r : FramedRead} (hw : e.withEntg = .running ⟨t, .next r⟩) :
    e.work n = r.work n := by
  simp only [work, hw]

theorem Move.work_frame (h : Move codec e a e') (ha : a.isFromEntg = false) :
    e'.work n ≤ e.work n := by
  obtain ⟨_, _, hrunning, _⟩ := h.fromEntg_frame ha
  cases hw' : e'.withEntg with
  | returned x => simp [work, hw']
  | running w' =>
    obtain ⟨⟨t, f⟩, hw, heq⟩ := hrunning w' hw'
    obtain ⟨t', f'⟩ := w'
    obtain rfl : f' = f := heq
    simp only [work, hw, hw']
    exact le_of_eq (by cases f' <;> rfl)

/-- A step of `from_entg` uses up work, and no other step makes any. -/
theorem Move.work_le {rest rest' : Bytes} (h : Move codec e a e') (he : e.Wf)
    (hrest : rest = a.taken ++ rest') :
    e'.work rest'.length + a.isFromEntg.toNat ≤ e.work rest.length := by
  by_cases ha : a.isFromEntg = false
  · obtain rfl : rest = rest' := by
      cases a <;> first | exact hrest | simp [EntaAct.isFromEntg] at ha
    simpa [ha] using h.work_frame ha
  · cases h with
    | pollEntg hw hb =>
      obtain rfl : rest = rest' := hrest
      rw [work_onPolled, work_of_next hw]
      exact FramedRead.poll_work hb
    | readSome hw hb hne =>
      rw [work_onPolled, work_of_next hw]
      exact FramedRead.afterRead_work hne (he.polling _ hw) hb hrest
    | readEof hw hb =>
      obtain rfl : rest = rest' := hrest
      rw [work_onPolled, work_of_next hw]
      exact FramedRead.afterEof_work (he.polling _ hw) hb
    | readErr hw hb =>
      obtain rfl : rest = rest' := hrest
      rw [work_onPolled, work_of_next hw]
      exact FramedRead.failRead_work (he.polling _ hw) hb
    | putInbound hw ht hq =>
      obtain rfl : rest = rest' := hrest
      simp [work, hw, EntaAct.isFromEntg]
    | capturersClosed hw ht =>
      simp only [work, hw, leaveEntg, EntaAct.isFromEntg, Bool.toNat_true]
      omega
    | _ => simp [EntaAct.isFromEntg] at ha

end Enta

namespace Reception

/-- What every run keeps. -/
structure Sound (bs : Bytes) (s : Reception) : Prop where
  wf : s.enta.Wf
  receives : s.enta.Receives bs s.incoming
  main : s.enta.main ≠ .run → s.enta.withEntg.isRunning = false ∧ s.enta.withTun.isRunning = false

variable {codec : TunCodec} {bs : Bytes} {s s' : Reception} {a : EntaAct}

theorem start_sound (bs : Bytes) : (start bs).Sound bs :=
  ⟨Enta.new_wf, Enta.new_receives bs, fun hm => by simp [start, Enta.new] at hm⟩

theorem step_sound (hs : s.Sound bs) (h : s.step codec a = some s') : s'.Sound bs := by
  obtain ⟨hstep, hrest, hend⟩ := step_eq_some h
  obtain ⟨hm, hmove⟩ := Enta.move_of_step hstep
  exact ⟨hmove.wf hs.wf, hmove.receives hs.wf hs.receives hrest hend,
    fun hm' => (hmove.main hm).resolve_left hm'⟩

theorem sound_of_run {as : List EntaAct} (hrun : run (step codec) (start bs) as = some s) :
    s.Sound bs :=
  Run.invariant (fun _ _ _ hs hstep => step_sound hs hstep) (start_sound bs) hrun

/-- `from_entg` takes a bounded number of steps, however long ENTA runs. -/
theorem countP_fromEntg_le {as : List EntaAct} (hrun : run (step codec) (start bs) as = some s) :
    as.countP EntaAct.isFromEntg ≤ 4 * bs.length + 3 := by
  have hle := Run.countP_le_of_measure (μ := fun s => s.enta.work s.incoming.length)
    (fun s a s' hs hstep => by
      obtain ⟨hstep', hrest, _⟩ := step_eq_some hstep
      exact ⟨step_sound hs hstep, (Enta.move_of_step hstep').2.work_le hs.wf hrest⟩)
    (start_sound bs) hrun
  have hstart : (start bs).enta.work (start bs).incoming.length = 4 * bs.length + 3 := by
    simp [start, Enta.new, Enta.work, FramedRead.work, FramedRead.new, Decoder.pending]
  omega

/-- While the inbound channel is open `from_entg` can go on, or waits for room in it. -/
theorem fromEntg_enabled (hs : s.Sound bs) (hw : s.enta.withEntg.isRunning = true)
    (ht : s.enta.withTun.isRunning = true) :
    s.enta.inbound.room = 0 ∨ ∃ a, a.isFromEntg = true ∧ s.step codec a ≠ none := by
  have hm : s.enta.main = .run := by
    by_contra hm
    simp [(hs.main hm).1] at hw
  cases hw' : s.enta.withEntg with
  | returned x => simp [hw', Task.isRunning] at hw
  | running w =>
    obtain ⟨t, f⟩ := w
    cases f with
    | put r p =>
      cases happend : s.enta.inbound.append [p] with
      | none =>
        have hroom := Fifo.append_eq_none.mp happend
        simp only [List.length_singleton] at hroom
        exact .inl (by omega)
      | some q =>
        exact .inr ⟨.putInbound, rfl, by
          simp [step, Enta.step, Enta.putInbound, hm, hw', ht, happend]⟩
    | next r =>
      right
      by_cases hb : r.busy = true
      · exact ⟨.pollEntg, rfl, by simp [step, Enta.step, Enta.pollEntg, hm, hw', hb]⟩
      · cases hin : s.incoming with
        | nil =>
          exact ⟨.readEntg .readEof, rfl, by
            simp [step, Enta.step, Enta.readEntg, hm, hw', hb, hin]⟩
        | cons b rest =>
          exact ⟨.readEntg (.read [b]), rfl, by
            simp [step, Enta.step, Enta.readEntg, hm, hw', hb, hin]⟩

/-- The stream alone decides which packets ENTA can receive. In every run `from_entg` puts
the first of them into the inbound channel, and all of them if it gets to its own end; it
reports at most one error, takes a bounded number of steps, and while the channel is open
it waits for nothing but room in it. -/
theorem receives_payloads (codec : TunCodec) (bs : Bytes) : ∃ ps, Payloads bs ps ∧
    ∀ as s, run (step codec) (start bs) as = some s →
      s.enta.log.received <+: ps ∧
      (s.enta.withEntg = .returned .entgClosed → s.enta.log.received = ps) ∧
      s.enta.log.errors ≤ 1 ∧
      as.countP EntaAct.isFromEntg ≤ 4 * bs.length + 3 ∧
      (s.enta.withEntg.isRunning = true → s.enta.withTun.isRunning = true →
        s.enta.inbound.room = 0 ∨ ∃ a, a.isFromEntg = true ∧ s.step codec a ≠ none) := by
  obtain ⟨ps, hps⟩ := LongestWords.exists_of_prefixCode frame_prefixCode bs
  refine ⟨ps, hps, fun as s hrun => ?_⟩
  have hs := sound_of_run hrun
  refine ⟨?_, fun hx => (hs.receives.closed hx).unique hps, hs.receives.errors_le,
    countP_fromEntg_le hrun, fromEntg_enabled hs⟩
  exact hps.longest _ hs.receives.received_le hs.receives.delivered

/-- A frame, a length field above the limit and another frame arrive in two pieces. -/
def hostileStream : Bytes := frame [69] ++ [255, 255, 255, 255] ++ frame [70]

def hostileRun : List EntaAct :=
  [.readEntg (.read (hostileStream.take 7)), .pollEntg, .putInbound, .pollEntg,
    .readEntg (.read (hostileStream.drop 7)), .pollEntg, .pollEntg]

theorem hostileRun_receives : ∃ ps s, Payloads hostileStream ps ∧
    run (step ipCodec) (start hostileStream) hostileRun = some s ∧ s.enta.log.received = ps ∧
    ps = [[69]] ∧ s.enta.log.errors = 1 := by
  obtain ⟨ps, hps, hall⟩ := receives_payloads ipCodec hostileStream
  obtain ⟨s, hrun, hx, hreceived, herrors⟩ := Run.exists_of_any (step ipCodec) (start hostileStream)
    hostileRun (fun s => s.enta.withEntg = .returned .entgClosed ∧
      s.enta.log.received = [[69]] ∧ s.enta.log.errors = 1) (by decide +kernel)
  have heq := (hall hostileRun s hrun).2.1 hx
  exact ⟨ps, s, hps, hrun, heq, heq ▸ hreceived, herrors⟩

end Reception

end EnclaveNetworkGateway
