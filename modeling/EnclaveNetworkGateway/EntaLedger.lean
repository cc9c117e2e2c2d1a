import EnclaveNetworkGateway.EntaStream

/-!
# Packets kept and lost by ENTA

While a function of ENTA runs, every packet that was put into the channel it drains
is passed on, in the hand of a loop or still in the channel. What it holds when it
returns is lost.
-/
namespace EnclaveNetworkGateway.Enta

open FrameCodec

/-- The account of the packets in the two channels. -/
structure Ledger (e : Enta) : Prop where
  captured_eq : ∀ v, e.withTun = .running v → e.log.captured = e.log.queued ++ v.fromTun.held
  queued_eq : ∀ w, e.withEntg = .running w →
    e.log.queued = e.log.sent ++ w.toEntg.held ++ e.outbound.items
  handed_eq : ∀ v, e.withTun = .running v → e.log.handed = e.log.written ++ v.toTun.held
  received_eq : ∀ v, e.withTun = .running v → e.log.received = e.log.handed ++ e.inbound.items

theorem new_ledger : new.Ledger where
  captured_eq := by rintro v ⟨⟩; rfl
  queued_eq := by rintro w ⟨⟩; rfl
  handed_eq := by rintro v ⟨⟩; rfl
  received_eq := by rintro v ⟨⟩; rfl

variable {codec : TunCodec} {e e' : Enta} {a : EntaAct}

theorem Ledger.leaveEntg (h : e.Ledger) (x : EntgExit) : (e.leaveEntg x).Ledger :=
  ⟨h.captured_eq, by simp [Enta.leaveEntg], h.handed_eq, h.received_eq⟩

theorem Ledger.leaveTun (h : e.Ledger) (x : TunExit) : (e.leaveTun x).Ledger :=
  ⟨by simp [Enta.leaveTun], h.queued_eq, by simp [Enta.leaveTun], by simp [Enta.leaveTun]⟩

theorem stop_ledger (e : Enta) (m : MainState) : (e.stop m).Ledger := by
  have hw : ∀ w, (e.stop m).withEntg ≠ .running w := by
    intro w
    simp only [stop, Task.cancel]
    split <;> simp
  have hv : ∀ v, (e.stop m).withTun ≠ .running v := by
    intro v
    simp only [stop, Task.cancel]
    split <;> simp
  exact ⟨fun v h => absurd h (hv v), fun w h => absurd h (hw w), fun v h => absurd h (hv v),
    fun v h => absurd h (hv v)⟩

theorem Ledger.onPolled (h : e.Ledger) {t : ToEntg} {r : FramedRead}
    (hw : e.withEntg = .running ⟨t, .next r⟩) (x : Polled × FramedRead) :
    (e.onPolled t x).Ledger := by
  have hq := h.queued_eq _ hw
  rcases x with ⟨_ | _ | _ | p, r'⟩
  · exact ⟨h.captured_eq, by rintro w ⟨⟩; exact hq, h.handed_eq, h.received_eq⟩
  · exact h.leaveEntg _
  · exact ⟨h.captured_eq, by rintro w ⟨⟩; exact hq, h.handed_eq, h.received_eq⟩
  · exact ⟨h.captured_eq, by rintro w ⟨⟩; exact hq, h.handed_eq, h.received_eq⟩

theorem Move.ledger (h : Move codec e a e') (he : e.Ledger) : e'.Ledger := by
  cases h with
  | recvOutbound hw hq hp =>
    have hqueued := he.queued_eq _ hw
    refine ⟨he.captured_eq, ?_, he.handed_eq, he.received_eq⟩
    rintro w ⟨⟩
    simpa [ToEntg.held, hq] using hqueued
  | refused | outboundEnd | sendErr | capturersClosed => exact he.leaveEntg _
  | sendSome hw hn =>
    have hqueued := he.queued_eq _ hw
    refine ⟨he.captured_eq, ?_, he.handed_eq, he.received_eq⟩
    rintro w ⟨⟩
    exact hqueued
  | sendLast hw hn =>
    have hqueued := he.queued_eq _ hw
    refine ⟨he.captured_eq, ?_, he.handed_eq, he.received_eq⟩
    rintro w ⟨⟩
    simpa [ToEntg.held] using hqueued
  | pollEntg hw | readSome hw | readEof hw | readErr hw => exact he.onPolled hw _
  | putInbound hw ht hq =>
    have hqueued := he.queued_eq _ hw
    refine ⟨he.captured_eq, by rintro w ⟨⟩; exact hqueued, he.handed_eq, ?_⟩
    intro v hv
    simp [hq, he.received_eq v hv]
  | recvInbound ht hq hp =>
    have hcaptured := he.captured_eq _ ht
    have hhanded := he.handed_eq _ ht
    have hreceived := he.received_eq _ ht
    refine ⟨by rintro v ⟨⟩; exact hcaptured, he.queued_eq, ?_, ?_⟩
    · rintro v ⟨⟩
      simpa [ToTun.held] using hhanded
    · rintro v ⟨⟩
      simpa [hq] using hreceived
  | panic | ctrlC => exact stop_ledger e _
  | inboundEnd | tunRefused | tunWriteErr | pollTun | tunEnd | outboundClosed => exact he.leaveTun _
  | tunWrite ht =>
    have hcaptured := he.captured_eq _ ht
    have hhanded := he.handed_eq _ ht
    have hreceived := he.received_eq _ ht
    refine ⟨by rintro v ⟨⟩; exact hcaptured, he.queued_eq, ?_, by rintro v ⟨⟩; exact hreceived⟩
    rintro v ⟨⟩
    simpa [ToTun.held] using hhanded
  | capture ht =>
    have hcaptured := he.captured_eq _ ht
    have hhanded := he.handed_eq _ ht
    have hreceived := he.received_eq _ ht
    refine ⟨?_, he.queued_eq, by rintro v ⟨⟩; exact hhanded, by rintro v ⟨⟩; exact hreceived⟩
    rintro v ⟨⟩
    simpa [FromTun.held] using hcaptured
  | tunReadErr ht =>
    have hcaptured := he.captured_eq _ ht
    have hhanded := he.handed_eq _ ht
    have hreceived := he.received_eq _ ht
    exact ⟨by rintro v ⟨⟩; exact hcaptured, he.queued_eq, by rintro v ⟨⟩; exact hhanded,
      by rintro v ⟨⟩; exact hreceived⟩
  | putOutbound ht hw hq =>
    have hcaptured := he.captured_eq _ ht
    have hhanded := he.handed_eq _ ht
    have hreceived := he.received_eq _ ht
    refine ⟨?_, ?_, by rintro v ⟨⟩; exact hhanded, by rintro v ⟨⟩; exact hreceived⟩
    · rintro v ⟨⟩
      simpa [FromTun.held] using hcaptured
    · intro w hw'
      simp [hq, he.queued_eq w hw']
  | joined hw ht => exact ⟨he.captured_eq, he.queued_eq, he.handed_eq, he.received_eq⟩

theorem ledger_of_run {as : List EntaAct} (hrun : run (step codec) new as = some e) : e.Ledger :=
  Run.invariant (fun _ _ _ hs hstep => (move_of_step hstep).2.ledger hs) new_ledger hrun

/-! ## The end of a function -/

/-- `exchange_with_tun` returns without passing on another packet, and on a closed channel
only when it has drained it. -/
theorem Move.tun_returned (h : Move codec e a e') {v : WithTun} {x : TunExit}
    (hv : e.withTun = .running v) (hx : e'.withTun = .returned x) :
    e'.log = e.log ∧ (x = .inboundClosed → v.toTun.held = [] ∧ e.inbound.items = []) := by
  cases h with
  | inboundEnd ht hq hw =>
    obtain rfl := Task.running.inj (hv.symm.trans ht)
    exact ⟨rfl, fun _ => ⟨rfl, hq⟩⟩
  | panic | ctrlC =>
    simp only [stop, Task.cancel, hv, Task.returned.injEq] at hx
    exact ⟨rfl, by simp [← hx]⟩
  | tunRefused | tunWriteErr | pollTun | tunEnd | outboundClosed =>
    simp only [leaveTun, Task.returned.injEq] at hx
    exact ⟨rfl, by simp [← hx]⟩
  | pollEntg | readSome | readEof | readErr =>
    rw [(onPolled_frame e _ _).2.1, hv] at hx
    simp at hx
  | _ => simp_all [leaveEntg]

theorem Move.entg_returned (h : Move codec e a e') {w : WithEntg} {x : EntgExit}
    (hw : e.withEntg = .running w) (hx : e'.withEntg = .returned x) :
    e'.log = e.log ∧ (x = .outboundClosed → w.toEntg.held = [] ∧ e.outbound.items = []) := by
  have hpolled : ∀ t y, (e.onPolled t y).withEntg = .returned x →
      (e.onPolled t y).log = e.log ∧ x ≠ .outboundClosed := by
    rintro t ⟨_ | _ | _ | p, r'⟩ hy <;> simp only [onPolled, leaveEntg, reduceCtorEq,
      Task.returned.injEq] at hy
    exact ⟨rfl, by simp [← hy]⟩
  cases h with
  | outboundEnd hw' hq ht =>
    obtain rfl := Task.running.inj (hw.symm.trans hw')
    exact ⟨rfl, fun _ => ⟨rfl, hq⟩⟩
  | panic | ctrlC =>
    simp only [stop, Task.cancel, hw, Task.returned.injEq] at hx
    exact ⟨rfl, by simp [← hx]⟩
  | refused | sendErr | capturersClosed =>
    simp only [leaveEntg, Task.returned.injEq] at hx
    exact ⟨rfl, by simp [← hx]⟩
  | pollEntg | readSome | readEof | readErr =>
    obtain ⟨hlog, hne⟩ := hpolled _ _ hx
    exact ⟨hlog, fun h => absurd h hne⟩
  | _ => simp_all [leaveTun]

/-- A function that has returned moves no packet any more. -/
theorem Move.tun_frozen (h : Move codec e a e') {x : TunExit} (hx : e.withTun = .returned x) :
    e'.withTun = .returned x ∧ e'.log.received = e.log.received ∧
      e'.log.written = e.log.written := by
  cases h with
  | pollEntg | readSome | readEof | readErr =>
    obtain ⟨_, ht, hlog⟩ := onPolled_frame e _ _
    exact ⟨ht.trans hx, by rw [hlog], by rw [hlog]⟩
  | _ => simp_all [leaveEntg, stop, Task.cancel, Task.isRunning]

theorem Move.entg_frozen (h : Move codec e a e') {x : EntgExit} (hx : e.withEntg = .returned x) :
    e'.withEntg = .returned x ∧ e'.log.queued = e.log.queued ∧ e'.log.sent = e.log.sent := by
  cases h with
  | _ => simp_all [leaveTun, stop, Task.cancel, Task.isRunning]

/-- A function that has returned in the course of a run did so in one step of it. -/
theorem exists_return {α ε : Type} {task : Enta → Task α ε} {as : List EntaAct} {x : ε}
    (hkeep : ∀ u b u', step codec u b = some u' → ∀ y, task u = .returned y → task u' = .returned y)
    (hnew : (task new).isRunning = true) (hrun : run (step codec) new as = some e)
    (hx : task e = .returned x) :
    ∃ e₀ a e₁ v, Run.TakesStep (step codec) new as e e₀ a e₁ ∧ task e₀ = .running v ∧
      task e₁ = .returned x := by
  obtain ⟨e₀, a, e₁, htakes, hv, hret⟩ :=
    Run.exists_step_of_change (P := fun u => (task u).isRunning = false) hrun (by simp [hnew])
      (by simp [hx, Task.isRunning])
  cases hv₀ : task e₀ with
  | returned y => simp [hv₀, Task.isRunning] at hv
  | running v =>
    cases hx₁ : task e₁ with
    | running v' => simp [hx₁, Task.isRunning] at hret
    | returned y =>
      have hy : task e = .returned y :=
        htakes.kept (fun u b u' hu hstep => hkeep u b u' hstep y hu) hx₁
      obtain rfl := Task.returned.inj (hx.symm.trans hy)
      exact ⟨e₀, a, e₁, v, htakes, hv₀, hx₁⟩

/-- What is lost on the way to the TUN device: what `to_tun` had in its hand and what the
inbound channel held when `exchange_with_tun` returned, and nothing if `to_tun` ended it. -/
theorem lost_inbound {as : List EntaAct} {x : TunExit} (hrun : run (step codec) new as = some e)
    (hx : e.withTun = .returned x) :
    ∃ e₀ a e₁ v, Run.TakesStep (step codec) new as e e₀ a e₁ ∧ e₀.withTun = .running v ∧
      e₁.withTun = .returned x ∧
      e.log.received = e.log.written ++ v.toTun.held ++ e₀.inbound.items ∧
      (x = .inboundClosed → e.log.written = e.log.received) := by
  obtain ⟨e₀, a, e₁, v, htakes, hv, hx₁⟩ :=
    exists_return (fun _ _ _ h _ hy => ((move_of_step h).2.tun_frozen hy).1) rfl hrun hx
  obtain ⟨hlog, hdrained⟩ := (move_of_step htakes.enabled).2.tun_returned hv hx₁
  -- what the function has passed on by then stays as it is
  obtain ⟨_, hreceived, hwritten⟩ :=
    htakes.kept (I := fun u => u.withTun = .returned x ∧
        u.log.received = e₁.log.received ∧ u.log.written = e₁.log.written)
      (fun u b u' hu hstep => by
        obtain ⟨ht, hr, hw⟩ := (move_of_step hstep).2.tun_frozen hu.1
        exact ⟨ht, hr.trans hu.2.1, hw.trans hu.2.2⟩) ⟨hx₁, rfl, rfl⟩
  obtain ⟨_, h₀⟩ := htakes.before
  have hledger := ledger_of_run h₀
  have heq : e.log.received = e.log.written ++ v.toTun.held ++ e₀.inbound.items := by
    rw [hreceived, hwritten, hlog, hledger.received_eq v hv, hledger.handed_eq v hv]
  refine ⟨e₀, a, e₁, v, htakes, hv, hx₁, heq, fun hclosed => ?_⟩
  obtain ⟨hheld, hempty⟩ := hdrained hclosed
  simp [heq, hheld, hempty]

/-- What is lost on the way to the ENTG: the packet that `to_entg` had not sent in full
and what the outbound channel held when `exchange_with_entg` returned, and nothing if
`to_entg` ended it on a closed channel. -/
theorem lost_outbound {as : List EntaAct} {x : EntgExit} (hrun : run (step codec) new as = some e)
    (hx : e.withEntg = .returned x) :
    ∃ e₀ a e₁ w, Run.TakesStep (step codec) new as e e₀ a e₁ ∧ e₀.withEntg = .running w ∧
      e₁.withEntg = .returned x ∧
      e.log.queued = e.log.sent ++ w.toEntg.held ++ e₀.outbound.items ∧
      (x = .outboundClosed → e.log.sent = e.log.queued) := by
  obtain ⟨e₀, a, e₁, w, htakes, hw, hx₁⟩ :=
    exists_return (fun _ _ _ h _ hy => ((move_of_step h).2.entg_frozen hy).1) rfl hrun hx
  obtain ⟨hlog, hdrained⟩ := (move_of_step htakes.enabled).2.entg_returned hw hx₁
  obtain ⟨_, hqueued, hsent⟩ :=
    htakes.kept (I := fun u => u.withEntg = .returned x ∧
        u.log.queued = e₁.log.queued ∧ u.log.sent = e₁.log.sent)
      (fun u b u' hu hstep => by
        obtain ⟨ht, hq, hs⟩ := (move_of_step hstep).2.entg_frozen hu.1
        exact ⟨ht, hq.trans hu.2.1, hs.trans hu.2.2⟩) ⟨hx₁, rfl, rfl⟩
  obtain ⟨_, h₀⟩ := htakes.before
  have heq : e.log.queued = e.log.sent ++ w.toEntg.held ++ e₀.outbound.items := by
    rw [hqueued, hsent, hlog, (ledger_of_run h₀).queued_eq w hw]
  refine ⟨e₀, a, e₁, w, htakes, hw, hx₁, heq, fun hclosed => ?_⟩
  obtain ⟨hheld, hempty⟩ := hdrained hclosed
  simp [heq, hheld, hempty]

/-- Each function drains the channel it receives from if the loop that drains it is the
one that ends; otherwise it loses exactly what is left in the channel and in that loop
in front of the step with which it returns. -/
theorem drained_or_lost {as : List EntaAct} (hrun : run (step codec) new as = some e) :
    (∀ x, e.withTun = .returned x → ∃ e₀ a e₁ v, Run.TakesStep (step codec) new as e e₀ a e₁ ∧
      e₀.withTun = .running v ∧ e₁.withTun = .returned x ∧
      e.log.received = e.log.written ++ v.toTun.held ++ e₀.inbound.items ∧
      (x = .inboundClosed → e.log.written = e.log.received)) ∧
    (∀ x, e.withEntg = .returned x → ∃ e₀ a e₁ w, Run.TakesStep (step codec) new as e e₀ a e₁ ∧
      e₀.withEntg = .running w ∧ e₁.withEntg = .returned x ∧
      e.log.queued = e.log.sent ++ w.toEntg.held ++ e₀.outbound.items ∧
      (x = .outboundClosed → e.log.sent = e.log.queued)) :=
  ⟨fun _ hx => lost_inbound hrun hx, fun _ hx => lost_outbound hrun hx⟩

/-- One packet arrives, the ENTG closes and `to_tun` passes the packet on before it sees
the closed channel. -/
def drainingRun : List EntaAct :=
  [.readEntg (.read (frame [69])), .pollEntg, .putInbound, .pollEntg, .readEntg .readEof,
    .pollEntg, .recvInbound, .tunWrite, .recvInbound]

theorem drainingRun_drains : ∃ e, run (step ipCodec) new drainingRun = some e ∧
    e.withTun = .returned .inboundClosed ∧ e.log.written = e.log.received := by
  obtain ⟨e, he, hx⟩ := Run.exists_of_any (step ipCodec) new drainingRun
    (fun e => e.withTun = .returned .inboundClosed) (by decide +kernel)
  obtain ⟨_, _, _, _, _, _, _, _, hall⟩ := (drained_or_lost he).1 _ hx
  exact ⟨e, he, hx, hall rfl⟩

/-- The same packet is in the channel when `from_tun` finds the outbound channel closed. -/
def abandonedInboundRun : List EntaAct :=
  [.readEntg (.read (frame [69])), .pollEntg, .putInbound, .pollEntg, .readEntg .readEof,
    .pollEntg, .capture [69], .putOutbound]

/-- A captured packet is in the channel when `from_entg` finds the inbound channel closed. -/
def abandonedOutboundRun : List EntaAct :=
  [.capture [69], .putOutbound, .readEntg (.read (frame [69])), .pollEntg, .tunEnd, .putInbound]

/-- Neither function always drains its channel, though the stream to the ENTG ended cleanly in
the first case, and in the second one the TUN stream ended and nothing failed. -/
theorem abandonedRuns_lose :
    (¬ ∀ (as : List EntaAct) (e : Enta) (x : TunExit), run (step ipCodec) new as = some e →
      .readEntg .readEof ∈ as → .tunWriteErr ∉ as → .ctrlC ∉ as → x ≠ .sendFailed →
      e.withTun = .returned x → e.log.written = e.log.received) ∧
    (¬ ∀ (as : List EntaAct) (e : Enta) (x : EntgExit), run (step ipCodec) new as = some e →
      .tunEnd ∈ as → .sendEntg .writeErr ∉ as → .readEntg .readEof ∉ as →
      .readEntg .readErr ∉ as → .ctrlC ∉ as → e.withEntg = .returned x →
      e.log.sent = e.log.queued) := by
  constructor
  · intro hall
    obtain ⟨e, he, hx, hne⟩ := Run.exists_of_any (step ipCodec) new abandonedInboundRun
      (fun e => e.withTun = .returned .outboundClosed ∧ e.log.written ≠ e.log.received)
      (by decide +kernel)
    exact hne (hall _ e _ he (by decide) (by decide) (by decide) (by decide) hx)
  · intro hall
    obtain ⟨e, he, hx, hne⟩ := Run.exists_of_any (step ipCodec) new abandonedOutboundRun
      (fun e => e.withEntg = .returned .capturersClosed ∧ e.log.sent ≠ e.log.queued)
      (by decide +kernel)
    exact hne (hall _ e _ he (by decide) (by decide) (by decide) (by decide) (by decide) hx)

end EnclaveNetworkGateway.Enta
