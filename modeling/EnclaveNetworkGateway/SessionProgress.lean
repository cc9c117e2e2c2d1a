import EnclaveNetworkGateway.SessionProtocol

/-!
# The end of a session

What the runtime waits for when it shuts down: the threads of the blocking tasks and the drop
of the tuple. It need not wait for ever.
-/
namespace EnclaveNetworkGateway

/-- Only a runtime that shuts down discards a closure that no thread has started. -/
def SessionAct.isDiscard : SessionAct → Bool
  | negotiator .discard | writer .discard | reader .discard => true
  | _ => false

/-- No thread is at work for the session, and no drop of the tuple. -/
def Session.settled (s : Session) : Bool :=
  !s.negotiator.holds && !s.writer.holds && !s.reader.holds &&
    match s.arc.handle with
    | .live => true
    | .cleaning => false
    | .cleaned => !s.arc.socketOpen

namespace Session

theorem coherent_of_run {as : List SessionAct} {s : Session} (hrun : run step new as = some s) :
    s.Coherent :=
  Run.invariant (fun _ _ _ hs hstep => coherent_step hs hstep) new_coherent hrun

theorem step_reachable {as : List SessionAct} {a : SessionAct} {s s' : Session}
    (hrun : run step new as = some s) (h : s.step a = some s') :
    run step new (as ++ [a]) = some s' :=
  Run.run_concat.mpr ⟨s, hrun, h⟩

/-- A future that awaits the closure has spawned it, and one that has returned its stream has
spawned the reader task last. -/
theorem spawned_of_run {as : List SessionAct} {s : Session} (hrun : run step new as = some s) :
    (s.caller = .awaiting → s.negotiator ≠ .unspawned) ∧
      (s.caller = .returned true → s.reader ≠ .unspawned) := by
  refine Run.invariant (I := fun s => (s.caller = .awaiting → s.negotiator ≠ .unspawned) ∧
    (s.caller = .returned true → s.reader ≠ .unspawned)) ?_ (by simp [new]) hrun
  rintro s a s' ⟨hn, hr⟩ hstep
  cases a with
  | caller ev =>
    have hc : s.callerStep ev = some s' := hstep
    unfold callerStep at hc
    split at hc
    case h_6 =>
      split at hc
      · simp [← Option.some.inj hc]
      · simp [← Option.some.inj hc]
      · simp at hc
    case h_11 => simp at hc
    all_goals simp [← Option.some.inj hc]
  | negotiator ev =>
    obtain ⟨hcaller, _, hreader, _, hspawned, _⟩ := negotiatorStep_frame hstep
    rw [hcaller, hreader]
    exact ⟨fun _ => hspawned, hr⟩
  | writer ev =>
    obtain ⟨hcaller, hneg, hreader, _⟩ := writerStep_frame hstep
    rw [hcaller, hneg, hreader]
    exact ⟨hn, hr⟩
  | reader ev =>
    obtain ⟨hcaller, hneg, _, _, hspawned⟩ := readerStep_frame hstep
    rw [hcaller, hneg]
    exact ⟨hn, fun _ => hspawned⟩
  | cleanupRet =>
    simp only [step] at hstep
    split_ifs at hstep
    rw [← Option.some.inj hstep]
    exact ⟨hn, hr⟩
  | closeSocket =>
    simp only [step] at hstep
    split_ifs at hstep
    rw [← Option.some.inj hstep]
    exact ⟨hn, hr⟩

/-- A closed socket stays closed. -/
theorem socketOpen_of_step {a : SessionAct} {s s' : Session} (hs : s.Coherent)
    (h : s.step a = some s') (hopen : s'.arc.socketOpen = true) : s.arc.socketOpen = true := by
  have hrelease : ∀ b : SessionArc, b.release.socketOpen = b.socketOpen := by
    intro b
    unfold SessionArc.release
    split <;> rfl
  cases effect_of_step hs h with
  | idle ha hh hc => rwa [ha] at hopen
  | share ha hh hpos hc => rwa [ha] at hopen
  | call c ha hh hc hpos hout hok => rwa [ha] at hopen
  | ret c ok ha hh hc hin => rwa [ha] at hopen
  | release ha hh hc => rwa [ha, hrelease] at hopen
  | abandon ha hh hc hnew hone =>
    rw [ha, hrelease] at hopen
    simp [SessionArc.closeSocket] at hopen
  | cleanupRet ha hh hc hcl => rwa [ha] at hopen
  | close ha hh hc hcl =>
    rw [ha] at hopen
    simp [SessionArc.closeSocket] at hopen

/-! ## Threads -/

def Negotiator.rank : Negotiator → ℕ
  | .queued => 3
  | .calling => 2
  | .done _ => 1
  | .unspawned | .finished _ => 0

def Writer.rank : Writer → ℕ
  | .queued | .looping _ _ => 4
  | .reading | .calling _ _ => 3
  | .leaving => 2
  | .left | .unwinding => 1
  | .unspawned | .ended => 0

def Reader.rank : Reader → ℕ
  | .queued => 5
  | .looping => 4
  | .calling | .writing => 3
  | .leaving => 2
  | .left | .unwinding => 1
  | .unspawned | .ended => 0

/-- How far the drop of the tuple has to go. -/
def arcRank (a : SessionArc) : ℕ :=
  match a.handle with
  | .live => 3
  | .cleaning => 2
  | .cleaned => a.socketOpen.toNat

/-- How far the threads are from their ends, where each call that they make fails. -/
def rank (s : Session) : ℕ :=
  s.negotiator.rank + s.writer.rank + s.reader.rank + arcRank s.arc

theorem rank_le (s : Session) : s.rank ≤ 15 := by
  have hn : s.negotiator.rank ≤ 3 := by cases s.negotiator <;> simp [Negotiator.rank]
  have hw : s.writer.rank ≤ 4 := by cases s.writer <;> simp [Writer.rank]
  have hr : s.reader.rank ≤ 5 := by cases s.reader <;> simp [Reader.rank]
  have ha : arcRank s.arc ≤ 3 := by
    unfold arcRank
    split
    · omega
    · omega
    · have hle := Bool.toNat_le s.arc.socketOpen
      omega
  rw [rank]
  omega

theorem arcRank_release {a : SessionArc} (h : a.handle = .live) : arcRank a.release ≤ 3 := by
  unfold SessionArc.release
  split <;> simp [arcRank, h]

@[simp] theorem arcRank_emit (a : SessionArc) (ev : SessionEvent) :
    arcRank (a.emit ev) = arcRank a := rfl

section Threads

variable {s : Session}

/-- The result of the step is closer to the end. -/
def Shrinks (s : Session) (r : Option Session) : Prop := ∃ s', r = some s' ∧ s'.rank < s.rank

theorem negotiator_shrinks (hlive : s.arc.handle = .live) (h : s.negotiator.holds = true) :
    ∃ ev, ev ≠ .discard ∧ s.Shrinks (s.negotiatorStep ev) := by
  have hrelease := arcRank_release hlive
  have harc : arcRank s.arc = 3 := by rw [arcRank, hlive]
  cases hn : s.negotiator with
  | queued => exact ⟨.call, by simp, by simp [Shrinks, negotiatorStep, hn, rank, Negotiator.rank]⟩
  | calling =>
    exact ⟨.ret false, by simp, by simp [Shrinks, negotiatorStep, hn, rank, Negotiator.rank]⟩
  | done ok =>
    refine ⟨.drop, by simp, ?_⟩
    simp [Shrinks, negotiatorStep, hn, rank, Negotiator.rank]
    omega
  | unspawned => simp [hn, Negotiator.holds] at h
  | finished result => simp [hn, Negotiator.holds] at h

theorem writer_shrinks (hlive : s.arc.handle = .live) (h : s.writer.holds = true) :
    ∃ ev, ev ≠ .discard ∧ s.Shrinks (s.writerStep ev) := by
  have hrelease := arcRank_release hlive
  have harc : arcRank s.arc = 3 := by rw [arcRank, hlive]
  cases hw : s.writer with
  | queued => exact ⟨.start, by simp, by simp [Shrinks, writerStep, hw, rank, Writer.rank]⟩
  | reading => exact ⟨.read none, by simp, by simp [Shrinks, writerStep, hw, rank, Writer.rank]⟩
  | looping off len =>
    by_cases hlt : off < len
    · exact ⟨.call, by simp, by simp [Shrinks, writerStep, hw, hlt, rank, Writer.rank]⟩
    · exact ⟨.next, by simp, by simp [Shrinks, writerStep, hw, hlt, rank, Writer.rank]⟩
  | calling off len =>
    exact ⟨.ret none, by simp, by simp [Shrinks, writerStep, hw, rank, Writer.rank]⟩
  | leaving => exact ⟨.shutdown, by simp, by simp [Shrinks, writerStep, hw, rank, Writer.rank]⟩
  | left | unwinding =>
    refine ⟨.drop, by simp, ?_⟩
    simp [Shrinks, writerStep, hw, rank, Writer.rank]
    omega
  | unspawned => simp [hw, Writer.holds] at h
  | ended => simp [hw, Writer.holds] at h

theorem reader_shrinks (hlive : s.arc.handle = .live) (h : s.reader.holds = true) :
    ∃ ev, ev ≠ .discard ∧ s.Shrinks (s.readerStep ev) := by
  have hrelease := arcRank_release hlive
  have harc : arcRank s.arc = 3 := by rw [arcRank, hlive]
  cases hr : s.reader with
  | queued => exact ⟨.start, by simp, by simp [Shrinks, readerStep, hr, rank, Reader.rank]⟩
  | looping => exact ⟨.call, by simp, by simp [Shrinks, readerStep, hr, rank, Reader.rank]⟩
  | calling => exact ⟨.ret none, by simp, by simp [Shrinks, readerStep, hr, rank, Reader.rank]⟩
  | writing =>
    exact ⟨.write false, by simp, by simp [Shrinks, readerStep, hr, rank, Reader.rank]⟩
  | leaving => exact ⟨.shutdown, by simp, by simp [Shrinks, readerStep, hr, rank, Reader.rank]⟩
  | left | unwinding =>
    refine ⟨.drop, by simp, ?_⟩
    simp [Shrinks, readerStep, hr, rank, Reader.rank]
    omega
  | unspawned => simp [hr, Reader.holds] at h
  | ended => simp [hr, Reader.holds] at h

/-- As long as something is at work for the session, it has a step that brings it closer to its
end, without a closure being discarded. -/
theorem Accounted.shrinks (hs : s.Accounted) (h : s.settled = false) :
    ∃ b, (∀ c, b ≠ .caller c) ∧ b.isDiscard = false ∧ s.Shrinks (s.step b) := by
  by_cases hn : s.negotiator.holds = true
  · have hlive := hs.live_of_pos (by simp [holders, hn])
    obtain ⟨ev, hev, hshrinks⟩ := negotiator_shrinks hlive hn
    exact ⟨.negotiator ev, by simp, by cases ev <;> simp_all [SessionAct.isDiscard], hshrinks⟩
  by_cases hw : s.writer.holds = true
  · have hlive := hs.live_of_pos (by simp [holders, hw])
    obtain ⟨ev, hev, hshrinks⟩ := writer_shrinks hlive hw
    exact ⟨.writer ev, by simp, by cases ev <;> simp_all [SessionAct.isDiscard], hshrinks⟩
  by_cases hr : s.reader.holds = true
  · have hlive := hs.live_of_pos (by simp [holders, hr])
    obtain ⟨ev, hev, hshrinks⟩ := reader_shrinks hlive hr
    exact ⟨.reader ev, by simp, by cases ev <;> simp_all [SessionAct.isDiscard], hshrinks⟩
  -- nobody holds the session, and its tuple is on the way to be dropped
  cases hh : s.arc.handle with
  | live => simp [settled, hn, hw, hr, hh] at h
  | cleaning =>
    refine ⟨.cleanupRet, by simp, rfl, _, by rw [step, if_pos hh], ?_⟩
    have hle := Bool.toNat_le s.arc.socketOpen
    simp [rank, arcRank, hh]
    omega
  | cleaned =>
    have hopen : s.arc.socketOpen = true := by simpa [settled, hn, hw, hr, hh] using h
    refine ⟨.closeSocket, by simp, rfl, _, by rw [step, if_pos ⟨hh, hopen⟩], ?_⟩
    simp [rank, arcRank, SessionArc.closeSocket, hh, hopen]

end Threads

/-- A session without threads and without its future has cleaned up. -/
theorem Accounted.cleaned_up {s : Session} (hs : s.Accounted) (hc : s.caller.holds = false)
    (hsettled : s.settled = true) : s.holders = 0 ∧ s.arc.handle = .cleaned ∧
      s.arc.socketOpen = false ∧ s.arc.trace.count .cleanup = 1 := by
  simp only [settled, Bool.and_eq_true, Bool.not_eq_true'] at hsettled
  obtain ⟨⟨⟨hn, hw⟩, hr⟩, hhandle⟩ := hsettled
  have hholders : s.holders = 0 := by simp [holders, hc, hn, hw, hr]
  have hdead : s.arc.handle ≠ .live := by
    rw [ne_eq, hs.live, hs.strong, hholders]
    omega
  have hcleanup := hs.cleanup
  rw [if_neg hdead] at hcleanup
  cases hh : s.arc.handle with
  | live => exact absurd hh hdead
  | cleaning => simp [hh] at hhandle
  | cleaned => exact ⟨hholders, rfl, by simpa [hh] using hhandle, hcleanup⟩

end Session

end EnclaveNetworkGateway
