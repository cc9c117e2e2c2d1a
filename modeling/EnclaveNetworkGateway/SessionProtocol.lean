import EnclaveNetworkGateway.Session
import EnclaveNetworkGateway.Transition
import Mathlib.Logic.Function.Basic
import Mathlib.Tactic.SplitIfs

/-!
# The call protocol of a session

In every interleaving of the owners the handle is cleaned up once, by the last owner,
outside of all other calls and before the socket is closed.
-/
namespace EnclaveNetworkGateway

namespace SessionEvent

def isRet (c : FfiCall) : SessionEvent → Bool
  | ret d _ => d = c
  | _ => false

/-- More calls of `c` have been made than have returned. -/
def InProgress (c : FfiCall) (tr : List SessionEvent) : Prop :=
  tr.countP (isRet c) < tr.count (.call c)

/-- The histories after which an event may occur. -/
def Allowed (pre : List SessionEvent) : SessionEvent → Prop
  | call c => .cleanup ∉ pre ∧ .socketClosed ∉ pre ∧ (c ≠ .negotiate → .ret .negotiate true ∈ pre)
  | ret c _ => InProgress c pre
  | cleanup => .cleanup ∉ pre ∧ ∀ c, ¬ InProgress c pre
  | cleanupRet => .cleanup ∈ pre
  | socketClosed => .call .negotiate ∈ pre → .cleanupRet ∈ pre

end SessionEvent

namespace SessionArc

@[simp] theorem emit_trace (a : SessionArc) (ev : SessionEvent) :
    (a.emit ev).trace = a.trace ++ [ev] := rfl

@[simp] theorem emit_strong (a : SessionArc) (ev : SessionEvent) :
    (a.emit ev).strong = a.strong := rfl

@[simp] theorem emit_handle (a : SessionArc) (ev : SessionEvent) :
    (a.emit ev).handle = a.handle := rfl

@[simp] theorem closeSocket_trace (a : SessionArc) :
    a.closeSocket.trace = a.trace ++ [.socketClosed] := rfl

@[simp] theorem closeSocket_strong (a : SessionArc) : a.closeSocket.strong = a.strong := rfl

@[simp] theorem closeSocket_handle (a : SessionArc) : a.closeSocket.handle = a.handle := rfl

theorem release_trace (a : SessionArc) :
    a.release.trace = if a.strong = 1 then a.trace ++ [.cleanup] else a.trace := by
  rw [release]
  split <;> rfl

theorem mem_release {a : SessionArc} {ev : SessionEvent} :
    ev ∈ a.release.trace ↔ ev ∈ a.trace ∨ a.strong = 1 ∧ ev = .cleanup := by
  rw [release_trace]
  split_ifs with h <;> simp [h]

end SessionArc

namespace Session

open SessionEvent

/-- Everything a step does to the owners and to what they share. -/
inductive Effect (s s' : Session) : Prop where
  | idle (ha : s'.arc = s.arc) (hh : s'.holders = s.holders) (hc : s'.inCall = s.inCall)
  | share (ha : s'.arc = s.arc.clone) (hh : s'.holders = s.holders + 1) (hpos : 0 < s.holders)
      (hc : s'.inCall = s.inCall)
  | call (c : FfiCall) (ha : s'.arc = s.arc.emit (.call c)) (hh : s'.holders = s.holders)
      (hc : s'.inCall = Function.update s.inCall c true) (hpos : 0 < s.holders)
      (hout : s.inCall c = false)
      (hok : c ≠ .negotiate → .ret .negotiate true ∈ s.arc.trace)
  | ret (c : FfiCall) (ok : Bool) (ha : s'.arc = s.arc.emit (.ret c ok))
      (hh : s'.holders = s.holders) (hc : s'.inCall = Function.update s.inCall c false)
      (hin : s.inCall c = true)
  | release (ha : s'.arc = s.arc.release) (hh : s'.holders + 1 = s.holders)
      (hc : s'.inCall = s.inCall)
  | abandon (ha : s'.arc = s.arc.closeSocket.release) (hh : s'.holders + 1 = s.holders)
      (hc : s'.inCall = s.inCall) (hnew : .call .negotiate ∉ s.arc.trace) (hone : s.holders = 1)
  | cleanupRet (ha : s'.arc = { s.arc with handle := .cleaned, trace := s.arc.trace ++ [.cleanupRet] })
      (hh : s'.holders = s.holders) (hc : s'.inCall = s.inCall) (hcl : s.arc.handle = .cleaning)
  | close (ha : s'.arc = s.arc.closeSocket) (hh : s'.holders = s.holders)
      (hc : s'.inCall = s.inCall) (hcl : s.arc.handle = .cleaned)

/-- How far the future has come. -/
def Caller.progress : Caller → ℕ
  | unpolled => 0
  | std => 1
  | shared => 2
  | awaiting => 3
  | negotiated => 4
  | writerSpawned => 5
  | returned _ | dropped => 6

/-- A task exists once the future has spawned it, and the two tasks are spawned after a
successful negotiation. -/
structure Coherent (s : Session) : Prop where
  negotiator : s.caller.progress ≤ 2 → s.negotiator = .unspawned
  writer : s.caller.progress ≤ 4 → s.writer = .unspawned
  reader : s.caller.progress ≤ 5 → s.reader = .unspawned
  uncalled : s.negotiator = .unspawned ∨ s.negotiator = .queued → .call .negotiate ∉ s.arc.trace
  succeeded : s.negotiator = .done true ∨ s.negotiator = .finished (some true) ∨
    s.caller = .negotiated ∨ s.caller = .writerSpawned ∨ s.writer ≠ .unspawned ∨
    s.reader ≠ .unspawned → .ret .negotiate true ∈ s.arc.trace

section Step

variable {s s' : Session}

theorem callerStep_effect {ev : CallerEvent} (hs : s.Coherent) (h : s.callerStep ev = some s') :
    Effect s s' := by
  unfold callerStep at h
  split at h
  case h_1 hcaller =>
    obtain rfl := Option.some.inj h
    exact .idle rfl (by simp [holders, hcaller, Caller.holds]) rfl
  case h_2 hcaller | h_3 hcaller =>
    -- nobody else has been spawned
    obtain rfl := Option.some.inj h
    have hn := hs.negotiator (by simp [hcaller, Caller.progress])
    have hw := hs.writer (by simp [hcaller, Caller.progress])
    have hr := hs.reader (by simp [hcaller, Caller.progress])
    exact .abandon rfl
      (by simp [holders, hcaller, hn, hw, hr, Caller.holds, Negotiator.holds, Writer.holds,
        Reader.holds]) rfl (hs.uncalled (.inl hn))
      (by simp [holders, hcaller, hn, hw, hr, Caller.holds, Negotiator.holds, Writer.holds,
        Reader.holds])
  case h_4 hcaller =>
    obtain rfl := Option.some.inj h
    exact .idle rfl (by simp [holders, hcaller, Caller.holds]) rfl
  case h_5 hcaller =>
    obtain rfl := Option.some.inj h
    have hn := hs.negotiator (by simp [hcaller, Caller.progress])
    refine .share rfl ?_ ?_ ?_
    · simp [holders, hcaller, hn, Caller.holds, Negotiator.holds]
      omega
    · simp [holders, hcaller, Caller.holds]
    · funext c
      cases c <;> simp [inCall, hn]
  case h_6 hcaller =>
    split at h
    · obtain rfl := Option.some.inj h
      exact .idle rfl (by simp [holders, hcaller, Caller.holds]) rfl
    · obtain rfl := Option.some.inj h
      refine .release rfl ?_ rfl
      simp [holders, hcaller, Caller.holds]
      omega
    · simp at h
  case h_7 hcaller =>
    obtain rfl := Option.some.inj h
    have hw := hs.writer (by simp [hcaller, Caller.progress])
    refine .share rfl ?_ ?_ ?_
    · simp [holders, hcaller, hw, Caller.holds, Writer.holds]
      omega
    · simp [holders, hcaller, Caller.holds]
    · funext c
      cases c <;> simp [inCall, hw, Writer.isCalling]
  case h_8 hcaller =>
    obtain rfl := Option.some.inj h
    have hr := hs.reader (by simp [hcaller, Caller.progress])
    refine .idle rfl ?_ ?_
    · simp [holders, hcaller, hr, Caller.holds, Reader.holds]
      omega
    · funext c
      cases c <;> simp [inCall, hr]
  case h_9 hcaller | h_10 hcaller =>
    obtain rfl := Option.some.inj h
    refine .release rfl ?_ rfl
    simp [holders, hcaller, Caller.holds]
    omega
  case h_11 => simp at h

theorem negotiatorStep_effect {ev : NegotiatorEvent} (h : s.negotiatorStep ev = some s') :
    Effect s s' := by
  unfold negotiatorStep at h
  split at h
  case h_1 hn =>
    obtain rfl := Option.some.inj h
    refine .call .negotiate rfl ?_ ?_ ?_ ?_ ?_
    · simp [holders, hn, Negotiator.holds]
    · funext c
      cases c <;> simp [inCall]
    · simp [holders, hn, Negotiator.holds]
    · simp [inCall, hn]
    · simp
  case h_2 hn =>
    obtain rfl := Option.some.inj h
    refine .ret .negotiate _ rfl ?_ ?_ ?_
    · simp [holders, hn, Negotiator.holds]
    · funext c
      cases c <;> simp [inCall]
    · simp [inCall, hn]
  case h_3 hn | h_4 hn =>
    obtain rfl := Option.some.inj h
    refine .release rfl ?_ ?_
    · simp [holders, hn, Negotiator.holds]
      omega
    · funext c
      cases c <;> simp [inCall, hn]
  case h_5 => simp at h

theorem writerStep_effect {ev : WriterEvent} (hs : s.Coherent) (h : s.writerStep ev = some s') :
    Effect s s' := by
  have hok : s.writer ≠ .unspawned → .ret .negotiate true ∈ s.arc.trace := fun hw =>
    hs.succeeded (by simp [hw])
  have hidle : ∀ w, s.writer.holds = w.holds → s.writer.isCalling = w.isCalling →
      Effect s { s with writer := w } := by
    intro w hh hc
    refine .idle rfl (by simp [holders, hh]) ?_
    funext c
    cases c <;> simp [inCall, hc]
  have hrelease : s.writer.holds = true → s.writer.isCalling = false →
      Effect s { s with writer := .ended, arc := s.arc.release } := by
    intro hh hc
    have hended : Writer.ended.holds = false ∧ Writer.ended.isCalling = false := ⟨rfl, rfl⟩
    refine .release rfl ?_ ?_
    · simp [holders, hh, hended]
      omega
    · funext c
      cases c <;> simp [inCall, hc, hended]
  have hret : ∀ w ok, s.writer.isCalling = true → s.writer.holds = w.holds →
      w.isCalling = false →
      Effect s { s with writer := w, arc := s.arc.emit (.ret .transmit ok) } := by
    intro w ok hc hh hw
    refine .ret .transmit ok rfl (by simp [holders, hh]) ?_ (by simp [inCall, hc])
    funext c
    cases c <;> simp [inCall, hw]
  unfold writerStep at h
  split at h
  case h_1 hw | h_3 hw | h_9 hw =>
    obtain rfl := Option.some.inj h
    exact hidle _ (by simp [hw, Writer.holds]) (by simp [hw, Writer.isCalling])
  case h_2 hw | h_10 hw | h_11 hw =>
    obtain rfl := Option.some.inj h
    exact hrelease (by simp [hw, Writer.holds]) (by simp [hw, Writer.isCalling])
  case h_4 hw =>
    split_ifs at h
    all_goals
      obtain rfl := Option.some.inj h
      exact hidle _ (by simp [hw, Writer.holds]) (by simp [hw, Writer.isCalling])
  case h_5 hw =>
    split_ifs at h
    obtain rfl := Option.some.inj h
    refine .call .transmit rfl ?_ ?_ ?_ ?_ ?_
    · simp [holders, hw, Writer.holds]
    · funext c
      cases c <;> simp [inCall, Writer.isCalling]
    · simp [holders, hw, Writer.holds]
    · simp [inCall, hw, Writer.isCalling]
    · exact fun _ => hok (by simp [hw])
  case h_6 hw =>
    split_ifs at h
    obtain rfl := Option.some.inj h
    exact hidle _ (by simp [hw, Writer.holds]) (by simp [hw, Writer.isCalling])
  case h_7 hw =>
    obtain rfl := Option.some.inj h
    refine hret _ _ (by simp [hw, Writer.isCalling]) ?_ ?_
    · rw [hw]
      split <;> rfl
    · split <;> rfl
  case h_8 hw =>
    obtain rfl := Option.some.inj h
    exact hret _ _ (by simp [hw, Writer.isCalling]) (by simp [hw, Writer.holds]) rfl
  case h_12 => simp at h

theorem readerStep_effect {ev : ReaderEvent} (hs : s.Coherent) (h : s.readerStep ev = some s') :
    Effect s s' := by
  have hok : s.reader ≠ .unspawned → .ret .negotiate true ∈ s.arc.trace := fun hr =>
    hs.succeeded (by simp [hr])
  have hidle : ∀ r, s.reader.holds = r.holds → s.reader ≠ .calling → r ≠ .calling →
      Effect s { s with reader := r } := by
    intro r hh hc hr
    refine .idle rfl (by simp [holders, hh]) ?_
    funext c
    cases c <;> simp [inCall, hc, hr]
  have hrelease : s.reader.holds = true → s.reader ≠ .calling →
      Effect s { s with reader := .ended, arc := s.arc.release } := by
    intro hh hc
    have hended : Reader.ended.holds = false := rfl
    refine .release rfl (by simp [holders, hh, hended]) ?_
    funext c
    cases c <;> simp [inCall, hc]
  have hret : ∀ r ok, s.reader = .calling → r.holds = true → r ≠ .calling →
      Effect s { s with reader := r, arc := s.arc.emit (.ret .receive ok) } := by
    intro r ok hc hh hr
    have hcalling : Reader.calling.holds = true := rfl
    refine .ret .receive ok rfl (by simp [holders, hc, hh, hcalling]) ?_ (by simp [inCall, hc])
    funext c
    cases c <;> simp [inCall, hr]
  unfold readerStep at h
  split at h
  case h_1 hr | h_7 hr =>
    obtain rfl := Option.some.inj h
    exact hidle _ (by simp [hr, Reader.holds]) (by simp [hr]) (by simp)
  case h_2 hr | h_8 hr | h_9 hr =>
    obtain rfl := Option.some.inj h
    exact hrelease (by simp [hr, Reader.holds]) (by simp [hr])
  case h_3 hr =>
    obtain rfl := Option.some.inj h
    refine .call .receive rfl ?_ ?_ ?_ ?_ ?_
    · simp [holders, hr, Reader.holds]
    · funext c
      cases c <;> simp [inCall]
    · simp [holders, hr, Reader.holds]
    · simp [inCall, hr]
    · exact fun _ => hok (by simp [hr])
  case h_4 hr =>
    obtain rfl := Option.some.inj h
    refine hret _ _ hr ?_ ?_
    · split <;> rfl
    · split <;> simp
  case h_5 hr =>
    obtain rfl := Option.some.inj h
    exact hret _ _ hr rfl (by simp)
  case h_6 hr =>
    obtain rfl := Option.some.inj h
    refine hidle _ ?_ (by simp [hr]) ?_
    · rw [hr]
      split <;> rfl
    · split <;> simp
  case h_10 => simp at h

theorem effect_of_step {a : SessionAct} (hs : s.Coherent) (h : s.step a = some s') :
    Effect s s' := by
  cases a with
  | caller ev => exact callerStep_effect hs h
  | negotiator ev => exact negotiatorStep_effect h
  | writer ev => exact writerStep_effect hs h
  | reader ev => exact readerStep_effect hs h
  | cleanupRet =>
    simp only [step] at h
    split_ifs at h with hc
    obtain rfl := Option.some.inj h
    exact .cleanupRet rfl rfl rfl hc
  | closeSocket =>
    simp only [step] at h
    split_ifs at h with hc
    obtain rfl := Option.some.inj h
    exact .close rfl rfl rfl hc.1

/-- The history is never rewritten. -/
theorem Effect.mem {ev : SessionEvent} (h : Effect s s') (hev : ev ∈ s.arc.trace) :
    ev ∈ s'.arc.trace := by
  cases h with
  | idle ha | share ha => rw [ha]; exact hev
  | call c ha | ret c ok ha => simp [ha, hev]
  | release ha | abandon ha => simp [ha, SessionArc.mem_release, hev]
  | cleanupRet ha | close ha => simp [ha, hev]

/-- After the step that calls `rats_tls_negotiate` the closure is inside the call. -/
theorem Effect.call_negotiate (h : Effect s s') (hev : .call .negotiate ∈ s'.arc.trace) :
    .call .negotiate ∈ s.arc.trace ∨ s'.negotiator = .calling := by
  cases h with
  | idle ha => exact .inl (ha ▸ hev)
  | share ha =>
    rw [ha] at hev
    exact .inl hev
  | call c ha hh hc =>
    rw [ha, SessionArc.emit_trace, List.mem_append, List.mem_singleton] at hev
    rcases hev with hev | heq
    · exact .inl hev
    · obtain rfl := SessionEvent.call.inj heq
      have hin : s'.inCall .negotiate = true := by simp [hc]
      exact .inr (by simpa [inCall] using hin)
  | ret c ok ha => exact .inl (by simpa [ha] using hev)
  | release ha | abandon ha => exact .inl (by simpa [ha, SessionArc.mem_release] using hev)
  | cleanupRet ha | close ha => exact .inl (by simpa [ha] using hev)

/-! ## The owners are spawned in order -/

theorem negotiatorStep_frame {ev : NegotiatorEvent} (h : s.negotiatorStep ev = some s') :
    s'.caller = s.caller ∧ s'.writer = s.writer ∧ s'.reader = s.reader ∧
      s.negotiator ≠ .unspawned ∧ s'.negotiator ≠ .unspawned ∧ s'.negotiator ≠ .queued ∧
      (s'.negotiator = .done true → .ret .negotiate true ∈ s'.arc.trace) ∧
      (s'.negotiator = .finished (some true) → s.negotiator = .done true) := by
  unfold negotiatorStep at h
  split at h
  case h_5 => simp at h
  all_goals
    rename_i hn
    obtain rfl := Option.some.inj h
    simp [hn]
  exact fun hok => .inr hok

theorem writerStep_frame {ev : WriterEvent} (h : s.writerStep ev = some s') :
    s'.caller = s.caller ∧ s'.negotiator = s.negotiator ∧ s'.reader = s.reader ∧
      s.writer ≠ .unspawned ∧ s'.writer ≠ .unspawned := by
  unfold writerStep at h
  split at h
  all_goals
    rename_i hw
    try split_ifs at h
  all_goals
    simp only [Option.some.injEq, reduceCtorEq] at h
  all_goals
    rw [← h]
    simp [hw]

theorem readerStep_frame {ev : ReaderEvent} (h : s.readerStep ev = some s') :
    s'.caller = s.caller ∧ s'.negotiator = s.negotiator ∧ s'.writer = s.writer ∧
      s.reader ≠ .unspawned ∧ s'.reader ≠ .unspawned := by
  unfold readerStep at h
  split at h
  case h_10 => simp at h
  all_goals
    rename_i hr
    obtain rfl := Option.some.inj h
    simp [hr]
  all_goals split <;> simp

theorem coherent_negotiator {ev : NegotiatorEvent} (hs : s.Coherent)
    (h : s.negotiatorStep ev = some s') : s'.Coherent := by
  have heff := negotiatorStep_effect h
  obtain ⟨hcaller, hw, hr, hold, hnew, hqueued, hdone, hfinished⟩ := negotiatorStep_frame h
  constructor
  · intro hp
    exact absurd (hs.negotiator (hcaller ▸ hp)) hold
  · rw [hcaller, hw]
    exact hs.writer
  · rw [hcaller, hr]
    exact hs.reader
  · rintro (hn | hn)
    · exact absurd hn hnew
    · exact absurd hn hqueued
  · rw [hcaller, hw, hr]
    rintro (hn | hn | hrest)
    · exact hdone hn
    · exact heff.mem (hs.succeeded (.inl (hfinished hn)))
    · exact heff.mem (hs.succeeded (.inr (.inr hrest)))

theorem coherent_writer {ev : WriterEvent} (hs : s.Coherent) (h : s.writerStep ev = some s') :
    s'.Coherent := by
  have heff := writerStep_effect hs h
  obtain ⟨hcaller, hn, hr, hold, hnew⟩ := writerStep_frame h
  constructor
  · rw [hcaller, hn]
    exact hs.negotiator
  · intro hp
    exact absurd (hs.writer (hcaller ▸ hp)) hold
  · rw [hcaller, hr]
    exact hs.reader
  · rw [hn]
    intro hq hcall
    rcases heff.call_negotiate hcall with hcall | hcalling
    · exact hs.uncalled hq hcall
    · simp [← hn, hcalling] at hq
  · exact fun _ => heff.mem (hs.succeeded (by simp [hold]))

theorem coherent_reader {ev : ReaderEvent} (hs : s.Coherent) (h : s.readerStep ev = some s') :
    s'.Coherent := by
  have heff := readerStep_effect hs h
  obtain ⟨hcaller, hn, hw, hold, hnew⟩ := readerStep_frame h
  constructor
  · rw [hcaller, hn]
    exact hs.negotiator
  · rw [hcaller, hw]
    exact hs.writer
  · intro hp
    exact absurd (hs.reader (hcaller ▸ hp)) hold
  · rw [hn]
    intro hq hcall
    rcases heff.call_negotiate hcall with hcall | hcalling
    · exact hs.uncalled hq hcall
    · simp [← hn, hcalling] at hq
  · exact fun _ => heff.mem (hs.succeeded (by simp [hold]))

theorem coherent_caller {ev : CallerEvent} (hs : s.Coherent) (h : s.callerStep ev = some s') :
    s'.Coherent := by
  have heff := callerStep_effect hs h
  have huncalled : (s'.negotiator = .unspawned ∨ s'.negotiator = .queued →
      s.negotiator = .unspawned ∨ s.negotiator = .queued) →
      s'.negotiator = .unspawned ∨ s'.negotiator = .queued →
        .call .negotiate ∉ s'.arc.trace := by
    intro hback hq hcall
    rcases heff.call_negotiate hcall with hcall | hcalling
    · exact hs.uncalled (hback hq) hcall
    · simp [hcalling] at hq
  have hsucceeded := fun hold => heff.mem (hs.succeeded hold)
  unfold callerStep at h
  split at h
  case h_1 hcaller | h_4 hcaller =>
    obtain rfl := Option.some.inj h
    have hn := hs.negotiator (by simp [hcaller, Caller.progress])
    have hw := hs.writer (by simp [hcaller, Caller.progress])
    have hr := hs.reader (by simp [hcaller, Caller.progress])
    exact ⟨fun _ => hn, fun _ => hw, fun _ => hr, huncalled id, by simp [hn, hw, hr]⟩
  case h_2 hcaller | h_3 hcaller | h_9 hcaller | h_10 hcaller =>
    obtain rfl := Option.some.inj h
    refine ⟨by simp [Caller.progress], by simp [Caller.progress], by simp [Caller.progress],
      huncalled id, fun hold => hsucceeded ?_⟩
    simpa [hcaller] using hold
  case h_5 hcaller =>
    obtain rfl := Option.some.inj h
    have hn := hs.negotiator (by simp [hcaller, Caller.progress])
    have hw := hs.writer (by simp [hcaller, Caller.progress])
    have hr := hs.reader (by simp [hcaller, Caller.progress])
    exact ⟨by simp [Caller.progress], fun _ => hw, fun _ => hr, huncalled fun _ => .inl hn,
      by simp [hw, hr]⟩
  case h_6 hcaller =>
    have hw := hs.writer (by simp [hcaller, Caller.progress])
    have hr := hs.reader (by simp [hcaller, Caller.progress])
    split at h
    · rename_i hfin
      obtain rfl := Option.some.inj h
      exact ⟨by simp [Caller.progress], fun _ => hw, fun _ => hr, huncalled id,
        fun _ => hsucceeded (.inr (.inl hfin))⟩
    · obtain rfl := Option.some.inj h
      refine ⟨by simp [Caller.progress], by simp [Caller.progress], by simp [Caller.progress],
        huncalled id, fun hold => hsucceeded ?_⟩
      simpa [hcaller] using hold
    · simp at h
  case h_7 hcaller =>
    obtain rfl := Option.some.inj h
    have hr := hs.reader (by simp [hcaller, Caller.progress])
    exact ⟨by simp [Caller.progress], by simp [Caller.progress], fun _ => hr, huncalled id,
      fun _ => hsucceeded (by simp [hcaller])⟩
  case h_8 hcaller =>
    obtain rfl := Option.some.inj h
    exact ⟨by simp [Caller.progress], by simp [Caller.progress], by simp [Caller.progress],
      huncalled id, fun _ => hsucceeded (by simp [hcaller])⟩
  case h_11 => simp at h

theorem coherent_step {a : SessionAct} (hs : s.Coherent) (h : s.step a = some s') :
    s'.Coherent := by
  cases a with
  | caller ev => exact coherent_caller hs h
  | negotiator ev => exact coherent_negotiator hs h
  | writer ev => exact coherent_writer hs h
  | reader ev => exact coherent_reader hs h
  | cleanupRet =>
    simp only [step] at h
    split_ifs at h
    obtain rfl := Option.some.inj h
    exact ⟨hs.negotiator, hs.writer, hs.reader, by simpa using hs.uncalled,
      by simpa using hs.succeeded⟩
  | closeSocket =>
    simp only [step] at h
    split_ifs at h
    obtain rfl := Option.some.inj h
    exact ⟨hs.negotiator, hs.writer, hs.reader, by simpa using hs.uncalled,
      by simpa using hs.succeeded⟩

theorem new_coherent : new.Coherent where
  negotiator _ := rfl
  writer _ := rfl
  reader _ := rfl
  uncalled _ := by simp [new, SessionArc.new]
  succeeded h := by simp [new] at h

end Step

/-! ## The history follows the protocol -/

/-- The strong count is the number of owners, the handle is live as long as there is one,
and the history tells who is inside a call. -/
structure Accounted (s : Session) : Prop where
  strong : s.arc.strong = s.holders
  live : s.arc.handle = .live ↔ 0 < s.arc.strong
  cleanup : s.arc.trace.count .cleanup = if s.arc.handle = .live then 0 else 1
  calls : ∀ c, s.arc.trace.count (.call c) =
    s.arc.trace.countP (isRet c) + (s.inCall c).toNat
  closed : .socketClosed ∈ s.arc.trace → s.arc.handle ≠ .live
  cleaned : s.arc.handle = .cleaned → .cleanupRet ∈ s.arc.trace
  guarded : Guarded Allowed s.arc.trace

section Accounted

variable {s s' : Session}

theorem Accounted.cleanup_notMem (hs : s.Accounted) (hl : s.arc.handle = .live) :
    .cleanup ∉ s.arc.trace := by
  have h := hs.cleanup
  rw [if_pos hl] at h
  exact List.count_eq_zero.mp h

/-- An owner inside a call is an owner. -/
theorem holders_pos_of_inCall {c : FfiCall} (h : s.inCall c = true) : 0 < s.holders := by
  cases c with
  | negotiate =>
    have hn : s.negotiator = .calling := by simpa [inCall] using h
    simp [holders, hn, Negotiator.holds]
  | transmit =>
    cases hw : s.writer <;> simp [inCall, hw, Writer.isCalling] at h
    simp [holders, hw, Writer.holds]
  | receive =>
    have hr : s.reader = .calling := by simpa [inCall] using h
    simp [holders, hr, Reader.holds]

theorem inCall_of_holders_eq_zero (h : s.holders = 0) (c : FfiCall) : s.inCall c = false := by
  by_contra hc
  have hpos := holders_pos_of_inCall (Bool.of_not_eq_false hc)
  omega

theorem Accounted.live_of_pos (hs : s.Accounted) (h : 0 < s.holders) : s.arc.handle = .live :=
  hs.live.mpr (hs.strong ▸ h)

/-- The state that the last owner leaves behind. -/
theorem accounted_of_last (tr : List SessionEvent) (hstrong : s.arc.strong = 0)
    (hhandle : s.arc.handle = .cleaning) (htr : s.arc.trace = tr ++ [.cleanup])
    (hzero : s.holders = 0) (hnot : .cleanup ∉ tr)
    (hcalls : ∀ c, tr.count (.call c) = tr.countP (isRet c)) (hg : Guarded Allowed tr) :
    s.Accounted := by
  constructor
  · rw [hstrong, hzero]
  · simp [hhandle, hstrong]
  · simp [hhandle, htr, List.count_eq_zero.mpr hnot]
  · intro c
    rw [htr, inCall_of_holders_eq_zero hzero c]
    simp [hcalls c, isRet]
  · simp [hhandle]
  · simp [hhandle]
  · rw [htr, guarded_concat]
    refine ⟨hg, hnot, fun c => ?_⟩
    rw [InProgress, hcalls c]
    exact lt_irrefl _

theorem accounted_release (hs : s.Accounted) (ha : s'.arc = s.arc.release)
    (hh : s'.holders + 1 = s.holders) (hc : s'.inCall = s.inCall) : s'.Accounted := by
  have hpos : 0 < s.holders := by omega
  have hlive := hs.live_of_pos hpos
  have hstrong := hs.strong
  by_cases hone : s.arc.strong = 1
  · rw [SessionArc.release, if_pos hone] at ha
    have hzero : s'.holders = 0 := by omega
    have hout : ∀ c, s.inCall c = false := hc ▸ inCall_of_holders_eq_zero hzero
    exact accounted_of_last s.arc.trace (by simp [ha]) (by simp [ha]) (by simp [ha]) hzero
      (hs.cleanup_notMem hlive) (fun c => by simpa [hout c] using hs.calls c) hs.guarded
  · rw [SessionArc.release, if_neg hone] at ha
    have hcleanup := hs.cleanup
    have hclosed := hs.closed
    constructor
    · simp only [ha]
      omega
    · simp only [ha, hlive, true_iff]
      omega
    · simpa [ha] using hcleanup
    · simpa [ha, hc] using hs.calls
    · simpa [ha] using hclosed
    · simpa [ha] using hs.cleaned
    · simpa [ha] using hs.guarded

/-- A call on the handle that is made, or returns, while the handle is alive. -/
theorem accounted_emit {ev : SessionEvent} (hs : s.Accounted) (hlive : s.arc.handle = .live)
    (ha : s'.arc = s.arc.emit ev) (hh : s'.holders = s.holders) (hcl : ev ≠ .cleanup)
    (hsock : ev ≠ .socketClosed) (hcalls : ∀ c, (s.arc.trace ++ [ev]).count (.call c) =
      (s.arc.trace ++ [ev]).countP (isRet c) + (s'.inCall c).toNat)
    (hok : Allowed s.arc.trace ev) : s'.Accounted := by
  have hcleanup := hs.cleanup
  constructor
  · simp [ha, hh, hs.strong]
  · simpa [ha] using hs.live
  · simpa [ha, hcl] using hcleanup
  · rw [ha]
    exact hcalls
  · simpa [ha, hsock.symm] using hs.closed
  · simp [ha, hlive]
  · rw [ha, SessionArc.emit_trace, guarded_concat]
    exact ⟨hs.guarded, hok⟩

theorem accounted_effect (hs : s.Accounted) (h : Effect s s') : s'.Accounted := by
  cases h with
  | idle ha hh hc =>
    exact ⟨by rw [ha, hh, hs.strong], ha ▸ hs.live, ha ▸ hs.cleanup,
      by simpa [ha, hc] using hs.calls, ha ▸ hs.closed, ha ▸ hs.cleaned, ha ▸ hs.guarded⟩
  | share ha hh hpos hc =>
    have hlive := hs.live_of_pos hpos
    exact ⟨by rw [ha, hh, ← hs.strong]; rfl, by simp [ha, SessionArc.clone, hlive],
      by rw [ha]; exact hs.cleanup, by rw [ha, hc]; exact hs.calls, by rw [ha]; exact hs.closed,
      by rw [ha]; exact hs.cleaned, by rw [ha]; exact hs.guarded⟩
  | call c ha hh hc hpos hout hok =>
    have hlive := hs.live_of_pos hpos
    refine accounted_emit hs hlive ha hh (by simp) (by simp) (fun d => ?_)
      ⟨hs.cleanup_notMem hlive, fun hcl => hs.closed hcl hlive, hok⟩
    have hd := hs.calls d
    rw [hc]
    by_cases heq : d = c
    · subst heq
      simp [isRet, hout] at hd ⊢
      omega
    · simpa [isRet, Ne.symm heq, heq] using hd
  | ret c ok ha hh hc hin =>
    have hlive := hs.live_of_pos (holders_pos_of_inCall hin)
    have hcalls := hs.calls c
    rw [hin, Bool.toNat_true] at hcalls
    have hprogress : InProgress c s.arc.trace := by
      rw [InProgress]
      omega
    refine accounted_emit hs hlive ha hh (by simp) (by simp) (fun d => ?_) hprogress
    have hd := hs.calls d
    rw [hc]
    by_cases heq : d = c
    · subst heq
      simp [isRet, hin] at hd ⊢
      omega
    · simpa [isRet, Ne.symm heq, heq] using hd
  | release ha hh hc => exact accounted_release hs ha hh hc
  | abandon ha hh hc hnew hone =>
    have hlive := hs.live_of_pos (by omega)
    have hstrong : s.arc.closeSocket.strong = 1 := hs.strong.trans hone
    rw [SessionArc.release, if_pos hstrong] at ha
    have hzero : s'.holders = 0 := by omega
    have hout : ∀ c, s.inCall c = false := hc ▸ inCall_of_holders_eq_zero hzero
    refine accounted_of_last (s.arc.trace ++ [.socketClosed]) (by simp [ha]) (by simp [ha])
      (by simp [ha]) hzero ?_ ?_ ?_
    · simpa using hs.cleanup_notMem hlive
    · intro c
      simpa [isRet, hout c] using hs.calls c
    · exact guarded_concat.mpr ⟨hs.guarded, fun hcall => absurd hcall hnew⟩
  | cleanupRet ha hh hc hcl =>
    have hcleanup := hs.cleanup
    rw [if_neg (by simp [hcl])] at hcleanup
    have hmem : .cleanup ∈ s.arc.trace := List.count_pos_iff.mp (by omega)
    have hnot : ¬ 0 < s.arc.strong := by simp [← hs.live, hcl]
    constructor
    · simp [ha, hh, hs.strong]
    · simpa [ha] using hnot
    · simpa [ha] using hcleanup
    · simpa [ha, hc, isRet] using hs.calls
    · simp [ha]
    · simp [ha]
    · rw [ha, guarded_concat]
      exact ⟨hs.guarded, hmem⟩
  | close ha hh hc hcl =>
    have hcleanup := hs.cleanup
    constructor
    · simp [ha, hh, hs.strong]
    · simpa [ha] using hs.live
    · simpa [ha] using hcleanup
    · simpa [ha, hc, isRet] using hs.calls
    · simp [ha, hcl]
    · simpa [ha] using hs.cleaned
    · rw [ha, SessionArc.closeSocket_trace, guarded_concat]
      exact ⟨hs.guarded, fun _ => hs.cleaned hcl⟩

theorem new_accounted : new.Accounted where
  strong := rfl
  live := by decide
  cleanup := rfl
  calls c := by cases c <;> rfl
  closed h := by simp [new, SessionArc.new] at h
  cleaned h := by simp [new, SessionArc.new] at h
  guarded := guarded_nil

end Accounted

theorem accounted_of_run {as : List SessionAct} {s : Session} (hrun : run step new as = some s) :
    s.Accounted := by
  have hboth : s.Coherent ∧ s.Accounted :=
    Run.invariant (I := fun s => s.Coherent ∧ s.Accounted)
      (fun _ _ _ hs hstep => ⟨coherent_step hs.1 hstep,
        accounted_effect hs.2 (effect_of_step hs.1 hstep)⟩) ⟨new_coherent, new_accounted⟩ hrun
  exact hboth.2

/-- The calls on the handle and the end of the socket follow the protocol, and the handle
has been cleaned up once if nobody holds the session any more and not at all before. -/
theorem call_protocol {as : List SessionAct} {s : Session} (hrun : run step new as = some s) :
    Guarded Allowed s.arc.trace ∧
      s.arc.trace.count .cleanup = if 0 < s.holders then 0 else 1 := by
  have hs := accounted_of_run hrun
  refine ⟨hs.guarded, ?_⟩
  rw [hs.cleanup, ← hs.strong]
  exact if_congr hs.live rfl rfl

/-- The future is dropped while the closure negotiates: the closure is the last owner. -/
def cancelledRun : List SessionAct :=
  [.caller (.intoStd true), .caller (.setNonblocking true), .caller .spawn, .negotiator .call,
    .caller .drop, .negotiator (.ret true), .negotiator .drop, .cleanupRet, .closeSocket]

theorem cancelledRun_protocol : ∃ s, run step new cancelledRun = some s ∧
    (Guarded Allowed s.arc.trace ∧
      s.arc.trace.count .cleanup = if 0 < s.holders then 0 else 1) ∧
    s.arc.trace = [.call .negotiate, .ret .negotiate true, .cleanup, .cleanupRet, .socketClosed] := by
  obtain ⟨s, hs, htr⟩ := Run.exists_of_any step new cancelledRun (fun s => s.arc.trace =
    [.call .negotiate, .ret .negotiate true, .cleanup, .cleanupRet, .socketClosed]) (by decide)
  exact ⟨s, hs, call_protocol hs, htr⟩

end Session

end EnclaveNetworkGateway
