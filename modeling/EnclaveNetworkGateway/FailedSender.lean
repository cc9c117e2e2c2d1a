import EnclaveNetworkGateway.Transfer

/-!
# Writes after a failed transmit

A writer task that leaves its loop after an error drops its half of the inner
stream. The pipe it read from is closed only with the other half, which the
reader task holds, so the application keeps writing into a pipe that nobody
drains until the reader task ends as well.
-/
namespace EnclaveNetworkGateway

open Bridge

/-- Every write of at least one byte fails. -/
def Bridge.Endpoint.RefusesWrites (e : Endpoint) : Prop :=
  ∀ offer, offer ≠ [] → e.out.pollWrite offer = .ready none

theorem Bridge.Endpoint.refusesWrites_iff {e : Endpoint} :
    e.RefusesWrites ↔ e.out.isClosed = true := by
  constructor
  · intro h
    exact DuplexPipe.pollWrite_eq_broken.mp (h [0] (by simp))
  · intro h offer _
    exact DuplexPipe.pollWrite_eq_broken.mpr h

namespace Transfer

theorem wf_of_run {cap : ℕ} {h : 0 < cap} {as : List Act} {t : Transfer}
    (hrun : run step (new cap h) as = some t) : t.bridge.Wf := by
  obtain ⟨p, _, hsim⟩ := run_simulates hrun
  exact hsim.wf

/-- Once the writer task has ended on a failed transmit, a stream that its
application holds refuses writes exactly when the reader task has ended too or the
application has shut the stream down itself. -/
theorem refusesWrites_of_failed_iff {cap : ℕ} {h : 0 < cap} {as : List Act} {t : Transfer}
    {s : Side} (hrun : run step (new cap h) as = some t)
    (hw : (t.bridge.ends.get s).writer = .ended true)
    (happ : (t.bridge.ends.get s).app ≠ .dropped) :
    (t.bridge.ends.get s).RefusesWrites ↔
      (t.bridge.ends.get s).reader.hasEnded = true ∨ (t.bridge.ends.get s).app = .shut := by
  rw [Endpoint.refusesWrites_iff, (wf_of_run hrun s).out_closed]
  have hclosed : (t.bridge.ends.get s).socketClosed = (t.bridge.ends.get s).reader.hasEnded := by
    simp [Endpoint.socketClosed, hw, WriterTask.hasEnded]
  rw [hclosed]
  cases ha : (t.bridge.ends.get s).app with
  | live => simp
  | shut => simp
  | dropped => exact absurd ha happ

/-- The transmit of one byte fails and the writer task ends. -/
def failedRun : List Act :=
  [.poll .left (.write [1] 1), .writer .left .read, .writer .left .transmitErr,
    .writer .left .shutdown, .writer .left .drop]

/-- The reader task ends as well. -/
def failedEndRun : List Act :=
  failedRun ++ [.reader .left .receiveErr, .reader .left .shutdown, .reader .left .drop]

theorem failedEndRun_refuses : ∃ t, run step (new 1 Nat.one_pos) failedEndRun = some t ∧
    ((t.bridge.ends.get .left).RefusesWrites ↔
      (t.bridge.ends.get .left).reader.hasEnded = true ∨
        (t.bridge.ends.get .left).app = .shut) := by
  obtain ⟨t, ht, hw, happ⟩ := Run.exists_of_any step (new 1 Nat.one_pos) failedEndRun
    (fun t => (t.bridge.ends.get .left).writer = .ended true ∧
      (t.bridge.ends.get .left).app ≠ .dropped) (by decide +kernel)
  exact ⟨t, ht, refusesWrites_of_failed_iff ht hw happ⟩

/-- After `failedRun` the next byte is accepted, although nobody will send it. -/
theorem failedRun_accepts : ¬ ∀ (cap : ℕ) (h : 0 < cap) (as : List Act) (t : Transfer) (s : Side),
    run step (new cap h) as = some t → (t.bridge.ends.get s).writer = .ended true →
    (t.bridge.ends.get s).app ≠ .dropped → (t.bridge.ends.get s).RefusesWrites := by
  intro hall
  obtain ⟨t, ht, hw, happ, hopen⟩ := Run.exists_of_any step (new 1 Nat.one_pos) failedRun
    (fun t => (t.bridge.ends.get .left).writer = .ended true ∧
      (t.bridge.ends.get .left).app ≠ .dropped ∧
      (t.bridge.ends.get .left).out.isClosed = false) (by decide +kernel)
  have hrefuses := hall 1 Nat.one_pos failedRun t .left ht hw happ
  rw [Endpoint.refusesWrites_iff, hopen] at hrefuses
  simp at hrefuses

end Transfer

end EnclaveNetworkGateway
