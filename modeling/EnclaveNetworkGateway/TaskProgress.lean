import EnclaveNetworkGateway.BridgeSession
import EnclaveNetworkGateway.Schedule
import Mathlib.Data.Nat.Count

/-!
# Progress of the two tasks

What the stream and the library report decides how far the writer and the reader task
get. Neither loop looks for a result of zero bytes, so both depend on the library to
report progress or an error.
-/
namespace EnclaveNetworkGateway

namespace Session

/-- All that is reported to the two tasks, in the order of the calls: the results of `read`,
of `transmit` for the number of bytes it is offered, of `receive`, and whether the
`write_all` of what a `receive` delivered works. -/
structure Feed where
  read : ℕ → Option (Fin (duplexSize + 1))
  transmit : ℕ → (offered : ℕ) → Option (Fin (offered + 1))
  receive : ℕ → Option (Fin (duplexSize + 1))
  writeAll : ℕ → Bool

/-- A session and how many results its tasks have had. -/
structure Fed where
  session : Session
  reads : ℕ
  transmits : ℕ
  receives : ℕ

namespace Fed

def step (x : Fed) (a : SessionAct) : Option Fed :=
  (x.session.step a).map fun s =>
    match a with
    | .writer (.read _) => { x with session := s, reads := x.reads + 1 }
    | .writer (.ret _) => { x with session := s, transmits := x.transmits + 1 }
    | .reader (.ret _) => { x with session := s, receives := x.receives + 1 }
    | _ => { x with session := s }

theorem session_step {x y : Fed} {a : SessionAct} (h : x.step a = some y) :
    x.session.step a = some y.session := by
  obtain ⟨s, hs, rfl⟩ := Option.map_eq_some_iff.mp h
  rw [hs]
  split <;> rfl

theorem transmits_le_step {x y : Fed} {a : SessionAct} (h : x.step a = some y) :
    x.transmits ≤ y.transmits := by
  obtain ⟨s, _, rfl⟩ := Option.map_eq_some_iff.mp h
  split <;> simp

/-- The future has returned and both tasks have started. -/
def start : Fed := ⟨(run Session.step .new establishing).getD .new, 0, 0, 0⟩

theorem start_writer : start.session.writer = .reading := by decide

theorem start_reader : start.session.reader = .looping := by decide

theorem start_receives : start.receives = 0 := rfl

end Fed

namespace Feed

/-- What the writer task does next. -/
def writerAct (f : Feed) (x : Fed) : Option SessionAct :=
  match x.session.writer with
  | .queued => some (.writer .start)
  | .reading => some (.writer (.read ((f.read x.reads).map Fin.val)))
  | .looping off len => some (.writer (if off < len then .call else .next))
  | .calling off len => some (.writer (.ret ((f.transmit x.transmits (len - off)).map Fin.val)))
  | .leaving => some (.writer .shutdown)
  | .left | .unwinding => some (.writer .drop)
  | .unspawned | .ended => none

/-- What the reader task does next. A `write_all` of no bytes does nothing. -/
def readerAct (f : Feed) (x : Fed) : Option SessionAct :=
  match x.session.reader with
  | .queued => some (.reader .start)
  | .looping => some (.reader .call)
  | .calling => some (.reader (.ret ((f.receive x.receives).map Fin.val)))
  | .writing => some (.reader (.write
      (f.receive (x.receives - 1) = some 0 || f.writeAll (x.receives - 1))))
  | .leaving => some (.reader .shutdown)
  | .left | .unwinding => some (.reader .drop)
  | .unspawned | .ended => none

/-- The state after `n` steps of the writer task. -/
def writerAfter (f : Feed) (n : ℕ) : Fed := after Fed.step f.writerAct .start n

/-- The state after `n` steps of the reader task. -/
def readerAfter (f : Feed) (n : ℕ) : Fed := after Fed.step f.readerAct .start n

theorem writerAfter_succ (f : Feed) (n : ℕ) :
    f.writerAfter (n + 1) = advance Fed.step f.writerAct (f.writerAfter n) := Schedule.after_succ n

theorem writerAfter_add (f : Feed) (m n : ℕ) :
    f.writerAfter (m + n) = after Fed.step f.writerAct (f.writerAfter m) n := Schedule.after_add m n

theorem readerAfter_succ (f : Feed) (n : ℕ) :
    f.readerAfter (n + 1) = advance Fed.step f.readerAct (f.readerAfter n) := Schedule.after_succ n

/-! ## One step of the writer task -/

section Writer

variable {f : Feed} {x : Fed} {off len : ℕ}

/-- A read leads out of the loops or into the inner one, at the front of its bytes. -/
theorem advance_reading (h : x.session.writer = .reading) :
    let y := advance Fed.step f.writerAct x
    (y.session.writer = .leaving ∨ ∃ len, len ≤ duplexSize ∧
      y.session.writer = .looping 0 len) ∧ y.transmits = x.transmits := by
  cases hr : f.read x.reads with
  | none => simp [advance, writerAct, h, hr, Fed.step, Session.step, writerStep]
  | some r =>
    have hle : r.val ≤ duplexSize := Nat.le_of_lt_succ r.isLt
    by_cases hzero : r.val = 0
    · simp [advance, writerAct, h, hr, Fed.step, Session.step, writerStep, hzero]
    · simp [advance, writerAct, h, hr, Fed.step, Session.step, writerStep, hzero, hle]

theorem advance_looping (h : x.session.writer = .looping off len) :
    let y := advance Fed.step f.writerAct x
    y.session.writer = (if off < len then .calling off len else .reading) ∧
      y.transmits = x.transmits := by
  by_cases hlt : off < len <;>
    simp [advance, writerAct, h, hlt, Fed.step, Session.step, writerStep]

/-- The answer to a transmit moves the task on by the bytes accepted. -/
theorem advance_calling (h : x.session.writer = .calling off len) (hlt : off < len)
    (hle : len ≤ duplexSize) :
    let y := advance Fed.step f.writerAct x
    y.session.writer = (match f.transmit x.transmits (len - off) with
      | some w => .looping (off + w.val) len
      | none => .leaving) ∧ y.transmits = x.transmits + 1 := by
  cases hw : f.transmit x.transmits (len - off) with
  | none => simp [advance, writerAct, h, hw, Fed.step, Session.step, writerStep]
  | some w =>
    have hbound : w.val ≤ len - off := Nat.le_of_lt_succ w.isLt
    have hmax : duplexSize < usizeSize := by decide
    have husize : off + w.val < usizeSize := by omega
    simp [advance, writerAct, h, hw, Fed.step, Session.step, writerStep, husize]

/-- The task has left its loops. -/
def Outside (x : Fed) : Prop :=
  x.session.writer = .leaving ∨ x.session.writer = .left ∨ x.session.writer = .ended

/-- It does not come back. -/
theorem advance_outside (h : Outside x) : Outside (advance Fed.step f.writerAct x) := by
  rcases h with h | h | h <;>
    simp [Outside, advance, writerAct, h, Fed.step, Session.step, writerStep]

/-- Where the writer task can be, with `w_off` within the bytes it has read. -/
def InRange (x : Fed) : Prop :=
  match x.session.writer with
  | .looping off len => off ≤ len ∧ len ≤ duplexSize
  | .calling off len => off < len ∧ len ≤ duplexSize
  | .reading | .leaving | .left | .ended => True
  | .unspawned | .queued | .unwinding => False

theorem advance_inRange (hx : InRange x) : InRange (advance Fed.step f.writerAct x) := by
  cases hw : x.session.writer with
  | reading =>
    obtain ⟨hy | ⟨len, hle, hy⟩, _⟩ := advance_reading (f := f) hw
    · simp [InRange, hy]
    · simp [InRange, hy, hle]
  | looping off len =>
    simp only [InRange, hw] at hx
    have hy := (advance_looping (f := f) hw).1
    by_cases hlt : off < len
    · rw [if_pos hlt] at hy
      simp [InRange, hy, hlt, hx.2]
    · rw [if_neg hlt] at hy
      simp [InRange, hy]
  | calling off len =>
    simp only [InRange, hw] at hx
    have hy := (advance_calling (f := f) hw hx.1 hx.2).1
    cases hans : f.transmit x.transmits (len - off) with
    | none =>
      rw [hans] at hy
      simp [InRange, hy]
    | some w =>
      have hbound : w.val ≤ len - off := Nat.le_of_lt_succ w.isLt
      rw [hans] at hy
      simp only [InRange, hy]
      omega
  | leaving | left | ended =>
    rcases advance_outside (f := f) (x := x) (by simp [Outside, hw]) with hy | hy | hy <;>
      simp [InRange, hy]
  | unspawned | queued | unwinding => simp [InRange, hw] at hx

theorem writerAfter_inRange (f : Feed) (n : ℕ) : InRange (f.writerAfter n) :=
  Schedule.invariant (I := InRange) (fun _ hx => advance_inRange hx)
    (by simp [InRange, Fed.start_writer]) n

/-- As long as the answers are zero the task makes the same call again. -/
theorem exists_calling {j : ℕ} (h : x.session.writer = .calling off len) (hlt : off < len)
    (hle : len ≤ duplexSize) (hj : x.transmits ≤ j)
    (hzero : ∀ i, x.transmits ≤ i → i < j → f.transmit i (len - off) = some 0) :
    ∃ n, (after Fed.step f.writerAct x n).session.writer = .calling off len ∧
      (after Fed.step f.writerAct x n).transmits = j := by
  obtain ⟨d, rfl⟩ := Nat.exists_eq_add_of_le hj
  induction d with
  | zero => exact ⟨0, h, rfl⟩
  | succ d ih =>
    obtain ⟨n, hn, hcount⟩ := ih (Nat.le_add_right _ _) fun i hi hid => hzero i hi (by omega)
    obtain ⟨hy, hycount⟩ := advance_calling (f := f) hn hlt hle
    rw [hcount, hzero _ (Nat.le_add_right _ _) (by omega)] at hy
    obtain ⟨hz, hzcount⟩ := advance_looping (f := f) hy
    refine ⟨n + 1 + 1, ?_, ?_⟩
    · rw [Schedule.after_succ, Schedule.after_succ]
      simpa [hlt] using hz
    · rw [Schedule.after_succ, Schedule.after_succ, hzcount, hycount, hcount]
      rfl

/-- The task gets to the first answer other than zero, if there is one. -/
theorem exists_firstAnswer (h : x.session.writer = .calling off len) (hlt : off < len)
    (hle : len ≤ duplexSize) (hans : ∃ j, x.transmits ≤ j ∧ f.transmit j (len - off) ≠ some 0) :
    ∃ n j, (after Fed.step f.writerAct x n).session.writer = .calling off len ∧
      (after Fed.step f.writerAct x n).transmits = j ∧ f.transmit j (len - off) ≠ some 0 := by
  classical
  obtain ⟨hj, hne⟩ := Nat.find_spec hans
  have hmin : ∀ i, x.transmits ≤ i → i < Nat.find hans → f.transmit i (len - off) = some 0 :=
    fun i hi hlt => by simpa [hi] using Nat.find_min hans hlt
  obtain ⟨n, hn, hcount⟩ := exists_calling h hlt hle hj hmin
  exact ⟨n, _, hn, hcount, hne⟩

/-- That answer takes it on. -/
theorem exists_answered (h : x.session.writer = .calling off len) (hlt : off < len)
    (hle : len ≤ duplexSize) (hans : ∃ j, x.transmits ≤ j ∧ f.transmit j (len - off) ≠ some 0) :
    ∃ n, (after Fed.step f.writerAct x n).session.writer = .leaving ∨
      ∃ off', off < off' ∧ off' ≤ len ∧
        (after Fed.step f.writerAct x n).session.writer = .looping off' len := by
  obtain ⟨n, j, hn, hcount, hne⟩ := exists_firstAnswer h hlt hle hans
  have hy := (advance_calling (f := f) hn hlt hle).1
  rw [hcount] at hy
  refine ⟨n + 1, ?_⟩
  rw [Schedule.after_succ, hy]
  cases hw : f.transmit j (len - off) with
  | none => exact .inl rfl
  | some w =>
    have hbound : w.val ≤ len - off := Nat.le_of_lt_succ w.isLt
    have hpos : 0 < w.val := by
      by_contra hzero
      exact hne (hw.trans (congrArg some (Fin.ext (by simpa using hzero))))
    exact .inr ⟨off + w.val, by omega, by omega, rfl⟩

/-- From here on each offer of the task is answered sooner or later, by an error or by
accepting a byte. -/
def Answers (f : Feed) (x : Fed) : Prop :=
  ∀ n off len, (after Fed.step f.writerAct x n).session.writer = .calling off len →
    ∃ j, (after Fed.step f.writerAct x n).transmits ≤ j ∧ f.transmit j (len - off) ≠ some 0

theorem Answers.later (h : f.Answers x) (m : ℕ) :
    f.Answers (after Fed.step f.writerAct x m) := by
  intro n off len hn
  rw [← Schedule.after_add] at hn ⊢
  exact h (m + n) off len hn

/-- The task is in its inner loop. -/
def InnerLoop (x : Fed) : Prop :=
  ∃ off len, x.session.writer = .looping off len ∨ x.session.writer = .calling off len

/-- The inner loop is over: everything is transmitted, or the task leaves. -/
def InnerDone (x : Fed) : Prop :=
  (∃ len, x.session.writer = .looping len len) ∨ x.session.writer = .leaving

theorem not_innerDone (hlt : off < len)
    (h : x.session.writer = .looping off len ∨ x.session.writer = .calling off len) :
    ¬ InnerDone x := by
  rintro (⟨len', hdone⟩ | hdone)
  · rw [hdone] at h
    simp only [Writer.looping.injEq, reduceCtorEq, or_false] at h
    omega
  · simp [hdone] at h

/-- The steps of the inner loop, if every call accepts one byte. -/
def innerWork (x : Fed) : ℕ :=
  match x.session.writer with
  | .looping off len => 2 * (len - off) + 1
  | .calling off len => 2 * (len - off)
  | _ => 0

theorem exists_innerDone (hloop : InnerLoop x) (hrange : InRange x) (hans : f.Answers x) :
    ∃ n, InnerDone (after Fed.step f.writerAct x n) := by
  refine Schedule.reaches_of_measure (I := fun x => InnerLoop x ∧ InRange x ∧ f.Answers x)
    innerWork ?_ ⟨hloop, hrange, hans⟩
  rintro x ⟨⟨off, len, hw | hw⟩, hrange, hans⟩
  · have hrange' := hrange
    simp only [InRange, hw] at hrange'
    by_cases hlt : off < len
    · have hy := (advance_looping (f := f) hw).1
      rw [if_pos hlt] at hy
      refine ⟨1, .inr ⟨⟨⟨off, len, .inr hy⟩, advance_inRange hrange, hans.later 1⟩, ?_⟩⟩
      simp only [innerWork, Schedule.after_succ, Schedule.after_zero, hy, hw]
      omega
    · obtain rfl : off = len := by omega
      exact ⟨0, .inl (.inl ⟨off, hw⟩)⟩
  · have hrange' := hrange
    simp only [InRange, hw] at hrange'
    obtain ⟨n, hn | ⟨off', hoff, hle, hn⟩⟩ :=
      exists_answered hw hrange'.1 hrange'.2 (hans 0 off len hw)
    · exact ⟨n, .inl (.inr hn)⟩
    · refine ⟨n, .inr ⟨⟨⟨off', len, .inl hn⟩, ?_, hans.later n⟩, ?_⟩⟩
      · exact Schedule.invariant (I := InRange) (fun _ => advance_inRange) hrange n
      · simp only [innerWork, hn, hw]
        omega

/-- Without an answer the inner loop goes on for ever. -/
theorem inner_forever (h : x.session.writer = .calling off len) (hlt : off < len)
    (hle : len ≤ duplexSize) (hzero : ∀ i, x.transmits ≤ i → f.transmit i (len - off) = some 0)
    (n : ℕ) : (after Fed.step f.writerAct x n).session.writer = .looping off len ∨
      (after Fed.step f.writerAct x n).session.writer = .calling off len := by
  have hkeep : x.transmits ≤ (after Fed.step f.writerAct x n).transmits ∧
      ((after Fed.step f.writerAct x n).session.writer = .looping off len ∨
        (after Fed.step f.writerAct x n).session.writer = .calling off len) := by
    refine Schedule.invariant (I := fun y : Fed => x.transmits ≤ y.transmits ∧
      (y.session.writer = .looping off len ∨ y.session.writer = .calling off len)) ?_
      ⟨le_rfl, .inr h⟩ n
    rintro y ⟨hcount, hy | hy⟩
    · obtain ⟨hz, hzcount⟩ := advance_looping (f := f) hy
      rw [if_pos hlt] at hz
      exact ⟨hzcount ▸ hcount, .inr hz⟩
    · obtain ⟨hz, hzcount⟩ := advance_calling (f := f) hy hlt hle
      rw [hzero _ hcount] at hz
      exact ⟨by omega, .inl (by simpa using hz)⟩
  exact hkeep.2

/-! ## Calls of the writer task -/

theorem transmits_le_advance (x : Fed) :
    x.transmits ≤ (advance Fed.step f.writerAct x).transmits := by
  rcases Schedule.advance_cases Fed.step f.writerAct x with hx | ⟨a, _, hx⟩
  · rw [hx]
  · exact Fed.transmits_le_step hx

/-- Each call of `transmit` is made once. -/
theorem calling_unique {n n' off' len' : ℕ}
    (h : (f.writerAfter n).session.writer = .calling off len)
    (h' : (f.writerAfter n').session.writer = .calling off' len')
    (heq : (f.writerAfter n).transmits = (f.writerAfter n').transmits) : n = n' := by
  have hlt : ∀ {m m' o l}, m < m' → (f.writerAfter m).session.writer = .calling o l →
      (f.writerAfter m).transmits < (f.writerAfter m').transmits := by
    intro m m' o l hm hcall
    have hrange := f.writerAfter_inRange m
    simp only [InRange, hcall] at hrange
    have hnext := (advance_calling (f := f) hcall hrange.1 hrange.2).2
    have hmono : (f.writerAfter (m + 1)).transmits ≤ (f.writerAfter m').transmits :=
      Schedule.monotone transmits_le_advance hm
    rw [writerAfter_succ] at hmono
    omega
  rcases Nat.lt_trichotomy n n' with hn | hn | hn
  · have := hlt hn h
    omega
  · exact hn
  · have := hlt hn h'
    omega

/-- The task makes its `k`-th call of `transmit` and offers `m` bytes. -/
def TransmitMade (f : Feed) (k m : ℕ) : Prop :=
  ∃ n off len, (f.writerAfter n).session.writer = .calling off len ∧
    (f.writerAfter n).transmits = k ∧ m = len - off

/-- An error or no byte. -/
def MovesNothing {m : ℕ} (r : Option (Fin (m + 1))) : Prop := r = none ∨ r = some 0

/-- An error is the answer to the last call. -/
theorem transmits_le_of_error {n n' off' len' : ℕ}
    (h : (f.writerAfter n).session.writer = .calling off len)
    (herr : f.transmit (f.writerAfter n).transmits (len - off) = none)
    (h' : (f.writerAfter n').session.writer = .calling off' len') :
    (f.writerAfter n').transmits ≤ (f.writerAfter n).transmits := by
  by_contra hlt
  have hlater : n < n' := by
    by_contra hle
    have hmono : (f.writerAfter n').transmits ≤ (f.writerAfter n).transmits :=
      Schedule.monotone transmits_le_advance (by omega)
    omega
  have hrange := f.writerAfter_inRange n
  simp only [InRange, h] at hrange
  have hleft := (advance_calling (f := f) h hrange.1 hrange.2).1
  rw [herr, ← writerAfter_succ] at hleft
  obtain ⟨e, rfl⟩ := Nat.exists_eq_add_of_le hlater
  have hout : Outside (f.writerAfter (n + 1 + e)) := by
    rw [writerAfter_add]
    exact Schedule.invariant (I := Outside) (fun _ => advance_outside) (.inl hleft) e
  simp [Outside, h'] at hout

theorem transmits_of_answers (h : f.Answers .start) :
    ¬ ∃ k, ∀ j, k ≤ j → ∃ m, f.TransmitMade j m ∧ MovesNothing (f.transmit j m) := by
  rintro ⟨k, hall⟩
  obtain ⟨_, ⟨n, off, len, hn, hk, rfl⟩, _⟩ := hall k le_rfl
  have hrange := f.writerAfter_inRange n
  simp only [InRange, hn] at hrange
  -- the call `j` is the first one that is not answered with zero
  obtain ⟨d, j, hd, hj, hne⟩ := exists_firstAnswer hn hrange.1 hrange.2 (h n off len hn)
  rw [← writerAfter_add] at hd hj
  have hkj : k ≤ j := by
    rw [← hk, ← hj]
    exact Schedule.monotone transmits_le_advance (Nat.le_add_right n d)
  obtain ⟨_, ⟨n', off', len', hn', hj', rfl⟩, hnothing⟩ := hall j hkj
  obtain rfl : n + d = n' := calling_unique hd hn' (hj.trans hj'.symm)
  obtain ⟨rfl, rfl⟩ := Writer.calling.inj (hn'.symm.trans hd)
  have herr : f.transmit j (len' - off') = none := hnothing.resolve_right hne
  -- it is an error, so there is no call `j + 1`
  obtain ⟨_, ⟨n'', off'', len'', hn'', hj'', rfl⟩, _⟩ := hall (j + 1) (by omega)
  have hlast := transmits_le_of_error hd (hj ▸ herr) hn''
  omega

end Writer

/-! ## The reader task -/

section Reader

variable {f : Feed} {x : Fed} {k : ℕ}

/-- The task goes on after its `i`-th `receive`: nothing was received, or it was written. -/
def Passes (f : Feed) (i : ℕ) : Prop :=
  ∃ r, f.receive i = some r ∧ (r = 0 ∨ f.writeAll i = true)

theorem advance_readerLooping (h : x.session.reader = .looping) :
    let y := advance Fed.step f.readerAct x
    y.session.reader = .calling ∧ y.receives = x.receives := by
  simp [advance, readerAct, h, Fed.step, Session.step, readerStep]

theorem advance_readerCalling (h : x.session.reader = .calling) :
    let y := advance Fed.step f.readerAct x
    y.session.reader = (if (f.receive x.receives).isSome then .writing else .leaving) ∧
      y.receives = x.receives + 1 := by
  cases hr : f.receive x.receives with
  | none => simp [advance, readerAct, h, hr, Fed.step, Session.step, readerStep]
  | some r =>
    have hle : r.val ≤ duplexSize := Nat.le_of_lt_succ r.isLt
    simp [advance, readerAct, h, hr, Fed.step, Session.step, readerStep, hle]

theorem advance_readerWriting (h : x.session.reader = .writing) :
    let y := advance Fed.step f.readerAct x
    y.session.reader = (if f.receive (x.receives - 1) = some 0 ∨
      f.writeAll (x.receives - 1) = true then .looping else .leaving) ∧
      y.receives = x.receives := by
  simp [advance, readerAct, h, Fed.step, Session.step, readerStep]

/-- What the place of the task says about the results it has had. -/
def Read (f : Feed) (x : Fed) : Prop :=
  match x.session.reader with
  | .looping | .calling => ∀ i, i < x.receives → f.Passes i
  | .writing => ∃ k, x.receives = k + 1 ∧ (f.receive k).isSome = true ∧ ∀ i, i < k → f.Passes i
  | .leaving | .left | .ended => True
  | .unspawned | .queued | .unwinding => False

theorem advance_read (hx : f.Read x) : f.Read (advance Fed.step f.readerAct x) := by
  cases hr : x.session.reader with
  | looping =>
    simp only [Read, hr] at hx
    obtain ⟨hy, hcount⟩ := advance_readerLooping (f := f) hr
    simpa only [Read, hy, hcount] using hx
  | calling =>
    simp only [Read, hr] at hx
    obtain ⟨hy, hcount⟩ := advance_readerCalling (f := f) hr
    by_cases hsome : (f.receive x.receives).isSome = true
    · rw [if_pos hsome] at hy
      simp only [Read, hy]
      exact ⟨x.receives, hcount, hsome, hx⟩
    · rw [if_neg hsome] at hy
      simp [Read, hy]
  | writing =>
    simp only [Read, hr] at hx
    obtain ⟨k, hk, hsome, hpass⟩ := hx
    obtain ⟨hy, hcount⟩ := advance_readerWriting (f := f) hr
    rw [hk, Nat.add_sub_cancel] at hy
    split_ifs at hy with hgo
    · simp only [Read, hy, hcount, hk]
      intro i hi
      rcases Nat.lt_succ_iff_lt_or_eq.mp hi with hlt | rfl
      · exact hpass i hlt
      · obtain ⟨r, hr'⟩ := Option.isSome_iff_exists.mp hsome
        exact ⟨r, hr', hgo.imp_left fun hzero => Option.some.inj (hr'.symm.trans hzero)⟩
    · simp [Read, hy]
  | leaving | left | ended =>
    simp [Read, advance, readerAct, hr, Fed.step, Session.step, readerStep]
  | unspawned | queued | unwinding => simp [Read, hr] at hx

theorem readerAfter_read (f : Feed) (n : ℕ) : f.Read (f.readerAfter n) :=
  Schedule.invariant (I := f.Read) (fun _ hx => advance_read hx)
    (by simp [Read, Fed.start_reader, Fed.start_receives]) n

/-- The task comes back to its next `receive` as long as it goes on after each one. -/
theorem exists_readerLooping (h : ∀ i, i < k → f.Passes i) :
    ∃ n, (f.readerAfter n).session.reader = .looping ∧ (f.readerAfter n).receives = k := by
  induction k with
  | zero => exact ⟨0, Fed.start_reader, rfl⟩
  | succ k ih =>
    obtain ⟨n, hn, hcount⟩ := ih fun i hi => h i (by omega)
    obtain ⟨r, hr, hgo⟩ := h k (Nat.lt_succ_self k)
    obtain ⟨h₁, hcount₁⟩ := advance_readerLooping (f := f) hn
    obtain ⟨h₂, hcount₂⟩ := advance_readerCalling (f := f) h₁
    rw [hcount₁, hcount] at h₂ hcount₂
    rw [hr, Option.isSome_some, if_pos rfl] at h₂
    obtain ⟨h₃, hcount₃⟩ := advance_readerWriting (f := f) h₂
    rw [hcount₂, Nat.add_sub_cancel, hr, if_pos (by simpa using hgo)] at h₃
    rw [← readerAfter_succ, ← readerAfter_succ, ← readerAfter_succ] at h₃
    rw [← readerAfter_succ, ← readerAfter_succ] at hcount₂
    rw [← readerAfter_succ, ← readerAfter_succ, ← readerAfter_succ] at hcount₃
    exact ⟨n + 1 + 1 + 1, h₃, hcount₃.trans hcount₂⟩

/-- The task makes its `k`-th call of `receive`. -/
def ReceiveMade (f : Feed) (k : ℕ) : Prop :=
  ∃ n, (f.readerAfter n).session.reader = .calling ∧ (f.readerAfter n).receives = k

theorem receiveMade_iff : f.ReceiveMade k ↔ ∀ i, i < k → f.Passes i := by
  constructor
  · rintro ⟨n, hn, rfl⟩
    have hread := f.readerAfter_read n
    simpa only [Read, hn] using hread
  · intro h
    obtain ⟨n, hn, hcount⟩ := exists_readerLooping h
    obtain ⟨hy, hycount⟩ := advance_readerLooping (f := f) hn
    rw [← readerAfter_succ] at hy hycount
    exact ⟨n + 1, hy, hycount.trans hcount⟩

end Reader

/-! ## Both tasks

Each task goes the way it goes alone, whatever the other one does in between. -/

section Interleaved

variable {f : Feed} {x y : Fed}

/-- What the steps of the writer task depend on. -/
def writerView (x : Fed) : Writer × ℕ × ℕ := (x.session.writer, x.reads, x.transmits)

/-- What the steps of the reader task depend on. -/
def readerView (x : Fed) : Reader × ℕ := (x.session.reader, x.receives)

theorem writerView_advance (h : writerView x = writerView y) :
    writerView (advance Fed.step f.writerAct x) = writerView (advance Fed.step f.writerAct y) := by
  simp only [writerView, Prod.mk.injEq] at h
  obtain ⟨hw, hreads, htransmits⟩ := h
  cases hy : y.session.writer <;> rw [hy] at hw
  case reading =>
    cases hr : f.read y.reads with
    | none =>
      simp [writerView, advance, writerAct, hw, hy, hreads, hr, htransmits, Fed.step, Session.step,
        writerStep]
    | some r =>
      have hle : r.val ≤ duplexSize := Nat.le_of_lt_succ r.isLt
      by_cases hzero : r.val = 0 <;>
        simp [writerView, advance, writerAct, hw, hy, hreads, hr, htransmits, hzero, hle, Fed.step,
          Session.step, writerStep]
  case looping off len =>
    by_cases hlt : off < len <;>
      simp [writerView, advance, writerAct, hw, hy, hreads, htransmits, hlt, Fed.step,
        Session.step, writerStep]
  case calling off len =>
    cases hw' : f.transmit y.transmits (len - off) <;>
      simp [writerView, advance, writerAct, hw, hy, hreads, htransmits, hw', Fed.step,
        Session.step, writerStep]
  all_goals
    simp [writerView, advance, writerAct, hw, hy, hreads, htransmits, Fed.step, Session.step,
      writerStep]

theorem readerView_advance (h : readerView x = readerView y) :
    readerView (advance Fed.step f.readerAct x) = readerView (advance Fed.step f.readerAct y) := by
  simp only [readerView, Prod.mk.injEq] at h
  obtain ⟨hr, hreceives⟩ := h
  cases hy : y.session.reader <;> rw [hy] at hr
  case calling =>
    cases hr' : f.receive y.receives <;>
      simp [readerView, advance, readerAct, hr, hy, hreceives, hr', Fed.step, Session.step,
        readerStep]
  all_goals
    simp [readerView, advance, readerAct, hr, hy, hreceives, Fed.step, Session.step, readerStep]

theorem readerView_writer : readerView (advance Fed.step f.writerAct x) = readerView x := by
  rcases Schedule.advance_cases Fed.step f.writerAct x with hx | ⟨a, ha, hx⟩
  · rw [hx]
  · obtain ⟨ev, rfl⟩ : ∃ ev, a = .writer ev := by
      simp only [writerAct] at ha
      split at ha <;> simp only [Option.some.injEq, reduceCtorEq] at ha <;> exact ⟨_, ha.symm⟩
    obtain ⟨s, hs, hx⟩ := Option.map_eq_some_iff.mp hx
    have hframe := (writerStep_frame hs).2.2.1
    rw [← hx]
    split <;> simp_all [readerView]

theorem writerView_reader : writerView (advance Fed.step f.readerAct x) = writerView x := by
  rcases Schedule.advance_cases Fed.step f.readerAct x with hx | ⟨a, ha, hx⟩
  · rw [hx]
  · obtain ⟨ev, rfl⟩ : ∃ ev, a = .reader ev := by
      simp only [readerAct] at ha
      split at ha <;> simp only [Option.some.injEq, reduceCtorEq] at ha <;> exact ⟨_, ha.symm⟩
    obtain ⟨s, hs, hx⟩ := Option.map_eq_some_iff.mp hx
    have hframe := (readerStep_frame hs).2.2.1
    rw [← hx]
    split <;> simp_all [writerView]

/-- The state after `n` steps, where `turn` says which task takes each of them. -/
def interleaved (f : Feed) (turn : ℕ → Bool) : ℕ → Fed
  | 0 => .start
  | n + 1 => advance Fed.step (if turn n then f.writerAct else f.readerAct) (f.interleaved turn n)

theorem interleaved_views (f : Feed) (turn : ℕ → Bool) (n : ℕ) :
    writerView (f.interleaved turn n) = writerView (f.writerAfter (Nat.count (turn ·) n)) ∧
      readerView (f.interleaved turn n) = readerView (f.readerAfter (Nat.count (!turn ·) n)) := by
  induction n with
  | zero => exact ⟨rfl, rfl⟩
  | succ n ih =>
    obtain ⟨hwriter, hreader⟩ := ih
    rw [Nat.count_succ, Nat.count_succ, interleaved]
    by_cases hturn : turn n = true
    · simp only [hturn, if_true, Bool.not_true, Bool.false_eq_true, if_false, Nat.add_zero]
      rw [writerAfter_succ]
      exact ⟨writerView_advance hwriter, readerView_writer.trans hreader⟩
    · simp only [hturn, Bool.false_eq_true, if_false, Bool.not_false, if_true, Nat.add_zero]
      rw [readerAfter_succ]
      exact ⟨writerView_reader.trans hwriter, readerView_advance hreader⟩

theorem start_run : run Session.step .new establishing = some Fed.start.session := by decide

/-- Whatever the tasks do here they can do in a session. -/
theorem interleaved_reachable (f : Feed) (turn : ℕ → Bool) (n : ℕ) :
    ∃ as, run Session.step .new as = some (f.interleaved turn n).session := by
  induction n with
  | zero => exact ⟨establishing, start_run⟩
  | succ n ih =>
    obtain ⟨as, has⟩ := ih
    rcases Schedule.advance_cases Fed.step
      (if turn n then f.writerAct else f.readerAct) (f.interleaved turn n) with h | ⟨a, _, h⟩
    · exact ⟨as, by rw [interleaved, h]; exact has⟩
    · exact ⟨as ++ [a], Run.run_concat.mpr ⟨_, has, Fed.session_step h⟩⟩

end Interleaved

/-! ## Spinning -/

/-- The inner loop of the writer task ends, neither task makes an unbounded run of calls that
move no byte, and each task stops when it is told that there are no bytes. -/
structure NoSpin (f : Feed) : Prop where
  inner : ∀ n, InnerLoop (f.writerAfter n) → ∃ m, n ≤ m ∧ InnerDone (f.writerAfter m)
  transmits : ¬ ∃ k, ∀ j, k ≤ j → ∃ m, f.TransmitMade j m ∧ MovesNothing (f.transmit j m)
  receives : ¬ ∃ k, ∀ j, k ≤ j → f.ReceiveMade j ∧ MovesNothing (f.receive j)
  readEnd : ∀ n, (f.writerAfter n).session.writer = .reading →
    f.read (f.writerAfter n).reads = some 0 → (f.writerAfter (n + 1)).session.writer = .leaving
  receiveEnd : ∀ k, f.ReceiveMade k → f.receive k = some 0 → ¬ f.ReceiveMade (k + 1)

/-- The library makes progress: each offer of bytes is answered sooner or later by an error
or by accepting a byte, and `receive` reports no empty result before the reader task has
got an error of `receive` or of a write. -/
structure Progressing (f : Feed) : Prop where
  transmit : ∀ k m, f.TransmitMade k m → ∃ j, k ≤ j ∧ f.transmit j m ≠ some 0
  receive : ∀ k, f.receive k = some 0 →
    ∃ i, i < k ∧ (f.receive i = none ∨ f.receive i ≠ some 0 ∧ f.writeAll i = false)

section Spinning

variable {f : Feed} {k m : ℕ}

/-- The inner loop does not end while an offer is answered with zero. -/
theorem NoSpin.exists_answer (h : f.NoSpin) (hmade : f.TransmitMade k m) :
    ∃ j, k ≤ j ∧ f.transmit j m ≠ some 0 := by
  obtain ⟨n, off, len, hn, rfl, rfl⟩ := hmade
  by_contra hans
  push Not at hans
  have hrange := f.writerAfter_inRange n
  simp only [InRange, hn] at hrange
  obtain ⟨m, hm, hdone⟩ := h.inner n ⟨off, len, .inr hn⟩
  obtain ⟨d, rfl⟩ := Nat.exists_eq_add_of_le hm
  have hforever := inner_forever hn hrange.1 hrange.2 hans d
  rw [← writerAfter_add] at hforever
  exact not_innerDone hrange.1 hforever hdone

/-- A task that gets an empty result has had no error, and would go on. -/
theorem NoSpin.exists_stop (h : f.NoSpin) (hzero : f.receive k = some 0) :
    ∃ i, i < k ∧ (f.receive i = none ∨ f.receive i ≠ some 0 ∧ f.writeAll i = false) := by
  by_contra hall
  push Not at hall
  have hpass : ∀ i, i < k → f.Passes i := by
    intro i hi
    obtain ⟨hsome, hwrite⟩ := hall i hi
    obtain ⟨r, hr⟩ := Option.ne_none_iff_exists'.mp hsome
    refine ⟨r, hr, ?_⟩
    by_cases hr0 : r = 0
    · exact .inl hr0
    · exact .inr (by simpa using hwrite (by simp [hr, hr0]))
  refine h.receiveEnd k (receiveMade_iff.mpr hpass) hzero (receiveMade_iff.mpr fun i hi => ?_)
  rcases Nat.lt_succ_iff_lt_or_eq.mp hi with hlt | rfl
  · exact hpass i hlt
  · exact ⟨0, hzero, .inl rfl⟩

theorem Progressing.answers (h : f.Progressing) : f.Answers .start :=
  fun n off len hn => h.transmit _ _ ⟨n, off, len, hn, rfl, rfl⟩

theorem Progressing.receive_ne (h : f.Progressing) (hk : f.ReceiveMade k) :
    f.receive k ≠ some 0 := by
  intro hzero
  obtain ⟨i, hi, hstop⟩ := h.receive k hzero
  obtain ⟨r, hr, hgo⟩ := receiveMade_iff.mp hk i hi
  rcases hstop with hnone | ⟨hne, hwrite⟩
  · simp [hnone] at hr
  · rcases hgo with rfl | hgo
    · exact hne hr
    · simp [hwrite] at hgo

theorem Progressing.noSpin (h : f.Progressing) : f.NoSpin where
  inner n hloop := by
    obtain ⟨d, hd⟩ := exists_innerDone hloop (f.writerAfter_inRange n) (h.answers.later n)
    rw [← writerAfter_add] at hd
    exact ⟨n + d, Nat.le_add_right n d, hd⟩
  transmits := transmits_of_answers h.answers
  receives := by
    rintro ⟨k, hall⟩
    obtain ⟨hmade, hnone | hzero⟩ := hall k le_rfl
    · obtain ⟨r, hr, _⟩ := receiveMade_iff.mp (hall (k + 1) (by omega)).1 k (Nat.lt_succ_self k)
      simp [hnone] at hr
    · exact h.receive_ne hmade hzero
  readEnd n hn hzero := by
    rw [writerAfter_succ]
    simp [advance, writerAct, hn, hzero, Fed.step, Session.step, writerStep]
  receiveEnd _ hk hzero := absurd hzero (h.receive_ne hk)

end Spinning

/-- The tasks do not spin exactly if the library makes progress. -/
theorem noSpin_iff (f : Feed) : f.NoSpin ↔ f.Progressing := by
  constructor
  · intro h
    exact ⟨fun _ _ => h.exists_answer, fun _ => h.exists_stop⟩
  · exact Progressing.noSpin

/-- A library that reports zero bytes for ever: one byte waits to be sent. -/
def silent : Feed := ⟨fun _ => some 1, fun _ _ => some 0, fun _ => some 0, fun _ => true⟩

/-- Both tasks spin. -/
theorem silent_spins :
    (∀ n, InnerLoop (silent.writerAfter (2 + n)) ∧ ¬ InnerDone (silent.writerAfter (2 + n))) ∧
    (∀ k, silent.ReceiveMade k ∧ MovesNothing (silent.receive k)) ∧ ¬ silent.NoSpin := by
  have hcall : (silent.writerAfter 2).session.writer = .calling 0 1 := by decide
  have hloop : ∀ n, InnerLoop (silent.writerAfter (2 + n)) ∧
      ¬ InnerDone (silent.writerAfter (2 + n)) := by
    intro n
    have hforever := inner_forever (f := silent) hcall (by decide) (by decide) (fun _ _ => rfl) n
    rw [← writerAfter_add] at hforever
    exact ⟨⟨0, 1, hforever⟩, not_innerDone (by decide) hforever⟩
  refine ⟨hloop, fun k => ⟨receiveMade_iff.mpr fun _ _ => ⟨0, rfl, .inl rfl⟩, .inr rfl⟩, ?_⟩
  intro h
  obtain ⟨m, hm, hdone⟩ := h.inner 2 ⟨0, 1, .inr hcall⟩
  obtain ⟨n, rfl⟩ := Nat.exists_eq_add_of_le hm
  exact (hloop n).2 hdone

end Feed

end Session

end EnclaveNetworkGateway
