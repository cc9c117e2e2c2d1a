import EnclaveNetworkGateway.SessionProtocol
import EnclaveNetworkGateway.Transfer

/-!
# The two sessions of a bridge

Each end of a bridge is a session whose future has returned. A call of the library is one
step of the bridge and two of the session; the end of the last task stands for the drop
of the handle and of the socket.
-/
namespace EnclaveNetworkGateway

namespace Session

/-- The steps with which the future returns and both tasks start. -/
def establishing : List SessionAct :=
  [.caller (.intoStd true), .caller (.setNonblocking true), .caller .spawn, .negotiator .call,
    .negotiator (.ret true), .negotiator .drop, .caller .join, .caller .spawn, .caller .spawn,
    .writer .start, .reader .start]

/-- When an owner has gone, the drop of the tuple runs to its end if there is one. -/
theorem exists_settled {u : Session} {a : SessionArc} {n : ℕ} (ha : u.arc = a.release)
    (hstrong : a.strong = n + 1) (hopen : a.socketOpen = true) :
    ∃ as u', run step u as = some u' ∧ u'.caller = u.caller ∧ u'.negotiator = u.negotiator ∧
      u'.writer = u.writer ∧ u'.reader = u.reader ∧ u'.arc.strong = n ∧
      u'.arc.socketOpen = decide (0 < n) := by
  by_cases hn : n = 0
  · have hone : a.strong = 1 := by omega
    rw [SessionArc.release, if_pos hone] at ha
    let v : SessionArc := { u.arc with
      handle := .cleaned
      trace := u.arc.trace ++ [.cleanupRet] }
    refine ⟨[.cleanupRet, .closeSocket], { u with arc := v.closeSocket }, ?_, rfl, rfl, rfl, rfl,
      ?_, ?_⟩
    · simp [Run.run_cons, step, ha, hopen, v]
    · simp [ha, hn, v]
    · simp [SessionArc.closeSocket, hn]
  · have hmore : a.strong ≠ 1 := by omega
    rw [SessionArc.release, if_neg hmore] at ha
    have hpos : 0 < n := by omega
    exact ⟨[], u, rfl, rfl, rfl, rfl, rfl, by simp [ha, hstrong], by simp [ha, hopen, hpos]⟩

end Session

namespace Bridge

/-- Where a writer task stands in its session. -/
def WriterTask.phase : WriterTask → Session.Writer
  | read _ => .reading
  | transmit b => .looping b.lo b.hi
  | left _ => .leaving
  | shut _ => .left
  | ended _ => .ended

def ReaderTask.phase : ReaderTask → Session.Reader
  | receive _ => .looping
  | writeAll _ => .writing
  | left => .leaving
  | shut => .left
  | ended => .ended

namespace Endpoint

/-- The tasks that hold the session. -/
def tasks (e : Endpoint) : ℕ := (!e.writer.hasEnded).toNat + (!e.reader.hasEnded).toNat

/-- The session is where the tasks of the end are, they are its owners, and the socket is
open until the last one has ended. -/
structure Follows (e : Endpoint) (u : Session) : Prop where
  caller : u.caller = .returned true
  negotiator : u.negotiator = .finished (some true)
  writer : u.writer = e.writer.phase
  reader : u.reader = e.reader.phase
  strong : u.arc.strong = e.tasks
  socket : u.arc.socketOpen = !e.socketClosed

theorem tasks_pos (e : Endpoint) : decide (0 < e.tasks) = !e.socketClosed := by
  cases hw : e.writer.hasEnded <;> cases hr : e.reader.hasEnded <;>
    simp [tasks, socketClosed, hw, hr]

section Follows

variable {e e' : Endpoint} {u : Session}

/-- As long as both tasks go on, the session only has to be where they are. -/
theorem Follows.move (hu : e.Follows u) (as : List SessionAct) (a : SessionArc)
    (hstrong : a.strong = u.arc.strong) (hopen : a.socketOpen = u.arc.socketOpen)
    (hw : e'.writer.hasEnded = e.writer.hasEnded) (hr : e'.reader.hasEnded = e.reader.hasEnded)
    (hrun : run Session.step u as =
      some { u with writer := e'.writer.phase, reader := e'.reader.phase, arc := a }) :
    ∃ as v, run Session.step u as = some v ∧ e'.Follows v :=
  ⟨as, _, hrun, hu.caller, hu.negotiator, rfl, rfl,
    by rw [hstrong, hu.strong, tasks, tasks, hw, hr],
    by rw [hopen, hu.socket, socketClosed, socketClosed, hw, hr]⟩

/-- A task that ends gives up its share of the session. -/
theorem Follows.drop (hu : e.Follows u) (as : List SessionAct) (htasks : e.tasks = e'.tasks + 1)
    (hrun : run Session.step u as =
      some { u with writer := e'.writer.phase, reader := e'.reader.phase, arc := u.arc.release }) :
    ∃ as v, run Session.step u as = some v ∧ e'.Follows v := by
  have hopen : u.arc.socketOpen = true := by
    rw [hu.socket, ← tasks_pos, htasks]
    simp
  let v : Session :=
    { u with writer := e'.writer.phase, reader := e'.reader.phase, arc := u.arc.release }
  obtain ⟨bs, v', hrest, hc, hn, hw, hr, hstrong, hsocket⟩ :=
    Session.exists_settled (u := v) rfl (hu.strong.trans htasks) hopen
  exact ⟨as ++ bs, v', Run.run_append.mpr ⟨v, hrun, hrest⟩, hc.trans hu.caller,
    hn.trans hu.negotiator, hw, hr, hstrong, hsocket.trans e'.tasks_pos⟩

end Follows

end Endpoint

section Moves

variable {b b' : Bridge} {s : Side} {u : Session}

/-- A call of the writer task is made within its buffer, so `w_off` stays small. -/
theorem Wf.transmit_range (hb : b.Wf) {buf : TaskBuf}
    (hw : (b.ends.get s).writer = .transmit buf) :
    buf.lo < buf.hi ∧ buf.slice.length = buf.hi - buf.lo ∧ buf.hi < Session.usizeSize := by
  have hhi := buf.hi_le
  have hlen : buf.slice.length = buf.hi - buf.lo := by
    simp [TaskBuf.slice, buf.length_eq]
    omega
  have hpos : 0 < buf.slice.length := List.length_pos_iff.mpr ((hb s).transmit_ne buf hw)
  have hmax : duplexSize < Session.usizeSize := by decide
  exact ⟨by omega, hlen, by omega⟩

theorem WriterMove.follows {ev : WriterEvent} (h : WriterMove b s ev b') (hb : b.Wf)
    (hu : (b.ends.get s).Follows u) :
    ∃ as v, run Session.step u as = some v ∧ (b'.ends.get s).Follows v := by
  have hwriter := hu.writer
  have hreader := hu.reader
  cases h with
  | @read buf bs out hw hne hlen hout hclosed =>
    rw [hw, WriterTask.phase] at hwriter
    refine hu.move [.writer (.read (some bs.length))] u.arc rfl rfl
      (by simp [hw, WriterTask.hasEnded]) (by simp) ?_
    simp [Session.step, Session.writerStep, hwriter, hreader, WriterTask.phase, hne, hlen,
      TaskBuf.fill]
  | readEnd hw hout hclosed =>
    rw [hw, WriterTask.phase] at hwriter
    refine hu.move [.writer (.read (some 0))] u.arc rfl rfl (by simp [hw, WriterTask.hasEnded])
      (by simp) ?_
    simp [Session.step, Session.writerStep, hwriter, hreader, WriterTask.phase]
  | @transmit buf w q hw hle hq =>
    rw [hw, WriterTask.phase] at hwriter
    obtain ⟨hlt, hlen, hmax⟩ := hb.transmit_range hw
    have husize : buf.lo + w < Session.usizeSize := by omega
    let a := (u.arc.emit (.call .transmit)).emit (.ret .transmit true)
    by_cases hw' : w < buf.slice.length
    · refine hu.move [.writer .call, .writer (.ret (some w))] a rfl rfl
        (by simp [hw, hw', WriterTask.hasEnded]) (by simp) ?_
      simp [Run.run_cons, Session.step, Session.writerStep, hwriter, hreader, WriterTask.phase,
        hlt, husize, hw', TaskBuf.advance, a]
    · have hend : ¬ buf.lo + w < buf.hi := by omega
      refine hu.move [.writer .call, .writer (.ret (some w)), .writer .next] a rfl rfl
        (by simp [hw, hw', WriterTask.hasEnded]) (by simp) ?_
      simp [Run.run_cons, Session.step, Session.writerStep, hwriter, hreader, WriterTask.phase,
        hlt, husize, hw', hend, a]
  | closed hw | failed hw =>
    rw [hw, WriterTask.phase] at hwriter
    have hlt := (hb.transmit_range hw).1
    refine hu.move [.writer .call, .writer (.ret none)]
      ((u.arc.emit (.call .transmit)).emit (.ret .transmit false)) rfl rfl
      (by simp [hw, WriterTask.hasEnded]) (by simp) ?_
    simp [Run.run_cons, Session.step, Session.writerStep, hwriter, hreader, WriterTask.phase, hlt]
  | shutdown hw =>
    rw [hw, WriterTask.phase] at hwriter
    refine hu.move [.writer .shutdown] u.arc rfl rfl (by simp [hw, WriterTask.hasEnded])
      (by simp) ?_
    simp [Session.step, Session.writerStep, hwriter, hreader, WriterTask.phase]
  | drop hw =>
    rw [hw, WriterTask.phase] at hwriter
    refine hu.drop [.writer .drop] ?_ ?_
    · simp [Endpoint.tasks, hw, WriterTask.hasEnded]
      omega
    · simp [Session.step, Session.writerStep, hwriter, hreader, WriterTask.phase]

theorem ReaderMove.follows {ev : ReaderEvent} (h : ReaderMove b s ev b')
    (hu : (b.ends.get s).Follows u) :
    ∃ as v, run Session.step u as = some v ∧ (b'.ends.get s).Follows v := by
  have hwriter := hu.writer
  have hreader := hu.reader
  let a := (u.arc.emit (.call .receive)).emit (.ret .receive true)
  cases h with
  | @receive buf r bs q hr hne hlen hq =>
    rw [hr, ReaderTask.phase] at hreader
    refine hu.move [.reader .call, .reader (.ret (some bs.length))] a rfl rfl (by simp)
      (by simp [hr, ReaderTask.hasEnded]) ?_
    simp [Run.run_cons, Session.step, Session.readerStep, hwriter, hreader, ReaderTask.phase,
      hlen, a]
  | receiveNone hr =>
    rw [hr, ReaderTask.phase] at hreader
    refine hu.move [.reader .call, .reader (.ret (some 0)), .reader (.write true)] a rfl rfl rfl
      rfl ?_
    simp [Run.run_cons, Session.step, Session.readerStep, hwriter, hreader, hr, ReaderTask.phase,
      a]
  | receiveEnd hr | failed hr =>
    rw [hr, ReaderTask.phase] at hreader
    refine hu.move [.reader .call, .reader (.ret none)]
      ((u.arc.emit (.call .receive)).emit (.ret .receive false)) rfl rfl (by simp)
      (by simp [hr, ReaderTask.hasEnded]) ?_
    simp [Run.run_cons, Session.step, Session.readerStep, hwriter, hreader, ReaderTask.phase]
  | @write buf n inp hr hopen hopen' hinp =>
    rw [hr, ReaderTask.phase] at hreader
    by_cases hlt : n < buf.slice.length
    · refine hu.move [] u.arc rfl rfl (by simp) (by simp [hr, hlt, ReaderTask.hasEnded]) ?_
      simp [hlt, ReaderTask.phase, ← hwriter, ← hreader]
    · refine hu.move [.reader (.write true)] u.arc rfl rfl (by simp)
        (by simp [hr, hlt, ReaderTask.hasEnded]) ?_
      simp [Session.step, Session.readerStep, hwriter, hreader, hlt, ReaderTask.phase]
  | writeBroken hr =>
    rw [hr, ReaderTask.phase] at hreader
    refine hu.move [.reader (.write false)] u.arc rfl rfl (by simp)
      (by simp [hr, ReaderTask.hasEnded]) ?_
    simp [Session.step, Session.readerStep, hwriter, hreader, ReaderTask.phase]
  | shutdown hr =>
    rw [hr, ReaderTask.phase] at hreader
    refine hu.move [.reader .shutdown] u.arc rfl rfl (by simp)
      (by simp [hr, ReaderTask.hasEnded]) ?_
    simp [Session.step, Session.readerStep, hwriter, hreader, ReaderTask.phase]
  | drop hr =>
    rw [hr, ReaderTask.phase] at hreader
    refine hu.drop [.reader .drop] ?_ ?_
    · simp [Endpoint.tasks, hr, ReaderTask.hasEnded]
    · simp [Session.step, Session.readerStep, hwriter, hreader, ReaderTask.phase]

/-- A step that is not one of the tasks of an end leaves its session where it is. -/
theorem Endpoint.Follows.congr {e e' : Endpoint} (hu : e.Follows u) (hw : e'.writer = e.writer)
    (hr : e'.reader = e.reader) : e'.Follows u :=
  ⟨hu.caller, hu.negotiator, by rw [hu.writer, hw], by rw [hu.reader, hr],
    by rw [hu.strong, Endpoint.tasks, Endpoint.tasks, hw, hr],
    by rw [hu.socket, Endpoint.socketClosed, Endpoint.socketClosed, hw, hr]⟩

end Moves

end Bridge

namespace Transfer

open Bridge

/-- Every step of a bridge is a run of the session of each end. -/
theorem follows_step {t t' : Transfer} {a : Act} {d : Side} {u : Session} (ht : t.bridge.Wf)
    (hu : (t.bridge.ends.get d).Follows u) (hstep : t.step a = some t') :
    ∃ as v, run Session.step u as = some v ∧ (t'.bridge.ends.get d).Follows v := by
  have hstay : (t'.bridge.ends.get d).writer = (t.bridge.ends.get d).writer →
      (t'.bridge.ends.get d).reader = (t.bridge.ends.get d).reader →
      ∃ as v, run Session.step u as = some v ∧ (t'.bridge.ends.get d).Follows v :=
    fun hw hr => ⟨[], u, rfl, hu.congr hw hr⟩
  cases a with
  | writer s ev =>
    simp only [step, Option.map_eq_some_iff] at hstep
    obtain ⟨b, hb, rfl⟩ := hstep
    have hmove := writerMove_of_step hb
    rcases Side.eq_or_eq_other d s with rfl | rfl
    · exact hmove.follows ht hu
    · exact hstay (by cases hmove <;> simp) (hmove.reader _)
  | reader s ev =>
    simp only [step, Option.map_eq_some_iff] at hstep
    obtain ⟨b, hb, rfl⟩ := hstep
    have hmove := readerMove_of_step hb
    rcases Side.eq_or_eq_other d s with rfl | rfl
    · exact hmove.follows hu
    · exact hstay (by cases hmove <;> simp) (by cases hmove <;> simp)
  | poll s op =>
    simp only [step, Option.map_eq_some_iff] at hstep
    obtain ⟨b, hb, rfl⟩ := hstep
    have hmove := appMove_of_step hb
    refine hstay ?_ (hmove.reader d)
    rcases Side.eq_or_eq_other d s with rfl | rfl
    · cases hmove <;> simp
    · cases hmove <;> simp
  | shutdown s =>
    obtain rfl := Option.some.inj hstep
    rcases Side.eq_or_eq_other d s with rfl | rfl
    · refine hstay ?_ ?_
      · simp only [Bridge.shutdown, Endpoint.shutdown, setEnd_ends, Pair.get_set]
        split <;> rfl
      · simp only [Bridge.shutdown, Endpoint.shutdown, setEnd_ends, Pair.get_set]
        split <;> rfl
    · exact hstay (by simp [Bridge.shutdown]) (by simp [Bridge.shutdown])
  | drop s =>
    obtain rfl := Option.some.inj hstep
    refine hstay ?_ (drop_reader _ _ _)
    rcases Side.eq_or_eq_other d s with rfl | rfl
    · simp [Bridge.drop, Endpoint.drop]
    · simp [Bridge.drop]

theorem new_follows (cap : ℕ) (h : 0 < cap) (d : Side) :
    ∃ u, run Session.step .new Session.establishing = some u ∧
      ((new cap h).bridge.ends.get d).Follows u := by
  have hend : (new cap h).bridge.ends.get d = .new := by simp [new, Bridge.new]
  rw [hend]
  exact ⟨_, rfl, rfl, rfl, rfl, rfl, rfl, rfl⟩

/-- In every run of a bridge each end is a session that can be reached: its calls keep to
the protocol, and its socket is open until both of its tasks have ended. -/
theorem session_of_run {cap : ℕ} {h : 0 < cap} {as : List Act} {t : Transfer}
    (hrun : run step (new cap h) as = some t) (d : Side) :
    ∃ bs u, run Session.step .new bs = some u ∧ (t.bridge.ends.get d).Follows u ∧
      Guarded SessionEvent.Allowed u.arc.trace := by
  have hboth : (∃ p, t.Simulates p) ∧ ∃ bs u, run Session.step .new bs = some u ∧
      (t.bridge.ends.get d).Follows u := by
    refine Run.invariant (I := fun t => (∃ p, t.Simulates p) ∧ ∃ bs u,
      run Session.step .new bs = some u ∧ (t.bridge.ends.get d).Follows u) ?_ ?_ hrun
    · rintro t a t' ⟨⟨p, hp⟩, bs, u, hu, hfollows⟩ hstep
      obtain ⟨p', _, hp'⟩ := simulates_step hp hstep
      obtain ⟨cs, v, hv, hfollows'⟩ := follows_step hp.wf hfollows hstep
      exact ⟨⟨p', hp'⟩, bs ++ cs, v, Run.run_append.mpr ⟨u, hu, hv⟩, hfollows'⟩
    · exact ⟨⟨_, new_simulates cap h⟩, Session.establishing, new_follows cap h d⟩
  obtain ⟨_, bs, u, hu, hfollows⟩ := hboth
  exact ⟨bs, u, hu, hfollows, (Session.accounted_of_run hu).guarded⟩

end Transfer

end EnclaveNetworkGateway
