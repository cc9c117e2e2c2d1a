import EnclaveNetworkGateway.EchoClient
import EnclaveNetworkGateway.EchoIntegrity

/-!
# The echo client meets the echo server

The client and the task of its connection over a network that does not cut it. Every step brings
a byte or one of the two programs nearer to its end, and only the end stops them.
-/
namespace EnclaveNetworkGateway

/-- The connection, with the task at its right end, and the client at its left end. -/
structure EchoDemo where
  session : EchoSession
  client : EchoClient
  deriving DecidableEq

inductive DemoAct where
  | accept
  | serve (op : StreamOp)
  | peerAddr (ok : Bool)
  | client (op : StreamOp)
  | shutdown (ok : Bool)
  deriving DecidableEq, Repr

namespace EchoDemo

def new (cap : ℕ) (h : 0 < cap) (data : Bytes) : EchoDemo := ⟨.new cap h, .new data⟩

variable (data : Bytes)

def step (d : EchoDemo) : DemoAct → Option EchoDemo
  | .accept =>
    if d.session.task = .backlog then
      some { d with session := { d.session with task := .reading } }
    else none
  | .serve op => (d.session.serve op).map fun c => { d with session := c }
  | .peerAddr ok => (d.session.peerAddr ok).map fun c => { d with session := c }
  | .client op => (d.client.poll data op).bind fun k => (d.session.client op).map fun c => ⟨c, k⟩
  | .shutdown ok => (d.client.shutdown ok).bind fun k =>
      if ok then (d.session.step .clientShutdown).map fun c => ⟨c, k⟩
      else if d.session.stream.mayFail .left then some { d with client := k } else none

/-- What `write_data` has handed over, and whether it has shut down its half. -/
def WriteSound (d : EchoDemo) : Prop :=
  match d.client.write with
  | .writing rest =>
    rest ≠ [] ∧ d.session.sent ++ rest = data ∧ d.session.stream.shut.get .left = false
  | .shutdown ret =>
    ret = .ok () ∧ d.session.sent = data ∧ d.session.stream.shut.get .left = false
  | .done ret => ret = .ok () ∧ d.session.sent = data ∧ d.session.stream.shut.get .left = true

/-- `read_data` ends with all the data, and not before. -/
def ReadSound (d : EchoDemo) : Prop :=
  match d.client.read with
  | .reading r => r = d.session.got
  | .done ret => ret = .ok d.session.got ∧ d.session.got = data

structure Sound (d : EchoDemo) : Prop where
  whole : d.session.Whole
  unbroken : d.session.Unbroken
  served : d.session.task ≠ .aborted
  closed : ∀ ret, d.session.task = .ended ret → d.session.stream.gone .right = true
  write : d.WriteSound data
  read : d.ReadSound data

variable {data} {d d' : EchoDemo}

theorem new_sound (cap : ℕ) (h : 0 < cap) : (new cap h data).Sound data := by
  have hbacklog : (new cap h data).session.task = .backlog := rfl
  refine ⟨EchoSession.new_whole cap h, ⟨rfl, rfl⟩, by simp [hbacklog], by simp [hbacklog], ?_, rfl⟩
  by_cases hdata : data = []
  · simp [WriteSound, new, EchoClient.new, WriteData.writeAll, hdata, EchoSession.new,
      TcpStream.new]
  · simp [WriteSound, new, EchoClient.new, WriteData.writeAll, hdata, EchoSession.new,
      TcpStream.new]

/-- Nothing goes in either direction but the data. -/
theorem Sound.sent_prefix (hd : d.Sound data) : d.session.sent <+: data := by
  have hwrite := hd.write
  unfold WriteSound at hwrite
  split at hwrite
  · exact hwrite.2.1 ▸ List.prefix_append _ _
  · exact hwrite.2.1 ▸ List.prefix_rfl
  · exact hwrite.2.1 ▸ List.prefix_rfl

theorem Sound.got_prefix (hd : d.Sound data) :
    d.session.got ++ d.session.stream.unread .right <+: data := by
  apply List.IsPrefix.trans ?_ hd.sent_prefix
  rw [hd.whole.total hd.served, ← List.append_assoc]
  exact List.prefix_append _ _

/-- The server closes the connection only behind the end of the client's stream. -/
theorem Sound.not_mayFail (hd : d.Sound data) : d.session.stream.mayFail .left = false := by
  have hplace := hd.whole.place
  unfold EchoSession.InPlace at hplace
  have hgone : d.session.stream.gone .right = false ∨ d.session.stream.spoken .left = true := by
    split at hplace
    · exact .inl hplace
    · exact .inl hplace
    · exact .inl hplace.1
    · exact .inl hplace.2.2
    · exact .inr hplace.2
    · exact hplace.elim
    · rename_i h
      exact absurd h hd.served
  simp only [TcpStream.mayFail, hd.unbroken.1, Side.other, Bool.false_or]
  cases hgone with
  | inl h => simp [h]
  | inr h => simp [h]

end EchoDemo

/-! ## Every step is progress -/

def WriteData.rank : WriteData → ℕ
  | writing rest => 4 * rest.length + 2
  | shutdown _ => 1
  | done _ => 0

def ReadData.rank : ReadData → ℕ
  | reading _ => 1
  | done _ => 0

def EchoTask.rank : EchoTask → ℕ
  | backlog => 3
  | reading => 2
  | writing rest => 2 * rest.length + 2
  | closing _ => 1
  | ended _ | panicked | aborted => 0

theorem WriteData.rank_writeAll (rest : Bytes) : (writeAll rest).rank ≤ 4 * rest.length + 2 := by
  unfold writeAll
  split_ifs
  · simp [rank]
  · exact le_refl _

theorem ReadData.rank_loop (data r : Bytes) : (loop data r).rank ≤ 1 := by
  unfold loop
  split_ifs
  · exact le_refl _
  · exact Nat.zero_le 1

theorem EchoTask.Polled.working {t t' : EchoTask} {op : StreamOp} (h : Polled t op t') :
    t' ≠ .aborted ∧ ∀ ret, t' ≠ .ended ret := by
  cases h with
  | read | write =>
    unfold writeAll
    split_ifs <;> simp
  | _ => simp

theorem EchoTask.rank_writeAll (rest : Bytes) : (writeAll rest).rank ≤ 2 * rest.length + 2 := by
  unfold writeAll
  split_ifs
  · simp [rank]
  · exact le_refl _

namespace EchoDemo

variable {data : Bytes} {d d' : EchoDemo}

/-- A byte is four steps from its end before it is sent, three before the task has read it, two
before the task has written it, and one before the client has read it. -/
def rank (d : EchoDemo) : ℕ :=
  d.client.write.rank + 3 * (d.session.stream.unread .left).length + d.session.task.rank +
    (d.session.stream.unread .right).length + d.client.read.rank

theorem rank_new (cap : ℕ) (h : 0 < cap) : (new cap h data).rank ≤ 4 * data.length + 6 := by
  have hwrite := WriteData.rank_writeAll data
  have hread := ReadData.rank_loop data []
  show (WriteData.writeAll data).rank + 3 * 0 + 3 + 0 + (ReadData.loop data []).rank ≤ _
  omega

/-- A poll of the task moves bytes towards the client or ends the loop. -/
theorem rank_serve {c : EchoSession} {op : StreamOp} {t : EchoTask} {s : TcpStream}
    (ht : c.task.poll op = some t) (hs : c.stream.io .right op = some s)
    (hlost : c.stream.conn.lost .right = false) :
    3 * (s.unread .left).length + t.rank + (s.unread .right).length <
      3 * (c.stream.unread .left).length + c.task.rank + (c.stream.unread .right).length := by
  have hmove := TcpStream.move_of_io hs
  have hleft := hmove.taken_eq
  rw [Side.other] at hleft
  rw [hmove.written_eq (.inr hlost), hleft]
  have hpolled := EchoTask.polled_of_poll ht
  generalize c.task = k at hpolled
  cases hpolled with
  | @read bs =>
    have hrank := EchoTask.rank_writeAll bs
    cases hmove with
    | read hbs =>
      have hpos := List.length_pos_of_ne_nil hbs
      have hreading : EchoTask.reading.rank = 2 := rfl
      simp only [StreamOp.written, StreamOp.taken, List.length_append, List.length_nil, hreading]
      omega
  | @write rest n =>
    have hrank := EchoTask.rank_writeAll (rest.drop n)
    cases hmove with
    | write hn hle =>
      have hwriting : (EchoTask.writing rest).rank = 2 * rest.length + 2 := rfl
      simp only [StreamOp.written, StreamOp.taken, List.length_append, List.length_nil, hwriting,
        List.length_take, List.length_drop] at hrank ⊢
      omega
    | swallow _ _ _ hl => simp [hlost] at hl
  | readEof | readErr | writeErr => simp [StreamOp.written, StreamOp.taken, EchoTask.rank]

/-- A poll of the client moves bytes, or ends one of its futures. -/
theorem rank_client {k k' : EchoClient} {op : StreamOp} {s s' : TcpStream}
    (hk : k.poll data op = some k') (hs : s.io .left op = some s')
    (hl : op.written = [] ∨ s.conn.lost .left = false) :
    k'.write.rank + 3 * (s'.unread .left).length + (s'.unread .right).length + k'.read.rank <
      k.write.rank + 3 * (s.unread .left).length + (s.unread .right).length + k.read.rank := by
  have hmove := TcpStream.move_of_io hs
  have hright := hmove.taken_eq
  rw [Side.other] at hright
  rw [hmove.written_eq hl, hright, List.length_append, List.length_append]
  cases EchoClient.poll_cases hk with
  | inl h =>
    rw [h.2]
    have hpolled := h.1
    generalize k.write = w at hpolled
    generalize k'.write = w' at hpolled
    cases hpolled with
    | @write rest n =>
      have hrank := WriteData.rank_writeAll (rest.drop n)
      have hn : 0 < n ∧ n ≤ rest.length := by
        cases hmove with
        | write hn hle => exact ⟨hn, hle⟩
        | swallow hn hle => exact ⟨hn, hle⟩
      have hwriting : (WriteData.writing rest).rank = 4 * rest.length + 2 := rfl
      simp only [StreamOp.written, StreamOp.taken, List.length_nil, hwriting, List.length_take,
        List.length_drop] at hrank ⊢
      omega
    | writeErr =>
      simp only [StreamOp.written, StreamOp.taken, List.length_nil, WriteData.rank]
      omega
  | inr h =>
    rw [h.2]
    have hpolled := h.1
    generalize k.read = r at hpolled
    generalize k'.read = r' at hpolled
    cases hpolled with
    | @read r bs =>
      have hrank := ReadData.rank_loop data (r ++ bs)
      have hreading : (ReadData.reading r).rank = 1 := rfl
      cases hmove with
      | read hbs =>
        have hpos := List.length_pos_of_ne_nil hbs
        simp only [StreamOp.written, StreamOp.taken, List.length_nil, hreading]
        omega
    | readEof | readErr =>
      simp only [StreamOp.written, StreamOp.taken, List.length_nil, ReadData.rank]
      omega

theorem Sound.not_lost (hd : d.Sound data) (hopen : d.session.stream.shut.get .left = false) :
    d.session.stream.conn.lost .left = false := by
  rw [TcpStream.lost_of_not_severed hd.unbroken.1]
  exact hd.whole.gone_of_open hopen hd.served

theorem progress_accept (hd : d.Sound data) (h : d.step data .accept = some d') :
    d'.Sound data ∧ d'.rank < d.rank := by
  simp only [step] at h
  split_ifs at h with htask
  obtain rfl := Option.some.inj h
  obtain ⟨hplace, hopen, htotal⟩ := hd.whole
  unfold EchoSession.InPlace at hplace
  rw [htask] at hplace htotal
  constructor
  · exact ⟨⟨hplace, hopen, fun _ => htotal (by simp)⟩, hd.unbroken, by simp, by simp, hd.write,
      hd.read⟩
  · simp [rank, htask, EchoTask.rank]

theorem progress_serve {op : StreamOp} (hd : d.Sound data)
    (h : d.step data (.serve op) = some d') : d'.Sound data ∧ d'.rank < d.rank := by
  obtain ⟨c, hc, rfl⟩ := Option.map_eq_some_iff.mp h
  have hwhole := EchoSession.whole_serve hd.whole hd.unbroken hc
  obtain ⟨t, ht, hmap⟩ := Option.bind_eq_some_iff.mp hc
  obtain ⟨s, hs, rfl⟩ := Option.map_eq_some_iff.mp hmap
  have hmove := TcpStream.move_of_io hs
  have hworking := (EchoTask.polled_of_poll ht).working
  constructor
  · refine ⟨hwhole, ?_, hworking.1, fun ret hret => absurd hret (hworking.2 ret), ?_, hd.read⟩
    · exact ⟨hmove.severed_eq.trans hd.unbroken.1, (hmove.gone_eq .left).trans hd.unbroken.2⟩
    · have hwrite := hd.write
      unfold WriteSound at hwrite ⊢
      dsimp only
      rw [hmove.shut_eq]
      exact hwrite
  · have hlt := rank_serve ht hs (EchoSession.not_lost hd.unbroken)
    unfold rank
    dsimp only
    omega

theorem progress_peerAddr {ok : Bool} (hd : d.Sound data)
    (h : d.step data (.peerAddr ok) = some d') : d'.Sound data ∧ d'.rank < d.rank := by
  obtain ⟨c, hc, rfl⟩ := Option.map_eq_some_iff.mp h
  have hwhole := EchoSession.whole_peerAddr hd.whole hd.unbroken hc
  unfold EchoSession.peerAddr at hc
  split at hc
  · rename_i ret htask
    split_ifs at hc with hok hfail
    · obtain rfl := Option.some.inj hc
      have hleft := d.session.stream.drop_gone_other .right
      constructor
      · exact ⟨hwhole, ⟨hd.unbroken.1, hleft.trans hd.unbroken.2⟩, by simp, fun _ _ => by simp,
          hd.write, hd.read⟩
      · simp [rank, htask, EchoTask.rank]
    · simp [EchoSession.not_mayFail hd.unbroken] at hfail
  · simp at hc

/-- What a poll of the client leaves of the invariant of its two futures. -/
theorem futures_client {op : StreamOp} {k : EchoClient} {c : EchoSession} (hd : d.Sound data)
    (hk : d.client.poll data op = some k) (hc : d.session.client op = some c) :
    WriteSound data ⟨c, k⟩ ∧ ReadSound data ⟨c, k⟩ := by
  obtain ⟨s, hs, rfl⟩ := Option.map_eq_some_iff.mp hc
  have hmove := TcpStream.move_of_io hs
  have hwrite := hd.write
  have hread := hd.read
  unfold WriteSound at hwrite ⊢
  unfold ReadSound at hread ⊢
  dsimp only
  rw [hmove.shut_eq]
  cases EchoClient.poll_cases hk with
  | inl h =>
    rw [h.2, h.1.taken_eq, List.append_nil]
    refine ⟨?_, hread⟩
    have hpolled := h.1
    generalize d.client.write = w at hwrite hpolled
    generalize k.write = w' at hpolled
    cases hpolled with
    | @write rest n =>
      have hsent : (d.session.sent ++ rest.take n) ++ rest.drop n = data := by
        rw [List.append_assoc, List.take_append_drop]
        exact hwrite.2.1
      unfold WriteData.writeAll
      split_ifs with hrest
      · rw [hrest, List.append_nil] at hsent
        exact ⟨rfl, hsent, hwrite.2.2⟩
      · exact ⟨hrest, hsent, hwrite.2.2⟩
    | writeErr =>
      cases hmove with
      | writeErr hl => simp [hd.not_lost hwrite.2.2] at hl
  | inr h =>
    rw [h.2]
    have hpolled := h.1
    rw [hpolled.written_eq, List.append_nil]
    refine ⟨hwrite, ?_⟩
    have hgot := hd.got_prefix
    have htaken := hmove.taken_eq
    rw [Side.other] at htaken
    rw [htaken, ← List.append_assoc] at hgot
    generalize hr : d.client.read = r at hread hpolled
    generalize k.read = r' at hpolled
    cases hpolled with
    | @read r bs =>
      have hlen := ((List.prefix_append _ _).trans hgot).length_le
      have hr : r = d.session.got := hread
      unfold ReadData.loop
      rw [if_pos (by rw [hr]; exact Nat.lt_succ_of_le hlen), hr]
      rfl
    | @readEof r =>
      have hr : r = d.session.got := hread
      obtain ⟨hall, hspoken⟩ := hd.whole.got_eq hd.unbroken hd.served hc
      have hshut := ((d.session.stream.spoken_iff .left).mp hspoken).1
      have hdata : d.session.sent = data := by
        split at hwrite
        · simp [hshut] at hwrite
        · exact hwrite.2.1
        · exact hwrite.2.1
      rw [hr]
      exact ⟨by simp [StreamOp.taken], by simp [StreamOp.taken, hall, hdata]⟩
    | readErr =>
      cases hmove with
      | readErr hfail => simp [hd.not_mayFail] at hfail

theorem progress_client {op : StreamOp} (hd : d.Sound data)
    (h : d.step data (.client op) = some d') : d'.Sound data ∧ d'.rank < d.rank := by
  obtain ⟨k, hk, hmap⟩ := Option.bind_eq_some_iff.mp h
  obtain ⟨c, hc, rfl⟩ := Option.map_eq_some_iff.mp hmap
  obtain ⟨hwrite, hread⟩ := futures_client hd hk hc
  have hwhole := EchoSession.whole_client hd.whole hd.unbroken hc
  have hl : op.written = [] ∨ d.session.stream.conn.lost .left = false := by
    cases EchoClient.poll_cases hk with
    | inl h =>
      right
      apply hd.not_lost
      have hwrite := hd.write
      obtain ⟨rest, hrest⟩ := h.1.exists_writing
      rw [WriteSound, hrest] at hwrite
      exact hwrite.2.2
    | inr h => exact .inl h.1.written_eq
  obtain ⟨s, hs, rfl⟩ := Option.map_eq_some_iff.mp hc
  have hmove := TcpStream.move_of_io hs
  constructor
  · refine ⟨hwhole, ?_, hd.served, fun ret hret => ?_, hwrite, hread⟩
    · exact ⟨hmove.severed_eq.trans hd.unbroken.1, (hmove.gone_eq .left).trans hd.unbroken.2⟩
    · exact (hmove.gone_eq .right).trans (hd.closed ret hret)
  · have hlt := rank_client hk hs hl
    unfold rank
    dsimp only
    omega

theorem progress_shutdown {ok : Bool} (hd : d.Sound data)
    (h : d.step data (.shutdown ok) = some d') : d'.Sound data ∧ d'.rank < d.rank := by
  obtain ⟨k, hk, hrest⟩ := Option.bind_eq_some_iff.mp h
  cases ok with
  | false =>
    simp only [Bool.false_eq_true, if_false] at hrest
    split_ifs at hrest with hfail
    simp [hd.not_mayFail] at hfail
  | true =>
    obtain ⟨c, hc, rfl⟩ := Option.map_eq_some_iff.mp hrest
    have hwhole := EchoSession.whole_shutdown hd.whole hc
    obtain ⟨s, hs, rfl⟩ := Option.map_eq_some_iff.mp hc
    obtain rfl := (TcpStream.shutdown_eq hs).2
    have hwrite := hd.write
    unfold WriteSound at hwrite
    unfold EchoClient.shutdown at hk
    split at hk
    · rename_i ret hret
      obtain rfl := Option.some.inj hk
      rw [hret] at hwrite
      constructor
      · refine ⟨hwhole, hd.unbroken, hd.served, hd.closed, ?_, hd.read⟩
        exact ⟨hwrite.1, hwrite.2.1, d.session.stream.shut.get_set .left true⟩
      · show 0 + 3 * (d.session.stream.unread .left).length + d.session.task.rank +
          (d.session.stream.unread .right).length + d.client.read.rank < d.rank
        unfold rank
        rw [hret, WriteData.rank]
        omega
    · simp at hk

theorem progress {a : DemoAct} (hd : d.Sound data) (h : d.step data a = some d') :
    d'.Sound data ∧ d'.rank < d.rank := by
  cases a with
  | accept => exact progress_accept hd h
  | serve op => exact progress_serve hd h
  | peerAddr ok => exact progress_peerAddr hd h
  | client op => exact progress_client hd h
  | shutdown ok => exact progress_shutdown hd h

/-! ## Only the end stops the demo -/

theorem no_serve {op : StreamOp} {t : EchoTask}
    (hstuck : Quiescent (step data) (fun _ => True) d) (ht : d.session.task.poll op = some t) :
    d.session.stream.io .right op = none := by
  have hnone := hstuck (.serve op) trivial
  simpa [step, EchoSession.serve, ht] using hnone

theorem no_client {op : StreamOp} {k : EchoClient}
    (hstuck : Quiescent (step data) (fun _ => True) d) (hk : d.client.poll data op = some k) :
    d.session.stream.io .left op = none := by
  have hnone := hstuck (.client op) trivial
  simpa [step, EchoSession.client, hk] using hnone

/-- The client reads whatever comes back. -/
theorem Sound.stuck_right (hd : d.Sound data)
    (hstuck : Quiescent (step data) (fun _ => True) d) :
    d.session.stream.unread .right = [] := by
  have hgot := hd.got_prefix.length_le
  rw [List.length_append] at hgot
  cases hunread : d.session.stream.unread .right with
  | nil => rfl
  | cons b rest =>
    rw [hunread, List.length_cons] at hgot
    obtain ⟨s, hs⟩ := TcpStream.exists_read hd.unbroken.2 hunread
    have hread := hd.read
    unfold ReadSound at hread
    split at hread
    · rename_i r hr
      have hpoll : ∃ k, d.client.poll data (.read [b]) = some k := by
        rw [EchoClient.poll, hr, ReadData.poll, List.length_singleton,
          if_pos (by rw [hread]; omega)]
        exact ⟨_, rfl⟩
      obtain ⟨k, hk⟩ := hpoll
      simp [no_client hstuck hk] at hs
    · have hlen := congrArg List.length hread.2
      omega

/-- The task either waits for the client or has ended. -/
theorem Sound.stuck_task (hd : d.Sound data)
    (hstuck : Quiescent (step data) (fun _ => True) d) :
    (d.session.task = .reading ∧ d.session.stream.unread .left = [] ∧
      d.session.stream.shut.get .left = false) ∨ d.session.task = .ended (.ok ()) := by
  have hplace := hd.whole.place
  unfold EchoSession.InPlace at hplace
  split at hplace
  · rename_i htask
    have hnone := hstuck .accept trivial
    simp [step, htask] at hnone
  · rename_i htask
    have hleft : d.session.stream.unread .left = [] := by
      cases hunread : d.session.stream.unread .left with
      | nil => rfl
      | cons b rest =>
        obtain ⟨s, hs⟩ := TcpStream.exists_read hplace hunread
        have hpoll : d.session.task.poll (.read [b]) = some (.writeAll [b]) := by
          simp [htask, EchoTask.poll, EchoTask.bufferSize]
        simp [no_serve hstuck hpoll] at hs
    refine .inl ⟨htask, hleft, ?_⟩
    by_contra hopen
    have hshut : d.session.stream.shut.get .left = true := by simpa using hopen
    have heof := TcpStream.io_readEof hplace hleft (.inl hshut)
    have hpoll : d.session.task.poll .readEof = some (.closing (.ok ())) := by
      rw [htask, EchoTask.poll]
    simp [no_serve hstuck hpoll] at heof
  · rename_i rest htask
    obtain ⟨s, hs⟩ := TcpStream.exists_write hplace.1 hd.whole.open_right
      (EchoSession.not_lost hd.unbroken) (hd.stuck_right hstuck) hplace.2
    have hpoll : d.session.task.poll (.write rest 1) = some (.writeAll (rest.drop 1)) := by
      simp [htask, EchoTask.poll]
    simp [no_serve hstuck hpoll] at hs
  · rename_i ret htask
    have hnone := hstuck (.peerAddr true) trivial
    simp [step, EchoSession.peerAddr, htask] at hnone
  · rename_i ret htask
    rw [htask, hplace.1]
    exact .inr rfl
  · exact hplace.elim
  · rename_i htask
    exact absurd htask hd.served

/-- The client has sent everything and shut down its half. -/
theorem Sound.stuck_write (hd : d.Sound data)
    (hstuck : Quiescent (step data) (fun _ => True) d) : d.client.write = .done (.ok ()) ∧
      d.session.stream.shut.get .left = true := by
  have hwrite := hd.write
  unfold WriteSound at hwrite
  split at hwrite
  · rename_i rest hrest
    have hleft : d.session.stream.unread .left = [] := by
      cases hd.stuck_task hstuck with
      | inl h => exact h.2.1
      | inr h =>
        have hplace := hd.whole.place
        rw [EchoSession.InPlace, h] at hplace
        exact ((d.session.stream.spoken_iff .left).mp hplace.2).2
    obtain ⟨s, hs⟩ := TcpStream.exists_write hd.unbroken.2 hwrite.2.2 (hd.not_lost hwrite.2.2) hleft
      hwrite.1
    have hpoll : ∃ k, d.client.poll data (.write rest 1) = some k := by
      rw [EchoClient.poll, hrest, WriteData.poll, if_pos rfl]
      exact ⟨_, rfl⟩
    obtain ⟨k, hk⟩ := hpoll
    simp [no_client hstuck hk] at hs
  · rename_i ret hret
    have hnone := hstuck (.shutdown true) trivial
    simp [step, EchoClient.shutdown, hret, EchoSession.step, TcpStream.shutdown,
      hd.unbroken.2] at hnone
  · rename_i ret hret
    rw [hret, hwrite.1]
    exact ⟨rfl, hwrite.2.2⟩

theorem Sound.stuck_ended (hd : d.Sound data)
    (hstuck : Quiescent (step data) (fun _ => True) d) :
    d.session.task = .ended (.ok ()) ∧ d.client.read = .done (.ok data) := by
  obtain ⟨hwrite, hshut⟩ := hd.stuck_write hstuck
  have htask : d.session.task = .ended (.ok ()) := by
    cases hd.stuck_task hstuck with
    | inl h => simp [hshut] at h
    | inr h => exact h
  refine ⟨htask, ?_⟩
  have hread := hd.read
  unfold ReadSound at hread
  split at hread
  · rename_i r hr
    have heof := TcpStream.io_readEof hd.unbroken.2 (hd.stuck_right hstuck)
      (.inr (hd.closed _ htask))
    have hpoll : ∃ k, d.client.poll data .readEof = some k := by
      rw [EchoClient.poll, hr, ReadData.poll]
      exact ⟨_, rfl⟩
    obtain ⟨k, hk⟩ := hpoll
    simp [no_client hstuck hk] at heof
  · rename_i ret hret
    rw [hret, hread.1, hread.2]

/-- The demo always ends, and ends well: in whatever order the client, the server and the two
kernels take their steps, there are no more than four for each byte and six besides, and they
stop only when the client has got back its data and passed both checks. -/
theorem always_passes {cap : ℕ} {hcap : 0 < cap} {as : List DemoAct}
    (hrun : run (step data) (new cap hcap data) as = some d) :
    as.length ≤ 4 * data.length + 6 ∧ (Quiescent (step data) (fun _ => True) d →
      d.client.outcome data = some (.ok ⟨data.length, data.length, true, true⟩) ∧
        d.session.task = .ended (.ok ())) := by
  have hstep : ∀ (d : EchoDemo) (a : DemoAct) (d' : EchoDemo), d.Sound data →
      step data d a = some d' → d'.Sound data ∧ d'.rank + (true : Bool).toNat ≤ d.rank :=
    fun d a d' hd h => progress hd h
  have hsound : d.Sound data :=
    Run.invariant (fun _ _ _ hd h => (progress hd h).1) (new_sound cap hcap) hrun
  constructor
  · have hcount := Run.countP_le_of_measure (p := fun _ => true) hstep (new_sound cap hcap) hrun
    have hnew : (new cap hcap data).rank ≤ 4 * data.length + 6 := rank_new cap hcap
    rw [List.countP_true] at hcount
    omega
  · intro hstuck
    obtain ⟨htask, hread⟩ := hsound.stuck_ended hstuck
    refine ⟨?_, htask⟩
    rw [EchoClient.outcome, (hsound.stuck_write hstuck).1, hread, ← EchoClient.verify_self]
    rfl

/-- `"Hello world".as_bytes()`. -/
def helloWorld : Bytes := [72, 101, 108, 108, 111, 32, 119, 111, 114, 108, 100]

/-- The answer comes in two parts. -/
def helloRun : List DemoAct :=
  [.client (.write helloWorld 8), .accept, .serve (.read (helloWorld.take 8)),
    .client (.write (helloWorld.drop 8) 3), .serve (.write (helloWorld.take 8) 8), .shutdown true,
    .serve (.read (helloWorld.drop 8)), .client (.read (helloWorld.take 8)),
    .serve (.write (helloWorld.drop 8) 3), .serve .readEof, .client (.read (helloWorld.drop 8)),
    .peerAddr true, .client .readEof]

theorem helloRun_passes : ∃ d, run (step helloWorld) (new 8 (by decide) helloWorld) helloRun =
    some d ∧ d.client.outcome helloWorld = some (.ok ⟨11, 11, true, true⟩) := by
  obtain ⟨d, hd, htask, hclient⟩ := Run.exists_of_any (step helloWorld)
    (new 8 (by decide) helloWorld) helloRun (fun d => d.session.task = .ended (.ok ()) ∧
      d.client = ⟨.done (.ok ()), .done (.ok helloWorld)⟩) (by decide)
  refine ⟨d, hd, ((always_passes hd).2 fun a _ => ?_).1⟩
  cases a with
  | accept => simp [step, htask]
  | serve op => simp [step, EchoSession.serve, htask, EchoTask.poll]
  | peerAddr ok => simp [step, EchoSession.peerAddr, htask]
  | client op => cases op <;> simp [step, EchoClient.poll, hclient, WriteData.poll, ReadData.poll]
  | shutdown ok => simp [step, EchoClient.shutdown, hclient]

end EchoDemo

end EnclaveNetworkGateway
