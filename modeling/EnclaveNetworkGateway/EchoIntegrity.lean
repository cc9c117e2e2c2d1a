import EnclaveNetworkGateway.EchoServer

/-!
# Echoes come back complete, in order and to their sender

The way from a client through the task of its connection back to the client is one conduit, to
which only that client adds anything.
-/
namespace EnclaveNetworkGateway

namespace EchoTask

theorem writeAll_conduit (rest : Bytes) : (writeAll rest).conduit = .flow rest := by
  unfold writeAll
  split_ifs with h
  · rw [h]
    rfl
  · rfl

/-- Everything a poll can do to a task. -/
inductive Polled : EchoTask → StreamOp → EchoTask → Prop where
  | read {bs : Bytes} : Polled reading (.read bs) (writeAll bs)
  | readEof : Polled reading .readEof (closing (.ok ()))
  | readErr : Polled reading .readErr (closing (.error "Failed to receive data from client"))
  | write {rest : Bytes} {n : ℕ} : Polled (writing rest) (.write rest n) (writeAll (rest.drop n))
  | writeErr {rest : Bytes} :
    Polled (writing rest) .writeErr (closing (.error "Failed to send data to client"))

theorem polled_of_poll {t t' : EchoTask} {op : StreamOp} (h : t.poll op = some t') :
    Polled t op t' := by
  unfold poll at h
  split at h
  · split_ifs at h
    exact Option.some.inj h ▸ .read
  · exact Option.some.inj h ▸ .readEof
  · exact Option.some.inj h ▸ .readErr
  · split_ifs at h with hoffer
    subst hoffer
    exact Option.some.inj h ▸ .write
  · exact Option.some.inj h ▸ .writeErr
  · simp at h

/-- The task takes over what it reads, and gives away what it writes. -/
theorem Polled.conduit_le {t t' : EchoTask} {op : StreamOp} (h : Polled t op t') :
    .flow op.written * t'.conduit ≤ t.conduit * .flow op.taken := by
  cases h with
  | read => rw [writeAll_conduit]; exact le_refl _
  | readEof | readErr => exact Conduit.cut_nil_le _
  | write =>
    rw [writeAll_conduit]
    simp [StreamOp.written, StreamOp.taken, conduit]
  | writeErr => simp [StreamOp.written, StreamOp.taken, conduit]

end EchoTask

namespace EchoSession

variable {c c' : EchoSession}

/-- All that is still on its way back to the client. -/
def path (c : EchoSession) : Conduit UInt8 :=
  c.stream.conduit .right * (c.task.conduit * c.stream.conduit .left)

/-- What the client has got and what is on its way to it, it has sent. -/
def Faithful (c : EchoSession) : Prop := .flow c.got * c.path ≤ .flow c.sent

theorem faithful_of_le {s : TcpStream} {t : EchoTask} (hc : c.Faithful)
    (hs : ∀ d, s.conduit d ≤ c.stream.conduit d) (ht : t.conduit ≤ c.task.conduit) :
    ({ c with stream := s, task := t } : EchoSession).Faithful := by
  have hpath : s.conduit .right * (t.conduit * s.conduit .left) ≤ c.path :=
    mul_le_mul' (hs .right) (mul_le_mul' ht (hs .left))
  exact (mul_le_mul_right hpath _).trans hc

theorem faithful_serve {op : StreamOp} (hc : c.Faithful) (h : c.serve op = some c') :
    c'.Faithful := by
  obtain ⟨t, ht, hmap⟩ := Option.bind_eq_some_iff.mp h
  obtain ⟨s, hs, rfl⟩ := Option.map_eq_some_iff.mp hmap
  obtain ⟨hright, hleft⟩ := (TcpStream.move_of_io hs).conduit_eq
  rw [Side.other] at hleft
  have hpath : s.conduit .right * (t.conduit * s.conduit .left) ≤ c.path := by
    calc s.conduit .right * (t.conduit * s.conduit .left)
        = c.stream.conduit .right * (.flow op.written * t.conduit * s.conduit .left) := by
          rw [hright]
          simp only [mul_assoc]
      _ ≤ c.stream.conduit .right * (c.task.conduit * .flow op.taken * s.conduit .left) :=
          mul_le_mul_right (mul_le_mul_left (EchoTask.polled_of_poll ht).conduit_le _) _
      _ = c.path := by
          rw [mul_assoc c.task.conduit, hleft]
          rfl
  exact (mul_le_mul_right hpath _).trans hc

theorem faithful_client {op : StreamOp} (hc : c.Faithful) (h : c.client op = some c') :
    c'.Faithful := by
  obtain ⟨s, hs, rfl⟩ := Option.map_eq_some_iff.mp h
  obtain ⟨hleft, hright⟩ := (TcpStream.move_of_io hs).conduit_eq
  rw [Side.other] at hright
  calc .flow (c.got ++ op.taken) * (s.conduit .right * (c.task.conduit * s.conduit .left))
      = .flow c.got * ((.flow op.taken * s.conduit .right) * (c.task.conduit *
          (c.stream.conduit .left * .flow op.written))) := by
        rw [Conduit.flow_append, hleft]
        simp only [mul_assoc]
    _ = .flow c.got * c.path * .flow op.written := by
        rw [path, ← hright]
        simp only [mul_assoc]
    _ ≤ .flow c.sent * .flow op.written := mul_le_mul_left hc _

theorem faithful_step {a : EchoAct} (hc : c.Faithful) (h : c.step a = some c') :
    c'.Faithful := by
  cases a with
  | serve op => exact faithful_serve hc h
  | peerAddr ok =>
    simp only [step, peerAddr] at h
    split at h
    · rename_i ret htask
      have hcut : ∀ t : EchoTask, t.conduit = .cut [] → t.conduit ≤ c.task.conduit :=
        fun t ht => ht ▸ Conduit.cut_nil_le _
      split_ifs at h
      · obtain rfl := Option.some.inj h
        exact faithful_of_le hc (c.stream.drop_conduit_le .right) (hcut _ rfl)
      · obtain rfl := Option.some.inj h
        exact faithful_of_le hc (c.stream.drop_conduit_le .right) (hcut _ rfl)
    · simp at h
  | client op => exact faithful_client hc h
  | clientShutdown =>
    obtain ⟨s, hs, rfl⟩ := Option.map_eq_some_iff.mp h
    obtain rfl := (TcpStream.shutdown_eq hs).2
    exact hc
  | clientDrop =>
    obtain rfl := Option.some.inj h
    exact faithful_of_le hc (c.stream.drop_conduit_le .left) (le_refl _)
  | sever d n =>
    obtain rfl := Option.some.inj h
    exact faithful_of_le hc (c.stream.sever_conduit_le d n) (le_refl _)

theorem faithful_abort (hc : c.Faithful) : c.abort.Faithful := by
  unfold abort
  split
  · exact hc
  · exact hc
  · exact faithful_of_le hc (c.stream.drop_conduit_le .right) (Conduit.cut_nil_le _)

end EchoSession

namespace EchoServer

variable {s : EchoServer} {as : List EchoServerAct} {c : EchoSession}

/-- However many clients there are and whatever they do, each of them gets back a first part of
what it has sent itself. -/
theorem echoes_own (hrun : run step new as = some s) (hc : c ∈ s.sessions) :
    c.got <+: c.sent := by
  have hfaithful : c.Faithful := by
    apply forall_of_run (I := EchoSession.Faithful) ?_ ?_ ?_ ?_ hrun c hc
    · exact fun cap hcap => le_refl _
    · intro c htask h
      apply EchoSession.faithful_of_le h (fun _ => le_refl _)
      rw [htask]
      exact le_refl _
    · exact fun c h => EchoSession.faithful_abort h
    · exact fun c a c' h hstep => EchoSession.faithful_step h hstep
  exact (Conduit.held_prefix_mul _ _).trans (Conduit.held_prefix_of_le hfaithful)

/-- Two clients, the second one of which shuts down its half. -/
def twoClients : List EchoServerAct :=
  [.connect 4 (by decide), .connect 4 (by decide), .session 1 (.client (.write [3, 4] 2)), .accept,
    .session 0 (.client (.write [1, 2] 2)), .accept, .session 1 (.serve (.read [3, 4])),
    .session 0 (.serve (.read [1])), .session 1 (.serve (.write [3, 4] 2)),
    .session 0 (.serve (.write [1] 1)), .session 0 (.client (.read [1])),
    .session 1 (.client (.read [3, 4])), .session 1 .clientShutdown,
    .session 1 (.serve .readEof), .session 1 (.peerAddr true)]

theorem twoClients_echoes : ∃ s, run step new twoClients = some s ∧
    s.sessions.map EchoSession.got = [[1], [3, 4]] ∧ ∀ c ∈ s.sessions, c.got <+: c.sent := by
  obtain ⟨s, hs, hgot⟩ := Run.exists_of_any step new twoClients
    (fun s => s.sessions.map EchoSession.got = [[1], [3, 4]]) (by decide)
  exact ⟨s, hs, hgot, fun c hc => echoes_own hs hc⟩

end EchoServer

/-! ## Echoes come back complete -/

namespace EchoTask

/-- The bytes that the task has read and not written. -/
def held : EchoTask → Bytes
  | writing rest => rest
  | _ => []

theorem writeAll_held (rest : Bytes) : (writeAll rest).held = rest := by
  unfold writeAll
  split_ifs with h
  · exact h.symm
  · rfl

/-- Only a failed write makes the task forget bytes. -/
theorem Polled.held_eq {t t' : EchoTask} {op : StreamOp} (h : Polled t op t')
    (hop : op ≠ .writeErr) : t.held ++ op.taken = op.written ++ t'.held := by
  cases h with
  | read => rw [writeAll_held]; rfl
  | readEof | readErr => rfl
  | write =>
    rw [writeAll_held]
    simp [held, StreamOp.taken, StreamOp.written]
  | writeErr => exact absurd rfl hop

end EchoTask

namespace EchoSession

variable {c c' : EchoSession}

/-- The state of a connection that neither the network nor the client broke: a task leaves its
loop only behind the last byte of the client, and without an error. -/
def InPlace (c : EchoSession) : Prop :=
  match c.task with
  | .backlog | .reading => c.stream.gone .right = false
  | .writing rest => c.stream.gone .right = false ∧ rest ≠ []
  | .closing ret => ret = .ok () ∧ c.stream.spoken .left = true ∧ c.stream.gone .right = false
  | .ended ret => ret = .ok () ∧ c.stream.spoken .left = true
  | .panicked => False
  | .aborted => True

structure Whole (c : EchoSession) : Prop where
  place : c.InPlace
  open_right : c.stream.shut.get .right = false
  total : c.task ≠ .aborted → c.sent =
    c.got ++ (c.stream.unread .right ++ (c.task.held ++ c.stream.unread .left))

/-- Neither the network cut the connection, nor has the client left. -/
def Unbroken (c : EchoSession) : Prop := c.stream.severed = false ∧ c.stream.gone .left = false

theorem new_whole (cap : ℕ) (h : 0 < cap) : (new cap h).Whole := ⟨rfl, rfl, fun _ => rfl⟩

theorem not_lost (hc : c.Unbroken) : c.stream.conn.lost .right = false := by
  rw [TcpStream.lost_of_not_severed hc.1]
  exact hc.2

theorem not_mayFail (hc : c.Unbroken) : c.stream.mayFail .right = false := by
  simp [TcpStream.mayFail, Side.other, hc.1, hc.2]

theorem inPlace_writeAll {t : TcpStream} {sent got rest : Bytes} (h : t.gone .right = false) :
    InPlace ⟨t, .writeAll rest, sent, got⟩ := by
  unfold EchoTask.writeAll
  split_ifs with hrest
  · exact h
  · exact ⟨h, hrest⟩

theorem inPlace_serve {op : StreamOp} {t : EchoTask} {s : TcpStream} {sent got : Bytes}
    (hplace : c.InPlace) (hunbroken : c.Unbroken) (ht : EchoTask.Polled c.task op t)
    (hs : TcpStream.Move c.stream .right op s) : InPlace ⟨s, t, sent, got⟩ := by
  have hgone := hs.gone_eq .right
  unfold InPlace at hplace
  generalize c.task = k at ht hplace
  cases ht with
  | read => exact inPlace_writeAll (hgone.trans hplace)
  | readEof =>
    cases hs with
    | readEof _ hempty hend =>
      have hshut : c.stream.shut.get .left = true := by
        rw [TcpStream.ended_of_not_severed hunbroken.1] at hend
        exact hend.resolve_right (by simp [Side.other, hunbroken.2])
      exact ⟨rfl, (c.stream.spoken_iff .left).mpr ⟨hshut, hempty⟩, hplace⟩
  | readErr =>
    cases hs with
    | readErr hfail => simp [not_mayFail hunbroken] at hfail
  | write => exact inPlace_writeAll (hgone.trans hplace.1)
  | writeErr =>
    cases hs with
    | writeErr hl => simp [not_lost hunbroken] at hl

theorem whole_serve {op : StreamOp} (hc : c.Whole) (hunbroken : c.Unbroken)
    (h : c.serve op = some c') : c'.Whole := by
  obtain ⟨t, ht, hmap⟩ := Option.bind_eq_some_iff.mp h
  obtain ⟨s, hs, rfl⟩ := Option.map_eq_some_iff.mp hmap
  have hpolled := EchoTask.polled_of_poll ht
  have hmove := TcpStream.move_of_io hs
  refine ⟨inPlace_serve hc.place hunbroken hpolled hmove, hmove.shut_eq ▸ hc.open_right,
    fun _ => ?_⟩
  have htask : c.task ≠ .aborted := by
    intro habort
    simp [habort, EchoTask.poll] at ht
  have hop : op ≠ .writeErr := by
    rintro rfl
    cases hmove with
    | writeErr hl => simp [not_lost hunbroken] at hl
  have htaken : c.stream.unread .left = op.taken ++ s.unread .left := hmove.taken_eq
  have hwritten : s.unread .right = c.stream.unread .right ++ op.written :=
    hmove.written_eq (.inr (not_lost hunbroken))
  calc c.sent
      = c.got ++ (c.stream.unread .right ++ ((c.task.held ++ op.taken) ++ s.unread .left)) := by
        rw [hc.total htask, htaken, List.append_assoc c.task.held]
    _ = c.got ++ (s.unread .right ++ (t.held ++ s.unread .left)) := by
        rw [hpolled.held_eq hop, hwritten]
        simp only [List.append_assoc]

theorem whole_peerAddr {ok : Bool} (hc : c.Whole) (hunbroken : c.Unbroken)
    (h : c.peerAddr ok = some c') : c'.Whole := by
  obtain ⟨hplace, hopen, htotal⟩ := hc
  unfold peerAddr at h
  split at h
  · rename_i ret htask
    rw [htask] at htotal
    simp only [InPlace, htask] at hplace
    split_ifs at h with hok hfail
    · obtain rfl := Option.some.inj h
      exact ⟨⟨hplace.1, hplace.2.1⟩, hopen, fun _ => htotal (by simp)⟩
    · simp [not_mayFail hunbroken] at hfail
  · simp at h

/-- A client that has not shut down its half still has a task that reads. -/
theorem Whole.gone_of_open (hc : c.Whole) (hshut : c.stream.shut.get .left = false)
    (htask : c.task ≠ .aborted) : c.stream.gone .right = false := by
  have hplace := hc.place
  unfold InPlace at hplace
  split at hplace
  · exact hplace
  · exact hplace
  · exact hplace.1
  · exact hplace.2.2
  · simp [TcpStream.spoken, hshut] at hplace
  · exact hplace.elim
  · rename_i h
    exact absurd h htask

theorem InPlace.of_stream {s : TcpStream} {sent got : Bytes} (h : c.InPlace)
    (hgone : s.gone .right = c.stream.gone .right)
    (hspoken : c.stream.spoken .left = true → s.spoken .left = true) :
    InPlace ⟨s, c.task, sent, got⟩ := by
  unfold InPlace at h ⊢
  dsimp only
  rw [hgone]
  cases htask : c.task with
  | closing ret =>
    rw [htask] at h
    exact ⟨h.1, hspoken h.2.1, h.2.2⟩
  | ended ret =>
    rw [htask] at h
    exact ⟨h.1, hspoken h.2⟩
  | _ =>
    rw [htask] at h
    exact h

theorem whole_client {op : StreamOp} (hc : c.Whole) (hunbroken : c.Unbroken)
    (h : c.client op = some c') : c'.Whole := by
  obtain ⟨s, hs, rfl⟩ := Option.map_eq_some_iff.mp h
  have hmove := TcpStream.move_of_io hs
  have htaken : c.stream.unread .right = op.taken ++ s.unread .right := hmove.taken_eq
  -- the task of a client that still writes has not dropped the stream
  have hwritten (htask : c.task ≠ .aborted) :
      s.unread .left = c.stream.unread .left ++ op.written := by
    apply hmove.written_eq
    cases hshut : c.stream.shut.get .left with
    | true => exact .inl (hmove.written_of_shut hshut)
    | false =>
      rw [TcpStream.lost_of_not_severed hunbroken.1]
      exact .inr (hc.gone_of_open hshut htask)
  refine ⟨hc.place.of_stream (hmove.gone_eq .right) ?_, hmove.shut_eq ▸ hc.open_right,
    fun htask => ?_⟩
  · intro hspoken
    rw [TcpStream.spoken_iff] at hspoken ⊢
    have hnil := hmove.written_of_shut hspoken.1
    rw [hmove.shut_eq, hmove.written_eq (.inl hnil), hspoken.2, hnil]
    exact ⟨hspoken.1, rfl⟩
  · calc c.sent ++ op.written
        = c.got ++ ((op.taken ++ s.unread .right) ++ (c.task.held ++ c.stream.unread .left)) ++
            op.written := by rw [hc.total htask, htaken]
      _ = (c.got ++ op.taken) ++ (s.unread .right ++ (c.task.held ++ s.unread .left)) := by
          rw [hwritten htask]
          simp only [List.append_assoc]

theorem whole_shutdown (hc : c.Whole) (h : c.step .clientShutdown = some c') : c'.Whole := by
  obtain ⟨s, hs, rfl⟩ := Option.map_eq_some_iff.mp h
  obtain rfl := (TcpStream.shutdown_eq hs).2
  refine ⟨hc.place.of_stream rfl fun hspoken => ?_, hc.open_right, hc.total⟩
  rw [TcpStream.spoken_iff] at hspoken ⊢
  exact ⟨c.stream.shut.get_set .left true, hspoken.2⟩

/-- Nobody can mend a broken connection. -/
theorem unbroken_of_step {a : EchoAct} (h : c.step a = some c') (hc' : c'.Unbroken) :
    c.Unbroken := by
  obtain ⟨hsevered, hgone⟩ := hc'
  cases a with
  | serve op =>
    obtain ⟨t, _, hmap⟩ := Option.bind_eq_some_iff.mp h
    obtain ⟨s, hs, rfl⟩ := Option.map_eq_some_iff.mp hmap
    have hmove := TcpStream.move_of_io hs
    exact ⟨hmove.severed_eq ▸ hsevered, hmove.gone_eq .left ▸ hgone⟩
  | peerAddr ok =>
    simp only [step, peerAddr] at h
    have hleft := c.stream.drop_gone_other .right
    split at h
    · split_ifs at h <;>
      · obtain rfl := Option.some.inj h
        exact ⟨hsevered, hleft ▸ hgone⟩
    · simp at h
  | client op =>
    obtain ⟨s, hs, rfl⟩ := Option.map_eq_some_iff.mp h
    have hmove := TcpStream.move_of_io hs
    exact ⟨hmove.severed_eq ▸ hsevered, hmove.gone_eq .left ▸ hgone⟩
  | clientShutdown =>
    obtain ⟨s, hs, rfl⟩ := Option.map_eq_some_iff.mp h
    obtain rfl := (TcpStream.shutdown_eq hs).2
    exact ⟨hsevered, hgone⟩
  | clientDrop =>
    obtain rfl := Option.some.inj h
    simp at hgone
  | sever d n =>
    obtain rfl := Option.some.inj h
    simp at hsevered

theorem whole_step {a : EchoAct} (hc : c.Unbroken → c.Whole) (h : c.step a = some c') :
    c'.Unbroken → c'.Whole := by
  intro hc'
  have hunbroken := unbroken_of_step h hc'
  cases a with
  | serve op => exact whole_serve (hc hunbroken) hunbroken h
  | peerAddr ok => exact whole_peerAddr (hc hunbroken) hunbroken h
  | client op => exact whole_client (hc hunbroken) hunbroken h
  | clientShutdown => exact whole_shutdown (hc hunbroken) h
  | clientDrop =>
    obtain rfl := Option.some.inj h
    simp [Unbroken] at hc'
  | sever d n =>
    obtain rfl := Option.some.inj h
    simp [Unbroken] at hc'

theorem whole_abort (hc : c.Unbroken → c.Whole) : c.abort.Unbroken → c.abort.Whole := by
  intro hc'
  have hleft := c.stream.drop_gone_other .right
  unfold abort at hc' ⊢
  split at hc' <;> rename_i htask
  · simpa only [htask] using hc hc'
  · simpa only [htask] using hc hc'
  · have hwhole := hc ⟨hc'.1, hleft ▸ hc'.2⟩
    exact ⟨trivial, hwhole.open_right, fun h => absurd rfl h⟩

/-- The end of the stream behind a connection that nobody broke. -/
theorem Whole.got_eq (hc : c.Whole) (hunbroken : c.Unbroken) (htask : c.task ≠ .aborted)
    (heof : c.client .readEof = some c') : c.got = c.sent ∧ c.stream.spoken .left = true := by
  obtain ⟨s, hs, _⟩ := Option.map_eq_some_iff.mp heof
  cases TcpStream.move_of_io hs with
  | readEof hgone hempty hend =>
    rw [Side.other] at hempty hend
    have hright : c.stream.gone .right = true := by
      rw [TcpStream.ended_of_not_severed hunbroken.1] at hend
      exact hend.resolve_left (by simp [hc.open_right])
    have hspoken : c.stream.spoken .left = true ∧ c.task.held = [] := by
      have hplace := hc.place
      unfold InPlace at hplace
      split at hplace <;> simp_all [EchoTask.held]
    rw [hc.total htask, hempty, hspoken.2, ((c.stream.spoken_iff .left).mp hspoken.1).2]
    simp [hspoken.1]

end EchoSession

namespace EchoServer

variable {s : EchoServer} {as : List EchoServerAct} {c c' : EchoSession}

/-- A client that reads the end of the stream has got back everything, and had shut down its half
before; unless it has left the connection, the network has cut it, or the server has exited. -/
theorem echoes_all (hrun : run step new as = some s) (hc : c ∈ s.sessions)
    (hunbroken : c.Unbroken) (htask : c.task ≠ .aborted) (heof : c.client .readEof = some c') :
    c.got = c.sent ∧ c.stream.spoken .left = true := by
  have hwhole : c.Unbroken → c.Whole := by
    apply forall_of_run (I := fun c => c.Unbroken → c.Whole) ?_ ?_ ?_ ?_ hrun c hc
    · exact fun cap hcap _ => EchoSession.new_whole cap hcap
    · intro c hbacklog h hc
      obtain ⟨hplace, hopen, htotal⟩ := h hc
      unfold EchoSession.InPlace at hplace
      rw [hbacklog] at hplace htotal
      exact ⟨hplace, hopen, fun _ => htotal (by simp)⟩
    · exact fun c h => EchoSession.whole_abort h
    · exact fun c a c' h hstep => EchoSession.whole_step h hstep
  exact (hwhole hunbroken).got_eq hunbroken htask heof

theorem twoClients_echoes_all : ∃ s c c', run step new twoClients = some s ∧ c ∈ s.sessions ∧
    c.client .readEof = some c' ∧ c.sent = [3, 4] ∧ c.got = c.sent := by
  obtain ⟨s, hs, c, hc, ⟨⟨hsevered, hgone⟩, htask⟩, hsent, heof⟩ :=
    Run.exists_of_any step new twoClients (fun s => ∃ c ∈ s.sessions,
      ((c.stream.severed = false ∧ c.stream.gone .left = false) ∧ c.task ≠ .aborted) ∧
        c.sent = [3, 4] ∧ (c.client .readEof).isSome = true) (by decide)
  obtain ⟨c', hc'⟩ := Option.isSome_iff_exists.mp heof
  exact ⟨s, c, c', hs, hc, hc', hsent, (echoes_all hs hc ⟨hsevered, hgone⟩ htask hc').1⟩

end EchoServer

end EnclaveNetworkGateway
