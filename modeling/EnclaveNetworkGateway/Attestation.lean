import EnclaveNetworkGateway.EntgMainRun

/-!
# The two ends of a hop

Where both ends of a connection ask for rats-tls, the server proves what the client verifies:
on the way from an ENTA to its ENTG and between two ENTGs.
-/
namespace EnclaveNetworkGateway

/-- A part of a poll, or a step of a blocking task. -/
inductive AwaitAct where
  | advance (ev : PollEvent)
  | background (a : SessionAct)
  deriving DecidableEq, Repr

namespace StreamTask

/-- `connect_to_entg(…).await?` in `run` of ENTA, which awaits nothing else meanwhile. -/
def await (a : GetStream) (t : StreamTask) : AwaitAct → Option StreamTask
  | .advance ev => (t.advance a ev).map fun r =>
    match r.2 with
    | .ready (.ok st) => r.1.store st
    | _ => r.1
  | .background b => t.background b

theorem Shape.of_await {a : GetStream} {t t' : StreamTask} {act : AwaitAct} (ht : Shape a t)
    (h : t.await a act = some t') : Shape a t' := by
  cases act with
  | advance ev =>
    obtain ⟨⟨u, p⟩, hadv, rfl⟩ := Option.map_eq_some_iff.mp h
    have hsettles := ht.settles hadv
    cases p with
    | going => exact hsettles
    | ready r => cases r <;> exact hsettles
    | panicked => exact absurd hsettles id
  | background b => exact ht.of_background h

theorem shape_of_await {a : GetStream} {as : List AwaitAct} {t : StreamTask}
    (hrun : run (await a) new as = some t) : Shape a t :=
  Run.invariant (fun _ _ _ ht hstep => ht.of_await hstep) .start hrun

end StreamTask

open RatsTls (RatsTlsConf TypeField)

/-- What the library reads at the two ends: one server and one client, with the same TLS
wrapper and crypto wrapper, and the attester of the server is what the client verifies. -/
structure Complementary (server client : RatsTlsConf) : Prop where
  flags : server.flags = RatsTls.confFlagsServer ∧ client.flags = 0
  tls : ∀ pad pad', cString (server.image pad) TypeField.tls.offset = some (utf8 "openssl") ∧
    cString (client.image pad') TypeField.tls.offset = some (utf8 "openssl")
  crypto : ∀ pad pad', cString (server.image pad) TypeField.crypto.offset =
    cString (client.image pad') TypeField.crypto.offset
  attested : ∀ pad pad', cString (server.image pad) TypeField.attester.offset =
    some (utf8 "sgx_ecdsa") ∧
      cString (client.image pad') TypeField.verifier.offset = some (utf8 "sgx_ecdsa")
  oneWay : ∀ pad pad', cString (server.image pad) TypeField.verifier.offset =
    some (utf8 "nullverifier") ∧
      cString (client.image pad') TypeField.attester.offset = some (utf8 "nullattester")

namespace EntgMain

open StreamTask

theorem complementary_of_asAsked {a b : GetStream} {t u : StreamTask} (ha : AsAsked a t)
    (hb : AsAsked b u) (hra : a.ratsTls = true) (hrb : b.ratsTls = true)
    (hserver : a.isServer = true) (hclient : b.isServer = false) :
    ∃ c d, t.conf = some c ∧ u.conf = some d ∧ Complementary c d := by
  rw [AsAsked, if_pos hra] at ha
  rw [AsAsked, if_pos hrb] at hb
  obtain ⟨_, s, c, _, hc, _, hflags, hread⟩ := ha
  obtain ⟨_, s', d, _, hd, _, hflags', hread'⟩ := hb
  rw [hserver] at hflags hread
  rw [hclient] at hflags' hread'
  refine ⟨c, d, hc, hd, ⟨hflags, hflags'⟩, ?_, ?_, ?_, ?_⟩
  · exact fun pad pad' => ⟨hread pad .tls, hread' pad' .tls⟩
  · exact fun pad pad' => (hread pad .crypto).trans (hread' pad' .crypto).symm
  · exact fun pad pad' => ⟨hread pad .attester, hread' pad' .verifier⟩
  · exact fun pad pad' => ⟨hread pad .verifier, hread' pad' .attester⟩

theorem asAsked_of_forward {args : EntgArgs} {as : List EntgAct} {m : EntgMain} {g : Entg}
    (hrun : run (step args) new as = some m) (hstage : m.stage = .forward g) (d : Side) :
    AsAsked (args.call d) (m.tasks.get d) := by
  have hs := sound_of_run hrun
  have hfits := hs.fits
  rw [hstage] at hfits
  exact asAsked_of_shape (hs.shape d) (hfits.2 d)

/-- An ENTG that forwards, an ENTA that has got its stream, and another ENTG that forwards and
was told to connect: wherever both ends of a hop ask for rats-tls, what they have negotiated
with fits together. -/
theorem hops_complementary {args args' : EntgArgs} {as as' : List EntgAct} {m m' : EntgMain}
    {g g' : Entg} {entgConnect : String} {entgRatsTls : Bool} {bs : List AwaitAct} {t : StreamTask}
    (hrun : run (step args) new as = some m) (hstage : m.stage = .forward g)
    (hrun' : run (step args') new as' = some m') (hstage' : m'.stage = .forward g')
    (henta : run (await (connectToEntg entgConnect entgRatsTls)) StreamTask.new bs = some t)
    (hstream : t.stream.isSome = true) :
    (args.entaRatsTls = true → entgRatsTls = true → ∃ c d,
      (m.tasks.get .left).conf = some c ∧ t.conf = some d ∧ Complementary c d) ∧
    (args.entgConnect = none → args'.entgConnect.isSome = true → args.entgRatsTls = true →
      args'.entgRatsTls = true → ∃ c d, (m.tasks.get .right).conf = some c ∧
        (m'.tasks.get .right).conf = some d ∧ Complementary c d) := by
  constructor
  · intro hserver hclient
    have hasked := asAsked_of_shape (shape_of_await henta) hstream
    exact complementary_of_asAsked (asAsked_of_forward hrun hstage .left) hasked hserver hclient
      rfl rfl
  · intro hlisten hconnect hserver hclient
    refine complementary_of_asAsked (asAsked_of_forward hrun hstage .right)
      (asAsked_of_forward hrun' hstage' .right) hserver hclient ?_ ?_
    · simp [EntgArgs.call, getEntgStream, hlisten]
    · obtain ⟨addr, haddr⟩ := Option.isSome_iff_exists.mp hconnect
      simp [EntgArgs.call, getEntgStream, haddr]

/-- From the connection to the value of the future. -/
def upgrading (d : Side) : List EntgAct :=
  [.advance (.peerAddr true), .advance (.ratsTls 0 0), .advance (.negotiate (.intoStd true)),
    .advance (.negotiate (.setNonblocking true)), .advance (.negotiate .spawn), .pend,
    .background d (.negotiator .call), .background d (.negotiator (.ret true)),
    .background d (.negotiator .drop), .poll d, .advance (.negotiate .join),
    .advance (.negotiate .spawn), .advance (.negotiate .spawn), .loop]

def listeningRun : List EntgAct :=
  [.loop, .poll .left, .advance (.bind true), .advance (.accept true)] ++ upgrading .left ++
    [.poll .right, .advance (.bind true), .advance (.accept true)] ++ upgrading .right ++ [.unwrap]

def connectingRun : List EntgAct :=
  [.loop, .poll .right, .advance .connect, .advance (.connected true)] ++ upgrading .right ++
    [.poll .left, .advance (.bind true), .advance (.accept true), .advance (.peerAddr true),
      .loop, .unwrap]

def entaRun : List AwaitAct :=
  [.advance .connect, .advance (.connected true), .advance (.peerAddr true),
    .advance (.ratsTls 0 0), .advance (.negotiate (.intoStd true)),
    .advance (.negotiate (.setNonblocking true)), .advance (.negotiate .spawn),
    .background (.negotiator .call), .background (.negotiator (.ret true)),
    .background (.negotiator .drop), .advance (.negotiate .join), .advance (.negotiate .spawn),
    .advance (.negotiate .spawn)]

theorem listeningRun_complementary : ∃ m m' t,
    run (step ⟨none, 6979, 6980, true, true⟩) new listeningRun = some m ∧
    run (step ⟨some "172.17.0.1:6979", 6979, 6980, true, false⟩) new connectingRun = some m' ∧
    run (await (connectToEntg "127.0.0.1:6980" true)) StreamTask.new entaRun = some t ∧
    (∃ c d, (m.tasks.get .left).conf = some c ∧ t.conf = some d ∧ Complementary c d) ∧
    ∃ c d, (m.tasks.get .right).conf = some c ∧ (m'.tasks.get .right).conf = some d ∧
      Complementary c d := by
  obtain ⟨m, hm, hstage⟩ := Run.exists_of_any (step ⟨none, 6979, 6980, true, true⟩) new
    listeningRun (fun m => m.stage = .forward .new) (by decide)
  obtain ⟨m', hm', hstage'⟩ := Run.exists_of_any
    (step ⟨some "172.17.0.1:6979", 6979, 6980, true, false⟩) new connectingRun
    (fun m => m.stage = .forward .new) (by decide)
  obtain ⟨t, ht, hstream⟩ := Run.exists_of_any (await (connectToEntg "127.0.0.1:6980" true))
    StreamTask.new entaRun (fun t => t.stream.isSome = true) (by decide)
  obtain ⟨henta, hentg⟩ := hops_complementary hm hstage hm' hstage' ht hstream
  exact ⟨m, m', t, hm, hm', ht, henta rfl rfl, hentg rfl rfl rfl rfl⟩

end EntgMain

end EnclaveNetworkGateway
