import Mstd.TftpRetry
import Mstd.TftpStep
import Mstd.TftpStore
/-!
# Whose packets a session takes, and who gets its own

The server has one peer, `m_client`, and every `recvfrom` overwrites it.  So a session belongs to the client that opened
it as long as no other client sends a packet that the session answers as its own (`sessions_apart`).
-/
namespace Mstd.Tftp

variable {σ : Type}

/-- The client of the session that runs behind this step: a datagram that `parse_rq` gets opens one for its sender. -/
def opener (H : Handler σ) (s : Srv σ) (owner : Addr) : Recv → Addr
  | .timeout => owner
  | .packet src data =>
    match s.mode with
    | .idle      => src
    | .writing n =>
      match processWriteBody H (recvFrom s (.packet src data)) n with
      | .finish _ result => if result ≤ 0 then owner else src
      | _                => owner
    | _ => owner

/-- **What the running session answers as its own**: a DATA packet, or a request before the first block, in a write
session; in a read session every datagram but those that end it, the ACK of the last block and any other behind the third
try. -/
def SessionTakes (s : Srv σ) (src : Addr) (data : Datagram) : Prop :=
  match s.mode with
  | .writing n =>
    word16 (recvFrom s (.packet src data)).buffer.bytes 0 = TFTP_CMD_DATA ∨
      word16 (recvFrom s (.packet src data)).buffer.bytes 0 = TFTP_CMD_WRQ ∧ n = 1
  | .reading n r => if acked n (.packet src data) then (TFTP_DATA_SIZE - 4 : Nat) ≤ s.dataSize else r + 1 < 3
  | _            => False

instance (s : Srv σ) (src : Addr) (data : Datagram) : Decidable (SessionTakes s src data) := by
  unfold SessionTakes
  cases s.mode <;> infer_instance

/-- Another client's packet that the session answers. -/
def Intrudes (s : Srv σ) (owner : Addr) : Recv → Prop
  | .timeout         => False
  | .packet src data => src ≠ owner ∧ SessionTakes s src data

instance (s : Srv σ) (owner : Addr) : (e : Recv) → Decidable (Intrudes s owner e)
  | .timeout         => inferInstanceAs (Decidable False)
  | .packet src data => inferInstanceAs (Decidable (src ≠ owner ∧ SessionTakes s src data))

/-- An ACK or a DATA packet. -/
def OfSession (d : Datagram) : Prop := word16 d 0 = TFTP_CMD_ACK ∨ word16 d 0 = TFTP_CMD_DATA

instance (d : Datagram) : Decidable (OfSession d) := by unfold OfSession; infer_instance

/-- What a step sends. -/
def sentIn (H : Handler σ) (s : Srv σ) (e : Recv) : List (Addr × Datagram) := (step H s e).out.drop s.out.length

/-- The block that a step sends, when it gets to a wait for its ACK: the last packet, whatever an error has left of its
opcode in `m_buffer`. -/
def blockIn (H : Handler σ) (s : Srv σ) (e : Recv) : Option (Addr × Datagram) :=
  match (step H s e).mode with
  | .reading _ _ => (sentIn H s e).getLast?
  | _            => none

/-- The ACK packets, the DATA packets and the block of a step go to the client of the session. -/
def AnswersOwner (H : Handler σ) (s : Srv σ) (owner : Addr) (e : Recv) : Prop :=
  ∀ p ∈ sentIn H s e, OfSession p.2 ∨ some p = blockIn H s e → p.1 = opener H s owner e

instance (H : Handler σ) (s : Srv σ) (owner : Addr) (e : Recv) : Decidable (AnswersOwner H s owner e) := by
  unfold AnswersOwner
  infer_instance

/-- Every step of the run has a property of the state before it and the client of the session. -/
def AllSteps (P : Srv σ → Addr → Recv → Prop) (H : Handler σ) : Srv σ → Addr → List Recv → Prop
  | _, _, []          => True
  | s, owner, e :: es => P s owner e ∧ AllSteps P H (step H s e) (opener H s owner e) es

instance AllSteps.decidable {P : Srv σ → Addr → Recv → Prop} [∀ s owner e, Decidable (P s owner e)] (H : Handler σ) :
    (s : Srv σ) → (owner : Addr) → (es : List Recv) → Decidable (AllSteps P H s owner es)
  | _, _, []          => inferInstanceAs (Decidable True)
  | s, owner, e :: es =>
    have := AllSteps.decidable (P := P) H (step H s e) (opener H s owner e) es
    inferInstanceAs (Decidable (P s owner e ∧ AllSteps P H (step H s e) (opener H s owner e) es))

/-- The server between sessions, with no session in its history. -/
def Srv.fresh (s : Srv σ) : Srv σ := { s with mode := .idle, hist := [] }

/-- **The blocks of a session are from its client**, and the running session is the owner's. -/
structure Owned (s : Srv σ) (owner : Addr) : Prop where
  blocks : ∀ session ∈ s.hist, ∀ b ∈ session.blocks, b.src = session.peer
  running : ∀ n, s.mode = .writing n → ∃ cur rest, s.hist = cur :: rest ∧ cur.peer = owner
  served : ∀ n r, s.mode = .reading n r → s.client = owner

/-! ## Packets that are neither -/

theorem not_ofSession_error (rest : List UInt8) : ¬ OfSession (be16 TFTP_CMD_ERROR ++ rest) := by
  have hfront : be16 TFTP_CMD_ERROR ++ rest = 0 :: 5 :: rest := rfl
  rw [hfront]
  simp [OfSession, word16, TFTP_CMD_ACK, TFTP_CMD_DATA]

section

variable (H : Handler σ) {s : Srv σ} {owner : Addr}

theorem opener_reading {n r : Nat} (hmode : s.mode = .reading n r) (owner : Addr) (e : Recv) :
    opener H s owner e = owner := by
  cases e with
  | timeout => rfl
  | packet src data => rw [opener, hmode]

theorem mem_sentIn {e : Recv} {p : Addr × Datagram} (hp : p ∈ sentIn H s e) : p.1 = (heard s e).client := by
  obtain ⟨packets, hout, hpackets⟩ := step_out H s e
  rw [sentIn, hout, List.drop_left' rfl] at hp
  exact hpackets p hp

/-- A wait sends an error packet at most. -/
theorem waitForAck_packets (s : Srv σ) (n : Nat) (e : Recv) :
    ∃ packets, (waitForAck s n e).1.out = s.out ++ packets ∧ ∀ p ∈ packets, ¬ OfSession p.2 := by
  have herror (t : Srv σ) : ∀ p ∈ [(t.client, be16 TFTP_CMD_ERROR ++ be16 ERR_NOT_DEFINED ++ ascii "incorrect ack" ++ [0])],
      ¬ OfSession p.2 := fun p hp => by
    rw [List.mem_singleton.1 hp]
    exact not_ofSession_error _
  have hnone : ∃ packets, s.out = s.out ++ packets ∧ ∀ p ∈ packets, ¬ OfSession p.2 :=
    ⟨[], (List.append_nil _).symm, fun _ hp => absurd hp List.not_mem_nil⟩
  cases e with
  | timeout => exact ⟨_, rfl, herror s⟩
  | packet src data =>
    unfold waitForAck
    simp only
    split
    · exact ⟨_, rfl, herror { s with client := src }⟩
    · split <;> exact hnone

/-- **A datagram that the read session does not answer** ends it, behind an error packet at most. -/
theorem reading_ends {n r : Nat} (hmode : s.mode = .reading n r) {src : Addr} {data : Datagram}
    (h : ¬ SessionTakes s src data) :
    (∀ m q, (step H s (.packet src data)).mode ≠ .reading m q) ∧ ∀ p ∈ sentIn H s (.packet src data), ¬ OfSession p.2 := by
  obtain ⟨packets, hout, hpackets⟩ := waitForAck_packets s n (.packet src data)
  obtain ⟨hsize, hacked, -⟩ := waitForAck_spec s n (.packet src data)
  rw [SessionTakes, hmode] at h
  simp only at h
  obtain ⟨result, hread⟩ : ∃ result, processReadAck H s n r (.packet src data) =
      .finish (waitForAck s n (.packet src data)).1 result := by
    unfold processReadAck
    by_cases hack : acked n (.packet src data) = true
    · rw [if_pos hack, Int.not_le, ← hsize] at h
      exact ⟨0, by simp only [hacked.2 hack, h, if_true]⟩
    · rw [if_neg hack] at h
      exact ⟨-1, by simp only [mt hacked.1 hack, h, if_false]⟩
  have hstep : (∀ m q, (step H s (.packet src data)).mode ≠ .reading m q) ∧
      (step H s (.packet src data)).out = (waitForAck s n (.packet src data)).1.out := by
    rw [step_reading H _ hmode, hread, afterRead]
    cases H.onClose (waitForAck s n (.packet src data)).1.app <;> exact ⟨fun _ _ hm => (by cases hm), rfl⟩
  refine ⟨hstep.1, fun p hp => ?_⟩
  rw [sentIn, hstep.2, hout, List.drop_left' rfl] at hp
  exact hpackets p hp

/-- Behind a step of a read session that goes on, the client is who was heard last. -/
theorem client_reading {n r : Nat} (hmode : s.mode = .reading n r) {e : Recv} {m q : Nat}
    (h : (step H s e).mode = .reading m q) : (step H s e).client = (heard s e).client := by
  rw [step_reading H e hmode] at h ⊢
  obtain ⟨-, hr⟩ | hr := afterRead_sends H s (processReadAck_sends H s n r e)
  · rw [hr] at h
    cases h
  · exact hr.client

/-- **Without an intruder a step answers the client of the session.** -/
theorem answersOwner_step (hown : Owned s owner) {e : Recv} (he : ¬ Intrudes s owner e) : AnswersOwner H s owner e := by
  intro p hp hof
  have hclient := mem_sentIn H hp
  have hnone : (step H s e).out = s.out → False := fun hout => by
    rw [sentIn, hout, List.drop_length] at hp
    cases hp
  cases hmode : s.mode with
  | idle =>
    cases e with
    | timeout => exact (hnone (by rw [step_idle H _ hmode]; rfl)).elim
    | packet src data => rw [hclient, opener, hmode]; rfl
  | writing n =>
    cases e with
    | timeout =>
      refine (hnone ?_).elim
      rw [step_writing H _ hmode, body_timeout]
      exact (afterWrite_closed H (recvFrom s .timeout) (by decide)).2.2
    | packet src data =>
      rw [hclient, opener, hmode]
      show src = _
      by_cases hsrc : src = owner
      · subst hsrc
        simp only
        split
        · split <;> rfl
        · rfl
      · -- what is left is a packet that ends the session, and `parse_rq` gets it
        simp only [Intrudes, SessionTakes, hmode, hsrc, ne_eq, not_false_eq_true, true_and, not_or, not_and] at he
        have hfinish := body_foreign H (s := recvFrom s (.packet src data)) (n := n) (Int.natCast_nonneg _) he.1
          (fun h => he.2 h.1 h.2)
        simp only [hfinish]
        rw [if_neg (by decide)]
  | reading n r =>
    rw [hclient, opener_reading H hmode]
    cases e with
    | timeout => exact hown.served n r hmode
    | packet src data =>
      by_contra hne
      obtain ⟨hends, hpackets⟩ := reading_ends H hmode (fun htakes => he ⟨hne, htakes⟩)
      rcases hof with hof | hblock
      · exact hpackets p hp hof
      · unfold blockIn at hblock
        split at hblock
        · exact hends _ _ ‹_›
        · cases hblock
  | hung | stopped | fault => exact (hnone (by rw [step, hmode])).elim

theorem owned_recordResult {hist : List (Session σ)} (h : ∀ session ∈ hist, ∀ b ∈ session.blocks, b.src = session.peer)
    (result : Int) : ∀ session ∈ recordResult result hist, ∀ b ∈ session.blocks, b.src = session.peer := by
  cases hist with
  | nil => exact h
  | cons cur rest =>
    intro session hs
    rcases List.mem_cons.1 hs with rfl | hs
    · exact h cur (List.mem_cons_self ..)
    · exact h session (List.mem_cons_of_mem _ hs)

/-- The owner's block goes to the owner's session. -/
theorem Owned.record {cur : Session σ} {rest : List (Session σ)}
    (h : ∀ session ∈ cur :: rest, ∀ b ∈ session.blocks, b.src = session.peer) {b : Block} (hb : b.src = cur.peer) :
    ∀ session ∈ recordBlock b (cur :: rest), ∀ b ∈ session.blocks, b.src = session.peer := by
  intro session hs
  rcases List.mem_cons.1 hs with rfl | hs
  · intro b' hb'
    rcases List.mem_append.1 hb' with hb' | hb'
    · exact h cur (List.mem_cons_self ..) b' hb'
    · rw [List.mem_singleton.1 hb', hb]
  · exact h session (List.mem_cons_of_mem _ hs)

theorem owned_open {hist : List (Session σ)} (h : ∀ session ∈ hist, ∀ b ∈ session.blocks, b.src = session.peer) (c : Addr)
    (file : List UInt8) (asked : σ) :
    ∀ session ∈ Session.start c file asked :: hist, ∀ b ∈ session.blocks, b.src = session.peer := by
  intro session hs
  rcases List.mem_cons.1 hs with rfl | hs
  · exact fun b hb => by cases hb
  · exact h session hs

/-- Without an intruder a block is recorded behind the owner's DATA packet only. -/
theorem Owned.passes (h : Owned s owner) {n : Nat} (hmode : s.mode = .writing n) {src : Addr} {data : Datagram}
    (he : ¬ Intrudes s owner (.packet src data)) {t : Srv σ} (ht : Passes (recvFrom s (.packet src data)) t) :
    (∀ session ∈ t.hist, ∀ b ∈ session.blocks, b.src = session.peer) ∧
      ∃ cur rest, t.hist = cur :: rest ∧ cur.peer = owner := by
  obtain ⟨cur, rest, hcur, hpeer⟩ := h.running n hmode
  obtain ⟨-, -, hhist, -⟩ := recvFrom_fields s (.packet src data)
  obtain hh | ⟨hcode, b, hb, hh⟩ := ht.hist
  · rw [hh, hhist]
    exact ⟨h.blocks, cur, rest, hcur, hpeer⟩
  · have hsrc : src = owner := by
      by_contra hne
      refine he ⟨hne, ?_⟩
      rw [SessionTakes, hmode]
      exact Or.inl hcode
    have hblocks := h.blocks
    rw [hcur] at hblocks
    rw [hh, hhist, hcur]
    exact ⟨Owned.record hblocks (hb.trans (hsrc.trans hpeer.symm)), _, rest, rfl, hpeer⟩

/-- The end of a write session, and the session that the sender of its last packet may open. -/
theorem owned_afterWrite {t : Srv σ} (h : ∀ session ∈ t.hist, ∀ b ∈ session.blocks, b.src = session.peer)
    (owner : Addr) (result : Int) : Owned (afterWrite H t result) (if result ≤ 0 then owner else t.client) := by
  have hrec := owned_recordResult h result
  by_cases hle : result ≤ 0
  · rw [if_pos hle]
    obtain ⟨hclosed, hh, -⟩ := afterWrite_closed H t hle
    refine ⟨by rw [hh]; exact hrec, fun m hm => ?_, fun m q hm => ?_⟩ <;>
      rcases hclosed with hc | hc <;> cases hc.symm.trans hm
  · rw [if_neg hle]
    obtain ⟨hclient, -, ⟨hh, hnot⟩ | ⟨⟨file, asked, hh⟩, -⟩⟩ := afterWrite_sends H t result
    · exact ⟨by rw [hh]; exact hrec, fun m hm => absurd hm (hnot m), fun _ _ _ => hclient⟩
    · exact ⟨by rw [hh]; exact owned_open hrec t.client file asked, fun m _ => ⟨_, _, hh, rfl⟩, fun _ _ _ => hclient⟩

/-- **Without an intruder a step keeps the sessions apart.** -/
theorem Owned.step (h : Owned s owner) {e : Recv} (he : ¬ Intrudes s owner e) :
    Owned (step H s e) (opener H s owner e) := by
  cases hmode : s.mode with
  | idle =>
    cases e with
    | timeout =>
      rw [step_idle H _ hmode, if_pos (show (recvFrom s .timeout).dataSize < 0 from Int.negSucc_lt_zero 0)]
      exact ⟨h.blocks, fun n hm => (by cases hmode.symm.trans hm), fun n r hm => (by cases hmode.symm.trans hm)⟩
    | packet src data =>
      rw [step_idle_packet H hmode, opener, hmode]
      obtain ⟨hclient, -, ⟨hp, hnot⟩ | ⟨⟨file, hp⟩, -⟩⟩ := parseRq_sends H (recvFrom s (.packet src data)) (-1)
      · exact ⟨by rw [hp]; exact h.blocks, fun n hm => absurd hm (hnot n), fun _ _ _ => hclient⟩
      · exact ⟨by rw [hp]; exact owned_open h.blocks src file s.app, fun n _ => ⟨_, _, hp, rfl⟩, fun _ _ _ => hclient⟩
  | reading n r =>
    rw [opener_reading H hmode]
    refine ⟨?_, fun m hm => absurd hm ((reading_step_mode H s hmode e).not_writing m), fun m q hm => ?_⟩
    · rw [step_reading H e hmode]
      obtain ⟨-, hr⟩ | hr := afterRead_sends H s (processReadAck_sends H s n r e)
      · rw [hr]
        exact h.blocks
      · rw [hr.hist]
        cases e <;> exact h.blocks
    · rw [client_reading H hmode hm]
      cases e with
      | timeout => exact h.served n r hmode
      | packet src data =>
        by_contra hne
        exact (reading_ends H hmode (fun htakes => he ⟨hne, htakes⟩)).1 m q hm
  | hung | stopped | fault =>
    rw [Tftp.step, hmode]
    exact ⟨h.blocks, fun n hm => (by cases hmode.symm.trans hm), fun n r hm => (by cases hmode.symm.trans hm)⟩
  | writing n =>
    rw [step_writing H e hmode]
    cases e with
    | timeout =>
      rw [body_timeout]
      have hend := owned_afterWrite H (t := recvFrom s .timeout) h.blocks owner (-1)
      rwa [if_pos (by decide)] at hend
    | packet src data =>
      have hbody := processWriteBody_passes H (recvFrom s (.packet src data)) n
      rw [opener, hmode]
      simp only
      cases hb : processWriteBody H (recvFrom s (.packet src data)) n with
      | fault => exact ⟨h.blocks, fun m hm => (by cases hm), fun m q hm => (by cases hm)⟩
      | again t m =>
        rw [hb] at hbody
        obtain ⟨hblocks, hrunning⟩ := h.passes hmode he hbody
        exact ⟨hblocks, fun _ _ => hrunning, fun m q hm => by cases hm⟩
      | finish t result =>
        rw [hb] at hbody
        have hend := owned_afterWrite H (h.passes hmode he hbody).1 owner result
        rwa [show t.client = src from hbody.client] at hend

end

theorem Owned.run (H : Handler σ) : ∀ (es : List Recv) {s : Srv σ} {owner : Addr}, Owned s owner →
    AllSteps (fun s owner e => ¬ Intrudes s owner e) H s owner es →
    AllSteps (AnswersOwner H) H s owner es ∧
      ∀ session ∈ (run H s es).hist, ∀ b ∈ session.blocks, b.src = session.peer
  | [], _, _, h, _ => ⟨trivial, h.blocks⟩
  | e :: es, s, owner, h, hrun => by
    obtain ⟨hanswers, hblocks⟩ := Owned.run H es (h.step H hrun.1) hrun.2
    exact ⟨⟨answersOwner_step H h hrun.1, hanswers⟩, hblocks⟩

/-- **Sessions of different clients stay apart**, in every run in which no client sends a packet that another client's
session answers as its own: the blocks of a session are from the client that opened it, and the ACK and DATA packets of
a session, among them every block that `process_read` sends, go to that client. -/
theorem sessions_apart (H : Handler σ) (s : Srv σ) (owner : Addr) (es : List Recv)
    (hrun : AllSteps (fun s owner e => ¬ Intrudes s owner e) H s.fresh owner es) :
    AllSteps (AnswersOwner H) H s.fresh owner es ∧
      ∀ session ∈ (run H s.fresh es).hist, ∀ b ∈ session.blocks, b.src = session.peer :=
  Owned.run H es ⟨fun _ hs => (by cases hs), fun _ hm => (by cases hm), fun _ _ hm => (by cases hm)⟩ hrun

/-- Two uploads, the second of which ends the first. -/
def twoUploads : List Recv :=
  [.packet 1 (xrqPacket TFTP_CMD_WRQ cfgName), .packet 1 (dataBytes 1 (List.replicate 512 7)),
    .packet 2 (xrqPacket TFTP_CMD_WRQ cfgName), .packet 2 (dataBytes 1 [8])]

theorem sessions_apart_two :
    AllSteps (AnswersOwner (otaServer stockEnv)) (otaServer stockEnv) (stockServer loadedStore []).fresh 0 twoUploads ∧
      ∀ session ∈ (run (otaServer stockEnv) (stockServer loadedStore []).fresh twoUploads).hist,
        ∀ b ∈ session.blocks, b.src = session.peer :=
  sessions_apart (otaServer stockEnv) (stockServer loadedStore []) 0 twoUploads (by decide +kernel)

/-- Another client's block goes into the session of an upload, and the block of a download to a client that sends an
ACK with a wrong number, or three bytes. -/
theorem sessions_mixed :
    (¬ ∀ session ∈ (run (otaServer stockEnv) (stockServer loadedStore []).fresh
      [.packet 1 (xrqPacket TFTP_CMD_WRQ cfgName), .packet 2 (dataBytes 1 [8])]).hist,
      ∀ b ∈ session.blocks, b.src = session.peer) ∧
    (¬ AllSteps (AnswersOwner (otaServer stockEnv)) (otaServer stockEnv) servedServer.fresh 0
      [.packet 1 (xrqPacket TFTP_CMD_RRQ cfgName), .packet 2 (ackPacket 9)]) ∧
    ¬ AllSteps (AnswersOwner (otaServer stockEnv)) (otaServer stockEnv) servedServer.fresh 0
      [.packet 1 (xrqPacket TFTP_CMD_RRQ cfgName), .packet 2 [1, 2, 3]] := by
  refine ⟨?_, ?_, ?_⟩ <;> decide +kernel

end Mstd.Tftp
