import Mstd.Tftp
/-!
# What a step of the server does, whatever its handler

Between two `recvfrom` calls the server sends to the peer of the last datagram only (`step_out`).  A block goes to the
session at the head of the history, and a session that has ended stays as it is (`step_keeps_ended`).
-/
namespace Mstd.Tftp

variable {σ : Type}

/-- The peer of the last datagram. -/
def heard (s : Srv σ) : Recv → Srv σ
  | .timeout      => s
  | .packet src _ => { s with client := src }

/-- `t` is `s` with some packets sent to its client. -/
structure SendsOnly (s t : Srv σ) : Prop where
  client : t.client = s.client
  hist : t.hist = s.hist
  out : ∃ packets, t.out = s.out ++ packets ∧ ∀ p ∈ packets, p.1 = s.client

namespace SendsOnly

variable {s t u : Srv σ}

theorem refl (s : Srv σ) : SendsOnly s s := ⟨rfl, rfl, [], (List.append_nil _).symm, fun _ h => by cases h⟩

theorem trans (h : SendsOnly s t) (h' : SendsOnly t u) : SendsOnly s u := by
  obtain ⟨ps, hout, hps⟩ := h.out
  obtain ⟨qs, hout', hqs⟩ := h'.out
  refine ⟨h'.client.trans h.client, h'.hist.trans h.hist, ps ++ qs, by rw [hout', hout, List.append_assoc], ?_⟩
  intro p hp
  rcases List.mem_append.1 hp with hp | hp
  · exact hps p hp
  · rw [hqs p hp, h.client]

theorem one (hclient : t.client = s.client) (hhist : t.hist = s.hist) {d : Datagram}
    (hout : t.out = s.out ++ [(s.client, d)]) : SendsOnly s t :=
  ⟨hclient, hhist, _, hout, fun p hp => by rw [List.mem_singleton.1 hp]⟩

theorem sendTo (s : Srv σ) (d : Datagram) : SendsOnly s (sendTo s d) := one rfl rfl rfl

theorem sendError (s : Srv σ) (code : Nat) (message : String) : SendsOnly s (sendError s code message) :=
  one rfl rfl rfl

end SendsOnly

/-- A property of the state that the loop of `process_read` leaves. -/
def ReadLoop.All (P : Srv σ → Prop) : ReadLoop σ → Prop
  | .wait s     => P s
  | .finish s _ => P s
  | .fault      => True

section

variable (H : Handler σ) (s : Srv σ)

theorem processReadTop_sends (n : Nat) : (processReadTop H s n).All (SendsOnly s) := by
  unfold processReadTop
  simp only
  cases H.onReadData (TFTP_DATA_SIZE - 4 : Nat) s.app with
  | none => trivial
  | some r =>
    obtain ⟨ret, data, app⟩ := r
    simp only
    split <;> exact SendsOnly.one rfl rfl rfl

theorem waitForAck_sends (n : Nat) (e : Recv) : SendsOnly (heard s e) (waitForAck s n e).1 := by
  cases e with
  | timeout => exact SendsOnly.sendError s _ _
  | packet src data =>
    simp only [waitForAck]
    split
    · exact SendsOnly.sendError { s with client := src } _ _
    · split <;> exact SendsOnly.refl _

theorem processReadAck_sends (n r : Nat) (e : Recv) : (processReadAck H s n r e).All (SendsOnly (heard s e)) := by
  have hwait := waitForAck_sends s n e
  unfold processReadAck
  rcases hw : waitForAck s n e with ⟨t, ret⟩
  rw [hw] at hwait
  simp only
  split
  · split
    · exact hwait
    · have htop := processReadTop_sends H t (n + 1)
      cases hr : processReadTop H t (n + 1) with
      | fault => trivial
      | wait u => rw [hr] at htop; exact hwait.trans htop
      | finish u result => rw [hr] at htop; exact hwait.trans htop
  · split
    · exact hwait.trans (SendsOnly.one rfl rfl rfl)
    · exact hwait

/-- The end of a read session changes nothing but the handler's state. -/
theorem afterRead_sends {u : Srv σ} {loop : ReadLoop σ} (h : loop.All (SendsOnly u)) :
    loop = .fault ∧ afterRead H s loop = { s with mode := .fault } ∨ SendsOnly u (afterRead H s loop) := by
  cases loop with
  | fault => exact Or.inl ⟨rfl, rfl⟩
  | wait t => exact Or.inr h
  | finish t result =>
    refine Or.inr ?_
    have ht : SendsOnly u t := h
    unfold afterRead
    simp only
    cases H.onClose t.app <;> exact ⟨ht.client, ht.hist, ht.out⟩

/-- The modes that a read session can leave. -/
def Mode.AfterRead (m : Mode) : Prop := m = .idle ∨ m = .stopped ∨ m = .fault ∨ ∃ n r, m = .reading n r

theorem afterRead_mode {loop : ReadLoop σ} (h : ∀ t, loop = .wait t → ∃ n r, t.mode = .reading n r) :
    (afterRead H s loop).mode.AfterRead := by
  cases loop with
  | wait t => exact Or.inr (Or.inr (Or.inr (h t rfl)))
  | fault => exact Or.inr (Or.inr (Or.inl rfl))
  | finish t result =>
    unfold afterRead
    simp only
    cases H.onClose t.app with
    | none => exact Or.inr (Or.inl rfl)
    | some app => exact Or.inl rfl

theorem processReadTop_mode {s t : Srv σ} {n : Nat} (h : processReadTop H s n = .wait t) : t.mode = .reading n 0 := by
  obtain hr | ⟨u, hr⟩ | ⟨u, hr⟩ := processReadTop_cases H s n
  · rw [hr] at h; cases h
  · rw [hr] at h; cases h
  · rw [hr] at h
    cases h
    rfl

/-- **A read session goes on, or ends.** -/
theorem reading_step_mode {n r : Nat} (hmode : s.mode = .reading n r) (e : Recv) :
    (step H s e).mode.AfterRead := by
  rw [step_reading H e hmode]
  refine afterRead_mode H s (fun t ht => ?_)
  unfold processReadAck at ht
  rcases waitForAck s n e with ⟨u, ret⟩
  simp only at ht
  split at ht
  · split at ht
    · cases ht
    · exact ⟨n + 1, 0, processReadTop_mode H ht⟩
  · split at ht
    · cases ht
      exact ⟨n, r + 1, rfl⟩
    · cases ht

theorem Mode.AfterRead.not_writing {m : Mode} (h : m.AfterRead) (n : Nat) : m ≠ .writing n := by
  rintro rfl
  rcases h with h | h | h | ⟨_, _, h⟩ <;> cases h

theorem Mode.AfterRead.not_hung {m : Mode} (h : m.AfterRead) : m ≠ .hung := by
  rintro rfl
  rcases h with h | h | h | ⟨_, _, h⟩ <;> cases h

theorem parseRq_rrq_fault {result : Int} (hrrq : word16 s.buffer.bytes 0 = TFTP_CMD_RRQ)
    (hstr : requestStrings s.buffer.bytes = none) : parseRq H s result = { s with mode := .fault } := by
  unfold parseRq parseRrq
  rw [hrrq, if_neg (by decide), if_pos rfl, hstr]
  rfl

/-- **`parse_rq`** answers to the client, and the session it may open is the client's. -/
theorem parseRq_sends (result : Int) :
    (parseRq H s result).client = s.client ∧
      (∃ packets, (parseRq H s result).out = s.out ++ packets ∧ ∀ p ∈ packets, p.1 = s.client) ∧
      ((parseRq H s result).hist = s.hist ∧ (∀ n, (parseRq H s result).mode ≠ .writing n) ∨
        (∃ file, (parseRq H s result).hist = .start s.client file s.app :: s.hist) ∧
          (parseRq H s result).mode = .writing 1) := by
  have hnone : ∃ packets, s.out = s.out ++ packets ∧ ∀ p ∈ packets, p.1 = s.client := (SendsOnly.refl s).out
  by_cases hwrq : word16 s.buffer.bytes 0 = TFTP_CMD_WRQ
  · obtain hr | ⟨name, -, hr⟩ | ⟨name, packet, -, -, hr⟩ := parseRq_wrq (H := H) hwrq result
    · rw [hr]
      exact ⟨rfl, hnone, Or.inl ⟨rfl, fun n h => by cases h⟩⟩
    · rw [hr]
      exact ⟨rfl, (SendsOnly.sendError _ _ _).out, Or.inl ⟨rfl, fun n h => by cases h⟩⟩
    · rw [hr]
      exact ⟨rfl, (SendsOnly.sendTo s packet).out, Or.inr ⟨⟨name, rfl⟩, rfl⟩⟩
  · have hmode : ∀ n, (parseRq H s result).mode ≠ .writing n := fun n h => hwrq (wrq_of_writing h)
    suffices hsends : (parseRq H s result).client = s.client ∧ (parseRq H s result).hist = s.hist ∧
        ∃ packets, (parseRq H s result).out = s.out ++ packets ∧ ∀ p ∈ packets, p.1 = s.client from
      ⟨hsends.1, hsends.2.2, Or.inl ⟨hsends.2.1, hmode⟩⟩
    by_cases hrrq : word16 s.buffer.bytes 0 = TFTP_CMD_RRQ
    · cases hstr : requestStrings s.buffer.bytes with
      | none =>
        rw [parseRq_rrq_fault H s hrrq hstr]
        exact ⟨rfl, rfl, hnone⟩
      | some strings =>
        rw [parseRq_of_rrq hrrq result hstr]
        split
        · exact ⟨rfl, rfl, (SendsOnly.sendError _ _ _).out⟩
        · have happ : SendsOnly s { s with app := (H.onRead strings.1 s.app).2 } := ⟨rfl, rfl, (SendsOnly.refl s).out⟩
          obtain ⟨-, hr⟩ | hr := afterRead_sends H { s with app := (H.onRead strings.1 s.app).2 }
            (processReadTop_sends H { s with app := (H.onRead strings.1 s.app).2 } 1)
          · rw [hr]
            exact ⟨rfl, rfl, hnone⟩
          · exact ⟨(happ.trans hr).client, (happ.trans hr).hist, (happ.trans hr).out⟩
    · rw [parseRq_other hwrq hrrq]
      split <;> exact ⟨rfl, rfl, hnone⟩

/-- `t` is `s` with some packets sent to its client and, behind a DATA packet, perhaps a block of it recorded. -/
structure Passes (s t : Srv σ) : Prop where
  client : t.client = s.client
  out : ∃ packets, t.out = s.out ++ packets ∧ ∀ p ∈ packets, p.1 = s.client
  hist : t.hist = s.hist ∨ word16 s.buffer.bytes 0 = TFTP_CMD_DATA ∧
    ∃ b, b.src = s.client ∧ t.hist = recordBlock b s.hist

theorem SendsOnly.passes {s t : Srv σ} (h : SendsOnly s t) : Passes s t := ⟨h.client, h.out, Or.inl h.hist⟩

/-- A property of the state that the loop body of `process_write` leaves. -/
def WriteLoop.All (P : Srv σ → Prop) : WriteLoop σ → Prop
  | .again s _  => P s
  | .finish s _ => P s
  | .fault      => True

/-- **A DATA packet in `process_write`** is a fault of `on_write_data`, or comes to the test for the last block. -/
theorem body_data {n : Nat} (hsize : 0 ≤ s.dataSize) (hdata : word16 s.buffer.bytes 0 = TFTP_CMD_DATA) :
    (processWriteBody H s n = .fault ∧
      H.onWriteData (s.buffer.bytes.drop 4) (s.dataSize - 4) s.app = none) ∨
    ∃ t m, processWriteBody H s n = endOfBlock t m ∧ t.dataSize = s.dataSize ∧ Passes s t := by
  have hack := fun m => (SendsOnly.sendTo s (ackPacket m)).passes
  by_cases hdup : word16 s.buffer.bytes 2 < n
  · exact Or.inr ⟨_, n, body_dup H hsize hdata hdup, rfl, hack _⟩
  · rw [body_block H hsize hdata (Nat.not_lt.1 hdup)]
    cases H.onWriteData (s.buffer.bytes.drop 4) (s.dataSize - 4) s.app with
    | none => exact Or.inl ⟨rfl, rfl⟩
    | some r =>
      obtain ⟨ret, app⟩ := r
      exact Or.inr ⟨_, n + 1, rfl, rfl, rfl, (hack _).out, Or.inr ⟨hdata, _, rfl, rfl⟩⟩

theorem body_data_finish {n : Nat} (hsize : 0 ≤ s.dataSize) (hdata : word16 s.buffer.bytes 0 = TFTP_CMD_DATA)
    {u : Srv σ} {result : Int} (h : processWriteBody H s n = .finish u result) : result = 0 := by
  obtain ⟨hb, -⟩ | ⟨t, m, hb, -, -⟩ := body_data H s (n := n) hsize hdata
  · rw [hb] at h
    cases h
  · rw [hb, endOfBlock] at h
    split at h
    · cases h
      rfl
    · cases h

theorem processWriteBody_passes (n : Nat) : (processWriteBody H s n).All (Passes s) := by
  by_cases hneg : s.dataSize < 0
  · unfold processWriteBody
    rw [if_pos hneg]
    exact (SendsOnly.refl s).passes
  have hsize : 0 ≤ s.dataSize := Int.not_lt.1 hneg
  by_cases hdata : word16 s.buffer.bytes 0 = TFTP_CMD_DATA
  · obtain ⟨hb, -⟩ | ⟨t, m, hb, -, ht⟩ := body_data H s (n := n) hsize hdata
    · rw [hb]
      trivial
    · rw [hb, endOfBlock]
      split <;> exact ht
  · by_cases hwrq : word16 s.buffer.bytes 0 = TFTP_CMD_WRQ
    · rw [body_wrq H hsize hwrq]
      split
      · exact (SendsOnly.sendTo s (ackPacket 0)).passes
      · exact (SendsOnly.refl s).passes
    · rw [body_other H hsize hdata hwrq]
      exact (SendsOnly.refl s).passes

theorem afterWrite_closed {result : Int} (h : result ≤ 0) :
    ((afterWrite H s result).mode = .idle ∨ (afterWrite H s result).mode = .stopped) ∧
      (afterWrite H s result).hist = recordResult result s.hist ∧ (afterWrite H s result).out = s.out := by
  unfold afterWrite
  simp only
  cases H.onClose s.app with
  | none => exact ⟨Or.inr rfl, rfl, rfl⟩
  | some app =>
    simp only
    rw [if_pos h]
    exact ⟨Or.inl rfl, rfl, rfl⟩

/-- **The end of a write session**, and the session that the same datagram may open. -/
theorem afterWrite_sends (result : Int) :
    (afterWrite H s result).client = s.client ∧
      (∃ packets, (afterWrite H s result).out = s.out ++ packets ∧ ∀ p ∈ packets, p.1 = s.client) ∧
      ((afterWrite H s result).hist = recordResult result s.hist ∧ (∀ n, (afterWrite H s result).mode ≠ .writing n) ∨
        (∃ file asked, (afterWrite H s result).hist = .start s.client file asked :: recordResult result s.hist) ∧
          (afterWrite H s result).mode = .writing 1) := by
  unfold afterWrite
  simp only
  cases H.onClose s.app with
  | none => exact ⟨rfl, (SendsOnly.refl s).out, Or.inl ⟨rfl, fun n h => by cases h⟩⟩
  | some app =>
    simp only
    split
    · exact ⟨rfl, (SendsOnly.refl s).out, Or.inl ⟨rfl, fun n h => by cases h⟩⟩
    · obtain ⟨hclient, hout, h | ⟨⟨file, hhist⟩, hmode⟩⟩ :=
        parseRq_sends H { s with hist := recordResult result s.hist, app := app } result
      · exact ⟨hclient, hout, Or.inl h⟩
      · exact ⟨hclient, hout, Or.inr ⟨⟨file, app, hhist⟩, hmode⟩⟩

theorem recvFrom_fields (e : Recv) :
    (recvFrom s e).client = (heard s e).client ∧ (recvFrom s e).out = s.out ∧ (recvFrom s e).hist = s.hist ∧
      (recvFrom s e).app = s.app := by
  cases e <;> exact ⟨rfl, rfl, rfl, rfl⟩

/-- **The server answers the last datagram only**: what a step sends goes to the peer it heard from last. -/
theorem step_out (e : Recv) :
    ∃ packets, (step H s e).out = s.out ++ packets ∧ ∀ p ∈ packets, p.1 = (heard s e).client := by
  have hnone : ∃ packets, s.out = s.out ++ packets ∧ ∀ p ∈ packets, p.1 = (heard s e).client :=
    ⟨[], (List.append_nil _).symm, fun _ h => by cases h⟩
  obtain ⟨hclient, hout, -, -⟩ := recvFrom_fields s e
  cases hmode : s.mode with
  | idle =>
    rw [step_idle H e hmode]
    split
    · rw [hout]
      exact hnone
    · have hp := (parseRq_sends H (recvFrom s e) (-1)).2.1
      rwa [hout, hclient] at hp
  | writing n =>
    rw [step_writing H e hmode]
    have hbody := processWriteBody_passes H (recvFrom s e) n
    cases hb : processWriteBody H (recvFrom s e) n with
    | fault => exact hnone
    | again t m =>
      rw [hb] at hbody
      have ht := hbody.out
      rwa [hout, hclient] at ht
    | finish t result =>
      rw [hb] at hbody
      obtain ⟨ps, ht, hps⟩ := hbody.out
      obtain ⟨qs, hq, hqs⟩ := (afterWrite_sends H t result).2.1
      refine ⟨ps ++ qs, by show (afterWrite H t result).out = _; rw [hq, ht, hout, List.append_assoc], fun p hp => ?_⟩
      rcases List.mem_append.1 hp with hp | hp
      · rw [hps p hp, hclient]
      · rw [hqs p hp, hbody.client, hclient]
  | reading n r =>
    rw [step_reading H e hmode]
    obtain ⟨-, hr⟩ | hr := afterRead_sends H s (processReadAck_sends H s n r e)
    · rw [hr]
      exact hnone
    · have h := hr.out
      cases e <;> exact h
  | hung | stopped | fault =>
    rw [step, hmode]
    exact hnone

end

/-! ## Read sessions -/

/-- Only a wait for an ACK is a wait in a read session. -/
theorem afterRead_reading {H : Handler σ} {s : Srv σ} {loop : ReadLoop σ} {n r : Nat}
    (h : (afterRead H s loop).mode = .reading n r) : ∃ t, loop = .wait t ∧ t.mode = .reading n r := by
  cases loop with
  | wait t => exact ⟨t, rfl, h⟩
  | fault => cases h
  | finish t result =>
    unfold afterRead at h
    simp only at h
    split at h <;> cases h

theorem parseRq_reading {H : Handler σ} {s : Srv σ} {result : Int} {n r : Nat}
    (h : (parseRq H s result).mode = .reading n r) : n = 1 := by
  by_cases hwrq : word16 s.buffer.bytes 0 = TFTP_CMD_WRQ
  · obtain hr | ⟨name, -, hr⟩ | ⟨name, packet, -, -, hr⟩ := parseRq_wrq (H := H) hwrq result <;>
    · rw [hr] at h
      cases h
  · by_cases hrrq : word16 s.buffer.bytes 0 = TFTP_CMD_RRQ
    · cases hstr : requestStrings s.buffer.bytes with
      | none =>
        rw [parseRq_rrq_fault H s hrrq hstr] at h
        cases h
      | some strings =>
        rw [parseRq_of_rrq hrrq result hstr] at h
        split at h
        · cases h
        · obtain ⟨t, htop, hmode⟩ := afterRead_reading h
          rw [processReadTop_mode H htop] at hmode
          cases hmode
          rfl
    · rw [parseRq_other hwrq hrrq] at h
      split at h <;> cases h

theorem afterWrite_reading {H : Handler σ} {s : Srv σ} {result : Int} {n r : Nat}
    (h : (afterWrite H s result).mode = .reading n r) : n = 1 := by
  unfold afterWrite at h
  simp only at h
  split at h
  · cases h
  · split at h
    · cases h
    · exact parseRq_reading h

/-- **Where a step gets in a read session**: to its start, to another try, or behind an ACK to the next block. -/
theorem step_reading_cases (H : Handler σ) {s : Srv σ} {e : Recv} {n r : Nat}
    (h : (step H s e).mode = .reading n r) :
    n = 1 ∨ ∃ m k, s.mode = .reading m k ∧ (n = m ∨ n = m + 1 ∧ (waitForAck s m e).2 = 0) := by
  cases hmode : s.mode with
  | idle =>
    rw [step_idle H e hmode] at h
    split at h
    · have hsame : (recvFrom s e).mode = s.mode := by cases e <;> rfl
      rw [hsame, hmode] at h
      cases h
    · exact Or.inl (parseRq_reading h)
  | writing m =>
    rw [step_writing H e hmode] at h
    split at h
    · cases h
    · exact Or.inl (afterWrite_reading h)
    · cases h
  | reading m k =>
    rw [step_reading H e hmode] at h
    obtain ⟨t, hwait, ht⟩ := afterRead_reading h
    refine Or.inr ⟨m, k, rfl, ?_⟩
    unfold processReadAck at hwait
    rcases hack : waitForAck s m e with ⟨u, ret⟩
    rw [hack] at hwait
    simp only at hwait
    split at hwait
    · rename_i hret
      split at hwait
      · cases hwait
      · rw [processReadTop_mode H hwait] at ht
        cases ht
        exact Or.inr ⟨rfl, hret⟩
    · split at hwait
      · cases hwait
        cases ht
        exact Or.inl rfl
      · cases hwait
  | hung | stopped | fault =>
    rw [step, hmode] at h
    exact absurd (hmode.symm.trans h) (by simp only [reduceCtorEq, not_false_eq_true])

/-! ## Runs -/

/-- Every step of the run has a property. -/
def Throughout (P : Srv σ → Recv → Prop) (H : Handler σ) : Srv σ → List Recv → Prop
  | _, []      => True
  | s, e :: es => P s e ∧ Throughout P H (step H s e) es

theorem throughout_append (P : Srv σ → Recv → Prop) (H : Handler σ) (s : Srv σ) (es es' : List Recv) :
    Throughout P H s (es ++ es') ↔ Throughout P H s es ∧ Throughout P H (run H s es) es' := by
  induction es generalizing s with
  | nil => exact (iff_of_eq (true_and _)).symm
  | cons e es ih => exact (and_congr_right (fun _ => ih (step H s e))).trans and_assoc.symm

/-- Two properties that agree where an invariant holds, agree on runs. -/
theorem throughout_congr {H : Handler σ} {I : Srv σ → Prop} (hstep : ∀ s e, I s → I (step H s e))
    {P Q : Srv σ → Recv → Prop} (hPQ : ∀ s e, I s → (P s e ↔ Q s e)) {s : Srv σ} (h : I s) (es : List Recv) :
    Throughout P H s es ↔ Throughout Q H s es := by
  induction es generalizing s with
  | nil => rfl
  | cons e es ih => exact and_congr (hPQ s e h) (ih (hstep s e h))

/-! ## Sessions that have ended -/

/-- The session at the head of the history is running. -/
def OpenHead (hist : List (Session σ)) : Prop := ∃ cur rest, hist = cur :: rest ∧ cur.result = none

section

variable {hist : List (Session σ)} {session : Session σ}

theorem mem_recordBlock (hopen : OpenHead hist) (hs : session ∈ hist) (hend : session.result ≠ none) (b : Block) :
    session ∈ recordBlock b hist := by
  obtain ⟨cur, rest, rfl, hres⟩ := hopen
  rcases List.mem_cons.1 hs with rfl | hs
  · exact absurd hres hend
  · exact List.mem_cons_of_mem _ hs

theorem mem_recordResult (hopen : OpenHead hist) (hs : session ∈ hist) (hend : session.result ≠ none) (result : Int) :
    session ∈ recordResult result hist := by
  obtain ⟨cur, rest, rfl, hres⟩ := hopen
  rcases List.mem_cons.1 hs with rfl | hs
  · exact absurd hres hend
  · exact List.mem_cons_of_mem _ hs

theorem OpenHead.recordBlock (hopen : OpenHead hist) (b : Block) : OpenHead (recordBlock b hist) := by
  obtain ⟨cur, rest, rfl, hres⟩ := hopen
  exact ⟨_, rest, rfl, hres⟩

/-- The body of `process_write` records in the running session only. -/
theorem Passes.keeps {s t : Srv σ} (h : Passes s t) (hopen : OpenHead s.hist) :
    OpenHead t.hist ∧ ∀ session ∈ s.hist, session.result ≠ none → session ∈ t.hist := by
  obtain hh | ⟨-, b, -, hh⟩ := h.hist
  · rw [hh]
    exact ⟨hopen, fun _ hs _ => hs⟩
  · rw [hh]
    exact ⟨hopen.recordBlock b, fun session hs hend => mem_recordBlock hopen hs hend b⟩

/-- **A session that has ended stays as it is.** -/
theorem step_keeps_ended (H : Handler σ) {s : Srv σ} (hopen : ∀ n, s.mode = .writing n → OpenHead s.hist) (e : Recv)
    (hs : session ∈ s.hist) (hend : session.result ≠ none) : session ∈ (step H s e).hist := by
  obtain ⟨-, -, hhist, -⟩ := recvFrom_fields s e
  cases hmode : s.mode with
  | idle =>
    rw [step_idle H e hmode]
    split
    · rwa [hhist]
    · obtain ⟨hp, -⟩ | ⟨⟨file, hp⟩, -⟩ := (parseRq_sends H (recvFrom s e) (-1)).2.2
      · rwa [hp, hhist]
      · rw [hp, hhist]
        exact List.mem_cons_of_mem _ hs
  | writing n =>
    rw [step_writing H e hmode]
    have hopen' : OpenHead (recvFrom s e).hist := by rw [hhist]; exact hopen n hmode
    have hbody := processWriteBody_passes H (recvFrom s e) n
    cases hb : processWriteBody H (recvFrom s e) n with
    | fault => exact hs
    | again t m =>
      rw [hb] at hbody
      exact (hbody.keeps hopen').2 session (hhist ▸ hs) hend
    | finish t result =>
      rw [hb] at hbody
      obtain ⟨ht, hkeep⟩ := hbody.keeps hopen'
      have hrec := mem_recordResult ht (hkeep session (hhist ▸ hs) hend) hend result
      show session ∈ (afterWrite H t result).hist
      obtain ⟨hp, -⟩ | ⟨⟨file, asked, hp⟩, -⟩ := (afterWrite_sends H t result).2.2
      · rwa [hp]
      · rw [hp]
        exact List.mem_cons_of_mem _ hrec
  | reading n r =>
    rw [step_reading H e hmode]
    obtain ⟨-, hr⟩ | hr := afterRead_sends H s (processReadAck_sends H s n r e)
    · rw [hr]
      exact hs
    · rw [hr.hist]
      cases e <;> exact hs
  | hung | stopped | fault =>
    rw [step, hmode]
    exact hs

end

/-! ## What the handler keeps -/

/-- A property of the derived class's state that its methods keep, as the server calls them. -/
structure Handler.Keeps (H : Handler σ) (P : σ → Prop) : Prop where
  onWrite : ∀ file app, P app → P (H.onWrite file app).2
  onRead : ∀ file app, P app → P (H.onRead file app).2
  onWriteData : ∀ buffer len app ret app', P app → H.onWriteData buffer len app = some (ret, app') → P app'
  onReadData : ∀ app ret data app', P app → H.onReadData (TFTP_DATA_SIZE - 4 : Nat) app = some (ret, data, app') → P app'
  onClose : ∀ app app', P app → H.onClose app = some app' → P app'
  onRestart : ∀ app, P app → H.onClose app = none → P (H.onRestart app)

theorem waitForAck_app (s : Srv σ) (n : Nat) (e : Recv) : (waitForAck s n e).1.app = s.app := by
  cases e with
  | timeout => rfl
  | packet src data =>
    simp only [waitForAck]
    split
    · rfl
    · split <;> rfl

section

variable {H : Handler σ} {P : σ → Prop} (hK : H.Keeps P) {s : Srv σ}

include hK

theorem Handler.Keeps.readTop (h : P s.app) (n : Nat) : (processReadTop H s n).All (fun t => P t.app) := by
  unfold processReadTop
  simp only
  cases hr : H.onReadData (TFTP_DATA_SIZE - 4 : Nat) s.app with
  | none => trivial
  | some r =>
    obtain ⟨ret, data, app⟩ := r
    have happ := hK.onReadData s.app ret data app h hr
    simp only
    split <;> exact happ

theorem Handler.Keeps.afterRead (h : P s.app) {loop : ReadLoop σ} (hloop : loop.All (fun t => P t.app)) :
    P (afterRead H s loop).app := by
  cases loop with
  | wait t => exact hloop
  | fault => exact h
  | finish t result =>
    unfold Tftp.afterRead
    simp only
    cases hc : H.onClose t.app with
    | none => exact hK.onRestart t.app hloop hc
    | some app => exact hK.onClose t.app app hloop hc

theorem Handler.Keeps.parseRq (h : P s.app) (result : Int) : P (parseRq H s result).app := by
  by_cases hwrq : word16 s.buffer.bytes 0 = TFTP_CMD_WRQ
  · obtain hr | ⟨name, -, hr⟩ | ⟨name, packet, -, -, hr⟩ := parseRq_wrq (H := H) hwrq result
    · rw [hr]
      exact h
    · rw [hr]
      exact hK.onWrite name s.app h
    · rw [hr]
      exact hK.onWrite name s.app h
  · by_cases hrrq : word16 s.buffer.bytes 0 = TFTP_CMD_RRQ
    · cases hstr : requestStrings s.buffer.bytes with
      | none =>
        rw [parseRq_rrq_fault H s hrrq hstr]
        exact h
      | some strings =>
        have happ := hK.onRead strings.1 s.app h
        rw [parseRq_of_rrq hrrq result hstr]
        split
        · exact happ
        · exact hK.afterRead (s := { s with app := (H.onRead strings.1 s.app).2 }) happ
            (hK.readTop (s := { s with app := (H.onRead strings.1 s.app).2 }) happ 1)
    · rw [parseRq_other hwrq hrrq]
      split <;> exact h

theorem Handler.Keeps.writeBody (h : P s.app) (n : Nat) : (processWriteBody H s n).All (fun t => P t.app) := by
  have hend : ∀ (t : Srv σ) (m : Nat), P t.app → (endOfBlock t m).All (fun t => P t.app) := by
    intro t m ht
    unfold endOfBlock
    split <;> exact ht
  by_cases hneg : s.dataSize < 0
  · unfold processWriteBody
    rw [if_pos hneg]
    exact h
  have hsize : 0 ≤ s.dataSize := Int.not_lt.1 hneg
  by_cases hdata : word16 s.buffer.bytes 0 = TFTP_CMD_DATA
  · by_cases hdup : word16 s.buffer.bytes 2 < n
    · rw [body_dup H hsize hdata hdup]
      exact hend _ n h
    · rw [body_block H hsize hdata (Nat.not_lt.1 hdup)]
      cases hw : H.onWriteData (s.buffer.bytes.drop 4) (s.dataSize - 4) s.app with
      | none => trivial
      | some r =>
        obtain ⟨ret, app⟩ := r
        exact hend _ (n + 1) (hK.onWriteData _ _ s.app ret app h hw)
  · by_cases hwrq : word16 s.buffer.bytes 0 = TFTP_CMD_WRQ
    · rw [body_wrq H hsize hwrq]
      split <;> exact h
    · rw [body_other H hsize hdata hwrq]
      exact h

theorem Handler.Keeps.afterWrite (h : P s.app) (result : Int) : P (afterWrite H s result).app := by
  unfold Tftp.afterWrite
  simp only
  cases hc : H.onClose s.app with
  | none => exact hK.onRestart s.app h hc
  | some app =>
    have happ := hK.onClose s.app app h hc
    simp only
    split
    · exact happ
    · exact hK.parseRq (s := { s with hist := recordResult result s.hist, app := app }) happ result

/-- **What the methods keep, a step keeps.** -/
theorem Handler.Keeps.step (h : P s.app) (e : Recv) : P (step H s e).app := by
  have hrecv : P (recvFrom s e).app := by rwa [(recvFrom_fields s e).2.2.2]
  cases hmode : s.mode with
  | idle =>
    rw [step_idle H e hmode]
    split
    · exact hrecv
    · exact hK.parseRq hrecv (-1)
  | writing n =>
    rw [step_writing H e hmode]
    have hbody := hK.writeBody hrecv n
    cases hb : processWriteBody H (recvFrom s e) n with
    | fault => exact h
    | again t m =>
      rw [hb] at hbody
      exact hbody
    | finish t result =>
      rw [hb] at hbody
      exact hK.afterWrite (s := t) hbody result
  | reading n r =>
    rw [step_reading H e hmode]
    have hwait : P (waitForAck s n e).1.app := by rwa [waitForAck_app]
    refine hK.afterRead h ?_
    unfold processReadAck
    rcases hw : waitForAck s n e with ⟨t, ret⟩
    rw [hw] at hwait
    simp only
    split
    · split
      · exact hwait
      · exact hK.readTop hwait (n + 1)
    · split <;> exact hwait
  | hung | stopped | fault =>
    rw [Tftp.step, hmode]
    exact h

end

/-- **A run keeps what every step keeps.** -/
theorem run_keeps {H : Handler σ} {I : Srv σ → Prop} (hstep : ∀ s e, I s → I (step H s e)) {s : Srv σ} (h : I s)
    (es : List Recv) : I (run H s es) := by
  induction es generalizing s with
  | nil => exact h
  | cons e es ih => exact ih (hstep s e h)

end Mstd.Tftp
