import Mstd.TftpStep
/-!
# What a session carries, and what its close does, whatever the handler

A write session relates the handler's state to its record, the request and the blocks passed on (`Carried`): a relation
that `on_write` starts and `on_write_data` extends holds in every session of every run.  A quantity that only the close
of a write session changes is changed by a step with such a relation in hand (`step_closes`).
-/
namespace Mstd.Tftp

variable {σ τ κ : Type}

/-- `on_write_data` extends the relation by the block it was passed. -/
def Handler.Extends (H : Handler σ) (I : σ → Session σ → Prop) : Prop :=
  ∀ (buffer : List UInt8) (app app' : σ) (session : Session σ) (b : Block), I app session → buffer.length = 512 →
    -4 ≤ b.len → b.len ≤ 512 → b.data = buffer.take b.len.toNat → H.onWriteData buffer b.len app = some (b.ret, app') →
    I app' { session with blocks := session.blocks ++ [b] }

/-- **What a write session carries**: a relation between the handler's state and the session so far. -/
structure Handler.Carries (H : Handler σ) (I : σ → Session σ → Prop) : Prop where
  opens : ∀ peer file app, 0 ≤ (H.onWrite file app).1 → I (H.onWrite file app).2 (.start peer file app)
  extend : H.Extends I
  ends : ∀ app session result, I app session → I app { session with result := some result }

/-- The running write session is the newest one, and carries the relation. -/
def Carried (I : σ → Session σ → Prop) (s : Srv σ) : Prop :=
  ∃ cur rest, s.hist = cur :: rest ∧ cur.result = none ∧ I s.app cur

/-- The sessions that have ended, in order. -/
def ended (hist : List (Session σ)) : List (Session σ) := (hist.filter (fun session => session.result.isSome)).reverse

/-- What a read session keeps: `on_read` starts it, `on_read_data` keeps it. -/
structure Handler.Feeds (H : Handler σ) (R : σ → Prop) : Prop where
  onRead : ∀ file app, 0 ≤ (H.onRead file app).1 → R (H.onRead file app).2
  onReadData : ∀ app ret data app', R app → H.onReadData (TFTP_DATA_SIZE - 4 : Nat) app = some (ret, data, app') → R app'

/-- The session invariant of a handler, at each `recvfrom`. -/
structure InSession (I : σ → Session σ → Prop) (R : σ → Prop) (s : Srv σ) : Prop where
  writing : ∀ n, s.mode = .writing n → Carried I s
  reading : ∀ n r, s.mode = .reading n r → R s.app

/-- **A quantity that only the close of a write session changes**; the close of a read session comes back. -/
structure Handler.ClosesOnly (H : Handler σ) (R : σ → Prop) (q : σ → τ) : Prop where
  onWrite : ∀ file app, q (H.onWrite file app).2 = q app
  onRead : ∀ file app, q (H.onRead file app).2 = q app
  onWriteData : ∀ buffer len app ret app', H.onWriteData buffer len app = some (ret, app') → q app' = q app
  onReadData : ∀ app ret data app', H.onReadData (TFTP_DATA_SIZE - 4 : Nat) app = some (ret, data, app') → q app' = q app
  onClose : ∀ app, R app → ∃ app', H.onClose app = some app' ∧ q app' = q app
  onRestart : ∀ app, q (H.onRestart app) = q app

/-! ## Write sessions -/

theorem ended_open {cur : Session σ} (hres : cur.result = none) (rest : List (Session σ)) :
    ended (cur :: rest) = ended rest := by
  rw [ended, List.filter_cons_of_neg (by rw [hres]; decide), ended]

theorem ended_recordBlock {hist : List (Session σ)} (hopen : OpenHead hist) (b : Block) :
    ended (recordBlock b hist) = ended hist := by
  obtain ⟨cur, rest, rfl, hres⟩ := hopen
  have hnext : ({ cur with blocks := cur.blocks ++ [b] } : Session σ).result = none := hres
  rw [recordBlock, ended_open hnext, ended_open hres]

theorem ended_recordResult {cur : Session σ} (hres : cur.result = none) (rest : List (Session σ)) (result : Int) :
    ended (recordResult result (cur :: rest)) = ended (cur :: rest) ++ [{ cur with result := some result }] := by
  rw [recordResult, ended_open hres, ended, List.filter_cons_of_pos (by rfl), List.reverse_cons, ended]

section

variable {H : Handler σ} {I : σ → Session σ → Prop} {s : Srv σ}

theorem recvFrom_dataSize_le (s : Srv σ) (e : Recv) : (recvFrom s e).dataSize ≤ TFTP_DATA_SIZE := by
  cases e with
  | timeout => exact (by decide : (-1 : Int) ≤ TFTP_DATA_SIZE)
  | packet src data => exact Int.ofNat_le.2 (Nat.min_le_right _ _)

theorem carried_recvFrom (e : Recv) (h : Carried I s) : Carried I (recvFrom s e) := by
  obtain ⟨-, -, hhist, happ⟩ := recvFrom_fields s e
  obtain ⟨cur, rest, hcur, hres, hI⟩ := h
  exact ⟨cur, rest, hhist.trans hcur, hres, happ ▸ hI⟩

/-- **The loop body of `process_write`** carries the relation on. -/
theorem body_carried (hext : H.Extends I) (h : Carried I s) (hle : s.dataSize ≤ TFTP_DATA_SIZE) (n : Nat) :
    (processWriteBody H s n).All (Carried I) := by
  have hend : ∀ (t : Srv σ) (m : Nat), Carried I t → (endOfBlock t m).All (Carried I) := by
    intro t m ht
    unfold endOfBlock
    split <;> exact ht
  by_cases hneg : s.dataSize < 0
  · unfold processWriteBody
    rw [if_pos hneg]
    exact h
  have hsize : 0 ≤ s.dataSize := Int.not_lt.1 hneg
  by_cases hdata : word16 s.buffer.bytes 0 = TFTP_CMD_DATA
  · by_cases hdup : word16 s.buffer.bytes 2 < n
    · rw [body_dup H hsize hdata hdup]
      exact hend _ n h
    · rw [body_block H hsize hdata (Nat.not_lt.1 hdup)]
      cases hw : H.onWriteData (s.buffer.bytes.drop 4) (s.dataSize - 4) s.app with
      | none => trivial
      | some r =>
        obtain ⟨ret, app⟩ := r
        obtain ⟨cur, rest, hhist, hres, hI⟩ := h
        unfold TFTP_DATA_SIZE at hle
        have hlen : (s.buffer.bytes.drop 4).length = 512 := by rw [List.length_drop, length_buffer]; rfl
        let b : Block := ⟨s.client, word16 s.buffer.bytes 2, (s.buffer.bytes.drop 4).take (s.dataSize - 4).toNat,
          s.dataSize - 4, ret⟩
        have hblock := hext _ s.app app cur b hI hlen (show -4 ≤ s.dataSize - 4 by omega)
          (show s.dataSize - 4 ≤ 512 by omega) rfl hw
        exact hend _ (n + 1)
          ⟨{ cur with blocks := cur.blocks ++ [b] }, rest, congrArg (recordBlock b) hhist, hres, hblock⟩
  · by_cases hwrq : word16 s.buffer.bytes 0 = TFTP_CMD_WRQ
    · rw [body_wrq H hsize hwrq]
      split <;> exact h
    · rw [body_other H hsize hdata hwrq]
      exact h

/-- The loop body of `process_write` leaves the packet in the buffer. -/
theorem body_buffer (H : Handler σ) (s : Srv σ) (n : Nat) :
    (processWriteBody H s n).All (fun t => t.buffer = s.buffer) := by
  have hend : ∀ (t : Srv σ) (m : Nat), t.buffer = s.buffer → (endOfBlock t m).All (fun t => t.buffer = s.buffer) := by
    intro t m ht
    unfold endOfBlock
    split <;> exact ht
  by_cases hneg : s.dataSize < 0
  · unfold processWriteBody
    rw [if_pos hneg]
    rfl
  have hsize : 0 ≤ s.dataSize := Int.not_lt.1 hneg
  by_cases hdata : word16 s.buffer.bytes 0 = TFTP_CMD_DATA
  · by_cases hdup : word16 s.buffer.bytes 2 < n
    · rw [body_dup H hsize hdata hdup]
      exact hend _ n rfl
    · rw [body_block H hsize hdata (Nat.not_lt.1 hdup)]
      cases H.onWriteData (s.buffer.bytes.drop 4) (s.dataSize - 4) s.app with
      | none => trivial
      | some r => exact hend _ (n + 1) rfl
  · by_cases hwrq : word16 s.buffer.bytes 0 = TFTP_CMD_WRQ
    · rw [body_wrq H hsize hwrq]
      split <;> rfl
    · rw [body_other H hsize hdata hwrq]
      rfl

/-- A session that `parse_rq` opens carries the relation for no blocks. -/
theorem parseRq_carried
    (hopens : ∀ peer file app, 0 ≤ (H.onWrite file app).1 → I (H.onWrite file app).2 (.start peer file app)) {result : Int}
    {n : Nat} (hmode : (parseRq H s result).mode = .writing n) : Carried I (parseRq H s result) := by
  obtain hr | ⟨name, -, hr⟩ | ⟨name, packet, hpos, -, hr⟩ := parseRq_wrq (wrq_of_writing hmode) result
  · rw [hr] at hmode
    cases hmode
  · rw [hr] at hmode
    cases hmode
  · rw [hr]
    exact ⟨_, s.hist, rfl, rfl, hopens s.client name s.app hpos⟩

/-- **A step in a write session** faults, goes on with it, or ends it. -/
theorem writing_cases (hext : H.Extends I) {n : Nat} (hmode : s.mode = .writing n) (h : Carried I s) (e : Recv) :
    step H s e = { s with mode := .fault } ∨
      ((∃ m, (step H s e).mode = .writing m) ∧ ended (step H s e).hist = ended s.hist ∧ Carried I (step H s e)) ∨
      ∃ t result, step H s e = afterWrite H t result ∧ ended t.hist = ended s.hist ∧
        t.buffer = (recvFrom s e).buffer ∧ Carried I t := by
  rw [step_writing H e hmode]
  have hbody := body_carried hext (carried_recvFrom e h) (recvFrom_dataSize_le s e) n
  have hpass := processWriteBody_passes H (recvFrom s e) n
  have hbuf := body_buffer H (recvFrom s e) n
  have hopen : OpenHead (recvFrom s e).hist := by
    obtain ⟨cur, rest, hhist, hres, -⟩ := carried_recvFrom e h
    exact ⟨cur, rest, hhist, hres⟩
  have hended : ∀ t : Srv σ, Passes (recvFrom s e) t → ended t.hist = ended s.hist := by
    intro t ht
    rw [← (recvFrom_fields s e).2.2.1]
    obtain hh | ⟨-, b, -, hh⟩ := ht.hist
    · rw [hh]
    · rw [hh, ended_recordBlock hopen]
  cases hb : processWriteBody H (recvFrom s e) n with
  | fault => exact Or.inl rfl
  | again t m =>
    rw [hb] at hbody hpass
    exact Or.inr (Or.inl ⟨⟨m, rfl⟩, hended t hpass, hbody⟩)
  | finish t result =>
    rw [hb] at hbody hpass hbuf
    exact Or.inr (Or.inr ⟨t, result, rfl, hended t hpass, hbuf, hbody⟩)

theorem afterWrite_cases (H : Handler σ) (t : Srv σ) (result : Int) :
    (H.onClose t.app = none ∧ (afterWrite H t result).app = H.onRestart t.app ∧
        (afterWrite H t result).mode = .stopped) ∨
      ∃ app, H.onClose t.app = some app ∧
        (((afterWrite H t result).app = app ∧ (afterWrite H t result).mode = .idle) ∨
          afterWrite H t result = parseRq H { t with hist := recordResult result t.hist, app := app } result) := by
  unfold afterWrite
  simp only
  cases hclose : H.onClose t.app with
  | none => exact Or.inl ⟨rfl, rfl, rfl⟩
  | some app =>
    refine Or.inr ⟨app, rfl, ?_⟩
    simp only
    split
    · exact Or.inl ⟨rfl, rfl⟩
    · exact Or.inr rfl

theorem recvFrom_mode (s : Srv σ) (e : Recv) : (recvFrom s e).mode = s.mode := by cases e <;> rfl

/-- Where the server is when it was idle: it has got nothing, or is behind `parse_rq`. -/
theorem idle_cases (H : Handler σ) (hmode : s.mode = .idle) (e : Recv) :
    (step H s e = recvFrom s e ∧ (step H s e).mode = .idle) ∨ step H s e = parseRq H (recvFrom s e) (-1) := by
  rw [step_idle H e hmode]
  split
  · exact Or.inl ⟨rfl, (recvFrom_mode s e).trans hmode⟩
  · exact Or.inr rfl

/-- **A step keeps the session invariant of the write sessions.** -/
theorem Handler.Carries.step (hC : H.Carries I) (h : ∀ n, s.mode = .writing n → Carried I s) (e : Recv) {n : Nat}
    (hmode : (Tftp.step H s e).mode = .writing n) : Carried I (Tftp.step H s e) := by
  cases hs : s.mode with
  | idle =>
    obtain ⟨-, hr⟩ | hr := idle_cases H hs e
    · rw [hr] at hmode
      cases hmode
    · rw [hr] at hmode ⊢
      exact parseRq_carried hC.opens hmode
  | writing m =>
    obtain hr | ⟨-, -, hr⟩ | ⟨t, result, hr, -⟩ := writing_cases hC.extend hs (h m hs) e
    · rw [hr] at hmode
      cases hmode
    · exact hr
    · rw [hr] at hmode ⊢
      obtain ⟨-, -, hm⟩ | ⟨app, -, ⟨-, hm⟩ | hm⟩ := afterWrite_cases H t result
      · rw [hm] at hmode
        cases hmode
      · rw [hm] at hmode
        cases hmode
      · rw [hm] at hmode ⊢
        exact parseRq_carried hC.opens hmode
  | reading m r => exact absurd hmode ((reading_step_mode H s hs e).not_writing n)
  | hung | stopped | fault =>
    rw [Tftp.step, hs] at hmode
    exact absurd (hs.symm.trans hmode) (by simp only [reduceCtorEq, not_false_eq_true])

end

/-! ## Read sessions -/

section

variable {H : Handler σ} {R : σ → Prop} {q : σ → τ} {s : Srv σ}

/-- What `on_read_data` leaves is what the top of the loop of `process_read` leaves. -/
theorem readTop_all {P : σ → Prop}
    (h : ∀ ret data app, H.onReadData (TFTP_DATA_SIZE - 4 : Nat) s.app = some (ret, data, app) → P app) (n : Nat) :
    (processReadTop H s n).All (fun t => P t.app) := by
  unfold processReadTop
  simp only
  cases hr : H.onReadData (TFTP_DATA_SIZE - 4 : Nat) s.app with
  | none => trivial
  | some r =>
    obtain ⟨ret, data, app⟩ := r
    have happ := h ret data app hr
    simp only
    split <;> exact happ

theorem readAck_all {P : σ → Prop} (hs : P s.app)
    (h : ∀ ret data app, H.onReadData (TFTP_DATA_SIZE - 4 : Nat) s.app = some (ret, data, app) → P app) (n r : Nat)
    (e : Recv) : (processReadAck H s n r e).All (fun t => P t.app) := by
  have happ : (waitForAck s n e).1.app = s.app := waitForAck_app s n e
  unfold processReadAck
  rcases hw : waitForAck s n e with ⟨t, ret⟩
  rw [hw] at happ
  rw [← happ] at hs h
  simp only
  split
  · split
    · exact hs
    · exact readTop_all h (n + 1)
  · split <;> exact hs

theorem parseRq_feeds (hR : H.Feeds R) {result : Int} {n r : Nat} (hmode : (parseRq H s result).mode = .reading n r) :
    R (parseRq H s result).app := by
  by_cases hwrq : word16 s.buffer.bytes 0 = TFTP_CMD_WRQ
  · obtain hr | ⟨name, -, hr⟩ | ⟨name, packet, -, -, hr⟩ := parseRq_wrq (H := H) hwrq result <;>
    · rw [hr] at hmode
      cases hmode
  · by_cases hrrq : word16 s.buffer.bytes 0 = TFTP_CMD_RRQ
    · cases hstr : requestStrings s.buffer.bytes with
      | none =>
        rw [parseRq_rrq_fault H s hrrq hstr] at hmode
        cases hmode
      | some strings =>
        rw [parseRq_of_rrq hrrq result hstr] at hmode ⊢
        split at hmode
        · cases hmode
        · rw [if_neg ‹_›]
          obtain ⟨t, ht, -⟩ := afterRead_reading hmode
          have htop := readTop_all (s := { s with app := (H.onRead strings.1 s.app).2 })
            (fun ret data app => hR.onReadData _ ret data app (hR.onRead strings.1 s.app (Int.not_lt.1 ‹_›))) 1
          rw [ht] at htop ⊢
          exact htop
    · rw [parseRq_other hwrq hrrq] at hmode
      split at hmode <;> cases hmode

/-- **A step keeps the session invariant of the read sessions.** -/
theorem Handler.Feeds.step (hR : H.Feeds R) (h : ∀ n r, s.mode = .reading n r → R s.app) (e : Recv) {n r : Nat}
    (hmode : (Tftp.step H s e).mode = .reading n r) : R (Tftp.step H s e).app := by
  cases hs : s.mode with
  | idle =>
    obtain ⟨-, hm⟩ | hm := idle_cases H hs e
    · rw [hm] at hmode
      cases hmode
    · rw [hm] at hmode ⊢
      exact parseRq_feeds hR hmode
  | writing m =>
    rw [step_writing H e hs] at hmode ⊢
    cases hb : processWriteBody H (recvFrom s e) m with
    | fault | again t m' =>
      rw [hb] at hmode
      cases hmode
    | finish t result =>
      rw [hb] at hmode
      simp only at hmode ⊢
      obtain ⟨-, -, hm⟩ | ⟨app, -, ⟨-, hm⟩ | hm⟩ := afterWrite_cases H t result
      · rw [hm] at hmode
        cases hmode
      · rw [hm] at hmode
        cases hmode
      · rw [hm] at hmode ⊢
        exact parseRq_feeds hR hmode
  | reading m k =>
    rw [step_reading H e hs] at hmode ⊢
    obtain ⟨t, ht, -⟩ := afterRead_reading hmode
    have hack := readAck_all (h m k hs) (fun ret data app => hR.onReadData _ ret data app (h m k hs)) m k e
    rw [ht] at hack ⊢
    exact hack
  | hung | stopped | fault =>
    rw [Tftp.step, hs] at hmode
    exact absurd (hs.symm.trans hmode) (by simp only [reduceCtorEq, not_false_eq_true])

/-- **The session invariant is kept by every step.** -/
theorem InSession.step {I : σ → Session σ → Prop} (hC : H.Carries I) (hR : H.Feeds R) (h : InSession I R s) (e : Recv) :
    InSession I R (Tftp.step H s e) :=
  ⟨fun _ => hC.step h.writing e, fun _ _ => hR.step h.reading e⟩

/-! ## Closes -/

/-- The end of a read session comes back, with the quantity as it was. -/
theorem afterRead_closes (hq : H.ClosesOnly R q) {x : τ} {loop : ReadLoop σ} (hs : q s.app = x)
    (hR : loop.All (fun t => R t.app)) (hx : loop.All (fun t => q t.app = x))
    (hwait : ∀ t, loop = .wait t → ∃ n r, t.mode = .reading n r) :
    q (afterRead H s loop).app = x ∧ (afterRead H s loop).mode ≠ .stopped := by
  cases loop with
  | wait t =>
    obtain ⟨n, r, hm⟩ := hwait t rfl
    exact ⟨hx, fun h => by cases hm.symm.trans h⟩
  | fault => exact ⟨hs, fun h => by cases h⟩
  | finish t result =>
    obtain ⟨app, hc, happ⟩ := hq.onClose t.app hR
    unfold afterRead
    simp only [hc]
    exact ⟨happ.trans hx, fun h => by cases h⟩

theorem parseRq_closes (hR : H.Feeds R) (hq : H.ClosesOnly R q) (result : Int) :
    q (parseRq H s result).app = q s.app ∧ (parseRq H s result).mode ≠ .stopped := by
  by_cases hwrq : word16 s.buffer.bytes 0 = TFTP_CMD_WRQ
  · obtain hr | ⟨name, -, hr⟩ | ⟨name, packet, -, -, hr⟩ := parseRq_wrq (H := H) hwrq result
    · rw [hr]
      exact ⟨rfl, fun h => by cases h⟩
    · rw [hr]
      exact ⟨hq.onWrite name s.app, fun h => by cases h⟩
    · rw [hr]
      exact ⟨hq.onWrite name s.app, fun h => by cases h⟩
  · by_cases hrrq : word16 s.buffer.bytes 0 = TFTP_CMD_RRQ
    · cases hstr : requestStrings s.buffer.bytes with
      | none =>
        rw [parseRq_rrq_fault H s hrrq hstr]
        exact ⟨rfl, fun h => by cases h⟩
      | some strings =>
        have happ := hq.onRead strings.1 s.app
        rw [parseRq_of_rrq hrrq result hstr]
        split
        · exact ⟨happ, fun h => by cases h⟩
        · have hopen := hR.onRead strings.1 s.app (Int.not_lt.1 ‹_›)
          rw [← happ]
          exact afterRead_closes (s := { s with app := (H.onRead strings.1 s.app).2 }) hq rfl
            (readTop_all (fun ret data app => hR.onReadData _ ret data app hopen) 1)
            (readTop_all (fun ret data app => hq.onReadData _ ret data app) 1)
            (fun _ ht => ⟨1, 0, processReadTop_mode H ht⟩)
    · rw [parseRq_other hwrq hrrq]
      split <;> exact ⟨rfl, fun h => by cases h⟩

theorem parseRq_ended (H : Handler σ) (s : Srv σ) (result : Int) : ended (parseRq H s result).hist = ended s.hist := by
  obtain ⟨hp, -⟩ | ⟨⟨file, hp⟩, -⟩ := (parseRq_sends H s result).2.2
  · rw [hp]
  · rw [hp, ended_open rfl]

/-- The end of a write session is the end of no other, whatever the same datagram opens. -/
theorem afterWrite_ended (H : Handler σ) {t : Srv σ} {cur : Session σ} {rest : List (Session σ)}
    (hhist : t.hist = cur :: rest) (hres : cur.result = none) (result : Int) :
    ended (afterWrite H t result).hist = ended t.hist ++ [{ cur with result := some result }] := by
  rw [hhist, ← ended_recordResult hres, ← hhist]
  obtain ⟨hp, -⟩ | ⟨⟨file, asked, hp⟩, -⟩ := (afterWrite_sends H t result).2.2
  · rw [hp]
  · rw [hp, ended_open rfl]

theorem reading_ended {s : Srv σ} {n r : Nat} (hmode : s.mode = .reading n r) (e : Recv) :
    (Tftp.step H s e).hist = s.hist := by
  rw [step_reading H e hmode]
  obtain ⟨-, hr⟩ | hr := afterRead_sends H s (processReadAck_sends H s n r e)
  · rw [hr]
  · rw [hr.hist]
    cases e <;> rfl

theorem reading_closes (hR : H.Feeds R) (hq : H.ClosesOnly R q) {n r : Nat} (hmode : s.mode = .reading n r)
    (h : R s.app) (e : Recv) : q (Tftp.step H s e).app = q s.app ∧ (Tftp.step H s e).mode ≠ .stopped := by
  rw [step_reading H e hmode]
  refine afterRead_closes hq rfl (readAck_all h (fun ret data app => hR.onReadData _ ret data app h) n r e)
    (readAck_all (P := fun app => q app = q s.app) rfl (fun ret data app => hq.onReadData _ ret data app) n r e)
    (fun t ht => ?_)
  unfold processReadAck at ht
  rcases waitForAck s n e with ⟨u, ret⟩
  simp only at ht
  split at ht
  · split at ht
    · cases ht
    · exact ⟨n + 1, 0, processReadTop_mode H ht⟩
  · split at ht
    · cases ht
      exact ⟨n, r + 1, rfl⟩
    · cases ht

/-- **What a step changes by a close**: the quantity stays, and no session ends; or a write session ends, with what it
carried, and its close changes the quantity.  `j` is a quantity that stays in a session. -/
theorem step_closes {I : σ → Session σ → Prop} {j : σ → κ} (hC : H.Carries I) (hR : H.Feeds R)
    (hq : H.ClosesOnly R q)
    (hj : ∀ buffer len app ret app', H.onWriteData buffer len app = some (ret, app') → j app' = j app)
    (h : InSession I R s) (e : Recv) :
    (q (Tftp.step H s e).app = q s.app ∧ ended (Tftp.step H s e).hist = ended s.hist ∧
        ((Tftp.step H s e).mode = .stopped → s.mode = .stopped)) ∨
      ∃ (n : Nat) (t : σ) (session : Session σ), s.mode = .writing n ∧
        ended (Tftp.step H s e).hist = ended s.hist ++ [session] ∧ I t session ∧ q t = q s.app ∧
        j t = j s.app ∧
        ((H.onClose t = none ∧ (Tftp.step H s e).mode = .stopped ∧ q (Tftp.step H s e).app = q t) ∨
          ∃ closed, H.onClose t = some closed ∧ q (Tftp.step H s e).app = q closed ∧
            (Tftp.step H s e).mode ≠ .stopped) := by
  obtain ⟨-, -, hrhist, hrapp⟩ := recvFrom_fields s e
  cases hs : s.mode with
  | idle =>
    refine Or.inl ?_
    obtain ⟨hr, hm⟩ | hr := idle_cases H hs e
    · exact ⟨by rw [hr, hrapp], by rw [hr, hrhist], fun h => by cases hm.symm.trans h⟩
    · obtain ⟨happ, hm⟩ := parseRq_closes (s := recvFrom s e) hR hq (-1)
      rw [hr, happ, hrapp, parseRq_ended, hrhist]
      exact ⟨rfl, rfl, fun h => absurd h hm⟩
  | writing m =>
    have hext : H.Extends (fun app session => I app session ∧ q app = q s.app ∧ j app = j s.app) := by
      intro buffer app app' session b hI hbuf h4 h512 hdata hw
      exact ⟨hC.extend buffer app app' session b hI.1 hbuf h4 h512 hdata hw,
        (hq.onWriteData _ _ _ _ _ hw).trans hI.2.1, (hj _ _ _ _ _ hw).trans hI.2.2⟩
    have hcar : Carried (fun app session => I app session ∧ q app = q s.app ∧ j app = j s.app) s := by
      obtain ⟨cur, rest, hhist, hres, hI⟩ := h.writing m hs
      exact ⟨cur, rest, hhist, hres, hI, rfl, rfl⟩
    obtain hr | ⟨⟨m', hm⟩, hend, cur, rest, -, -, -, hqt, -⟩ |
      ⟨t, result, hr, hend, -, cur, rest, hhist, hres, hI, hqt, hjt⟩ := writing_cases hext hs hcar e
    · rw [hr]
      exact Or.inl ⟨rfl, rfl, fun h => by cases h⟩
    · exact Or.inl ⟨hqt, hend, fun h => by cases hm.symm.trans h⟩
    · rw [hr]
      refine Or.inr ⟨m, t.app, { cur with result := some result }, rfl, ?_, hC.ends _ _ _ hI, hqt, hjt, ?_⟩
      · rw [afterWrite_ended H hhist hres, hend]
      · obtain ⟨hclose, happ, hm⟩ | ⟨app, hclose, ⟨happ, hm⟩ | hm⟩ := afterWrite_cases H t result
        · exact Or.inl ⟨hclose, hm, by rw [happ, hq.onRestart]⟩
        · exact Or.inr ⟨app, hclose, by rw [happ], by rw [hm]; exact fun h => by cases h⟩
        · rw [hm]
          exact Or.inr ⟨app, hclose, parseRq_closes hR hq result⟩
  | reading m k =>
    obtain ⟨happ, hm⟩ := reading_closes hR hq hs (h.reading m k hs) e
    exact Or.inl ⟨happ, by rw [reading_ended hs e], fun h => absurd h hm⟩
  | hung | stopped | fault =>
    rw [Tftp.step, hs]
    exact Or.inl ⟨rfl, rfl, fun h => hs.symm.trans h⟩

end

end Mstd.Tftp
