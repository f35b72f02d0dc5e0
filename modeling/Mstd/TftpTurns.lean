import Mstd.TftpClose
/-!
# What a handler is between and in its sessions, whatever the handler

One property of the handler's state for the server that waits for a request, one for a write session and one for a read
session: when the methods take each to the next (`Handler.Turns`), the server has the one of its mode at every `recvfrom`
(`OnTurn`).
-/
namespace Mstd.Tftp

variable {σ : Type}

/-- **The methods take the state from turn to turn**: `A` between the sessions, `W` in a write session, `R` in a read
session. -/
structure Handler.Turns (H : Handler σ) (A W R : σ → Prop) : Prop where
  opensWrite : ∀ file app, A app → 0 ≤ (H.onWrite file app).1 → W (H.onWrite file app).2
  refusesWrite : ∀ file app, A app → (H.onWrite file app).1 < 0 → A (H.onWrite file app).2
  opensRead : ∀ file app, A app → 0 ≤ (H.onRead file app).1 → R (H.onRead file app).2
  refusesRead : ∀ file app, A app → (H.onRead file app).1 < 0 → A (H.onRead file app).2
  onWriteData : ∀ buffer len app ret app', W app → buffer.length = 512 → len ≤ 512 →
    H.onWriteData buffer len app = some (ret, app') → W app'
  onReadData : ∀ app ret data app', R app → H.onReadData (TFTP_DATA_SIZE - 4 : Nat) app = some (ret, data, app') → R app'
  closeWrite : ∀ app app', W app → H.onClose app = some app' → A app'
  closeRead : ∀ app app', R app → H.onClose app = some app' → A app'

/-- A close that restarted the device left this state. -/
def Handler.Restarted (H : Handler σ) (W R : σ → Prop) (app' : σ) : Prop :=
  ∃ app, (W app ∨ R app) ∧ H.onClose app = none ∧ app' = H.onRestart app

/-- The server has the property of its mode.  Where it has stopped, a close of the last turn restarted the device; where it
has faulted, the handler's state is one of the last turn. -/
def OnTurn (H : Handler σ) (A W R : σ → Prop) (s : Srv σ) : Prop :=
  match s.mode with
  | .idle | .hung => A s.app
  | .writing _    => Carried (fun app _ => W app) s
  | .reading _ _  => R s.app
  | .stopped      => H.Restarted W R s.app
  | .fault        => A s.app ∨ W s.app ∨ R s.app

section

variable {H : Handler σ} {A W R : σ → Prop} {s : Srv σ}

theorem OnTurn.idle (hmode : s.mode = .idle) (h : A s.app) : OnTurn H A W R s := by
  unfold OnTurn
  rw [hmode]
  exact h

theorem OnTurn.writing {n : Nat} (hmode : s.mode = .writing n) (h : Carried (fun app _ => W app) s) :
    OnTurn H A W R s := by
  unfold OnTurn
  rw [hmode]
  exact h

theorem OnTurn.reading {n r : Nat} (hmode : s.mode = .reading n r) (h : R s.app) : OnTurn H A W R s := by
  unfold OnTurn
  rw [hmode]
  exact h

theorem OnTurn.stopped (hmode : s.mode = .stopped) (h : H.Restarted W R s.app) : OnTurn H A W R s := by
  unfold OnTurn
  rw [hmode]
  exact h

theorem OnTurn.fault (hmode : s.mode = .fault) (h : A s.app ∨ W s.app ∨ R s.app) : OnTurn H A W R s := by
  unfold OnTurn
  rw [hmode]
  exact h

/-- Unless it has stopped, the handler's state is one of the three. -/
theorem OnTurn.some (h : OnTurn H A W R s) : A s.app ∨ W s.app ∨ R s.app ∨ s.mode = .stopped ∧ H.Restarted W R s.app := by
  unfold OnTurn at h
  split at h
  · exact .inl h
  · exact .inl h
  · obtain ⟨-, -, -, -, hW⟩ := h
    exact .inr (.inl hW)
  · exact .inr (.inr (.inl h))
  · exact .inr (.inr (.inr ⟨‹_›, h⟩))
  · rcases h with h | h | h
    · exact .inl h
    · exact .inr (.inl h)
    · exact .inr (.inr (.inl h))

/-- A wait for an ACK is in a read session. -/
theorem processReadAck_wait {n r : Nat} {e : Recv} {t : Srv σ} (h : processReadAck H s n r e = .wait t) :
    ∃ m k, t.mode = .reading m k := by
  unfold processReadAck at h
  rcases waitForAck s n e with ⟨u, ret⟩
  simp only at h
  split at h
  · split at h
    · cases h
    · exact ⟨n + 1, 0, processReadTop_mode H h⟩
  · split at h
    · cases h
      exact ⟨n, r + 1, rfl⟩
    · cases h

variable (hT : H.Turns A W R)

include hT

theorem Handler.Turns.readTop {t : Srv σ} (h : R t.app) (n : Nat) : (processReadTop H t n).All (fun u => R u.app) :=
  readTop_all (fun ret data app => hT.onReadData _ ret data app h) n

/-- What the loop of `process_read` leaves, with the close behind it. -/
theorem Handler.Turns.afterRead (hs : A s.app ∨ W s.app ∨ R s.app) {loop : ReadLoop σ}
    (h : loop.All (fun t => R t.app)) (hwait : ∀ t, loop = .wait t → ∃ n r, t.mode = .reading n r) :
    OnTurn H A W R (Tftp.afterRead H s loop) := by
  cases loop with
  | fault => exact OnTurn.fault rfl hs
  | wait t =>
    obtain ⟨n, r, hmode⟩ := hwait t rfl
    exact OnTurn.reading hmode h
  | finish t result =>
    have ht : R t.app := h
    cases hclose : H.onClose t.app with
    | none =>
      simp only [Tftp.afterRead, hclose]
      exact OnTurn.stopped rfl ⟨t.app, .inr ht, hclose, rfl⟩
    | some app =>
      rw [afterRead_finish hclose]
      exact OnTurn.idle rfl (hT.closeRead _ _ ht hclose)

/-- **`parse_rq` opens a session, or waits.** -/
theorem Handler.Turns.parseRq (h : A s.app) (result : Int) : OnTurn H A W R (Tftp.parseRq H s result) := by
  by_cases hwrq : word16 s.buffer.bytes 0 = TFTP_CMD_WRQ
  · obtain hr | ⟨name, hneg, hr⟩ | ⟨name, packet, hpos, -, hr⟩ := parseRq_wrq (H := H) hwrq result
    · rw [hr]
      exact OnTurn.fault rfl (.inl h)
    · rw [hr]
      exact OnTurn.idle rfl (hT.refusesWrite name s.app h hneg)
    · rw [hr]
      exact OnTurn.writing rfl ⟨_, s.hist, rfl, rfl, hT.opensWrite name s.app h hpos⟩
  · by_cases hrrq : word16 s.buffer.bytes 0 = TFTP_CMD_RRQ
    · cases hstr : requestStrings s.buffer.bytes with
      | none =>
        rw [parseRq_rrq_fault H s hrrq hstr]
        exact OnTurn.fault rfl (.inl h)
      | some strings =>
        rw [parseRq_of_rrq hrrq result hstr]
        by_cases hneg : (H.onRead strings.1 s.app).1 < 0
        · rw [if_pos hneg]
          exact OnTurn.idle rfl (hT.refusesRead strings.1 s.app h hneg)
        · rw [if_neg hneg]
          have hopen := hT.opensRead strings.1 s.app h (Int.not_lt.1 hneg)
          exact hT.afterRead (.inr (.inr hopen)) (hT.readTop hopen 1) (fun _ ht => ⟨1, 0, processReadTop_mode H ht⟩)
    · rw [parseRq_other hwrq hrrq]
      split
      · exact OnTurn.idle rfl h
      · exact h

theorem Handler.Turns.afterWrite {t : Srv σ} (h : W t.app) (result : Int) :
    OnTurn H A W R (Tftp.afterWrite H t result) := by
  obtain ⟨hclose, happ, hmode⟩ | ⟨app, hclose, hr⟩ := afterWrite_cases H t result
  · exact OnTurn.stopped hmode ⟨t.app, .inl h, hclose, happ⟩
  · have hA := hT.closeWrite _ _ h hclose
    obtain ⟨happ, hmode⟩ | hr := hr
    · exact OnTurn.idle hmode (happ ▸ hA)
    · rw [hr]
      exact hT.parseRq (s := { t with hist := recordResult result t.hist, app := app }) hA result

/-- **A step goes from turn to turn.** -/
theorem Handler.Turns.step (h : OnTurn H A W R s) (e : Recv) : OnTurn H A W R (Tftp.step H s e) := by
  unfold OnTurn at h
  cases hs : s.mode with
  | idle =>
    rw [hs] at h
    have happ := (recvFrom_fields s e).2.2.2
    obtain ⟨hr, hmode⟩ | hr := idle_cases H hs e
    · exact OnTurn.idle hmode (by rw [hr, happ]; exact h)
    · rw [hr]
      exact hT.parseRq (happ ▸ h) (-1)
  | writing n =>
    rw [hs] at h
    have hext : H.Extends (fun app _ => W app) := fun buffer app app' _ b hW hbuf _ hlen _ hw =>
      hT.onWriteData buffer b.len app b.ret app' hW hbuf hlen hw
    obtain hr | ⟨⟨m, hmode⟩, -, hr⟩ | ⟨t, result, hr, -, -, -, -, -, -, hW⟩ := writing_cases hext hs h e
    · rw [hr]
      obtain ⟨-, -, -, -, hW⟩ := h
      exact OnTurn.fault rfl (.inr (.inl hW))
    · exact OnTurn.writing hmode hr
    · rw [hr]
      exact hT.afterWrite hW result
  | reading n r =>
    rw [hs] at h
    rw [step_reading H e hs]
    refine hT.afterRead (.inr (.inr h)) (readAck_all h (fun ret data app => hT.onReadData _ ret data app h) n r e)
      (fun t ht => processReadAck_wait ht)
  | hung | stopped | fault =>
    rw [Tftp.step, hs]
    unfold OnTurn
    rw [hs] at h ⊢
    exact h

/-- **A run goes from turn to turn.** -/
theorem Handler.Turns.run (h : OnTurn H A W R s) (es : List Recv) : OnTurn H A W R (Tftp.run H s es) :=
  run_keeps (I := OnTurn H A W R) (fun _ e hs => hT.step hs e) h es

end

end Mstd.Tftp
