import Mstd.TftpStep
/-!
# A handler seen through a projection, whatever the handler

Where a handler's state maps to another's and the methods agree (`Handler.Projects`), so do the servers, step by step: a
handler that carries more along does what the handler without it does (`run_map`).
-/
namespace Mstd.Tftp

variable {σ τ : Type}

def Session.map (f : σ → τ) (s : Session σ) : Session τ :=
  { peer := s.peer, file := s.file, asked := f s.asked, blocks := s.blocks, result := s.result }

/-- The server with another handler's state. -/
def Srv.map (f : σ → τ) (s : Srv σ) : Srv τ :=
  { mode := s.mode, buffer := s.buffer, dataSize := s.dataSize, client := s.client, app := f s.app, out := s.out,
    hist := s.hist.map (Session.map f) }

/-- What a projection takes back. -/
theorem Srv.map_back {f : σ → τ} {g : τ → σ} (h : ∀ app, g (f app) = app) (s : Srv σ) : (s.map f).map g = s := by
  have hsession : ∀ session : Session σ, (session.map f).map g = session := by
    intro session
    rw [Session.map, Session.map, h]
  have hhist : (s.hist.map (Session.map f)).map (Session.map g) = s.hist := by
    rw [List.map_map]
    exact (List.map_congr_left (fun session _ => hsession session)).trans (List.map_id _)
  rw [Srv.map, Srv.map, h, hhist]

theorem recordBlock_map (f : σ → τ) (b : Block) (hist : List (Session σ)) :
    recordBlock b (hist.map (Session.map f)) = (recordBlock b hist).map (Session.map f) := by
  cases hist <;> rfl

theorem recordResult_map (f : σ → τ) (result : Int) (hist : List (Session σ)) :
    recordResult result (hist.map (Session.map f)) = (recordResult result hist).map (Session.map f) := by
  cases hist <;> rfl

def ReadLoop.map (f : σ → τ) : ReadLoop σ → ReadLoop τ
  | .wait s     => .wait (s.map f)
  | .finish s r => .finish (s.map f) r
  | .fault      => .fault

def WriteLoop.map (f : σ → τ) : WriteLoop σ → WriteLoop τ
  | .again s n  => .again (s.map f) n
  | .finish s r => .finish (s.map f) r
  | .fault      => .fault

/-- **`f` takes the states of one handler to those of another**, which does and answers the same. -/
structure Handler.Projects (H : Handler σ) (G : Handler τ) (f : σ → τ) : Prop where
  onWrite : ∀ file app, G.onWrite file (f app) = ((H.onWrite file app).1, f (H.onWrite file app).2)
  onRead : ∀ file app, G.onRead file (f app) = ((H.onRead file app).1, f (H.onRead file app).2)
  onWriteData : ∀ buffer len app, G.onWriteData buffer len (f app) =
    (H.onWriteData buffer len app).map (fun r => (r.1, f r.2))
  onReadData : ∀ len app, G.onReadData len (f app) = (H.onReadData len app).map (fun r => (r.1, r.2.1, f r.2.2))
  onClose : ∀ app, G.onClose (f app) = (H.onClose app).map f
  onRestart : ∀ app, G.onRestart (f app) = f (H.onRestart app)

section

variable {H : Handler σ} {G : Handler τ} {f : σ → τ} (hP : H.Projects G f) (s : Srv σ)

include hP

theorem processReadTop_map (n : Nat) : processReadTop G (s.map f) n = (processReadTop H s n).map f := by
  have hread := hP.onReadData (TFTP_DATA_SIZE - 4 : Nat) s.app
  unfold processReadTop
  simp only [Srv.map, hread]
  cases H.onReadData (TFTP_DATA_SIZE - 4 : Nat) s.app with
  | none => rfl
  | some r =>
    simp only [Option.map_some]
    split <;> rfl

theorem processReadAck_map (n r : Nat) (e : Recv) :
    processReadAck G (s.map f) n r e = (processReadAck H s n r e).map f := by
  have hwait : waitForAck (s.map f) n e = ((waitForAck s n e).1.map f, (waitForAck s n e).2) := by
    cases e with
    | timeout => rfl
    | packet src data =>
      simp only [waitForAck]
      split
      · rfl
      · split <;> rfl
  unfold processReadAck
  rw [hwait]
  rcases waitForAck s n e with ⟨t, ret⟩
  simp only
  split
  · rw [processReadTop_map hP, show (t.map f).dataSize = t.dataSize from rfl]
    by_cases hshort : t.dataSize < (TFTP_DATA_SIZE - 4 : Nat)
    · rw [if_pos hshort, if_pos hshort]
      rfl
    · rw [if_neg hshort, if_neg hshort]
  · split <;> rfl

theorem afterRead_map (loop : ReadLoop σ) : afterRead G (s.map f) (loop.map f) = (afterRead H s loop).map f := by
  cases loop with
  | wait t => rfl
  | fault => rfl
  | finish t result =>
    have hclose := hP.onClose t.app
    have hrestart := hP.onRestart t.app
    simp only [afterRead, ReadLoop.map]
    simp only [Srv.map, hclose, hrestart]
    cases H.onClose t.app <;> rfl

theorem parseWrq_map : parseWrq G (s.map f) = (parseWrq H s).map (fun r => (r.1.map f, r.2)) := by
  unfold parseWrq
  simp only [Srv.map]
  cases requestStrings s.buffer.bytes with
  | none => rfl
  | some strings =>
    have hwrite := hP.onWrite strings.1 s.app
    simp only [Option.bind_some, hwrite]
    split
    · rfl
    · split
      · cases strEq (s.buffer.bytes.drop strings.2) (ascii "blksize") with
        | none => rfl
        | some eq => cases eq <;> rfl
      · rfl

theorem parseRrq_map : parseRrq G (s.map f) = (parseRrq H s).map (fun r => (r.1.map f, r.2)) := by
  unfold parseRrq
  simp only [Srv.map]
  cases requestStrings s.buffer.bytes with
  | none => rfl
  | some strings =>
    have hread := hP.onRead strings.1 s.app
    simp only [Option.map_some, hread]
    split <;> rfl

theorem parseRq_map (result : Int) : parseRq G (s.map f) result = (parseRq H s result).map f := by
  unfold parseRq
  rw [parseWrq_map hP, parseRrq_map hP]
  simp only [show (s.map f).buffer = s.buffer from rfl]
  split
  · cases parseWrq H s with
    | none => rfl
    | some r =>
      simp only [Option.map_some]
      split <;> rfl
  · split
    · cases parseRrq H s with
      | none => rfl
      | some r =>
        simp only [Option.map_some]
        split
        · rw [processReadTop_map hP, afterRead_map hP]
        · rfl
    · split <;> rfl

theorem processWriteBody_map (n : Nat) : processWriteBody G (s.map f) n = (processWriteBody H s n).map f := by
  have hend : ∀ (t : Srv σ) (m : Nat), endOfBlock (t.map f) m = (endOfBlock t m).map f := by
    intro t m
    unfold endOfBlock
    rw [show (t.map f).dataSize = t.dataSize from rfl]
    split <;> rfl
  have hwrite := hP.onWriteData (s.buffer.bytes.drop 4) (s.dataSize - 4) s.app
  unfold processWriteBody
  simp only [show (s.map f).buffer = s.buffer from rfl, show (s.map f).dataSize = s.dataSize from rfl]
  split
  · rfl
  · split
    · split <;> rfl
    · split
      · exact hend (sendAck s (word16 s.buffer.bytes 2)) n
      · simp only [sendAck, sendTo, Srv.map, hwrite, recordBlock_map]
        cases H.onWriteData (s.buffer.bytes.drop 4) (s.dataSize - 4) s.app with
        | none => rfl
        | some r =>
          let block : Block := ⟨s.client, word16 s.buffer.bytes 2, (s.buffer.bytes.drop 4).take (s.dataSize - 4).toNat,
            s.dataSize - 4, r.1⟩
          exact hend { sendAck s (word16 s.buffer.bytes 2) with app := r.2, hist := recordBlock block s.hist } (n + 1)

theorem afterWrite_map (result : Int) : afterWrite G (s.map f) result = (afterWrite H s result).map f := by
  have hclose := hP.onClose s.app
  have hrestart := hP.onRestart s.app
  unfold afterWrite
  simp only [Srv.map, hclose, hrestart, recordResult_map]
  cases H.onClose s.app with
  | none => rfl
  | some app =>
    simp only [Option.map_some]
    split
    · rfl
    · exact parseRq_map hP { s with app := app, hist := recordResult result s.hist } result

/-- **The projection of a step is a step of the projection.** -/
theorem step_map (e : Recv) : step G (s.map f) e = (step H s e).map f := by
  have hrecv : recvFrom (s.map f) e = (recvFrom s e).map f := by cases e <;> rfl
  cases hmode : s.mode with
  | idle =>
    rw [step_idle G e (s := s.map f) hmode, step_idle H e hmode, hrecv, parseRq_map hP]
    simp only [show ((recvFrom s e).map f).dataSize = (recvFrom s e).dataSize from rfl]
    split <;> rfl
  | writing n =>
    rw [step_writing G e (s := s.map f) hmode, step_writing H e hmode, hrecv, processWriteBody_map hP]
    cases processWriteBody H (recvFrom s e) n with
    | again t m => rfl
    | finish t result => exact afterWrite_map hP t result
    | fault => rfl
  | reading n r =>
    rw [step_reading G e (s := s.map f) hmode, step_reading H e hmode, processReadAck_map hP, afterRead_map hP]
  | hung | stopped | fault =>
    rw [step, step, hmode, show (s.map f).mode = s.mode from rfl, hmode]

/-- **The projection of a run is a run of the projection.** -/
theorem run_map (es : List Recv) : run G (s.map f) es = (run H s es).map f := by
  induction es generalizing s with
  | nil => rfl
  | cons e es ih => rw [run_cons, run_cons, step_map hP, ih]

end

end Mstd.Tftp
