import Mstd.TftpDownload
/-!
# The tries for a block

`process_read` sends `m_buffer` up to three times, and the error reply of `wait_for_ack` is built in the same buffer.  So
the tries are the same packet exactly when each wait between them brought an ACK packet, of another block
(`retries_exact_iff`).
-/
namespace Mstd.Tftp

variable {σ φ : Type}

/-- The wait brings the ACK of block `n`. -/
def acked (n : Nat) : Recv → Bool
  | .timeout    => false
  | .packet _ d => decide (4 ≤ d.length) && word16 d 0 == TFTP_CMD_ACK && word16 d 2 == n % 65536

/-- The wait brings an ACK packet, of whatever block. -/
def IsAck : Recv → Prop
  | .timeout    => False
  | .packet _ d => 4 ≤ d.length ∧ word16 d 0 = TFTP_CMD_ACK

instance IsAck.decidable : (e : Recv) → Decidable (IsAck e)
  | .timeout    => .isFalse id
  | .packet _ d => inferInstanceAs (Decidable (4 ≤ d.length ∧ word16 d 0 = TFTP_CMD_ACK))

/-- The waits for the ACK of block `n` that another try follows. -/
def tryWaits (n : Nat) (es : List Recv) : List Recv := (es.takeWhile (fun e => !acked n e)).take 2

/-- The packet of the last `sendto`. -/
def lastSent (s : Srv σ) : Option Datagram := s.out.getLast?.map Prod.snd

/-! ## A wait -/

section

variable {s : Srv σ} {n : Nat}

/-- **What a wait does**: it brings the ACK, or the ACK of another block, or an error packet is built in `m_buffer`. -/
theorem waitForAck_spec (s : Srv σ) (n : Nat) (e : Recv) :
    (waitForAck s n e).1.dataSize = s.dataSize ∧ ((waitForAck s n e).2 = 0 ↔ acked n e = true) ∧
      (IsAck e → (waitForAck s n e).1.buffer = s.buffer) ∧
      (¬ IsAck e → word16 (waitForAck s n e).1.buffer.bytes 0 = TFTP_CMD_ERROR) := by
  cases e with
  | timeout =>
    refine ⟨rfl, ⟨fun h => ?_, fun h => ?_⟩, fun h => h.elim, fun _ => (word16_sendError s _ _).1⟩
    · exact absurd h (by decide : ¬ (-1 : Int) = 0)
    · cases h
  | packet src d =>
    have hlen : (d.take 4).length ≠ 4 ↔ ¬ 4 ≤ d.length := by rw [List.length_take]; omega
    have hcode : word16 (d.take 4) 0 = word16 d 0 := word16_take (by decide)
    have hnum : word16 (d.take 4) 2 = word16 d 2 := by
      rw [← word16_drop, ← word16_drop d 2, List.drop_take]
      exact word16_take (by decide)
    simp only [waitForAck, hlen, hcode, hnum, IsAck, acked, Bool.and_eq_true, decide_eq_true_eq, beq_iff_eq]
    by_cases hack : 4 ≤ d.length ∧ word16 d 0 = TFTP_CMD_ACK
    · rw [if_neg (by rintro (h | h); exacts [h hack.1, h hack.2])]
      by_cases hright : word16 d 2 = n % 65536
      · rw [if_neg (fun h => h hright)]
        exact ⟨rfl, ⟨fun _ => ⟨hack, hright⟩, fun _ => rfl⟩, fun _ => rfl, fun h => absurd hack h⟩
      · rw [if_pos hright]
        exact ⟨rfl, ⟨fun h => absurd h (by decide : ¬ (1 : Int) = 0), fun h => absurd h.2 hright⟩, fun _ => rfl,
          fun h => absurd hack h⟩
    · rw [if_pos (by by_cases h : 4 ≤ d.length; exacts [Or.inr (fun h' => hack ⟨h, h'⟩), Or.inl h])]
      exact ⟨rfl, ⟨fun h => absurd h (by decide : ¬ (-1 : Int) = 0), fun h => absurd h.1 hack⟩, fun h => absurd h hack,
        fun _ => (word16_sendError { s with client := src } _ _).1⟩

theorem lastSent_sendBlock (s : Srv σ) (n r : Nat) :
    lastSent (sendBlock s n r) = some (s.buffer.bytes.take (s.dataSize + 4).toNat) := by
  show (s.out ++ [(s.client, s.buffer.bytes.take (s.dataSize + 4).toNat)]).getLast?.map Prod.snd = _
  rw [List.getLast?_concat]
  rfl

/-- **A wait that fails** is followed by another try, up to the third. -/
theorem step_retry (H : Handler σ) {r : Nat} {e : Recv} (hmode : s.mode = .reading n r) (hr : r + 1 < 3)
    (hfail : acked n e = false) : step H s e = sendBlock (waitForAck s n e).1 n (r + 1) := by
  obtain ⟨-, hret, -⟩ := waitForAck_spec s n e
  rw [hfail] at hret
  rw [step_reading H e hmode, processReadAck]
  simp only
  rw [if_neg (fun h => Bool.false_ne_true (hret.1 h)), if_pos hr]
  rfl

end

/-! ## The tries -/

/-- The packet in `m_buffer`, as `process_read` sends it. -/
def bufferPacket (s : Srv σ) : Datagram := s.buffer.bytes.take (s.dataSize + 4).toNat

section

variable {H : Handler σ} {s : Srv σ} {n : Nat}

/-- The tries follow the waits one by one. -/
theorem run_tries_mode : ∀ {waits : List Recv}, (∀ e ∈ waits, acked n e = false) → ∀ {s : Srv σ} {r : Nat},
    s.mode = .reading n r → r + waits.length < 3 → (run H s waits).mode = .reading n (r + waits.length)
  | [], _, _, _, hmode, _ => hmode
  | e :: waits, hfail, s, r, hmode, hr => by
    rw [List.length_cons] at hr ⊢
    rw [run_cons, step_retry H hmode (by omega) (hfail e List.mem_cons_self), Nat.add_comm waits.length 1, ← Nat.add_assoc]
    apply run_tries_mode (fun e he => hfail e (List.mem_cons_of_mem _ he)) rfl
    omega

/-- **The tries are one packet exactly when each wait between them brought an ACK packet.** -/
theorem tries_exact_iff {waits : List Recv} (hfail : ∀ e ∈ waits, acked n e = false) {r : Nat}
    (hmode : s.mode = .reading n r) (hr : r + waits.length < 3) {packet : Datagram} (hbuf : bufferPacket s = packet)
    (hsent : lastSent s = some packet) (hpacket : word16 packet 0 ≠ TFTP_CMD_ERROR) (hsize : 0 ≤ s.dataSize) :
    (∀ k, k ≤ waits.length → lastSent (run H s (waits.take k)) = some packet) ↔ ∀ e ∈ waits, IsAck e := by
  induction waits generalizing s r with
  | nil =>
    refine ⟨fun _ e he => absurd he List.not_mem_nil, fun _ k _ => ?_⟩
    rw [List.take_nil]
    exact hsent
  | cons e waits ih =>
    rw [List.length_cons] at hr
    obtain ⟨hds, -, hkeep, hover⟩ := waitForAck_spec s n e
    have hstep := step_retry H hmode (by omega) (hfail e List.mem_cons_self)
    have hlast : lastSent (step H s e) = some (bufferPacket (waitForAck s n e).1) := by
      rw [hstep, lastSent_sendBlock]
      rfl
    by_cases hack : IsAck e
    · have hsame : bufferPacket (waitForAck s n e).1 = packet := by
        rw [bufferPacket, hkeep hack, hds]
        exact hbuf
      have hrest := ih (s := step H s e) (fun e he => hfail e (List.mem_cons_of_mem _ he)) (by rw [hstep]; rfl) (by omega)
        (by rw [hstep]; exact hsame) (by rw [hlast, hsame]) (by rw [hstep]; exact hds ▸ hsize)
      rw [List.forall_mem_cons, ← hrest]
      refine ⟨fun h => ⟨hack, fun k hk => h (k + 1) (Nat.succ_le_succ hk)⟩, fun h k hk => ?_⟩
      cases k with
      | zero => exact hsent
      | succ k => exact h.2 k (Nat.le_of_succ_le_succ hk)
    · -- the second try starts with the opcode of the error packet
      refine ⟨fun h => ?_, fun h => absurd (h e List.mem_cons_self) hack⟩
      have hone : lastSent (step H s e) = some packet := h 1 (Nat.succ_le_succ (Nat.zero_le _))
      rw [hlast] at hone
      rw [← Option.some.inj hone, bufferPacket, word16_take (by rw [hds]; omega), hover hack] at hpacket
      exact absurd rfl hpacket

end

/-- `on_read_data` produces as many bytes as it says, at most as many as it is asked for. -/
theorem onReadData_length (env : OtaEnv φ) {s s' : Ota φ} {ret : Int} {data : List UInt8}
    (h : onReadData env (TFTP_DATA_SIZE - 4 : Nat) s = some (ret, data, s')) (hret : 0 ≤ ret) :
    ret = (data.length : Int) ∧ data.length ≤ 512 := by
  have hread : ∀ base size, readFrom env base size (TFTP_DATA_SIZE - 4 : Nat) s = some (ret, data, s') →
      ret = (data.length : Int) ∧ data.length ≤ 512 := by
    intro base size h
    unfold readFrom at h
    simp only at h
    -- the rest of the file, or as much as was asked for
    split at h <;>
    · rename_i hcut
      split at h
      · cases h
      · cases h
        rw [ByteMem.length_window]
        unfold TFTP_DATA_SIZE at *
        omega
  have herr : (some (-1, [], s) : Option (Int × List UInt8 × Ota φ)) ≠ some (ret, data, s') := by
    intro h
    cases h
    exact absurd hret (by decide)
  unfold onReadData at h
  cases hjob : s.job <;> rw [hjob] at h <;> simp only at h
  case sendCfg =>
    cases hconf : s.setup.config with
    | none =>
      rw [hconf] at h
      exact absurd h herr
    | some base =>
      rw [hconf] at h
      exact hread base _ h
  case sendFCfg =>
    split at h
    · exact hread 0 _ h
    · exact absurd h herr
  all_goals exact absurd h herr

theorem tryWaits_spec (n : Nat) (es : List Recv) :
    (tryWaits n es).length < 3 ∧ (∀ e ∈ tryWaits n es, acked n e = false) ∧ tryWaits n es <+: es := by
  refine ⟨?_, fun e he => ?_, (List.take_prefix _ _).trans (List.takeWhile_prefix _)⟩
  · unfold tryWaits
    rw [List.length_take]
    omega
  · have hfails := List.all_eq_true.1 List.all_takeWhile e (List.mem_of_mem_take he)
    simpa only [Bool.not_eq_true'] using hfails

/-- The first wait that no other try follows brings the ACK, or is the third. -/
theorem acked_of_tryWaits {n : Nat} {es rest : List Recv} {e : Recv} (hes : es = tryWaits n es ++ e :: rest) :
    acked n e = true ∨ (tryWaits n es).length = 2 := by
  by_cases hlen : (es.takeWhile (fun e => !acked n e)).length ≤ 2
  · have hall : tryWaits n es = es.takeWhile (fun e => !acked n e) := List.take_of_length_le hlen
    have hdrop : es.dropWhile (fun e => !acked n e) = e :: rest := by
      rw [hall] at hes
      exact List.append_cancel_left ((List.takeWhile_append_dropWhile).trans hes)
    have hhead := List.head?_dropWhile_not (fun e => !acked n e) es
    rw [hdrop] at hhead
    exact Or.inl (by simpa using hhead)
  · refine Or.inr ?_
    rw [tryWaits, List.length_take]
    omega

/-- **There are no other tries for the block.** -/
theorem tries_over (H : Handler σ) {s : Srv σ} {n : Nat} (hmode : s.mode = .reading n 0) {es rest : List Recv} {e : Recv}
    (hes : es = tryWaits n es ++ e :: rest) (r : Nat) : (run H s (tryWaits n es ++ [e])).mode ≠ .reading n r := by
  obtain ⟨hlen, hfail, -⟩ := tryWaits_spec n es
  have hlast := run_tries_mode (H := H) hfail hmode (by omega)
  rw [Nat.zero_add] at hlast
  intro hagain
  rw [run_append, run_cons, step_reading H e hlast] at hagain
  obtain ⟨u, hwait, hu⟩ := afterRead_reading hagain
  obtain ⟨-, hret, -⟩ := waitForAck_spec (run H s (tryWaits n es)) n e
  unfold processReadAck at hwait
  simp only at hwait
  split at hwait
  · split at hwait
    · cases hwait
    · rw [processReadTop_mode H hwait] at hu
      cases hu
  · rename_i hne
    obtain hack | htwo := acked_of_tryWaits hes
    · exact hne (hret.2 hack)
    · rw [htwo] at hwait
      cases hwait

/-- **The first try** for a block. -/
theorem readTop_try (env : OtaEnv φ) {s : Srv (Ota φ)} {ret : Int} {data : List UInt8} {app : Ota φ}
    (hread : (otaServer env).onReadData (TFTP_DATA_SIZE - 4 : Nat) s.app = some (ret, data, app)) (hret : 0 ≤ ret)
    (n : Nat) :
    ∃ s', processReadTop (otaServer env) s n = .wait s' ∧ s'.mode = .reading n 0 ∧ s'.dataSize = ret ∧
      bufferPacket s' = dataBytes n data ∧ lastSent s' = some (dataBytes n data) := by
  obtain ⟨rfl, hsize⟩ := onReadData_length env hread hret
  have hpacket := take_packet s.buffer n hsize
  refine ⟨_, processReadTop_wait n hread hret, rfl, rfl, hpacket, ?_⟩
  rw [lastSent_sendBlock]
  exact congrArg some hpacket

/-- **When the tries for a block are byte for byte the same packet**: exactly when every wait that another try follows
brings an ACK packet, of another block. -/
theorem retries_exact_iff (env : OtaEnv φ) {s : Srv (Ota φ)} {ret : Int} {data : List UInt8} {app : Ota φ}
    (hread : (otaServer env).onReadData (TFTP_DATA_SIZE - 4 : Nat) s.app = some (ret, data, app)) (hret : 0 ≤ ret)
    (n : Nat) (es : List Recv) :
    ∃ s', processReadTop (otaServer env) s n = .wait s' ∧
      ((∀ k, k ≤ (tryWaits n es).length →
          lastSent (run (otaServer env) s' (es.take k)) = some (dataBytes n data)) ↔
        ∀ e ∈ tryWaits n es, IsAck e) := by
  obtain ⟨hlen, hfail, rest, hrest⟩ := tryWaits_spec n es
  obtain ⟨s', htop, hmode, hds, hpacket, hsent⟩ := readTop_try env hread hret n
  have hcode : word16 (dataBytes n data) 0 ≠ TFTP_CMD_ERROR := by
    have hdata := word16_dataBytes_code n data []
    rw [List.append_nil] at hdata
    rw [hdata]
    decide
  have hsame : ∀ k, k ≤ (tryWaits n es).length → es.take k = (tryWaits n es).take k := fun k hk =>
    (congrArg (List.take k) hrest).symm.trans (List.take_append_of_le_length hk)
  refine ⟨s', htop, ?_⟩
  rw [← tries_exact_iff (H := otaServer env) hfail hmode (by omega) hpacket hsent hcode (hds ▸ hret)]
  exact forall_congr' (fun k => forall_congr' (fun hk => by rw [hsame k hk]))

/-- The server behind a read request for `cfg.cfg`. -/
def readServer : Srv (Ota Unit) := { servedServer with app := (onRead cfgName servedServer.app).2 }

/-- An ACK of block 9 makes the server send block 1 again. -/
theorem retries_exact_wrong :
    ∃ data s', processReadTop (otaServer stockEnv) readServer 1 = .wait s' ∧
      lastSent (run (otaServer stockEnv) s' [.packet 1 (ackPacket 9)]) = some (dataBytes 1 data) := by
  obtain ⟨app, hread, -⟩ := onReadData_file (s := readServer.app) stockEnv
    (show fileOf stockEnv.past readServer.app.setup readServer.app.job = some _ from rfl) (by decide +kernel) (by decide)
  obtain ⟨s', htop, htries⟩ := retries_exact_iff stockEnv (s := readServer) hread (Int.natCast_nonneg _) 1
    [.packet 1 (ackPacket 9)]
  exact ⟨_, s', htop, htries.2 (by decide) 1 (by decide)⟩

/-- The server waits for the ACK of block 1. -/
def readingServer : Srv (Ota Unit) :=
  run (otaServer stockEnv) servedServer [.packet 1 (xrqPacket TFTP_CMD_RRQ cfgName)]

/-- A timeout makes the server send a packet with the opcode of an error in the place of block 1. -/
theorem retry_overwritten :
    ¬ ∀ k, k ≤ (tryWaits 1 [.timeout]).length →
      lastSent (run (otaServer stockEnv) readingServer (([.timeout] : List Recv).take k)) = lastSent readingServer := by
  intro h
  have hone : (lastSent (step (otaServer stockEnv) readingServer .timeout)).map (word16 · 0) =
      (lastSent readingServer).map (word16 · 0) := congrArg _ (h 1 (by decide))
  revert hone
  decide +kernel

end Mstd.Tftp
