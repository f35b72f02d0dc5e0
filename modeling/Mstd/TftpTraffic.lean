import Mstd.TftpRetry
import Mstd.TftpReturns
/-!
# What the server sends (`tftp_server.cpp`)

Every packet is a TFTP packet that fits `m_buffer`.  A read session may send more on timeouts, at most the `debt` of its
mode; a datagram is answered with at most six packets, the debt that it leaves included (`step_pays`).  So no peer gets
more than six packets for each datagram of its own (`run_traffic`).
-/
namespace Mstd.Tftp

open ByteMem (Buffer Ptr)

variable {σ φ : Type}

def TFTP_CMD_OACK : Nat := 6

/-- A TFTP packet that fits `m_buffer`. -/
structure Wire (d : Datagram) : Prop where
  min : 4 ≤ d.length
  max : d.length ≤ TFTP_DATA_SIZE
  code : word16 d 0 ∈ [TFTP_CMD_DATA, TFTP_CMD_ACK, TFTP_CMD_ERROR, TFTP_CMD_OACK]

/-- The packet in `m_buffer` is one of these: a DATA packet, or the error packet that has overwritten its start. -/
structure Ready (s : Srv σ) : Prop where
  code : word16 s.buffer.bytes 0 = TFTP_CMD_DATA ∨ word16 s.buffer.bytes 0 = TFTP_CMD_ERROR
  min : 0 ≤ s.dataSize
  max : s.dataSize ≤ 512

/-- The packets that timeouts may still send: an error packet on each, and the block again on all but the third. -/
def Mode.debt : Mode → Nat
  | .reading _ r => 2 * (2 - r) + 1
  | _            => 0

/-- `on_read_data` returns no more than it was asked for. -/
def Handler.ReadsBlock (H : Handler σ) : Prop :=
  ∀ app ret data app', H.onReadData (TFTP_DATA_SIZE - 4 : Nat) app = some (ret, data, app') → ret ≤ 512

theorem otaServer_readsBlock (env : OtaEnv φ) : (otaServer env).ReadsBlock := by
  intro app ret data app' h
  by_cases hret : 0 ≤ ret
  · obtain ⟨hlen, hle⟩ := onReadData_length env h hret
    omega
  · omega

/-! ## Packets -/

theorem wire_ack (n : Nat) : Wire (ackPacket n) := by
  have hcode := word16_ackPacket_code n []
  rw [List.append_nil] at hcode
  exact ⟨by simp [ackPacket, be16], by simp [ackPacket, be16, TFTP_DATA_SIZE], by simp [hcode]⟩

theorem wire_oack : Wire oackPacket := ⟨by decide, by decide, by decide⟩

theorem wire_error {code : Nat} {message : String} (h : message.toList.length ≤ 511) :
    Wire (be16 TFTP_CMD_ERROR ++ be16 code ++ ascii message ++ [0]) := by
  have hcode : word16 (be16 TFTP_CMD_ERROR ++ be16 code ++ ascii message ++ [0]) 0 = TFTP_CMD_ERROR := by
    rw [List.append_assoc, List.append_assoc, word16_be16]
    rfl
  refine ⟨by simp [be16, ascii], ?_, by rw [hcode]; decide⟩
  simp only [be16, ascii, List.length_append, List.length_cons, List.length_nil, List.length_map, TFTP_DATA_SIZE]
  omega

namespace Ready

variable {s : Srv σ}

theorem wire (h : Ready s) : Wire (bufferPacket s) := by
  obtain ⟨hcode, hmin, hmax⟩ := h
  have hlen : (bufferPacket s).length = (s.dataSize + 4).toNat := by
    rw [bufferPacket, List.length_take, length_buffer, TFTP_DATA_SIZE]
    omega
  have hword : word16 (bufferPacket s) 0 = word16 s.buffer.bytes 0 := word16_take (by omega)
  refine ⟨by omega, by rw [hlen, TFTP_DATA_SIZE]; omega, ?_⟩
  rw [hword]
  rcases hcode with h | h <;> simp [h]

theorem sendError (h : Ready s) (code : Nat) (message : String) : Ready (sendError s code message) :=
  ⟨.inr (word16_sendError s code message).1, h.min, h.max⟩

end Ready

/-- A copy behind the first two bytes. -/
theorem word16_put_behind (buf : Buffer TFTP_DATA_SIZE) {off : Nat} (hoff : 2 ≤ off) (data : List UInt8) :
    word16 (buf.put off data).bytes 0 = word16 buf.bytes 0 := by
  have hlen : 0 + 2 ≤ (buf.bytes.take off).length := by
    rw [List.length_take, buf.size, TFTP_DATA_SIZE]
    omega
  show word16 (buf.bytes.take off ++ _ ++ _) 0 = _
  rw [List.append_assoc, word16_append hlen, word16_take hoff]

/-! ## Sending -/

/-- `t` is `s` with at most `n` packets sent to its client. -/
structure Sent (n : Nat) (s t : Srv σ) : Prop where
  client : t.client = s.client
  out : ∃ packets, t.out = s.out ++ packets ∧ packets.length ≤ n ∧ ∀ p ∈ packets, p.1 = s.client ∧ Wire p.2

namespace Sent

variable {n m : Nat} {s t u : Srv σ}

theorem none (hclient : t.client = s.client) (hout : t.out = s.out) : Sent n s t :=
  ⟨hclient, [], by rw [hout, List.append_nil], Nat.zero_le _, fun _ h => by cases h⟩

theorem one {d : Datagram} (hd : Wire d) (hclient : t.client = s.client) (hout : t.out = s.out ++ [(s.client, d)]) :
    Sent 1 s t :=
  ⟨hclient, _, hout, Nat.le_refl _, fun p hp => by rw [List.mem_singleton.1 hp]; exact ⟨rfl, hd⟩⟩

theorem trans (h : Sent n s t) (h' : Sent m t u) : Sent (n + m) s u := by
  obtain ⟨ps, hout, hlen, hps⟩ := h.out
  obtain ⟨qs, hout', hlen', hqs⟩ := h'.out
  refine ⟨h'.client.trans h.client, ps ++ qs, by rw [hout', hout, List.append_assoc], ?_, fun p hp => ?_⟩
  · rw [List.length_append]
    exact Nat.add_le_add hlen hlen'
  · rcases List.mem_append.1 hp with hp | hp
    · exact hps p hp
    · rw [← h.client]
      exact hqs p hp

theorem error (code : Nat) {message : String} (h : message.toList.length ≤ 511) :
    Sent 1 s (sendError s code message) := one (wire_error h) rfl rfl

theorem ack (n : Nat) : Sent 1 s (sendAck s n) := one (wire_ack n) rfl rfl

theorem block (h : Ready s) (n r : Nat) : Sent 1 s (sendBlock s n r) := one h.wire rfl rfl

end Sent

/-- The packets between `s` and `t` went to the client of `s`; they and the debt are at most `n`. -/
structure Pays (n : Nat) (s t : Srv σ) : Prop where
  out : ∃ packets, t.out = s.out ++ packets ∧ packets.length + t.mode.debt ≤ n ∧
    ∀ p ∈ packets, p.1 = s.client ∧ Wire p.2
  client : 0 < t.mode.debt → t.client = s.client
  ready : ∀ m r, t.mode = .reading m r → Ready t

namespace Pays

variable {n k : Nat} {s t u : Srv σ}

theorem mono (h : Pays n s t) (hle : n ≤ k) : Pays k s t := by
  obtain ⟨ps, hout, hlen, hps⟩ := h.out
  exact ⟨⟨ps, hout, hlen.trans hle, hps⟩, h.client, h.ready⟩

theorem after (h : Sent k s t) (h' : Pays n t u) : Pays (k + n) s u := by
  obtain ⟨ps, hout, hlen, hps⟩ := h.out
  obtain ⟨qs, hout', hlen', hqs⟩ := h'.out
  refine ⟨⟨ps ++ qs, by rw [hout', hout, List.append_assoc], ?_, fun p hp => ?_⟩,
    fun hd => (h'.client hd).trans h.client, h'.ready⟩
  · rw [List.length_append]
    omega
  · rcases List.mem_append.1 hp with hp | hp
    · exact hps p hp
    · rw [← h.client]
      exact hqs p hp

/-- No read session is open. -/
theorem closed (h : Sent k s t) (hout : u.out = t.out) (hmode : ∀ m r, u.mode ≠ .reading m r) (hle : k ≤ n) :
    Pays n s u := by
  have hdebt : u.mode.debt = 0 := by
    cases hm : u.mode with
    | reading m r => exact absurd hm (hmode m r)
    | idle | writing n | hung | stopped | fault => rfl
  obtain ⟨ps, hps, hlen, hall⟩ := h.out
  exact ⟨⟨ps, hout.trans hps, by omega, hall⟩, fun hd => by omega, fun m r hm => absurd hm (hmode m r)⟩

/-- The server waits for an ACK. -/
theorem waits (h : Sent k s t) (hready : Ready t) (hle : k + t.mode.debt ≤ n) : Pays n s t := by
  obtain ⟨ps, hps, hlen, hall⟩ := h.out
  exact ⟨⟨ps, hps, by omega, hall⟩, fun _ => h.client, fun _ _ _ => hready⟩

end Pays

/-- The loop of `process_read` waits, or is over. -/
def ReadLoop.Pays (n : Nat) (s : Srv σ) : ReadLoop σ → Prop
  | .wait t     => Tftp.Pays n s t
  | .finish t _ => Sent n s t
  | .fault      => True

theorem ReadLoop.Pays.after {n k : Nat} {s t : Srv σ} {loop : ReadLoop σ} (hs : Sent k s t) (h : loop.Pays n t) :
    loop.Pays (k + n) s := by
  cases loop with
  | wait u => exact Tftp.Pays.after hs h
  | finish u result => exact hs.trans h
  | fault => trivial

theorem ReadLoop.Pays.mono {n k : Nat} {s : Srv σ} {loop : ReadLoop σ} (h : loop.Pays n s) (hle : n ≤ k) :
    loop.Pays k s := by
  cases loop with
  | wait u => exact Tftp.Pays.mono h hle
  | finish u result =>
    obtain ⟨hclient, ps, hout, hlen, hps⟩ := h
    exact ⟨hclient, ps, hout, hlen.trans hle, hps⟩
  | fault => trivial

section

variable (H : Handler σ) (s : Srv σ)

theorem processReadTop_pays (hread : H.ReadsBlock) (n : Nat) : (processReadTop H s n).Pays 6 s := by
  unfold processReadTop
  simp only
  cases hr : H.onReadData (TFTP_DATA_SIZE - 4 : Nat) s.app with
  | none => trivial
  | some r =>
    obtain ⟨ret, data, app⟩ := r
    simp only
    split
    · have herr : Sent 1 { s with buffer := ((s.buffer.put 0 (be16 TFTP_CMD_DATA)).put 2 (be16 n)).put 4 data,
                                  dataSize := ret, app := app } _ :=
        Sent.error ERR_ILLEGAL_OPERATION (show ("failed to read file".toList).length ≤ 511 by decide)
      exact ReadLoop.Pays.mono (show ReadLoop.Pays 1 s (.finish _ (-1)) from ⟨herr.client, herr.out⟩) (by decide)
    · rename_i hret
      have hcode : word16 (((s.buffer.put 0 (be16 TFTP_CMD_DATA)).put 2 (be16 n)).put 4 data).bytes 0 = TFTP_CMD_DATA := by
        rw [word16_put_behind _ (by decide), word16_put_behind _ (by decide), word16_put _ _ (by simp [be16])]
        rfl
      have hready : Ready { s with buffer := ((s.buffer.put 0 (be16 TFTP_CMD_DATA)).put 2 (be16 n)).put 4 data,
                                   dataSize := ret, app := app } :=
        ⟨.inl hcode, Int.not_lt.1 hret, hread _ _ _ _ hr⟩
      have hsent := Sent.block hready n 0
      exact Pays.waits (k := 1) ⟨hsent.client, hsent.out⟩ ⟨hready.code, hready.min, hready.max⟩ (Nat.le_refl 6)

/-- A wait brings its ACK, or ends in at most an error packet. -/
theorem waitForAck_sent (n : Nat) (e : Recv) :
    Sent 1 (heard s e) (waitForAck s n e).1 ∧ (Ready s → Ready (waitForAck s n e).1) ∧
      ((waitForAck s n e).2 = 0 → (∃ src data, e = .packet src data) ∧ Sent 0 (heard s e) (waitForAck s n e).1) := by
  cases e with
  | timeout =>
    exact ⟨Sent.error _ (by decide), fun h => h.sendError _ _, fun h => absurd h (by decide : ¬ (-1 : Int) = 0)⟩
  | packet src data =>
    simp only [waitForAck, heard]
    split
    · refine ⟨Sent.error _ (by decide), fun h => ?_, fun h => absurd h (by decide : ¬ (-1 : Int) = 0)⟩
      exact Ready.sendError (s := { s with client := src }) ⟨h.code, h.min, h.max⟩ _ _
    · split
      · exact ⟨Sent.none rfl rfl, fun h => ⟨h.code, h.min, h.max⟩, fun h => absurd h (by decide : ¬ (1 : Int) = 0)⟩
      · exact ⟨Sent.none rfl rfl, fun h => ⟨h.code, h.min, h.max⟩, fun _ => ⟨⟨src, data, rfl⟩, Sent.none rfl rfl⟩⟩

/-- What a step may send, with the debt it leaves. -/
def allowance (m : Mode) : Recv → Nat
  | .timeout    => m.debt
  | .packet _ _ => 6

theorem debt_le_allowance (m : Mode) (e : Recv) : m.debt ≤ allowance m e := by
  cases e with
  | timeout => exact Nat.le_refl _
  | packet src data => cases m <;> simp only [Mode.debt, allowance] <;> omega

/-- **A wait in a read session**: the next block, or another try, which is in debt already. -/
theorem processReadAck_pays (hread : H.ReadsBlock) (hready : Ready s) {n r : Nat} (e : Recv) :
    (processReadAck H s n r e).Pays (allowance (.reading n r) e) (heard s e) := by
  obtain ⟨hone, hkeep, hzero⟩ := waitForAck_sent s n e
  have hkeep := hkeep hready
  unfold processReadAck
  rcases hwait : waitForAck s n e with ⟨t, ret⟩
  rw [hwait] at hone hkeep hzero
  simp only
  split
  · rename_i hret
    obtain ⟨⟨src, data, rfl⟩, hnone⟩ := hzero hret
    split
    · exact ReadLoop.Pays.mono (n := 0) (show ReadLoop.Pays 0 _ (.finish t 0) from hnone) (Nat.zero_le _)
    · have htop := (processReadTop_pays H t hread (n + 1)).after hnone
      rwa [Nat.zero_add] at htop
  · refine ReadLoop.Pays.mono (n := 2 * (2 - r) + 1) ?_ (debt_le_allowance (.reading n r) e)
    split
    · have hsent := hone.trans (Sent.block hkeep n (r + 1))
      refine Pays.waits (k := 2) ⟨hsent.client, hsent.out⟩ ⟨hkeep.code, hkeep.min, hkeep.max⟩ ?_
      show 2 + (2 * (2 - (r + 1)) + 1) ≤ _
      omega
    · exact ReadLoop.Pays.mono (n := 1) (show ReadLoop.Pays 1 _ (.finish t (-1)) from hone) (by omega)

theorem afterRead_pays {n : Nat} {u : Srv σ} (hout : s.out = u.out) {loop : ReadLoop σ} (h : loop.Pays n u) :
    Pays n u (afterRead H s loop) := by
  cases loop with
  | wait t => exact h
  | fault => exact Pays.closed (Sent.none rfl rfl : Sent 0 u u) hout (fun m r h => by cases h) (Nat.zero_le _)
  | finish t result =>
    have ht : Sent n u t := h
    unfold afterRead
    simp only
    cases H.onClose t.app with
    | none => exact Pays.closed ht rfl (fun m r h => by cases h) (Nat.le_refl _)
    | some app => exact Pays.closed ht rfl (fun m r h => by cases h) (Nat.le_refl _)

theorem parseRq_pays (hread : H.ReadsBlock) (result : Int) : Pays 6 s (parseRq H s result) := by
  have hnone : Sent 0 s s := Sent.none rfl rfl
  by_cases hwrq : word16 s.buffer.bytes 0 = TFTP_CMD_WRQ
  · obtain hr | ⟨name, -, hr⟩ | ⟨name, packet, -, hpacket, hr⟩ := parseRq_wrq (H := H) hwrq result
    · rw [hr]
      exact Pays.closed hnone rfl (fun m r h => by cases h) (by omega)
    · rw [hr]
      have hsent : Sent 1 { s with app := (H.onWrite name s.app).2 } _ :=
        Sent.error ERR_ACCESS_VIOLATION (show ("cannot open file".toList).length ≤ 511 by decide)
      exact Pays.closed (k := 1) ⟨hsent.client, hsent.out⟩ rfl (fun m r h => by cases h) (by omega)
    · rw [hr]
      have hwire : Wire packet := by
        rcases hpacket with rfl | rfl
        · exact wire_ack 0
        · exact wire_oack
      have hsent : Sent 1 s { s with out := s.out ++ [(s.client, packet)] } := Sent.one hwire rfl rfl
      exact Pays.closed hsent rfl (fun m r h => by cases h) (by omega)
  · by_cases hrrq : word16 s.buffer.bytes 0 = TFTP_CMD_RRQ
    · cases hstr : requestStrings s.buffer.bytes with
      | none =>
        rw [parseRq_rrq_fault H s hrrq hstr]
        exact Pays.closed hnone rfl (fun m r h => by cases h) (by omega)
      | some strings =>
        rw [parseRq_of_rrq hrrq result hstr]
        split
        · have hsent : Sent 1 { s with app := (H.onRead strings.1 s.app).2 } _ :=
            Sent.error ERR_FILE_NOT_FOUND (show ("cannot open file".toList).length ≤ 511 by decide)
          exact Pays.closed (k := 1) ⟨hsent.client, hsent.out⟩ rfl (fun m r h => by cases h) (by omega)
        · have hsame : Sent 0 s { s with app := (H.onRead strings.1 s.app).2 } := Sent.none rfl rfl
          have htop := (processReadTop_pays H { s with app := (H.onRead strings.1 s.app).2 } hread 1).after hsame
          rw [Nat.zero_add] at htop
          exact afterRead_pays H { s with app := (H.onRead strings.1 s.app).2 } (u := s) rfl htop
    · rw [parseRq_other hwrq hrrq]
      split
      · exact Pays.closed hnone rfl (fun m r h => by cases h) (by omega)
      · exact Pays.closed hnone rfl (fun m r h => by cases h) (by omega)

/-- The end of a write session: nothing, or a request. -/
theorem afterWrite_pays (hread : H.ReadsBlock) (result : Int) :
    Pays (if result ≤ 0 then 0 else 6) s (afterWrite H s result) := by
  have hnone : Sent 0 s s := Sent.none rfl rfl
  unfold afterWrite
  simp only
  cases H.onClose s.app with
  | none => exact Pays.closed hnone rfl (fun m r h => by cases h) (Nat.zero_le _)
  | some app =>
    simp only
    split
    · exact Pays.closed hnone rfl (fun m r h => by cases h) (Nat.zero_le _)
    · have hrq := parseRq_pays H { s with hist := recordResult result s.hist, app := app } hread result
      exact ⟨hrq.out, hrq.client, hrq.ready⟩

/-- The loop of `process_write` goes on, or the session is closed. -/
def WriteLoop.Pays : WriteLoop σ → Prop
  | .again t _       => Sent 1 s t
  | .finish t result => Tftp.Pays 6 s (afterWrite H t result)
  | .fault           => True

theorem endOfBlock_pays (hread : H.ReadsBlock) {t : Srv σ} (ht : Sent 1 s t) (n : Nat) : (endOfBlock t n).Pays H s := by
  unfold endOfBlock
  split
  · exact (Pays.after ht (afterWrite_pays H t hread 0)).mono (by decide)
  · exact ht

/-- **A packet in a write session** is acknowledged, or ends it and may be a request. -/
theorem processWriteBody_pays (hread : H.ReadsBlock) (n : Nat) (hsize : 0 ≤ s.dataSize) :
    (processWriteBody H s n).Pays H s := by
  by_cases hdata : word16 s.buffer.bytes 0 = TFTP_CMD_DATA
  · by_cases hdup : word16 s.buffer.bytes 2 < n
    · rw [body_dup H hsize hdata hdup]
      exact endOfBlock_pays H s hread (Sent.ack _) n
    · rw [body_block H hsize hdata (Nat.not_lt.1 hdup)]
      cases H.onWriteData (s.buffer.bytes.drop 4) (s.dataSize - 4) s.app with
      | none => trivial
      | some r =>
        obtain ⟨ret, app⟩ := r
        have hack : Sent 1 s (sendAck s (word16 s.buffer.bytes 2)) := Sent.ack _
        refine endOfBlock_pays H s hread ?_ (n + 1)
        exact ⟨hack.client, hack.out⟩
  · have hforeign : Pays 6 s (afterWrite H s 1) := afterWrite_pays H s hread 1
    by_cases hwrq : word16 s.buffer.bytes 0 = TFTP_CMD_WRQ
    · rw [body_wrq H hsize hwrq]
      by_cases hn : n = 1
      · rw [if_pos hn]
        exact Sent.ack 0
      · rw [if_neg hn]
        exact hforeign
    · rw [body_other H hsize hdata hwrq]
      exact hforeign

/-- **One step**: what it sends, with the debt it leaves, is covered by the debt, or by the datagram. -/
theorem step_pays (hread : H.ReadsBlock) (hready : ∀ m r, s.mode = .reading m r → Ready s) (e : Recv) :
    Pays (allowance s.mode e) (heard s e) (step H s e) := by
  obtain ⟨hclient, hout, -, -⟩ := recvFrom_fields s e
  have hheard : (heard s e).out = s.out := by cases e <;> rfl
  have hsame : Sent 0 (heard s e) (recvFrom s e) := Sent.none hclient (hout.trans hheard.symm)
  cases hmode : s.mode with
  | idle =>
    rw [step_idle H e hmode]
    cases e with
    | timeout =>
      rw [if_pos (show (recvFrom s .timeout).dataSize < 0 from Int.negSucc_lt_zero 0)]
      exact Pays.closed hsame rfl (fun m r h => by cases hmode.symm.trans h) (Nat.zero_le _)
    | packet src data =>
      rw [if_neg (show ¬ (recvFrom s (.packet src data)).dataSize < 0 from Int.not_lt.2 (Int.natCast_nonneg _))]
      have hrq := Pays.after hsame (parseRq_pays H (recvFrom s (.packet src data)) hread (-1))
      rwa [Nat.zero_add] at hrq
  | writing n =>
    rw [step_writing H e hmode]
    cases e with
    | timeout =>
      rw [body_timeout]
      have hclose := Pays.after hsame (afterWrite_pays H (recvFrom s .timeout) hread (-1))
      exact hclose
    | packet src data =>
      have hbody := processWriteBody_pays H (recvFrom s (.packet src data)) hread n (Int.natCast_nonneg _)
      cases hb : processWriteBody H (recvFrom s (.packet src data)) n with
      | again t m =>
        rw [hb] at hbody
        exact Pays.closed (hsame.trans hbody) rfl (fun m r h => by cases h) (show 0 + 1 ≤ 6 by decide)
      | finish t result =>
        rw [hb] at hbody
        have hall := Pays.after hsame hbody
        rwa [Nat.zero_add] at hall
      | fault =>
        exact Pays.closed (Sent.none rfl rfl : Sent 0 _ (heard s (.packet src data))) hheard.symm
          (fun m r h => by cases h) (Nat.zero_le _)
  | reading n r =>
    rw [step_reading H e hmode]
    exact afterRead_pays H s hheard.symm (processReadAck_pays H s hread (hready n r hmode) e)
  | hung | stopped | fault =>
    have hstep : step H s e = s := by rw [step, hmode]
    rw [hstep]
    exact Pays.closed (Sent.none rfl rfl : Sent 0 _ (heard s e)) hheard.symm
      (fun m r h => by cases hmode.symm.trans h) (Nat.zero_le _)

end

/-! ## Runs -/

/-- A datagram from `c`. -/
def isFrom (c : Addr) : Recv → Bool
  | .timeout      => false
  | .packet src _ => src == c

/-- The packets that are still due to `c`. -/
def due (s : Srv σ) (c : Addr) : Nat := if s.client = c then s.mode.debt else 0

/-- The packets of a step, and the debt it leaves, are all for one peer. -/
theorem Pays.count {s t : Srv σ} {e : Recv} (h : Pays (allowance s.mode e) (heard s e) t) :
    ∃ packets, t.out = s.out ++ packets ∧ (∀ p ∈ packets, Wire p.2) ∧
      ∀ c, packets.countP (·.1 = c) + due t c ≤ due s c + 6 * [e].countP (isFrom c) := by
  obtain ⟨ps, hps, hlen, hwire⟩ := h.out
  have hheard : (heard s e).out = s.out := by cases e <;> rfl
  refine ⟨ps, hheard ▸ hps, fun p hp => (hwire p hp).2, fun c => ?_⟩
  have hto : ps.countP (·.1 = c) ≤ if (heard s e).client = c then ps.length else 0 := by
    split
    · exact List.countP_le_length
    · rename_i hne
      refine Nat.le_of_eq (List.countP_eq_zero.2 (fun p hp => ?_))
      simp only [decide_eq_true_eq]
      rw [(hwire p hp).1]
      exact hne
  have hdue : due t c ≤ if (heard s e).client = c then t.mode.debt else 0 := by
    unfold due
    by_cases hzero : t.mode.debt = 0
    · simp [hzero]
    · rw [h.client (Nat.pos_of_ne_zero hzero)]
  have hallow : (if (heard s e).client = c then allowance s.mode e else 0) ≤ due s c + 6 * [e].countP (isFrom c) := by
    cases e with
    | timeout => exact Nat.le_add_right _ _
    | packet src data =>
      by_cases hc : src = c
      · simp [heard, allowance, isFrom, hc]
      · simp [heard, isFrom, hc]
  by_cases hc : (heard s e).client = c
  · rw [if_pos hc] at hto hdue hallow
    omega
  · rw [if_neg hc] at hto hdue
    omega

/-- **Every run**: the packets that a peer gets are covered by what is due to it and six for each datagram of its own. -/
theorem run_pays {H : Handler σ} (hread : H.ReadsBlock) : ∀ (es : List Recv) {s : Srv σ},
    (∀ m r, s.mode = .reading m r → Ready s) →
    ∃ packets, (run H s es).out = s.out ++ packets ∧ (∀ p ∈ packets, Wire p.2) ∧
      ∀ c, packets.countP (·.1 = c) + due (run H s es) c ≤ due s c + 6 * es.countP (isFrom c)
  | [],      s, _ => ⟨[], (List.append_nil _).symm, fun _ h => (by cases h), fun c => by simp [run]⟩
  | e :: es, s, hready => by
    have hstep := step_pays H s hread hready e
    obtain ⟨ps, hps, hwire, hone⟩ := hstep.count
    obtain ⟨qs, hqs, hwire', hrest⟩ := run_pays hread es hstep.ready
    refine ⟨ps ++ qs, by rw [run_cons, hqs, hps, List.append_assoc], fun p hp => ?_, fun c => ?_⟩
    · exact (List.mem_append.1 hp).elim (hwire p) (hwire' p)
    · have hone := hone c
      have hrest := hrest c
      rw [run_cons, List.countP_append, List.countP_cons]
      rw [List.countP_cons, List.countP_nil] at hone
      omega

/-- **What the server sends** in any run: TFTP packets that fit `m_buffer`, and to each peer at most six for each datagram
that came from it. -/
theorem run_traffic (env : OtaEnv φ) (F : Flash) (s : Srv (Ota φ)) (es : List Recv) :
    ∃ packets, (run (otaServer env) (started env.past F s) es).out = (started env.past F s).out ++ packets ∧
      (∀ p ∈ packets, Wire p.2) ∧ ∀ c, packets.countP (·.1 = c) ≤ 6 * es.countP (isFrom c) := by
  obtain ⟨ps, hps, hwire, hcount⟩ := run_pays (otaServer_readsBlock env) es (s := started env.past F s)
    (fun m r h => by cases h)
  refine ⟨ps, hps, hwire, fun c => ?_⟩
  have hdue : due (started env.past F s) c = 0 := by
    unfold due
    split <;> rfl
  have hle := hcount c
  omega

end Mstd.Tftp
