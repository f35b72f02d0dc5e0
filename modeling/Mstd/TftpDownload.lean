import Mstd.TftpStore
import Mstd.TftpUpload
/-!
# Downloads over a network of datagrams

`read` and the server as the two machines of a network that loses, repeats, delays and reorders datagrams.  Every DATA
packet that was ever sent carries its own block of the file, whichever session sent it (`Harmless`), and `read` takes
the blocks in order and ends at a short one, which only the end of the file has.  So what it returns is the file
(`download_safe`).
-/
namespace Mstd.Tftp

open ByteMem (Ptr Buffer window)

variable {φ : Type}

def readMachine (device : Addr) : Link.Machine Read Datagram Datagram := fun c e =>
  let c := readStep { c with out := [] } (toRecv device e)
  (c, c.out)

/-- `read` has sent its request to the server. -/
def downloadStart (s : Srv (Ota φ)) (fname : List UInt8) : Link.Net Read (Srv (Ota φ)) Datagram Datagram where
  left := startRead fname
  right := s
  toRight := (startRead fname).out
  toLeft := []

def downloadRun (env : OtaEnv φ) (host device : Addr) (s : Srv (Ota φ)) (fname : List UInt8)
    (ds : List Link.Delivery) : Link.Net Read (Srv (Ota φ)) Datagram Datagram :=
  Link.deliverAll (readMachine device) (serverMachine (otaServer env) host) (downloadStart s fname) ds

/-! ## The packets -/

/-- **If this is a DATA packet, it carries the block of the file that its number says.** -/
def Harmless (file : Option (List UInt8)) (d : Datagram) : Prop :=
  ∀ n data, getAnswer d = some (.data n data) →
    ∃ bytes k, file = some bytes ∧ 512 * k ≤ bytes.length ∧ n = (k + 1) % 65536 ∧ data = blockAt bytes (512 * k)

/-- What `read` sends: its request, or an ACK of any block. -/
def Request (fname : List UInt8) (d : Datagram) : Prop :=
  d = xrqPacket TFTP_CMD_RRQ fname ∨ ∃ m, d = ackPacket m

theorem harmless_of_none {file : Option (List UInt8)} {d : Datagram} (h : getAnswer d = none) : Harmless file d := by
  intro n data hd
  rw [h] at hd
  cases hd

/-- A packet that starts like an error packet makes `get_answer` raise, whatever its length. -/
theorem getAnswer_error {d : Datagram} (h : word16 d 0 = TFTP_CMD_ERROR) : getAnswer d = none := by
  have hcode : word16 (d.take BLK_SIZE) 0 = TFTP_CMD_ERROR := by rw [word16_take (by decide), h]
  unfold getAnswer decodePacket
  by_cases hlen : (d.take BLK_SIZE).length < 4
  · rw [if_pos hlen]
  · rw [if_neg hlen, hcode, if_neg (by decide), if_neg (by decide), if_pos rfl]

theorem harmless_block {bytes : List UInt8} {k : Nat} (hk : 512 * k ≤ bytes.length) :
    Harmless (some bytes) (dataBytes (k + 1) (blockAt bytes (512 * k))) := by
  intro n data hd
  have hlen : (blockAt bytes (512 * k)).length ≤ DATA_SIZE := by
    rw [length_blockAt]
    exact Nat.min_le_left _ _
  rw [getAnswer_dataBytes (k + 1) hlen] at hd
  cases hd
  exact ⟨bytes, k, rfl, hk, rfl, rfl⟩

/-! ## The server -/

/-- The packet in `m_buffer` is this one, or an error packet was built over it. -/
def Holding (buf : Buffer TFTP_DATA_SIZE) (size : Int) (packet : Datagram) : Prop :=
  buf.bytes.take (size + 4).toNat = packet ∨ word16 buf.bytes 0 = TFTP_CMD_ERROR

/-- The server waits for the ACK of block `k + 1` of the file. -/
structure AtBlock (bytes : List UInt8) (k : Nat) (s : Srv (Ota φ)) : Prop where
  block : 512 * k ≤ bytes.length
  ptr : s.app.curPtr = 512 * k + (blockAt bytes (512 * k)).length
  size : s.dataSize = ((blockAt bytes (512 * k)).length : Int)
  packet : Holding s.buffer s.dataSize (dataBytes (k + 1) (blockAt bytes (512 * k)))

/-- **The server of a download**: between sessions, or in one that sends the file. -/
structure Downloading (past : Ptr) (d : Setup) (job : Job) (s : Srv (Ota φ)) : Prop where
  setup : s.app.setup = d
  mode : s.mode = .idle ∨ ∃ k r bytes, s.mode = .reading (k + 1) r ∧ s.app.job = job ∧
    fileOf past d job = some bytes ∧ AtBlock bytes k s

/-- What the packets sent in a step are. -/
def AllHarmless (file : Option (List UInt8)) (out : List (Addr × Datagram)) : Prop :=
  ∀ packet ∈ out, Harmless file packet.2

theorem word16_sendError {σ : Type} (s : Srv σ) (code : Nat) (message : String) :
    word16 (sendError s code message).buffer.bytes 0 = TFTP_CMD_ERROR ∧
      ∃ packet, (sendError s code message).out = s.out ++ [(s.client, packet)] ∧ getAnswer packet = none := by
  have hcode : ∀ rest : List UInt8, word16 (be16 TFTP_CMD_ERROR ++ rest) 0 = TFTP_CMD_ERROR := fun rest => by
    rw [word16_be16]
    rfl
  constructor
  · show word16 (s.buffer.put 0 (be16 TFTP_CMD_ERROR ++ be16 code ++ ascii message ++ [0])).bytes 0 = _
    rw [word16_put _ _ (by simp [be16]), List.append_assoc, List.append_assoc, hcode]
  · exact ⟨_, rfl, getAnswer_error (hcode _)⟩

theorem allHarmless_append {file : Option (List UInt8)} {out : List (Addr × Datagram)} (h : AllHarmless file out)
    (c : Addr) {d : Datagram} (hd : Harmless file d) : AllHarmless file (out ++ [(c, d)]) := by
  intro packet hp
  rcases List.mem_append.1 hp with hp | hp
  · exact h packet hp
  · rw [List.mem_singleton.1 hp]
    exact hd

theorem allHarmless_sendError {file : Option (List UInt8)} {s : Srv (Ota φ)} (h : AllHarmless file s.out) (code : Nat)
    (message : String) : AllHarmless file (sendError s code message).out := by
  obtain ⟨-, packet, ho, herr⟩ := word16_sendError s code message
  rw [ho]
  exact allHarmless_append h s.client (harmless_of_none herr)

/-- **A wait for an ACK** changes the peer and perhaps puts an error packet over the block. -/
theorem waitForAck_cases (s : Srv (Ota φ)) (n : Nat) (e : Recv) :
    ∃ t, (waitForAck s n e).1 = t ∧ t.app = s.app ∧ t.dataSize = s.dataSize ∧
      (t.buffer = s.buffer ∧ t.out = s.out ∨
        word16 t.buffer.bytes 0 = TFTP_CMD_ERROR ∧ ∃ c packet, t.out = s.out ++ [(c, packet)] ∧ getAnswer packet = none) := by
  cases e with
  | timeout =>
    obtain ⟨hcode, packet, hout, herr⟩ := word16_sendError s ERR_NOT_DEFINED "incorrect ack"
    exact ⟨_, rfl, rfl, rfl, Or.inr ⟨hcode, s.client, packet, hout, herr⟩⟩
  | packet src data =>
    simp only [waitForAck]
    split
    · obtain ⟨hcode, packet, hout, herr⟩ := word16_sendError { s with client := src } ERR_NOT_DEFINED "incorrect ack"
      exact ⟨_, rfl, rfl, rfl, Or.inr ⟨hcode, src, packet, hout, herr⟩⟩
    · split <;> exact ⟨_, rfl, rfl, rfl, Or.inl ⟨rfl, rfl⟩⟩

theorem AtBlock.wait {file : Option (List UInt8)} {bytes : List UInt8} {k : Nat} {s : Srv (Ota φ)} (hat : AtBlock bytes k s)
    (hout : AllHarmless file s.out) (n : Nat) (e : Recv) :
    ∃ t ret, waitForAck s n e = (t, ret) ∧ t.app = s.app ∧ AtBlock bytes k t ∧ AllHarmless file t.out := by
  obtain ⟨t, ht, happ, hds, hbuf⟩ := waitForAck_cases s n e
  refine ⟨t, (waitForAck s n e).2, Prod.ext ht rfl, happ, ⟨hat.block, by rw [happ]; exact hat.ptr, hds.trans hat.size, ?_⟩, ?_⟩
  · obtain ⟨hb, -⟩ | ⟨hcode, -⟩ := hbuf
    · rw [hb, hds]
      exact hat.packet
    · exact Or.inr hcode
  · obtain ⟨-, ho⟩ | ⟨-, c, packet, ho, herr⟩ := hbuf
    · rw [ho]
      exact hout
    · rw [ho]
      exact allHarmless_append hout c (harmless_of_none herr)

section

variable {env : OtaEnv φ} {d : Setup} {job : Job} {s : Srv (Ota φ)}

/-- The top of the loop sends block `k + 1`. -/
theorem downloading_top {bytes : List UInt8} {k : Nat} (hsetup : s.app.setup = d) (hjob : s.app.job = job)
    (hfile : fileOf env.past d job = some bytes) (hsize : bytes.length ≤ MAX_CFG_SIZE) (hptr : s.app.curPtr = 512 * k)
    (hk : 512 * k ≤ bytes.length) (hout : AllHarmless (fileOf env.past d job) s.out) :
    ∃ t, processReadTop (otaServer env) s (k + 1) = .wait t ∧ Downloading env.past d job t ∧
      AllHarmless (fileOf env.past d job) t.out := by
  obtain ⟨t, htop, hmode, hds, hpacket, -, -, htout, h1, -, h3, h4⟩ := readTop_file env (s := s)
    (by rw [hsetup, hjob]; exact hfile) hsize (by omega) (k + 1)
  rw [hptr] at hds hpacket htout h4
  refine ⟨t, htop, ⟨h1.trans hsetup, Or.inr ⟨k, 0, bytes, hmode, h3.trans hjob, hfile, hk, h4, hds, Or.inl hpacket⟩⟩, ?_⟩
  rw [htout]
  exact allHarmless_append hout s.client (hfile ▸ harmless_block hk)

/-- What is sent again is the block, or the error packet built over it. -/
theorem downloading_resend {bytes : List UInt8} {k : Nat} (hsetup : s.app.setup = d) (hjob : s.app.job = job)
    (hfile : fileOf env.past d job = some bytes) (hat : AtBlock bytes k s)
    (hout : AllHarmless (fileOf env.past d job) s.out) (r : Nat) :
    Downloading env.past d job (sendBlock s (k + 1) r) ∧
      AllHarmless (fileOf env.past d job) (sendBlock s (k + 1) r).out := by
  have hsent : Harmless (fileOf env.past d job) (s.buffer.bytes.take (s.dataSize + 4).toNat) := by
    obtain hpacket | hcode := hat.packet
    · rw [hpacket, hfile]
      exact harmless_block hat.block
    · refine harmless_of_none (getAnswer_error ?_)
      rw [word16_take (by rw [hat.size]; omega), hcode]
  have hat' : AtBlock bytes k (sendBlock s (k + 1) r) := ⟨hat.block, hat.ptr, hat.size, hat.packet⟩
  exact ⟨⟨hsetup, Or.inr ⟨k, r, bytes, rfl, hjob, hfile, hat'⟩⟩, allHarmless_append hout s.client hsent⟩

theorem downloading_finish {bytes : List UInt8} {t : Srv (Ota φ)} (hsetup : t.app.setup = d) (hjob : t.app.job = job)
    (hfile : fileOf env.past d job = some bytes) (hout : AllHarmless (fileOf env.past d job) t.out) (result : Int) :
    Downloading env.past d job (afterRead (otaServer env) s (.finish t result)) ∧
      AllHarmless (fileOf env.past d job) (afterRead (otaServer env) s (.finish t result)).out := by
  have hclose : (otaServer env).onClose t.app = some t.app := onClose_send env (by rw [hjob]; exact hfile)
  rw [afterRead_finish hclose]
  exact ⟨⟨hsetup, Or.inl rfl⟩, hout⟩

/-- **A step of the read session**, whatever arrives. -/
theorem Downloading.reading (h : Downloading env.past d job s) (hout : s.out = []) {k r : Nat}
    (hmode : s.mode = .reading (k + 1) r) (hsize : ∀ bytes, fileOf env.past d job = some bytes → bytes.length ≤ MAX_CFG_SIZE)
    (e : Recv) : Downloading env.past d job (step (otaServer env) s e) ∧
      AllHarmless (fileOf env.past d job) (step (otaServer env) s e).out := by
  obtain hidle | ⟨k', r', bytes, hm, hjob, hfile, hat⟩ := h.mode
  · rw [hidle] at hmode
    cases hmode
  rw [hmode] at hm
  cases hm
  have hnil : AllHarmless (fileOf env.past d job) s.out := by rw [hout]; exact fun _ hp => by cases hp
  obtain ⟨t, ret, hw, happ, hat', htout⟩ := hat.wait hnil (k + 1) e
  have hsetup : t.app.setup = d := by rw [happ]; exact h.setup
  rw [← happ] at hjob
  rw [step_reading _ _ hmode, processReadAck, hw]
  simp only
  by_cases hret : ret = 0
  · have hlen := length_blockAt bytes (512 * k)
    have hds := hat'.size
    rw [if_pos hret, hds]
    by_cases hshort : ((blockAt bytes (512 * k)).length : Int) < ((TFTP_DATA_SIZE - 4 : Nat) : Int)
    · rw [if_pos hshort]
      exact downloading_finish hsetup hjob hfile htout 0
    · -- the block is a full one, so the file goes on behind it
      rw [if_neg hshort]
      have hptr := hat'.ptr
      unfold TFTP_DATA_SIZE at hshort
      obtain ⟨u, htop, hdown, hharm⟩ := downloading_top (k := k + 1) hsetup hjob hfile (hsize bytes hfile) (by omega)
        (by omega) htout
      rw [htop]
      exact ⟨hdown, hharm⟩
  · rw [if_neg hret]
    by_cases hretry : r + 1 < 3
    · rw [if_pos hretry]
      exact downloading_resend hsetup hjob hfile hat' htout (r + 1)
    · rw [if_neg hretry]
      exact downloading_finish hsetup hjob hfile htout (-1)

/-- **A step of the server** on a timeout or a packet of `read`. -/
theorem Downloading.step {fname : List UInt8} (h0 : 0 ∉ fname) (hlen : fname.length ≤ 500)
    (h : Downloading env.past d (jobOfName fname false) s) (hout : s.out = [])
    (hsize : ∀ bytes, fileOf env.past d (jobOfName fname false) = some bytes → bytes.length ≤ MAX_CFG_SIZE) (host : Addr)
    {e : Option Datagram} (he : ∀ m, e = some m → Request fname m) :
    Downloading env.past d (jobOfName fname false) (step (otaServer env) s (toRecv host e)) ∧
      AllHarmless (fileOf env.past d (jobOfName fname false)) (step (otaServer env) s (toRecv host e)).out := by
  have hempty : ∀ t : Srv (Ota φ), t.out = s.out → AllHarmless (fileOf env.past d (jobOfName fname false)) t.out := by
    intro t ht packet hp
    rw [ht, hout] at hp
    cases hp
  obtain hidle | ⟨k, r, bytes, hmode, -⟩ := h.mode
  · cases e with
    | none =>
      rw [toRecv, step_idle _ _ hidle, if_pos (show (recvFrom s .timeout).dataSize < 0 from Int.negSucc_lt_zero 0)]
      exact ⟨⟨h.setup, Or.inl hidle⟩, hempty _ rfl⟩
    | some m =>
      rw [toRecv]
      obtain rfl | ⟨n, rfl⟩ := he m rfl
      · obtain ⟨hsetup, -, hjob, hptr, hfile⟩ := onRead_file env.past fname s.app
        rw [step_read hidle host h0 hlen]
        by_cases hneg : (onRead fname s.app).1 < 0
        · rw [if_pos hneg]
          have hrecv := hempty
            { recvFrom s (.packet host (xrqPacket TFTP_CMD_RRQ fname)) with app := (onRead fname s.app).2 } rfl
          exact ⟨⟨hsetup.trans h.setup, Or.inl rfl⟩, allHarmless_sendError hrecv _ _⟩
        · rw [if_neg hneg]
          obtain ⟨bytes, hbytes⟩ := hfile.1 (Int.not_lt.1 hneg)
          rw [h.setup] at hbytes
          obtain ⟨t, htop, hdown, hharm⟩ := downloading_top (k := 0)
            (s := { recvFrom s (.packet host (xrqPacket TFTP_CMD_RRQ fname)) with app := (onRead fname s.app).2 })
            (hsetup.trans h.setup) hjob hbytes (hsize bytes hbytes) hptr (Nat.zero_le _) (hempty _ rfl)
          rw [htop]
          exact ⟨hdown, hharm⟩
      · obtain ⟨hmode, happ, ho⟩ := step_idle_ack (otaServer env) hidle host n
        exact ⟨⟨by rw [happ]; exact h.setup, Or.inl hmode⟩, hempty _ ho⟩
  · exact h.reading hout hmode hsize (toRecv host e)

end

/-! ## The client -/

/-- `read` between two receives: it has the blocks before `pkt_n`, and the file once it returned. -/
structure Reading (file : Option (List UInt8)) (fname : List UInt8) (c : Read) : Prop where
  name : c.fname = fname
  waiting : c.progress = .waiting → ∃ k, c.pktN = k + 1 ∧
    ∀ bytes, file = some bytes → 512 * k ≤ bytes.length ∧ c.result = bytes.take (512 * k)
  returned : c.progress = .returned → file = some c.result

/-- The packets of `read`. -/
def AllRequests (fname : List UInt8) (out : List Datagram) : Prop := ∀ m ∈ out, Request fname m

section

variable {file : Option (List UInt8)} {fname : List UInt8} {c : Read}

theorem sendAckPacket_cases (c : Read) :
    sendAckPacket c = { c with out := c.out ++ [ackPacket c.pktN] } ∨
      65536 ≤ c.pktN ∧ sendAckPacket c = { c with progress := .raised } := by
  unfold sendAckPacket
  by_cases h : c.pktN < 65536
  · rw [if_pos h]
    exact Or.inl rfl
  · rw [if_neg h]
    exact Or.inr ⟨Nat.not_lt.1 h, rfl⟩

theorem allRequests_append {out : List Datagram} (h : AllRequests fname out) {m : Datagram} (hm : Request fname m) :
    AllRequests fname (out ++ [m]) := by
  intro m' hm'
  rcases List.mem_append.1 hm' with hm' | hm'
  · exact h m' hm'
  · rw [List.mem_singleton.1 hm']
    exact hm

theorem reading_raised (hname : c.fname = fname) (hraised : c.progress = .raised) : Reading file fname c := by
  refine ⟨hname, fun hp => ?_, fun hp => ?_⟩
  · rw [hraised] at hp
    cases hp
  · rw [hraised] at hp
    cases hp

/-- An ACK in answer to another block, or after a timeout. -/
theorem Reading.ack (h : Reading file fname c) (hout : AllRequests fname c.out) :
    Reading file fname (sendAckPacket c) ∧ AllRequests fname (sendAckPacket c).out := by
  obtain hs | ⟨-, hs⟩ := sendAckPacket_cases c
  · rw [hs]
    exact ⟨⟨h.name, h.waiting, h.returned⟩, allRequests_append hout (Or.inr ⟨_, rfl⟩)⟩
  · rw [hs]
    exact ⟨reading_raised h.name rfl, hout⟩

theorem take_append_blockAt (bytes : List UInt8) (k : Nat) :
    bytes.take (512 * k) ++ blockAt bytes (512 * k) = bytes.take (512 * (k + 1)) := by
  rw [Nat.mul_succ, List.take_add]
  rfl

/-- **A DATA packet**: a block is taken when it is the next one, and the last one is the short one. -/
theorem Reading.data (h : Reading file fname c) (hwait : c.progress = .waiting) (hout : AllRequests fname c.out)
    {bytes : List UInt8} (hfile : file = some bytes) (hsize : bytes.length ≤ MAX_CFG_SIZE) {k : Nat}
    (hk : 512 * k ≤ bytes.length) :
    Reading file fname (readData c ((k + 1) % 65536) (blockAt bytes (512 * k))) ∧
      AllRequests fname (readData c ((k + 1) % 65536) (blockAt bytes (512 * k))).out := by
  obtain ⟨j, hj, hbytes⟩ := h.waiting hwait
  obtain ⟨hjle, hresult⟩ := hbytes bytes hfile
  have hlen := length_blockAt bytes (512 * k)
  unfold MAX_CFG_SIZE at hsize
  unfold readData
  by_cases hcur : (k + 1) % 65536 = c.pktN % 65536
  · obtain rfl : k = j := by omega
    have hack : sendAckPacket { c with result := c.result ++ blockAt bytes (512 * k) } =
        { c with result := c.result ++ blockAt bytes (512 * k), out := c.out ++ [ackPacket c.pktN] } :=
      if_pos (show c.pktN < 65536 by omega)
    have hnext : c.result ++ blockAt bytes (512 * k) = bytes.take (512 * (k + 1)) := by
      rw [hresult, take_append_blockAt]
    have hreq := allRequests_append hout (m := ackPacket c.pktN) (Or.inr ⟨_, rfl⟩)
    rw [if_pos hcur, hack]
    simp only [hwait]
    rw [if_neg (by decide)]
    by_cases hshort : (blockAt bytes (512 * k)).length < DATA_SIZE
    · -- a short block ends the file
      rw [if_pos hshort]
      refine ⟨⟨h.name, fun hp => (by cases hp), fun _ => ?_⟩, hreq⟩
      unfold DATA_SIZE at hshort
      show file = some (c.result ++ blockAt bytes (512 * k))
      rw [hnext, hfile, List.take_of_length_le (by omega)]
    · rw [if_neg hshort]
      unfold DATA_SIZE at hshort
      refine ⟨⟨h.name, fun _ => ⟨k + 1, by rw [hj], fun bytes' hb => ?_⟩, fun hp => ?_⟩, hreq⟩
      · obtain rfl : bytes = bytes' := Option.some.inj (hfile.symm.trans hb)
        exact ⟨by omega, hnext⟩
      · cases hwait.symm.trans (show c.progress = .returned from hwait ▸ hp)
  · rw [if_neg hcur]
    exact h.ack hout

/-- **A pass of the loop of `read`.** -/
theorem Reading.step (h : Reading file fname c) (hout : c.out = [])
    (hsize : ∀ bytes, file = some bytes → bytes.length ≤ MAX_CFG_SIZE) (device : Addr) {e : Option Datagram}
    (he : ∀ m, e = some m → Harmless file m) :
    Reading file fname (readStep c (toRecv device e)) ∧ AllRequests fname (readStep c (toRecv device e)).out := by
  have hnil : AllRequests fname c.out := by rw [hout]; exact fun _ hm => by cases hm
  unfold readStep
  by_cases hwait : c.progress = .waiting
  · rw [if_pos hwait]
    cases e with
    | none =>
      simp only [toRecv, readTimeout]
      by_cases hretry : c.retryCount + 1 < MAX_RETRY_COUNT
      · rw [if_pos hretry]
        by_cases hfirst : c.pktN = 1
        · rw [if_pos hfirst]
          exact ⟨⟨h.name, h.waiting, h.returned⟩, allRequests_append hnil (Or.inl (by rw [h.name]))⟩
        · rw [if_neg hfirst]
          exact Reading.ack (c := { c with retryCount := c.retryCount + 1 }) ⟨h.name, h.waiting, h.returned⟩ hnil
      · rw [if_neg hretry]
        exact ⟨reading_raised h.name rfl, hnil⟩
    | some m =>
      simp only [toRecv]
      cases hm : getAnswer m with
      | none => exact ⟨reading_raised h.name rfl, hnil⟩
      | some answer =>
        cases answer with
        | ack n => exact ⟨h, hnil⟩
        | error code => exact ⟨h, hnil⟩
        | data n block =>
          obtain ⟨bytes, k, hfile, hk, rfl, rfl⟩ := he m rfl n block hm
          exact h.data hwait hnil hfile (hsize bytes hfile) hk
  · rw [if_neg hwait]
    exact ⟨h, hnil⟩

end

/-! ## The network -/

/-- **A download under way**: whatever was sent to `read` is harmless, and whatever was sent to the server is a request
for the file or an ACK. -/
structure Download (past : Ptr) (d : Setup) (fname : List UInt8) (n : Link.Net Read (Srv (Ota φ)) Datagram Datagram) :
    Prop where
  client : Reading (fileOf past d (jobOfName fname false)) fname n.left
  server : Downloading past d (jobOfName fname false) n.right
  toServer : AllRequests fname n.toRight
  toClient : ∀ m ∈ n.toLeft, Harmless (fileOf past d (jobOfName fname false)) m

theorem download_keeps (env : OtaEnv φ) (host device : Addr) (d : Setup) {fname : List UInt8} (h0 : 0 ∉ fname)
    (hlen : fname.length ≤ 500)
    (hsize : ∀ bytes, fileOf env.past d (jobOfName fname false) = some bytes → bytes.length ≤ MAX_CFG_SIZE) :
    Link.Keeps (readMachine device) (serverMachine (otaServer env) host) (Download env.past d fname) := by
  refine ⟨fun n e h he => ?_, fun n e h he => ?_⟩
  · have hc : Reading (fileOf env.past d (jobOfName fname false)) fname { n.left with out := [] } :=
      ⟨h.client.name, h.client.waiting, h.client.returned⟩
    obtain ⟨hread, hreq⟩ := hc.step rfl hsize device (fun m hm => h.toClient m (he m hm))
    refine ⟨hread, h.server, fun m hm => ?_, h.toClient⟩
    rcases List.mem_append.1 hm with hm | hm
    · exact h.toServer m hm
    · exact hreq m hm
  · have hs : Downloading env.past d (jobOfName fname false) { n.right with out := [] } := by
      refine ⟨h.server.setup, h.server.mode.imp id ?_⟩
      rintro ⟨k, r, bytes, hmode, hjob, hfile, hat⟩
      exact ⟨k, r, bytes, hmode, hjob, hfile, hat.block, hat.ptr, hat.size, hat.packet⟩
    obtain ⟨hdown, hharm⟩ := hs.step h0 hlen rfl hsize host (fun m hm => h.toServer m (he m hm))
    refine ⟨h.client, hdown, h.toServer, fun m hm => ?_⟩
    rcases List.mem_append.1 hm with hm | hm
    · exact h.toClient m hm
    · obtain ⟨packet, hp, rfl⟩ := List.mem_map.1 hm
      exact hharm packet (List.mem_filter.1 hp).1

/-- What `read` returns is the file of its job, and the store stays as it was. -/
theorem downloadRun_file (env : OtaEnv φ) (host device : Addr) {s : Srv (Ota φ)} (hidle : s.mode = .idle)
    (hsize : s.app.setup.cfgSize ≤ MAX_CFG_SIZE) {fname : List UInt8} (h0 : 0 ∉ fname) (hlen : fname.length ≤ 500)
    (ds : List Link.Delivery) :
    (downloadRun env host device s fname ds).right.app.setup = s.app.setup ∧
      ((downloadRun env host device s fname ds).left.progress = .returned →
        fileOf env.past s.app.setup (jobOfName fname false) =
          some (downloadRun env host device s fname ds).left.result) := by
  have hfits : ∀ bytes, fileOf env.past s.app.setup (jobOfName fname false) = some bytes →
      bytes.length ≤ MAX_CFG_SIZE := by
    intro bytes hfile
    obtain ⟨⟨base, size⟩, hsource, rfl⟩ := Option.map_eq_some_iff.1 hfile
    rw [ByteMem.length_window]
    unfold Job.source at hsource
    split at hsource
    · obtain ⟨b, -, heq⟩ := Option.map_eq_some_iff.1 hsource
      cases heq
      exact hsize
    · split at hsource
      · cases hsource
        exact Nat.le_refl _
      · cases hsource
    · cases hsource
  have hstart : Download env.past s.app.setup fname (downloadStart s fname) := by
    refine ⟨⟨rfl, fun _ => ⟨0, rfl, fun bytes _ => ⟨Nat.zero_le _, rfl⟩⟩, fun hp => (by cases hp)⟩, ⟨rfl, Or.inl hidle⟩,
      fun m hm => ?_, fun m hm => by cases hm⟩
    rw [List.mem_singleton.1 hm]
    exact Or.inl rfl
  have h := Link.deliverAll_keeps (download_keeps env host device s.app.setup h0 hlen hfits) hstart ds
  exact ⟨h.server.setup, h.client.returned⟩

/-- **What `read` returns is what the device serves**, whatever the network does with the datagrams of both sides: the
bytes at `config` for `cfg.cfg`, the whole image for `full.cfg`. -/
theorem download_safe (env : OtaEnv φ) (host device : Addr) (s : Srv (Ota φ)) (hidle : s.mode = .idle)
    (hsize : s.app.setup.cfgSize ≤ MAX_CFG_SIZE) (ds : List Link.Delivery) :
    ((downloadRun env host device s (ascii "cfg.cfg") ds).left.progress = .returned →
      s.app.setup.configBytes env.past = some (downloadRun env host device s (ascii "cfg.cfg") ds).left.result) ∧
    ((downloadRun env host device s (ascii "full.cfg") ds).left.progress = .returned →
      s.app.setup.cfgFullLoaded = true ∧
        (downloadRun env host device s (ascii "full.cfg") ds).left.result = flashBytes s.app.setup.cfgFull) := by
  have hcfg : 0 ∉ ascii "cfg.cfg" ∧ (ascii "cfg.cfg").length ≤ 500 := by decide
  have hfull : 0 ∉ ascii "full.cfg" ∧ (ascii "full.cfg").length ≤ 500 := by decide
  constructor
  · intro hret
    have hfile := (downloadRun_file env host device hidle hsize hcfg.1 hcfg.2 ds).2 hret
    rw [← hfile, show jobOfName (ascii "cfg.cfg") false = .sendCfg by decide, fileOf_sendCfg]
  · intro hret
    have hfile := (downloadRun_file env host device hidle hsize hfull.1 hfull.2 ds).2 hret
    rw [show jobOfName (ascii "full.cfg") false = .sendFCfg by decide, fileOf, Job.source] at hfile
    by_cases hloaded : s.app.setup.cfgFullLoaded
    · rw [if_pos hloaded, Option.map_some] at hfile
      exact ⟨hloaded, by rw [← Option.some.inj hfile, window_flashBytes]⟩
    · rw [if_neg hloaded] at hfile
      cases hfile

/-- The request arrives twice, then the block. -/
theorem download_safe_repeated :
    servedServer.app.setup.configBytes (fun _ => 0) =
      some (downloadRun stockEnv 1 2 servedServer (ascii "cfg.cfg") [.right 0, .right 0, .left 0]).left.result :=
  (download_safe stockEnv 1 2 servedServer rfl (by decide) [.right 0, .right 0, .left 0]).1 (by decide +kernel)

end Mstd.Tftp
