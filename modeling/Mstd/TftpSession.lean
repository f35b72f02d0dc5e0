import Mstd.TftpCommit
import Mstd.TftpSend
/-!
# Loss-free sessions

A client whose packets all arrive sends its request and the DATA packets of its file, or acknowledges the DATA packets
it gets.  An upload leaves its first `MAX_CFG_SIZE` bytes to `on_close` (`upload_processWrite`); a download brings the
bytes at `config` as they were when it started (`run_acks`).
-/
namespace Mstd.Tftp

open ByteMem (Ptr Buffer window)

variable {φ : Type}

/-- The DATA packets of a file from block `n` on. -/
def dataPackets (c : Addr) (n : Nat) (data : List UInt8) : List Recv :=
  .packet c (dataBytes n (data.take DATA_SIZE)) ::
    if data.length < DATA_SIZE then [] else dataPackets c (n + 1) (data.drop DATA_SIZE)
termination_by data.length
decreasing_by
  rw [List.length_drop]
  unfold DATA_SIZE at *
  omega

/-- `count` ACKs from block `n` on. -/
def acks (c : Addr) (n : Nat) : Nat → List Recv
  | 0         => []
  | count + 1 => .packet c (ackPacket n) :: acks c (n + 1) count

/-! ## The request -/

theorem strlen_append {name : List UInt8} (h : 0 ∉ name) (rest : List UInt8) :
    strlen (name ++ 0 :: rest) = some name.length := by
  induction name with
  | nil => rfl
  | cons b bs ih =>
    have hb : b ≠ 0 := fun hb => h (hb ▸ List.mem_cons_self ..)
    have hbs : strlen (bs ++ 0 :: rest) = some bs.length := ih (fun hm => h (List.mem_cons_of_mem _ hm))
    unfold strlen at hbs ⊢
    rw [List.cons_append, List.findIdx?_cons, beq_false_of_ne hb, if_neg Bool.false_ne_true, hbs]
    rfl

theorem requestStrings_xrq (buf : Buffer TFTP_DATA_SIZE) (mode : Nat) {name : List UInt8} (h0 : 0 ∉ name)
    (hlen : name.length ≤ 500) :
    word16 (buf.put 0 (xrqPacket mode name)).bytes 0 = (UInt8.ofNat mode).toNat ∧
      requestStrings (buf.put 0 (xrqPacket mode name)).bytes = some (name, name.length + 9) := by
  have hfit : 0 + (xrqPacket mode name).length ≤ TFTP_DATA_SIZE := by
    simp [xrqPacket, ascii, TFTP_DATA_SIZE]
    omega
  rw [buf.bytes_put hfit, List.take_zero, List.nil_append]
  refine ⟨by simp [xrqPacket, word16], ?_⟩
  generalize buf.bytes.drop (0 + (xrqPacket mode name).length) = rest
  have hsplit : (xrqPacket mode name ++ rest).drop 2 = name ++ 0 :: (ascii "octet" ++ 0 :: rest) := by
    simp [xrqPacket]
  have hoctet : strlen (ascii "octet" ++ 0 :: rest) = some 5 := strlen_append (by decide) rest
  have hmode : (xrqPacket mode name ++ rest).drop (2 + name.length + 1) = ascii "octet" ++ 0 :: rest := by
    rw [← List.drop_drop, ← List.drop_drop, hsplit, List.drop_left' rfl, List.drop_succ_cons, List.drop_zero]
  rw [requestStrings, hsplit, strlen_append h0, Option.bind_some, hmode, hoctet, List.take_left' rfl, Option.map_some]
  congr 2
  omega

/-- The request of this client that the server accepts opens a session. -/
theorem step_wrq {H : Handler (Ota φ)} {s : Srv (Ota φ)} (hidle : s.mode = .idle) (c : Addr) {name : List UInt8}
    (h0 : 0 ∉ name) (hlen : name.length ≤ 500) (haccept : 0 ≤ (H.onWrite name s.app).1) :
    (step H s (.packet c (xrqPacket TFTP_CMD_WRQ name))).mode = .writing 1 ∧
      (step H s (.packet c (xrqPacket TFTP_CMD_WRQ name))).app = (H.onWrite name s.app).2 ∧
      (step H s (.packet c (xrqPacket TFTP_CMD_WRQ name))).hist =
        .start c name s.app :: s.hist := by
  obtain ⟨hcmd, hstr⟩ := requestStrings_xrq s.buffer TFTP_CMD_WRQ h0 hlen
  have hptr : (recvFrom s (.packet c (xrqPacket TFTP_CMD_WRQ name))).dataSize ≤ (name.length + 9 : Nat) := by
    show ((min (xrqPacket TFTP_CMD_WRQ name).length TFTP_DATA_SIZE : Nat) : Int) ≤ _
    simp [xrqPacket, ascii]
    omega
  have hcmd' : word16 (recvFrom s (.packet c (xrqPacket TFTP_CMD_WRQ name))).buffer.bytes 0 = TFTP_CMD_WRQ := hcmd
  have hacc := parseWrq_accept (s := recvFrom s (.packet c (xrqPacket TFTP_CMD_WRQ name))) hstr hptr haccept
  have hfile : requestFile (recvFrom s (.packet c (xrqPacket TFTP_CMD_WRQ name))).buffer.bytes = name := requestFile_eq hstr
  rw [step_idle_packet H hidle, parseRq_of_wrq hcmd' hacc, hfile]
  exact ⟨rfl, rfl, rfl⟩

/-! ## Upload -/

/-- **A block of a loss-free upload**: it is stored behind the bytes before it, or there is no more room. -/
theorem write_block (env : OtaEnv φ) {base : Ota φ} (hjob : base.job.isUpload) {acc : List UInt8} {s : Srv (Ota φ)}
    (hb : Holds base acc s.app) {n m : Nat} (hpos : acc.length = MAX_CFG_SIZE ∨ (n = m ∧ acc.length + 512 = 512 * m))
    (c : Addr) {data : List UInt8} (hdata : data.length ≤ DATA_SIZE) :
    ∃ t n', processWriteBody (otaServer env) (recvFrom s (.packet c (dataBytes m data))) n = endOfBlock t n' ∧
      t.dataSize = (data.length + 4 : Nat) ∧ Holds base ((acc ++ data).take MAX_CFG_SIZE) t.app ∧
      ((acc ++ data).length < MAX_CFG_SIZE → n' = m + 1) := by
  obtain ⟨hcode, hnum, ⟨rest, hdrop⟩, hsize⟩ := recv_dataBytes s c m hdata
  have hnonneg : 0 ≤ (recvFrom s (.packet c (dataBytes m data))).dataSize := by
    rw [hsize]; exact Int.natCast_nonneg _
  have hle := hb.le
  have hfull : acc.length = MAX_CFG_SIZE → (acc ++ data).take MAX_CFG_SIZE = acc := fun h => List.take_left' h
  by_cases hdup : m % 65536 < n
  · -- only a full buffer is behind on its numbers
    have hmax : acc.length = MAX_CFG_SIZE := by unfold MAX_CFG_SIZE at *; omega
    refine ⟨_, n, body_dup _ hnonneg hcode (by rwa [hnum]), hsize, ?_, ?_⟩
    · rw [hfull hmax]; exact hb
    · rw [List.length_append, hmax]; omega
  · have hnew : n ≤ word16 (recvFrom s (.packet c (dataBytes m data))).buffer.bytes 2 := by
      rw [hnum]; exact Nat.not_lt.1 hdup
    have hbody := body_block (otaServer env) hnonneg hcode hnew
    have hjob' : (recvFrom s (.packet c (dataBytes m data))).app.job.isUpload := by
      show s.app.job.isUpload
      rw [hb.job]
      exact hjob
    have hlen : (recvFrom s (.packet c (dataBytes m data))).dataSize - 4 = (data.length : Int) := by
      rw [hsize]; omega
    obtain ⟨⟨ret, app⟩, hw⟩ := Option.ne_none_iff_exists'.1
      (onWriteData_ne_none env (data ++ rest) data.length _ (Int.natCast_nonneg data.length))
    rw [hlen, hdrop, show (otaServer env).onWriteData (data ++ rest) data.length _ = _ from hw] at hbody
    refine ⟨_, n + 1, hbody, hsize, ?_, fun hroom => ?_⟩
    · have htake : (data ++ rest).take (data.length : Int).toNat = data := by
        rw [Int.toNat_natCast, List.take_left' rfl]
      unfold DATA_SIZE at hdata
      obtain ⟨-, hfit, -, hh⟩ | ⟨hbad, -, hh⟩ := hb.writeData hjob
        (by rw [Int.toNat_natCast, List.length_append]; omega) (by omega) hw
      · rw [htake] at hfit hh
        rwa [List.take_of_length_le (by rwa [List.length_append])]
      · rw [htake] at hbad
        rw [hfull (by unfold MAX_CFG_SIZE at *; omega)]
        exact hh
    · rw [List.length_append] at hroom
      omega

theorem take_append_take {α : Type} (xs ys : List α) (n : Nat) : (xs.take n ++ ys).take n = (xs ++ ys).take n := by
  rw [List.take_append, List.take_append, List.take_take, Nat.min_self, List.length_take]
  by_cases h : n ≤ xs.length
  · rw [Nat.min_eq_left h, Nat.sub_self, Nat.sub_eq_zero_of_le h]
  · rw [Nat.min_eq_right (by omega)]

/-- **A loss-free upload**: `process_write` returns 0 with the file in `ota_cfg_buffer`, as far as it fits. -/
theorem upload_processWrite (env : OtaEnv φ) {base : Ota φ} (hjob : base.job.isUpload) (c : Addr) {acc : List UInt8}
    {s : Srv (Ota φ)} (hb : Holds base acc s.app) {n m : Nat} (data : List UInt8)
    (hpos : acc.length = MAX_CFG_SIZE ∨ (n = m ∧ acc.length + 512 = 512 * m)) :
    ∃ s', processWrite (otaServer env) s n (dataPackets c m data) = some (s', 0, []) ∧
      Holds base ((acc ++ data).take MAX_CFG_SIZE) s'.app := by
  induction hk : data.length using Nat.strong_induction_on generalizing data acc s n m with
  | _ k ih =>
    have hchunk : (data.take DATA_SIZE).length ≤ DATA_SIZE := by rw [List.length_take]; omega
    obtain ⟨t, n', hbody, hsize, hh, hnext⟩ := write_block env hjob hb hpos c hchunk
    rw [List.length_take] at hsize
    unfold dataPackets processWrite
    rw [hbody]
    unfold endOfBlock
    rw [hsize]
    by_cases hlast : data.length < DATA_SIZE
    · rw [if_pos hlast, if_pos (by unfold DATA_SIZE TFTP_DATA_SIZE at *; omega)]
      rw [List.take_of_length_le (Nat.le_of_lt hlast)] at hh
      exact ⟨t, rfl, hh⟩
    · rw [if_neg hlast, if_neg (by unfold DATA_SIZE TFTP_DATA_SIZE at *; omega)]
      have hlen : (acc ++ data.take DATA_SIZE).length = acc.length + 512 := by
        rw [List.length_append, List.length_take]; unfold DATA_SIZE at *; omega
      have hle := hb.le
      have hpos' : ((acc ++ data.take DATA_SIZE).take MAX_CFG_SIZE).length = MAX_CFG_SIZE ∨
          (n' = m + 1 ∧ ((acc ++ data.take DATA_SIZE).take MAX_CFG_SIZE).length + 512 = 512 * (m + 1)) := by
        rw [hlen] at hnext
        rw [List.length_take, hlen]
        unfold MAX_CFG_SIZE at *
        omega
      have hless : (data.drop DATA_SIZE).length < k := by rw [List.length_drop]; unfold DATA_SIZE at *; omega
      obtain ⟨s', hrun, hend⟩ := ih _ hless (s := { t with mode := .writing n' }) hh _ hpos' rfl
      refine ⟨s', hrun, ?_⟩
      rwa [take_append_take, List.append_assoc, List.take_append_drop] at hend

/-- A server that is between sessions, on this store. -/
structure Rests (s : Srv (Ota φ)) (d : Setup) (saved : List Saved) : Prop where
  idle : s.mode = .idle
  setup : s.app.setup = d
  saved : s.app.saved = saved

/-- **A loss-free upload session** makes one save, of what fits of the file. -/
theorem run_upload {env : OtaEnv φ} {s : Srv (Ota φ)} {d : Setup} {saved : List Saved} (hs : Rests s d saved) (c : Addr)
    {name : List UInt8} (h0 : 0 ∉ name) (hlen : name.length ≤ 500) (haccept : 0 ≤ (onWrite env name s.app).1)
    (hjob : (jobOfName name true).isUpload) (data : List UInt8) :
    let r := (saveCall (jobOfName name true) (data.take MAX_CFG_SIZE)).run (env.fate saved.length) d
    Rests (run (otaServer env) s (.packet c (xrqPacket TFTP_CMD_WRQ name) :: dataPackets c 1 data)) r.dev
      (saved ++ [r]) := by
  intro r
  obtain ⟨hmode, happ, -⟩ := step_wrq (H := otaServer env) hs.idle c h0 hlen haccept
  rw [run_cons]
  generalize step (otaServer env) s (.packet c (xrqPacket TFTP_CMD_WRQ name)) = s₁ at hmode happ
  have hj : s₁.app.job = jobOfName name true := by rw [happ]; exact job_onWrite env name s.app
  obtain ⟨hh, hsetup, hsaved⟩ := onWrite_upload haccept ((job_onWrite env name s.app).symm ▸ hjob)
  rw [← show s₁.app = (onWrite env name s.app).2 from happ] at hh hsetup hsaved
  obtain ⟨s', hpw, hend⟩ := upload_processWrite env (hj ▸ hjob) c hh data
    (Or.inr (⟨rfl, rfl⟩ : 1 = 1 ∧ 0 + 512 = 512 * 1))
  rw [List.nil_append] at hend
  rw [run_processWrite hmode hpw]
  have hclose := hend.onClose env (hj ▸ hjob)
  have hr : commit env s₁.app (data.take MAX_CFG_SIZE) = r := by
    rw [commit, hj, hsetup, hsaved, hs.saved, hs.setup]
  rw [hr] at hclose
  show Rests (afterWrite (otaServer env) s' 0) r.dev (saved ++ [r])
  rw [afterWrite_idle hclose (Int.le_refl 0)]
  refine ⟨rfl, (afterSave_fields _ _).1, ?_⟩
  show (afterSave r s'.app).saved = _
  rw [(afterSave_fields _ _).2, hend.saved, hsaved, hs.saved]

/-! ## Download -/

/-- The server while it sends: the store is as it was, and `curPtr` bytes are out. -/
structure Sends (d : Setup) (saved : List Saved) (job : Job) (p : Nat) (s : Ota φ) : Prop where
  setup : s.setup = d
  saved : s.saved = saved
  job : s.job = job
  ptr : s.curPtr = p

/-- The DATA packets that bring these bytes. -/
def sent (c : Addr) (n : Nat) (data : List UInt8) : List (Addr × Datagram) :=
  (c, dataBytes n (data.take DATA_SIZE)) ::
    if data.length < DATA_SIZE then [] else sent c (n + 1) (data.drop DATA_SIZE)
termination_by data.length
decreasing_by
  rw [List.length_drop]
  unfold DATA_SIZE at *
  omega

theorem sent_eq (c : Addr) (n : Nat) (data : List UInt8) :
    sent c n data = (c, dataBytes n (data.take DATA_SIZE)) ::
      if data.length < DATA_SIZE then [] else sent c (n + 1) (data.drop DATA_SIZE) := by
  rw [sent]

/-- **The top of the loop of `process_read`** sends the next block of the file. -/
theorem Sends.readTop {env : OtaEnv φ} {d : Setup} {saved : List Saved} {job : Job} {p : Nat} {s : Srv (Ota φ)}
    {bytes : List UInt8} (h : Sends d saved job p s.app) (hfile : fileOf env.past d job = some bytes)
    (hsize : bytes.length ≤ MAX_CFG_SIZE) (hp : p ≤ bytes.length) (n : Nat) :
    ∃ t, processReadTop (otaServer env) s n = .wait t ∧ t.mode = .reading n 0 ∧
      t.dataSize = (((bytes.drop p).take DATA_SIZE).length : Int) ∧
      t.out = s.out ++ [(s.client, dataBytes n ((bytes.drop p).take DATA_SIZE))] ∧
      Sends d saved job (p + ((bytes.drop p).take DATA_SIZE).length) t.app := by
  obtain ⟨t, htop, hmode, hds, -, -, -, hout, hsetup, hsaved, hjob, hptr⟩ := readTop_file env (s := s)
    (by rw [h.job, h.setup]; exact hfile) hsize (by rw [h.ptr]; exact hp) n
  rw [h.ptr] at hds hout hptr
  exact ⟨t, htop, hmode, hds, hout, hsetup.trans h.setup, hsaved.trans h.saved, hjob.trans h.job, hptr⟩

theorem step_idle_ack (H : Handler (Ota φ)) {s : Srv (Ota φ)} (hidle : s.mode = .idle) (c : Addr) (n : Nat) :
    (step H s (.packet c (ackPacket n))).mode = .idle ∧ (step H s (.packet c (ackPacket n))).app = s.app ∧
      (step H s (.packet c (ackPacket n))).out = s.out := by
  have hcode : word16 (recvFrom s (.packet c (ackPacket n))).buffer.bytes 0 = TFTP_CMD_ACK := by
    show word16 (s.buffer.put 0 (ackPacket n)).bytes 0 = TFTP_CMD_ACK
    rw [s.buffer.bytes_put (show 0 + (ackPacket n).length ≤ TFTP_DATA_SIZE from (by decide : 4 ≤ TFTP_DATA_SIZE))]
    exact word16_ackPacket_code n _
  rw [step_idle_packet H hidle, parseRq_other (by rw [hcode]; decide) (by rw [hcode]; decide), if_pos (by decide)]
  exact ⟨rfl, rfl, rfl⟩

theorem run_idle_acks {H : Handler (Ota φ)} {s : Srv (Ota φ)} {d : Setup} {saved : List Saved} (hs : Rests s d saved)
    (c : Addr) (n count : Nat) :
    Rests (run H s (acks c n count)) d saved ∧ (run H s (acks c n count)).out = s.out := by
  induction count generalizing s n with
  | zero => exact ⟨hs, rfl⟩
  | succ count ih =>
    obtain ⟨hmode, happ, hout⟩ := step_idle_ack H hs.idle c n
    rw [acks, run_cons]
    obtain ⟨hrest, hout'⟩ := ih (s := step H s (.packet c (ackPacket n)))
      ⟨hmode, by rw [happ]; exact hs.setup, by rw [happ]; exact hs.saved⟩ (n + 1)
    exact ⟨hrest, hout'.trans hout⟩

/-- **The rest of a download**: with an ACK for every block the missing blocks are sent. -/
theorem run_acks {env : OtaEnv φ} {d : Setup} {saved : List Saved} {job : Job} {p : Nat} {s : Srv (Ota φ)}
    {bytes : List UInt8} (hfile : fileOf env.past d job = some bytes) (hsize : bytes.length ≤ MAX_CFG_SIZE) (c : Addr)
    {n : Nat} (count : Nat) (hmode : s.mode = .reading n 0)
    (hds : s.dataSize = (((bytes.drop p).take DATA_SIZE).length : Int))
    (hsend : Sends d saved job (p + ((bytes.drop p).take DATA_SIZE).length) s.app)
    (hcount : (bytes.drop p).length < 512 * count) :
    Rests (run (otaServer env) s (acks c n count)) d saved ∧
      s.out ++ (if (bytes.drop p).length < DATA_SIZE then [] else sent c (n + 1) ((bytes.drop p).drop DATA_SIZE)) =
        (run (otaServer env) s (acks c n count)).out := by
  induction count generalizing s n p with
  | zero => omega
  | succ count ih =>
    rw [acks, run_cons, step_reading _ _ hmode, processReadAck_ack]
    by_cases hlast : (bytes.drop p).length < DATA_SIZE
    · -- the last block: the session is closed, nothing is saved
      have hclose : (otaServer env).onClose { s with client := c }.app = some s.app :=
        onClose_send env (by rw [hsend.job]; exact hfile)
      rw [if_pos (by rw [hds, List.length_take]; unfold DATA_SIZE TFTP_DATA_SIZE at *; omega), afterRead_finish hclose]
      rw [if_pos hlast, List.append_nil]
      obtain ⟨hrest, hout⟩ := run_idle_acks (H := otaServer env) (s := { s with client := c, app := s.app, mode := .idle })
        ⟨rfl, hsend.setup, hsend.saved⟩ c (n + 1) count
      exact ⟨hrest, hout.symm⟩
    · have htake : ((bytes.drop p).take DATA_SIZE).length = 512 := by
        rw [List.length_take]; unfold DATA_SIZE at *; omega
      have hp : p + 512 ≤ bytes.length := by
        rw [List.length_drop] at hlast
        unfold DATA_SIZE at hlast
        omega
      rw [htake] at hsend
      obtain ⟨t, htop, htmode, htsize, htout, htsend⟩ := Sends.readTop (s := { s with client := c }) hsend hfile hsize
        hp (n + 1)
      rw [if_neg (by rw [hds, List.length_take]; unfold DATA_SIZE TFTP_DATA_SIZE at *; omega), htop]
      obtain ⟨hrest, hout⟩ := ih htmode htsize htsend (by
        rw [List.length_drop] at hcount hlast ⊢
        unfold DATA_SIZE at hlast
        omega)
      refine ⟨hrest, ?_⟩
      rw [if_neg hlast, show (bytes.drop p).drop DATA_SIZE = bytes.drop (p + 512) from List.drop_drop]
      rw [htout, List.append_assoc] at hout
      rw [sent_eq]
      exact hout

/-- What `read` makes of these replies: the bytes of the DATA packets, and nothing when it raises. -/
def readResult : List (Addr × Datagram) → Option (List UInt8)
  | []              => some []
  | (_, reply) :: rest =>
    match getAnswer reply with
    | some (.data _ bytes) => (readResult rest).map (bytes ++ ·)
    | _                    => none

theorem readResult_sent (c : Addr) (n : Nat) (data : List UInt8) : readResult (sent c n data) = some data := by
  induction hk : data.length using Nat.strong_induction_on generalizing data n with
  | _ k ih =>
    have hchunk : (data.take DATA_SIZE).length ≤ DATA_SIZE := by rw [List.length_take]; omega
    rw [sent_eq, readResult, getAnswer_dataBytes n hchunk]
    by_cases hlast : data.length < DATA_SIZE
    · rw [if_pos hlast, List.take_of_length_le (Nat.le_of_lt hlast)]
      simp only [readResult, Option.map_some, List.append_nil]
    · rw [if_neg hlast]
      simp only
      rw [ih _ (by rw [List.length_drop]; unfold DATA_SIZE at *; omega) (n + 1) (data.drop DATA_SIZE) rfl, Option.map_some,
        List.take_append_drop]

def cfgName : List UInt8 := ascii "cfg.cfg"

/-- The datagrams of a download of `size` bytes. -/
def readEvents (c : Addr) (name : List UInt8) (size : Nat) : List Recv :=
  .packet c (xrqPacket TFTP_CMD_RRQ name) :: acks c 1 (size / DATA_SIZE + 1)

/-- The datagrams of a download of `cfg.cfg` of `size` bytes. -/
def downloadEvents (c : Addr) (size : Nat) : List Recv :=
  .packet c (xrqPacket TFTP_CMD_RRQ cfgName) :: acks c 1 (size / DATA_SIZE + 1)

/-- A read request at a server between sessions: `on_read` decides. -/
theorem step_read {env : OtaEnv φ} {s : Srv (Ota φ)} (hidle : s.mode = .idle) (c : Addr) {name : List UInt8}
    (h0 : 0 ∉ name) (hlen : name.length ≤ 500) :
    step (otaServer env) s (.packet c (xrqPacket TFTP_CMD_RRQ name)) =
      if (onRead name s.app).1 < 0 then
        { sendError { recvFrom s (.packet c (xrqPacket TFTP_CMD_RRQ name)) with app := (onRead name s.app).2 }
            ERR_FILE_NOT_FOUND "cannot open file" with mode := .idle }
      else
        afterRead (otaServer env)
          { recvFrom s (.packet c (xrqPacket TFTP_CMD_RRQ name)) with app := (onRead name s.app).2 }
          (processReadTop (otaServer env)
            { recvFrom s (.packet c (xrqPacket TFTP_CMD_RRQ name)) with app := (onRead name s.app).2 } 1) := by
  obtain ⟨hcmd, hstr⟩ := requestStrings_xrq s.buffer TFTP_CMD_RRQ h0 hlen
  have hcmd' : word16 (recvFrom s (.packet c (xrqPacket TFTP_CMD_RRQ name))).buffer.bytes 0 = TFTP_CMD_RRQ := hcmd
  rw [step_idle_packet _ hidle, parseRq_of_rrq (s := recvFrom s _) hcmd' (-1) hstr]
  rfl

/-- **A loss-free download session** brings the file of its job, and changes nothing. -/
theorem run_read (env : OtaEnv φ) {s : Srv (Ota φ)} {d : Setup} {saved : List Saved} (hs : Rests s d saved)
    (name : List UInt8) (h0 : 0 ∉ name) (hlen : name.length ≤ 500) {size : Nat} (hsize : size ≤ MAX_CFG_SIZE)
    (hfits : ∀ bytes, fileOf env.past d (jobOfName name false) = some bytes → bytes.length = size) (c : Addr) :
    Rests (run (otaServer env) s (readEvents c name size)) d saved ∧
      readResult ((run (otaServer env) s (readEvents c name size)).out.drop s.out.length) =
        fileOf env.past d (jobOfName name false) := by
  obtain ⟨hsetup, hsaved, hjob, hptr, haccept⟩ := onRead_file env.past name s.app
  rw [hs.setup] at haccept hsetup
  rw [readEvents, run_cons, step_read hs.idle c h0 hlen]
  by_cases hneg : (onRead name s.app).1 < 0
  · -- refused: the error packet makes `read` raise
    rw [if_pos hneg]
    have hnone : fileOf env.past d (jobOfName name false) = none :=
      Option.eq_none_iff_forall_ne_some.2 (fun bytes hb => absurd (haccept.2 ⟨bytes, hb⟩) (Int.not_le.2 hneg))
    obtain ⟨hrest, hout⟩ := run_idle_acks (H := otaServer env) (s := { sendError { recvFrom s
      (.packet c (xrqPacket TFTP_CMD_RRQ name)) with app := (onRead name s.app).2 }
        ERR_FILE_NOT_FOUND "cannot open file" with mode := .idle }) ⟨rfl, hsetup, hsaved.trans hs.saved⟩ c 1
        (size / DATA_SIZE + 1)
    refine ⟨hrest, ?_⟩
    rw [hout, hnone]
    show readResult ((s.out ++ [(c, be16 TFTP_CMD_ERROR ++ be16 ERR_FILE_NOT_FOUND ++ ascii "cannot open file" ++ [0])]
      ).drop s.out.length) = none
    have herror : getAnswer (be16 TFTP_CMD_ERROR ++ be16 ERR_FILE_NOT_FOUND ++ ascii "cannot open file" ++ [0]) = none :=
      Option.isNone_iff_eq_none.1 (by decide)
    rw [List.drop_left' rfl, readResult, herror]
  · rw [if_neg hneg]
    obtain ⟨bytes, hbytes⟩ := haccept.1 (Int.not_lt.1 hneg)
    have hb := hfits bytes hbytes
    have hsend : Sends d saved (jobOfName name false) 0 (onRead name s.app).2 :=
      ⟨hsetup, hsaved.trans hs.saved, hjob, hptr⟩
    obtain ⟨t, htop, htmode, htsize, htout, htsend⟩ := Sends.readTop (s := { recvFrom s
      (.packet c (xrqPacket TFTP_CMD_RRQ name)) with app := (onRead name s.app).2 }) hsend hbytes (by omega)
        (Nat.zero_le _) 1
    rw [htop]
    obtain ⟨hrest, hout⟩ := run_acks hbytes (by omega) c (size / DATA_SIZE + 1) htmode htsize htsend
      (by rw [List.drop_zero, hb]; unfold DATA_SIZE; omega)
    refine ⟨hrest, ?_⟩
    have hall : (run (otaServer env) t (acks c 1 (size / DATA_SIZE + 1))).out = s.out ++ sent c 1 bytes := by
      rw [← hout, htout, List.append_assoc, List.drop_zero, sent_eq c 1]
      rfl
    show readResult ((run (otaServer env) t (acks c 1 (size / DATA_SIZE + 1))).out.drop s.out.length) = _
    rw [hall, List.drop_left' rfl, readResult_sent, hbytes]

/-- The file of a download of `cfg.cfg`. -/
theorem fileOf_sendCfg (past : Ptr) (d : Setup) : fileOf past d .sendCfg = d.configBytes past := by
  rw [fileOf, Job.source, Option.map_map]
  rfl

/-- **A loss-free download of `cfg.cfg`** brings the bytes at `config`. -/
theorem run_download (env : OtaEnv φ) {s : Srv (Ota φ)} {d : Setup} {saved : List Saved} (hs : Rests s d saved)
    (hsize : d.cfgSize ≤ MAX_CFG_SIZE) (c : Addr) :
    Rests (run (otaServer env) s (downloadEvents c d.cfgSize)) d saved ∧
      readResult ((run (otaServer env) s (downloadEvents c d.cfgSize)).out.drop s.out.length) =
        d.configBytes env.past := by
  have hfile : fileOf env.past d (jobOfName cfgName false) = d.configBytes env.past := by
    rw [show jobOfName cfgName false = .sendCfg by decide, fileOf_sendCfg]
  have hread := run_read env hs cfgName (by decide) (by decide) hsize (fun bytes hb => by
    rw [hfile] at hb
    obtain ⟨base, -, rfl⟩ := Option.map_eq_some_iff.1 hb
    exact ByteMem.length_window _ _ _) c
  rw [hfile] at hread
  exact hread

end Mstd.Tftp
