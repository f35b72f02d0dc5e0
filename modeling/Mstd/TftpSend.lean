import Mstd.TftpClient
import Mstd.TftpOta
/-!
# The file a read job sends

`fileOf` is what a read job takes its blocks from: the bytes at `config`, or the whole image.  `on_read_data` brings
the next block of it (`onReadData_file`), and the top of the loop of `process_read` sends that block (`readTop_file`).
-/
namespace Mstd.Tftp

open ByteMem (Ptr Buffer window)

variable {φ : Type}

/-- Where a read job takes its bytes from: offset in `cfg_full` and size. -/
def Job.source (d : Setup) : Job → Option (Nat × Nat)
  | .sendCfg  => d.config.map (fun base => (base, d.cfgSize))
  | .sendFCfg => if d.cfgFullLoaded then some (0, MAX_CFG_SIZE) else .none
  | _         => .none

/-- **The file of a read job.** -/
def fileOf (past : Ptr) (d : Setup) (job : Job) : Option (List UInt8) :=
  (job.source d).map (fun source => window (NorFlash.mem d.cfgFull past) source.1 source.2)

/-- The block of a file that starts at `p`. -/
def blockAt (bytes : List UInt8) (p : Nat) : List UInt8 := (bytes.drop p).take DATA_SIZE

theorem length_blockAt (bytes : List UInt8) (p : Nat) : (blockAt bytes p).length = min 512 (bytes.length - p) := by
  simp only [blockAt, List.length_take, List.length_drop, DATA_SIZE]

theorem rest_eq {size p : Nat} (hp : p ≤ size) (hsize : size ≤ MAX_CFG_SIZE) :
    (BitVec.ofNat 32 size - BitVec.ofNat 32 p).toInt = (size - p : Nat) := by
  unfold MAX_CFG_SIZE at hsize
  have hsmall : (BitVec.ofNat 32 (size - p)).toNat = size - p := by
    rw [BitVec.toNat_ofNat]; omega
  rw [BitVec.ofNat_sub_ofNat_of_le _ _ (by omega) hp, BitVec.toInt_eq_toNat_of_lt (by rw [hsmall]; omega), hsmall]

/-- The copy of the next block: as many bytes as are left, at most 512. -/
theorem readFrom_block (env : OtaEnv φ) {s : Ota φ} {base size : Nat} (hp : s.curPtr ≤ size)
    (hsize : size ≤ MAX_CFG_SIZE) {block : List UInt8}
    (hblock : blockAt (window (NorFlash.mem s.setup.cfgFull env.past) base size) s.curPtr = block) :
    readFrom env base size 512 s = some ((block.length : Int), block, incCurPtr (toSizeT block.length) s) := by
  have hlen := length_blockAt (window (NorFlash.mem s.setup.cfgFull env.past) base size) s.curPtr
  rw [hblock, ByteMem.length_window] at hlen
  have hwindow : block = window (NorFlash.mem s.setup.cfgFull env.past) (base + s.curPtr) (min 512 (size - s.curPtr)) := by
    rw [← hblock, blockAt, ByteMem.drop_window _ _ _ _ hp]
    by_cases hle : 512 ≤ size - s.curPtr
    · rw [Nat.min_eq_left hle]
      exact ByteMem.take_window _ _ _ _ hle
    · rw [List.take_of_length_le (by rw [ByteMem.length_window]; unfold DATA_SIZE; omega), Nat.min_eq_right (by omega)]
  have hcount : (if (512 : Int) > ((size - s.curPtr : Nat) : Int) then ((size - s.curPtr : Nat) : Int) else 512) =
      (min 512 (size - s.curPtr) : Nat) := by
    split <;> omega
  unfold readFrom
  simp only [rest_eq hp hsize, hcount]
  rw [if_neg (Int.not_lt.2 (Int.natCast_nonneg _)), hlen, Int.toNat_natCast, ← hwindow]

/-- **`on_read_data` brings the next block of the file**, and moves `cur_ptr` behind it. -/
theorem onReadData_file (env : OtaEnv φ) {s : Ota φ} {bytes : List UInt8}
    (hfile : fileOf env.past s.setup s.job = some bytes) (hsize : bytes.length ≤ MAX_CFG_SIZE)
    (hp : s.curPtr ≤ bytes.length) :
    ∃ s', onReadData env 512 s = some (((blockAt bytes s.curPtr).length : Int), blockAt bytes s.curPtr, s') ∧
      s'.setup = s.setup ∧ s'.saved = s.saved ∧ s'.job = s.job ∧
      s'.curPtr = s.curPtr + (blockAt bytes s.curPtr).length := by
  have hlen := length_blockAt bytes s.curPtr
  obtain ⟨h1, h2, h3, -, h5⟩ := incCurPtr_fields (toSizeT (blockAt bytes s.curPtr).length) s
  refine ⟨incCurPtr (toSizeT (blockAt bytes s.curPtr).length) s, ?_, h1, h2, h3, ?_⟩
  · obtain ⟨⟨base, size⟩, hsource, hbytes⟩ := Option.map_eq_some_iff.1 hfile
    have hb : bytes.length = size := by rw [← hbytes, ByteMem.length_window]
    rw [hb] at hsize hp
    have hread := readFrom_block env hp hsize (congrArg (blockAt · s.curPtr) hbytes)
    unfold onReadData
    unfold Job.source at hsource
    cases hjob : s.job with
    | sendCfg =>
      rw [hjob] at hsource
      obtain ⟨b, hconf, heq⟩ := Option.map_eq_some_iff.1 hsource
      cases heq
      simp only [hconf]
      exact hread
    | sendFCfg =>
      rw [hjob] at hsource
      by_cases hloaded : s.setup.cfgFullLoaded
      · simp only [hloaded, if_true] at hsource ⊢
        cases hsource
        exact hread
      · simp only [hloaded, Bool.false_eq_true, if_false] at hsource
        cases hsource
    | _ => rw [hjob] at hsource; cases hsource
  · rw [h5]
    unfold toSizeT SIZE_T
    unfold MAX_CFG_SIZE at hsize
    omega

theorem onClose_send (env : OtaEnv φ) {s : Ota φ} {past : Ptr} {d : Setup} {bytes : List UInt8}
    (h : fileOf past d s.job = some bytes) : onClose env s = some s := by
  unfold onClose
  cases hjob : s.job with
  | sendCfg => rfl
  | sendFCfg => rfl
  | none => rfl
  | _ => rw [hjob] at h; cases h

/-- **A read request is accepted exactly when its job has a file.** -/
theorem onRead_file (past : Ptr) (fname : List UInt8) (s : Ota φ) :
    (onRead fname s).2.setup = s.setup ∧ (onRead fname s).2.saved = s.saved ∧
      (onRead fname s).2.job = jobOfName fname false ∧ (onRead fname s).2.curPtr = 0 ∧
      (0 ≤ (onRead fname s).1 ↔ ∃ bytes, fileOf past s.setup (jobOfName fname false) = some bytes) := by
  have hrefused : ∀ t : Ota φ, ¬ 0 ≤ ((-1 : Int), t).1 := fun _ h => absurd (show (0 : Int) ≤ -1 from h) (by decide)
  unfold onRead testFileName fileOf
  cases jobOfName fname false with
  | sendCfg =>
    cases hconf : s.setup.config <;> simp [hconf, Ota.msg, Ota.startPi, Job.source]
  | sendFCfg =>
    cases hl : s.setup.cfgFullLoaded <;> simp [hl, Ota.msg, Ota.startPi, Job.source]
  | none | loadFW | loadCfg | loadFCfg =>
    exact ⟨rfl, rfl, rfl, rfl, fun h => absurd h (hrefused _), fun ⟨_, h⟩ => by cases h⟩

theorem take_packet (buf : Buffer TFTP_DATA_SIZE) (n : Nat) {block : List UInt8} (h : block.length ≤ 512) :
    ((((buf.put 0 (be16 TFTP_CMD_DATA)).put 2 (be16 n)).put 4 block).bytes).take ((block.length : Int) + 4).toNat =
      dataBytes n block := by
  have h0 : (buf.put 0 (be16 TFTP_CMD_DATA)).bytes.take 2 = be16 TFTP_CMD_DATA :=
    buf.take_put (show (be16 TFTP_CMD_DATA).length ≤ TFTP_DATA_SIZE by decide)
  have h2 : ((buf.put 0 (be16 TFTP_CMD_DATA)).put 2 (be16 n)).bytes.take 4 =
      (buf.put 0 (be16 TFTP_CMD_DATA)).bytes.take 2 ++ be16 n :=
    (buf.put 0 (be16 TFTP_CMD_DATA)).take_put_append
      (show 2 + (be16 n).length ≤ TFTP_DATA_SIZE from (by decide : 4 ≤ TFTP_DATA_SIZE))
  rw [show ((block.length : Int) + 4).toNat = 4 + block.length by omega,
    ByteMem.Buffer.take_put_append _ (by unfold TFTP_DATA_SIZE; omega), h2, h0]
  rfl

/-- **The top of the loop of `process_read`** sends the next block of the file. -/
theorem readTop_file (env : OtaEnv φ) {s : Srv (Ota φ)} {bytes : List UInt8}
    (hfile : fileOf env.past s.app.setup s.app.job = some bytes) (hsize : bytes.length ≤ MAX_CFG_SIZE)
    (hp : s.app.curPtr ≤ bytes.length) (n : Nat) :
    ∃ t, processReadTop (otaServer env) s n = .wait t ∧ t.mode = .reading n 0 ∧
      t.dataSize = ((blockAt bytes s.app.curPtr).length : Int) ∧
      t.buffer.bytes.take (t.dataSize + 4).toNat = dataBytes n (blockAt bytes s.app.curPtr) ∧
      t.client = s.client ∧ t.hist = s.hist ∧
      t.out = s.out ++ [(s.client, dataBytes n (blockAt bytes s.app.curPtr))] ∧
      t.app.setup = s.app.setup ∧ t.app.saved = s.app.saved ∧ t.app.job = s.app.job ∧
      t.app.curPtr = s.app.curPtr + (blockAt bytes s.app.curPtr).length := by
  obtain ⟨app, hread, hsetup, hsaved, hjob, hptr⟩ := onReadData_file env hfile hsize hp
  have hpacket := take_packet s.buffer n
    (show (blockAt bytes s.app.curPtr).length ≤ 512 by rw [length_blockAt]; exact Nat.min_le_left _ _)
  rw [processReadTop_wait n (show (otaServer env).onReadData _ s.app = _ from hread) (Int.natCast_nonneg _)]
  refine ⟨_, rfl, rfl, rfl, hpacket, rfl, rfl, ?_, hsetup, hsaved, hjob, hptr⟩
  show s.out ++ [(s.client, _)] = _
  rw [hpacket]

end Mstd.Tftp
