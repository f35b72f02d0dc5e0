import Mstd.TftpReads
import Mstd.TftpStore
/-!
# The copies of `TftpOtaServer`

`cur_ptr` stays behind `total_size` while a config is sent or loaded (`Bounded`), whatever the datagrams are.  The
copies into `ota_cfg_buffer` stay inside it as long as every block has a length of 0 to 512 (`run_inside_iff`).
-/
namespace Mstd.Tftp

open ByteMem (Ptr Buffer)

variable {φ : Type}

/-- A job that sends or loads a config. -/
def Job.isConfig (j : Job) : Prop := j = .loadCfg ∨ j = .loadFCfg ∨ j = .sendCfg ∨ j = .sendFCfg

/-- **`cur_ptr` is inside what the job sends or loads.** -/
structure Bounded (s : Ota φ) : Prop where
  size : s.setup.cfgSize ≤ MAX_CFG_SIZE
  ptr : s.job.isConfig → s.curPtr ≤ totalSize s

/-- The copy `memcpy(ota_cfg_buffer+cur_ptr, buffer, len)` of `on_write_data`, when it gets there: offset and length. -/
def writeCopy (len : Int) (s : Ota φ) : List (Nat × Nat) :=
  match s.job with
  | .loadCfg | .loadFCfg =>
    if (toSizeT len + s.curPtr) % SIZE_T ≤ MAX_CFG_SIZE then [(s.curPtr, toSizeT len)] else []
  | _ => []

/-- `err` of `on_close`. -/
def closeError (env : OtaEnv φ) (s : Ota φ) : Option String :=
  match s.job with
  | .loadFW =>
    if s.otaHandle = 0 then none
    else if (env.api.otaEnd s.otaHandle s.fw).1 then none
    else some "Fail img verification"
  | .loadCfg  => (saveConfigImage (env.fate s.saved.length) s.setup (s.cfgBuf.bytes.take s.curPtr)).err
  | .loadFCfg => (saveConfigFull (env.fate s.saved.length) s.setup (flashImage s.cfgBuf)).err
  | _         => none

/-- The copy of the error text into `ota_cfg_buffer`, with its terminator. -/
def closeCopy (env : OtaEnv φ) (s : Ota φ) : List (Nat × Nat) :=
  match closeError env s with
  | none   => []
  | some e => [(0, (ascii ("OTA Error:\n" ++ e) ++ [0]).length)]

theorem totalSize_le {s : Ota φ} (hsize : s.setup.cfgSize ≤ MAX_CFG_SIZE) (hjob : s.job.isConfig) :
    totalSize s ≤ MAX_CFG_SIZE := by
  rcases hjob with hj | hj | hj | hj <;> rw [totalSize, hj]
  exact hsize

theorem Bounded.le {s : Ota φ} (h : Bounded s) (hjob : s.job.isConfig) : s.curPtr ≤ MAX_CFG_SIZE :=
  Nat.le_trans (h.ptr hjob) (totalSize_le h.size hjob)

theorem totalSize_incCurPtr (k : Nat) (s : Ota φ) : totalSize (incCurPtr k s) = totalSize s := by
  obtain ⟨hsetup, -, hjob, -⟩ := incCurPtr_fields k s
  rw [totalSize, totalSize, hsetup, hjob]

theorem Bounded.of_fields {s t : Ota φ} (h : Bounded s) (hsize : t.setup.cfgSize = s.setup.cfgSize)
    (hjob : t.job = s.job) (hptr : t.curPtr = s.curPtr) : Bounded t := by
  refine ⟨hsize ▸ h.size, fun hj => ?_⟩
  rw [hptr, totalSize, hjob, hsize]
  exact h.ptr (hjob ▸ hj)

theorem Bounded.inc {s : Ota φ} (h : Bounded s) {k : Nat}
    (hk : s.job.isConfig → (s.curPtr + k) % SIZE_T ≤ totalSize s) : Bounded (incCurPtr k s) := by
  obtain ⟨hsetup, -, hjob, -, hptr⟩ := incCurPtr_fields k s
  refine ⟨by rw [hsetup]; exact h.size, fun hj => ?_⟩
  rw [hptr, totalSize_incCurPtr]
  exact hk (hjob ▸ hj)

theorem bounded_start {s : Ota φ} (hsize : s.setup.cfgSize ≤ MAX_CFG_SIZE) (hptr : s.curPtr = 0) : Bounded s :=
  ⟨hsize, fun _ => by rw [hptr]; exact Nat.zero_le _⟩

theorem onWrite_start (env : OtaEnv φ) (file : List UInt8) (s : Ota φ) :
    (onWrite env file s).2.setup = s.setup ∧ (onWrite env file s).2.curPtr = 0 := by
  have hfw : ∀ t : Ota φ, (beginFirmware env t).2.setup = t.setup ∧ (beginFirmware env t).2.curPtr = t.curPtr := by
    intro t
    unfold beginFirmware
    split
    · exact ⟨rfl, rfl⟩
    · split <;> exact ⟨rfl, rfl⟩
  unfold onWrite testFileName
  cases jobOfName file true with
  | loadFW => exact hfw _
  | loadFCfg => simp only; split <;> exact ⟨rfl, rfl⟩
  | _ => exact ⟨rfl, rfl⟩

theorem Bounded.writeData {env : OtaEnv φ} {s s' : Ota φ} (h : Bounded s) {buffer : List UInt8} {len ret : Int}
    (hw : onWriteData env buffer len s = some (ret, s')) : Bounded s' := by
  have hcfg : totalSize s = MAX_CFG_SIZE → writeCfg buffer len s = some (ret, s') → Bounded s' := by
    intro htotal hw
    unfold writeCfg at hw
    split at hw
    · rename_i hfit
      split at hw
      · cases hw
      · cases hw
        refine Bounded.inc (s := { s with cfgBuf := s.cfgBuf.put s.curPtr (buffer.take len.toNat) }) ⟨h.size, h.ptr⟩
          (fun _ => ?_)
        rw [Nat.add_comm]
        exact Nat.le_trans hfit (Nat.le_of_eq htotal.symm)
    · cases hw
      exact ⟨h.size, h.ptr⟩
  cases hjob : s.job with
  | loadCfg =>
    rw [onWriteData, hjob] at hw
    exact hcfg (by rw [totalSize, hjob]) hw
  | loadFCfg =>
    rw [onWriteData, hjob] at hw
    exact hcfg (by rw [totalSize, hjob]) hw
  | loadFW =>
    have hnot : ¬ s.job.isConfig := by rw [hjob]; rintro (h | h | h | h) <;> cases h
    rw [onWriteData, hjob] at hw
    simp only [writeFirmware] at hw
    split at hw
    · cases hw
      exact h
    · split at hw
      · cases hw
      · split at hw
        · rename_i fw _
          cases hw
          exact Bounded.inc (s := { s with fw := fw }) ⟨h.size, h.ptr⟩ (fun hj => absurd hj hnot)
        · cases hw
          exact ⟨h.size, h.ptr⟩
  | none | sendCfg | sendFCfg =>
    rw [onWriteData, hjob] at hw
    cases hw
    exact h

theorem Bounded.readFrom (env : OtaEnv φ) {s : Ota φ} (h : Bounded s) (hjob : s.job.isConfig) {base size : Nat}
    (hsize : totalSize s = size) :
    ∃ ret data s', Tftp.readFrom env base size (TFTP_DATA_SIZE - 4 : Nat) s = some (ret, data, s') ∧ Bounded s' := by
  have hp : s.curPtr ≤ size := hsize ▸ h.ptr hjob
  have hmax : size ≤ MAX_CFG_SIZE := hsize ▸ totalSize_le h.size hjob
  have hlen := length_blockAt (ByteMem.window (NorFlash.mem s.setup.cfgFull env.past) base size) s.curPtr
  rw [ByteMem.length_window] at hlen
  refine ⟨_, _, _, readFrom_block env hp hmax rfl, h.inc (fun _ => ?_)⟩
  unfold MAX_CFG_SIZE at hmax
  unfold toSizeT SIZE_T
  rw [hsize, hlen]
  omega

/-- **A read in a session brings something.** -/
theorem Bounded.readData (env : OtaEnv φ) {s : Ota φ} (h : Bounded s) :
    ∃ ret data s', onReadData env (TFTP_DATA_SIZE - 4 : Nat) s = some (ret, data, s') ∧ Bounded s' := by
  unfold onReadData
  cases hjob : s.job with
  | sendCfg =>
    simp only
    cases s.setup.config with
    | none => exact ⟨_, _, s, rfl, h⟩
    | some base => exact h.readFrom env (Or.inr (Or.inr (Or.inl hjob))) (by rw [totalSize, hjob])
  | sendFCfg =>
    simp only
    split
    · exact h.readFrom env (Or.inr (Or.inr (Or.inr hjob))) (by rw [totalSize, hjob])
    · exact ⟨_, _, s, rfl, h⟩
  | none | loadFW | loadCfg | loadFCfg => exact ⟨_, _, s, rfl, h⟩

theorem Bounded.close {env : OtaEnv φ} {s s' : Ota φ} (h : Bounded s) (hc : onClose env s = some s') : Bounded s' := by
  have hsaved : ∀ call : SaveCall, Bounded (afterSave (call.run (env.fate s.saved.length) s.setup) s) := by
    intro call
    have hsize := (ram_run (env.fate s.saved.length) s.setup call).2.1
    have hsetup := (afterSave_fields (call.run (env.fate s.saved.length) s.setup) s).1
    have hfields : (afterSave (call.run (env.fate s.saved.length) s.setup) s).job = s.job ∧
        (afterSave (call.run (env.fate s.saved.length) s.setup) s).curPtr = s.curPtr := by
      unfold afterSave reportError
      split <;> exact ⟨rfl, rfl⟩
    exact h.of_fields (by rw [hsetup, hsize]) hfields.1 hfields.2
  cases hjob : s.job with
  | loadFW =>
    rw [onClose, hjob] at hc
    simp only at hc
    split at hc
    · cases hc
      exact h
    · split at hc
      · cases hc
      · cases hc
        exact h.of_fields rfl hjob.symm rfl
  | loadCfg =>
    rw [onClose, hjob] at hc
    cases hc
    exact hsaved (.image _)
  | loadFCfg =>
    rw [onClose, hjob] at hc
    cases hc
    exact hsaved (.full _)
  | none | sendCfg | sendFCfg =>
    rw [onClose, hjob] at hc
    cases hc
    exact h

/-- **`TftpOtaServer` keeps `cur_ptr` inside**, whatever it is called with. -/
theorem bounded_keeps (env : OtaEnv φ) : (otaServer env).Keeps Bounded where
  onWrite file s h := by
    obtain ⟨hsetup, hptr⟩ := onWrite_start env file s
    exact bounded_start (hsetup ▸ h.size) hptr
  onRead file s h := by
    obtain ⟨hsetup, -, -, hptr, -⟩ := onRead_file env.past file s
    exact bounded_start (hsetup ▸ h.size) hptr
  onWriteData _ _ _ _ _ h hw := h.writeData hw
  onReadData s ret data s' h hr := by
    obtain ⟨ret', data', t, ht, hb⟩ := h.readData env
    have heq := ht.symm.trans hr
    cases heq
    exact hb
  onClose _ _ h hc := h.close hc
  onRestart s h _ := h.of_fields rfl rfl rfl

/-! ## The copies -/

/-- `on_write_data` makes this copy and no other. -/
theorem cfgBuf_onWriteData {env : OtaEnv φ} {s s' : Ota φ} {buffer : List UInt8} {len ret : Int}
    (hlen : 0 ≤ len ∧ len ≤ 512) (hw : onWriteData env buffer len s = some (ret, s')) :
    s'.cfgBuf = (writeCopy len s).foldl (fun buf c => buf.put c.1 (buffer.take c.2)) s.cfgBuf := by
  have hsize : toSizeT len = len.toNat := by unfold toSizeT SIZE_T; omega
  have hcfg : writeCfg buffer len s = some (ret, s') → s'.cfgBuf =
      (if (toSizeT len + s.curPtr) % SIZE_T ≤ MAX_CFG_SIZE then [(s.curPtr, toSizeT len)] else []).foldl
        (fun buf c => buf.put c.1 (buffer.take c.2)) s.cfgBuf := by
    intro hw
    unfold writeCfg at hw
    split at hw
    · rename_i hfit
      rw [if_neg (Int.not_lt.2 hlen.1)] at hw
      cases hw
      rw [if_pos hfit, (incCurPtr_fields _ _).2.2.2.1, List.foldl_cons, List.foldl_nil, hsize]
    · rename_i hfit
      cases hw
      rw [if_neg hfit]
      rfl
  cases hjob : s.job with
  | loadCfg | loadFCfg =>
    rw [onWriteData, hjob] at hw
    rw [writeCopy, hjob]
    exact hcfg hw
  | loadFW =>
    rw [writeCopy, hjob, List.foldl_nil]
    rw [onWriteData, hjob] at hw
    simp only [writeFirmware, Int.not_lt.2 hlen.1, if_false] at hw
    split at hw
    · cases hw
      rfl
    · split at hw
      · cases hw
        exact (incCurPtr_fields _ _).2.2.2.1
      · cases hw
        rfl
  | none | sendCfg | sendFCfg =>
    rw [onWriteData, hjob] at hw
    cases hw
    rw [writeCopy, hjob]
    rfl

/-- `on_close` reports this error and no other. -/
theorem onClose_reports {env : OtaEnv φ} {s t : Ota φ} (hc : onClose env s = some t) :
    ∃ u, t = reportError (closeError env s) u := by
  unfold onClose at hc
  unfold closeError
  cases hjob : s.job with
  | loadFW =>
    simp only [hjob] at hc
    by_cases hzero : s.otaHandle = 0
    · simp only [hzero, if_true] at hc ⊢
      exact ⟨t, rfl⟩
    · simp only [hzero, if_false] at hc ⊢
      rcases hend : env.api.otaEnd s.otaHandle s.fw with ⟨ok, fw⟩
      rw [hend] at hc
      cases ok with
      | true => cases hc
      | false =>
        cases hc
        exact ⟨_, rfl⟩
  | loadCfg | loadFCfg =>
    simp only [hjob] at hc
    cases hc
    exact ⟨_, rfl⟩
  | none | sendCfg | sendFCfg =>
    simp only [hjob] at hc
    cases hc
    exact ⟨s, rfl⟩

/-- A block of at most 512 bytes that `on_write_data` takes lies in `ota_cfg_buffer`. -/
theorem writeCopy_inside {s : Ota φ} (h : Bounded s) {len : Int} (hlen : 0 ≤ len ∧ len ≤ 512) :
    ∀ c ∈ writeCopy len s, c.1 + c.2 ≤ MAX_CFG_SIZE := by
  intro c hc
  unfold writeCopy at hc
  have hone : s.job.isConfig → c ∈ (if (toSizeT len + s.curPtr) % SIZE_T ≤ MAX_CFG_SIZE then [(s.curPtr, toSizeT len)]
      else []) → c.1 + c.2 ≤ MAX_CFG_SIZE := by
    intro hjob hc
    have hp := h.le hjob
    split at hc
    · rename_i hfit
      rw [List.mem_singleton.1 hc]
      unfold toSizeT SIZE_T MAX_CFG_SIZE at *
      simp only
      omega
    · cases hc
  cases hjob : s.job with
  | loadCfg =>
    rw [hjob] at hc
    exact hone (Or.inl hjob) hc
  | loadFCfg =>
    rw [hjob] at hc
    exact hone (Or.inr (Or.inl hjob)) hc
  | none | loadFW | sendCfg | sendFCfg =>
    rw [hjob] at hc
    cases hc

/-- An error text of at most 21 characters, if any. -/
def Short (err : Option String) : Prop := ∀ e, err = some e → e.toList.length ≤ 21

theorem short_none : Short none := fun _ h => by cases h

theorem short_some {text : String} (h : text.toList.length ≤ 21) : Short (some text) := fun e he => by
  cases he
  exact h

theorem short_checkImage (image : List UInt8) {e : String} (h : checkImage image = .error e) : Short (some e) := by
  unfold checkImage at h
  simp only at h
  repeat' split at h
  all_goals cases h
  all_goals exact short_some (by decide)

theorem short_writeImage (fate : Fate) (d : Setup) (image : List UInt8) (ops : List FlashOp) :
    Short (writeImage fate d image ops).err := by
  unfold writeImage
  split
  · exact short_some (by decide)
  · exact short_none

theorem short_saveConfigImage (fate : Fate) (d : Setup) (image : List UInt8) :
    Short (saveConfigImage fate d image).err := by
  unfold saveConfigImage
  split
  · exact short_some (by decide)
  · cases hc : checkImage image with
    | error e => exact short_checkImage image hc
    | ok image' =>
      show Short (storeImage fate d image').err
      unfold storeImage
      split
      · split
        · exact short_writeImage _ _ _ _
        · exact short_some (by decide)
      · exact short_writeImage _ _ _ _

theorem short_saveConfigFull (fate : Fate) (d : Setup) (image : Flash) : Short (saveConfigFull fate d image).err := by
  unfold saveConfigFull
  simp only
  split
  · exact short_some (by decide)
  · split
    · exact short_some (by decide)
    · split
      · exact short_some (by decide)
      · exact short_none

/-- **The error text that `on_close` copies is short.** -/
theorem short_closeError (env : OtaEnv φ) (s : Ota φ) : Short (closeError env s) := by
  unfold closeError
  cases s.job with
  | loadFW =>
    simp only
    split
    · exact short_none
    · split
      · exact short_none
      · exact short_some (by decide)
  | loadCfg => exact short_saveConfigImage _ _ _
  | loadFCfg => exact short_saveConfigFull _ _ _
  | none | sendCfg | sendFCfg => exact short_none

theorem closeCopy_inside (env : OtaEnv φ) (s : Ota φ) : ∀ c ∈ closeCopy env s, c.1 + c.2 ≤ MAX_CFG_SIZE := by
  intro c hc
  unfold closeCopy at hc
  cases he : closeError env s with
  | none =>
    rw [he] at hc
    cases hc
  | some e =>
    rw [he] at hc
    have hshort := short_closeError env s e he
    have hhead : "OTA Error:\n".toList.length = 11 := by decide
    rw [List.mem_singleton.1 hc]
    simp only [ascii, List.length_append, List.length_map, String.toList_append, hhead, List.length_singleton,
      MAX_CFG_SIZE]
    omega

/-! ## Runs -/

/-- **A step reads the datagram just received, and copies inside its buffers.** -/
structure Inside (env : OtaEnv φ) (s : Srv (Ota φ)) (e : Recv) : Prop where
  reads : ∀ i ∈ stepReads (otaServer env) s e, i < receivedLen e
  stale : ∀ b, Alike (step (otaServer env) s e) (step (otaServer env) { s with buffer := b } e)
  lens : ∀ len ∈ stepLens s e, 0 ≤ len ∧ len ≤ 512
  ptr : (step (otaServer env) s e).app.job.isConfig → (step (otaServer env) s e).app.curPtr ≤ MAX_CFG_SIZE
  copies : ∀ len ∈ stepLens s e, ∀ c ∈ writeCopy len s.app, c.1 + c.2 ≤ MAX_CFG_SIZE
  errors : ∀ t, ∀ c ∈ closeCopy env t, c.1 + c.2 ≤ MAX_CFG_SIZE

theorem otaServer_readsLen (env : OtaEnv φ) : (otaServer env).ReadsLen := by
  intro buffer buffer' len s h
  show onWriteData env buffer len s = onWriteData env buffer' len s
  unfold onWriteData writeCfg writeFirmware
  rw [h]

theorem step_inside_iff (env : OtaEnv φ) {s : Srv (Ota φ)} (h : Bounded s.app) (e : Recv) :
    Inside env s e ↔ WellFormed (otaServer env) s e := by
  refine ⟨fun hin => (stepReads_inside_iff _ s e).1 hin.reads, fun hwf => ?_⟩
  exact
    { reads := (stepReads_inside_iff _ s e).2 hwf
      stale := fun b => step_stale _ (otaServer_readsLen env) ⟨b, s.out, rfl⟩ hwf
      lens := hwf.lens
      ptr := ((bounded_keeps env).step h e).le
      copies := fun len hlen => writeCopy_inside h (hwf.lens len hlen)
      errors := closeCopy_inside env }

/-- The server as it starts, with `s` for what it does not set. -/
def started (past : Ptr) (F : Flash) (s : Srv (Ota φ)) : Srv (Ota φ) :=
  { s with mode := .idle, app := { s.app with setup := reload past F, job := .none } }

theorem started_bounded (past : Ptr) (F : Flash) (s : Srv (Ota φ)) : Bounded (started past F s).app :=
  ⟨reload_fits past F, fun h => by rcases h with h | h | h | h <;> cases h⟩

/-- **`cur_ptr` stays inside in every run**, whatever the datagrams are. -/
theorem bounded_run (env : OtaEnv φ) (F : Flash) (s : Srv (Ota φ)) (es : List Recv) :
    Bounded (run (otaServer env) (started env.past F s) es).app :=
  run_keeps (I := fun s => Bounded s.app) (fun _ e h => (bounded_keeps env).step h e) (started_bounded env.past F s) es

/-- **When a server reads the datagrams alone**: in a run every step does exactly when the datagrams are well-formed
where they come. -/
theorem run_inside_iff (env : OtaEnv φ) (F : Flash) (s : Srv (Ota φ)) (es : List Recv) :
    Throughout (Inside env) (otaServer env) (started env.past F s) es ↔
      Throughout (WellFormed (otaServer env)) (otaServer env) (started env.past F s) es :=
  throughout_congr (I := fun s => Bounded s.app) (fun _ e h => (bounded_keeps env).step h e)
    (fun _ e h => step_inside_iff env h e) (started_bounded env.past F s) es

/-- A WRQ and a DATA packet with 512 bytes. -/
def fillEvents : List Recv :=
  [.packet 1 (xrqPacket TFTP_CMD_WRQ cfgName), .packet 1 (dataBytes 5 (List.replicate 512 0))]

/-- A device with an erased partition, behind them. -/
def filledServer : Srv (Ota Unit) :=
  run (otaServer stockEnv) (started stockEnv.past NorFlash.erased (stockServer loadedStore [])) fillEvents

/-- A DATA packet cut behind the first byte of its number: the packet before completes it. -/
theorem filledServer_runt : stepLens filledServer (.packet 1 [0, 3, 0]) = [-1] := by decide +kernel

/-- `on_write_data` is called with the length -1, and would copy 4 GiB to `ota_cfg_buffer + 512`. -/
theorem runt_not_inside :
    ¬ ∀ (env : OtaEnv Unit) (F : Flash) (s : Srv (Ota Unit)) (es : List Recv),
      Throughout (Inside env) (otaServer env) (started env.past F s) es := by
  intro h
  have hrun := h stockEnv NorFlash.erased (stockServer loadedStore []) (fillEvents ++ [.packet 1 [0, 3, 0]])
  have hin : Inside stockEnv filledServer (.packet 1 [0, 3, 0]) := ((throughout_append _ _ _ _ _).1 hrun).2.1
  have hlens := hin.lens
  rw [filledServer_runt] at hlens
  exact absurd (hlens (-1) (List.mem_singleton.2 rfl)).1 (by decide)

end Mstd.Tftp
