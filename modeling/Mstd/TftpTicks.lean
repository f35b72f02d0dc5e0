import Mstd.TftpBounds
/-!
# The progress ticks of a session (`inc_cur_ptr`)

The ticks of the blocks of a session telescope while `cur_ptr * TOTAL_PI` fits in 32 bits.  Configs stay below that; a
firmware upload passes it at 2 MiB, and is a tick behind from there on (`ticks_iff`).
-/
namespace Mstd.Tftp

variable {φ : Type}

/-- `inc_cur_ptr` on the lengths of the blocks of a session. -/
def incCurPtrs (ks : List Nat) (s : Ota φ) : Ota φ := ks.foldl (fun s k => incCurPtr k s) s

/-- What a block changes while `cur_ptr` does not overflow. -/
theorem incCurPtr_eq {k : Nat} {s : Ota φ} (htotal : totalSize s ≠ 0) (hfit : s.curPtr + k < SIZE_T) :
    totalSize (incCurPtr k s) = totalSize s ∧ (incCurPtr k s).curPtr = s.curPtr + k ∧
      (incCurPtr k s).ticks =
        s.ticks + (piAt (s.curPtr + k) (totalSize s) - piAt s.curPtr (totalSize s)) := by
  refine ⟨totalSize_incCurPtr k s, ?_, ?_⟩
  · rw [(incCurPtr_fields k s).2.2.2.2, Nat.mod_eq_of_lt hfit]
  · rw [incCurPtr, if_neg htotal, Nat.mod_eq_of_lt hfit]

/-- **A relation between `cur_ptr` and the ticks that each block keeps** holds behind all of them. -/
theorem incCurPtrs_keeps {I : Nat → Nat → Prop} {size bound : Nat} (hsize : size ≠ 0) (hbound : bound < SIZE_T)
    (hstep : ∀ ptr k ticks, ptr + k ≤ bound → I ptr ticks → I (ptr + k) (ticks + (piAt (ptr + k) size - piAt ptr size))) :
    ∀ (ks : List Nat) (s : Ota φ), totalSize s = size → s.curPtr + ks.sum ≤ bound → I s.curPtr s.ticks →
      (incCurPtrs ks s).curPtr = s.curPtr + ks.sum ∧ I (s.curPtr + ks.sum) (incCurPtrs ks s).ticks
  | [], s, _, _, hI           => ⟨rfl, hI⟩
  | k :: ks, s, hs, hsum, hI => by
    rw [List.sum_cons, ← Nat.add_assoc] at hsum
    obtain ⟨htotal, hptr, hticks⟩ := incCurPtr_eq (k := k) (s := s) (hs ▸ hsize) (by omega)
    have ih := incCurPtrs_keeps hsize hbound hstep ks (incCurPtr k s) (htotal.trans hs) (by rw [hptr]; exact hsum) (by
      rw [hptr, hticks, hs]
      exact hstep _ _ _ (by omega) hI)
    rw [hptr, Nat.add_assoc, ← List.sum_cons] at ih
    exact ih

theorem piAt_eq {ptr size : Nat} (h : ptr * TOTAL_PI < SIZE_T) : piAt ptr size = ptr * TOTAL_PI / size := by
  rw [piAt, Nat.mod_eq_of_lt h]

theorem ticks_exact {size bound : Nat} (hbound : bound * TOTAL_PI < SIZE_T) {ptr k ticks : Nat} (hle : ptr + k ≤ bound)
    (h : ticks = ptr * TOTAL_PI / size) :
    ticks + (piAt (ptr + k) size - piAt ptr size) = (ptr + k) * TOTAL_PI / size := by
  have hmono : ptr * TOTAL_PI ≤ (ptr + k) * TOTAL_PI := Nat.mul_le_mul_right _ (Nat.le_add_right ptr k)
  have hfit : (ptr + k) * TOTAL_PI < SIZE_T := Nat.lt_of_le_of_lt (Nat.mul_le_mul_right _ hle) hbound
  rw [piAt_eq hfit, piAt_eq (Nat.lt_of_le_of_lt hmono hfit), h]
  exact Nat.add_sub_cancel' (Nat.div_le_div_right hmono)

/-- **The ticks of a firmware upload**: exact up to 2 MiB, and too few from there on. -/
def FwTicks (ptr ticks : Nat) : Prop :=
  if ptr < 2 ^ 21 then ticks = ptr / 2048 else ticks < ptr / 2048

theorem FwTicks.step {ptr k ticks : Nat} (hle : ptr + k ≤ 3 * 1024 * 1024) (h : FwTicks ptr ticks) :
    FwTicks (ptr + k) (ticks + (piAt (ptr + k) (1024 * 1024 * 4) - piAt ptr (1024 * 1024 * 4))) := by
  unfold FwTicks piAt TOTAL_PI SIZE_T at *
  split at h
  · split <;> omega
  · rw [if_neg (by omega)]
    omega

/-- A request opens a session. -/
def Opens (env : OtaEnv φ) (file : List UInt8) (s o : Ota φ) : Prop :=
  onWrite env file s = (0, o) ∨ onRead file s = (0, o)

theorem beginFirmware_ticks {env : OtaEnv φ} {s o : Ota φ} (h : beginFirmware env s = (0, o)) : o.ticks = 0 := by
  unfold beginFirmware at h
  split at h
  · cases h
  · split at h
    · cases h
    · cases h
      rfl

theorem onWrite_ticks {env : OtaEnv φ} {file : List UInt8} {s o : Ota φ} (h : onWrite env file s = (0, o)) :
    o.ticks = 0 := by
  unfold onWrite testFileName at h
  cases hjob : jobOfName file true with
  | loadFW =>
    simp only [hjob] at h
    exact beginFirmware_ticks h
  | loadFCfg =>
    simp only [hjob] at h
    split at h
    · cases h
      rfl
    · cases h
  | none | loadCfg | sendCfg | sendFCfg =>
    simp only [hjob] at h
    cases h <;> rfl

theorem onRead_ticks {file : List UInt8} {s o : Ota φ} (h : onRead file s = (0, o)) : o.ticks = 0 := by
  unfold onRead testFileName at h
  cases hjob : jobOfName file false with
  | sendCfg | sendFCfg =>
    simp only [hjob] at h
    split at h <;> cases h
    rfl
  | none | loadFW | loadCfg | loadFCfg =>
    simp only [hjob] at h
    cases h

/-- **A session starts with the pointer at 0 and an empty bar.** -/
theorem opens_start {env : OtaEnv φ} {file : List UInt8} {s o : Ota φ} (h : Opens env file s o) :
    o.setup = s.setup ∧ o.curPtr = 0 ∧ o.ticks = 0 := by
  rcases h with h | h
  · obtain ⟨hsetup, hptr⟩ := onWrite_start env file s
    rw [h] at hsetup hptr
    exact ⟨hsetup, hptr, onWrite_ticks h⟩
  · obtain ⟨hsetup, -, -, hptr, -⟩ := onRead_file env.past file s
    rw [h] at hsetup hptr
    exact ⟨hsetup, hptr, onRead_ticks h⟩

theorem size_of_config {o : Ota φ} (hsize : o.setup.cfgSize ≤ MAX_CFG_SIZE) (hjob : o.job ≠ .loadFW) :
    totalSize o ≤ MAX_CFG_SIZE := by
  unfold totalSize
  cases hj : o.job with
  | loadFW => exact absurd hj hjob
  | sendCfg => exact hsize
  | loadCfg | loadFCfg | sendFCfg => exact Nat.le_refl _
  | none => exact Nat.zero_le _

/-- The firmware upload: its ticks are those of its pointer exactly below 2 MiB. -/
theorem firmware_ticks {o : Ota φ} (hjob : o.job = .loadFW) (hptr : o.curPtr = 0) (hticks : o.ticks = 0) {ks : List Nat}
    (hsum : ks.sum ≤ 3 * 1024 * 1024) :
    (incCurPtrs ks o).curPtr = ks.sum ∧
      ((incCurPtrs ks o).ticks = ks.sum * TOTAL_PI / totalSize o ↔ ks.sum < 2 ^ 21) := by
  have htotal : totalSize o = 1024 * 1024 * 4 := by rw [totalSize, hjob]
  obtain ⟨hend, hfw⟩ := incCurPtrs_keeps (I := FwTicks) (by decide) (by decide) (fun _ _ _ => FwTicks.step) ks o htotal
    (by rw [hptr, Nat.zero_add]; exact hsum) (by rw [hptr, hticks]; rfl)
  rw [hptr, Nat.zero_add] at hend hfw
  refine ⟨hend, ?_⟩
  have hdiv : ks.sum * TOTAL_PI / totalSize o = ks.sum / 2048 := by
    rw [htotal]
    unfold TOTAL_PI
    omega
  rw [hdiv]
  unfold FwTicks at hfw
  split at hfw
  · rename_i hlow
    exact iff_of_true hfw hlow
  · rename_i hhigh
    exact iff_of_false (Nat.ne_of_lt hfw) hhigh

/-- A config's ticks are always exact. -/
theorem config_ticks {o : Ota φ} (hsize : totalSize o ≤ MAX_CFG_SIZE) (htotal : totalSize o ≠ 0) (hptr : o.curPtr = 0)
    (hticks : o.ticks = 0) {ks : List Nat} (hsum : ks.sum ≤ totalSize o) :
    (incCurPtrs ks o).curPtr = ks.sum ∧ (incCurPtrs ks o).ticks = ks.sum * TOTAL_PI / totalSize o := by
  have hfit : totalSize o * TOTAL_PI < SIZE_T :=
    Nat.lt_of_le_of_lt (Nat.mul_le_mul_right _ hsize) (by decide)
  have hbound : totalSize o < SIZE_T := Nat.lt_of_le_of_lt hsize (by decide)
  have hrun := incCurPtrs_keeps (I := fun ptr ticks => ticks = ptr * TOTAL_PI / totalSize o) htotal hbound
    (fun _ _ _ => ticks_exact hfit) ks o rfl (by rw [hptr, Nat.zero_add]; exact hsum)
    (by rw [hptr, hticks, Nat.zero_mul, Nat.zero_div])
  rwa [hptr, Nat.zero_add] at hrun

/-- **When the ticks of a session add up**: of any session that a server opens in any run, always for a config, and for
firmware as long as less than 2 MiB have come. -/
theorem ticks_iff (env : OtaEnv φ) (F : Flash) (s : Srv (Ota φ)) (es : List Recv) {file : List UInt8} {o : Ota φ}
    (hopen : Opens env file (run (otaServer env) (started env.past F s) es).app o) (htotal : totalSize o ≠ 0)
    {ks : List Nat} (hsum : ks.sum ≤ totalSize o) (hfw : o.job = .loadFW → ks.sum ≤ 3 * 1024 * 1024) :
    (incCurPtrs ks o).curPtr = ks.sum ∧
      ((incCurPtrs ks o).ticks = ks.sum * TOTAL_PI / totalSize o ↔ o.job = .loadFW → ks.sum < 2 ^ 21) := by
  obtain ⟨hsetup, hptr, hticks⟩ := opens_start hopen
  by_cases hjob : o.job = .loadFW
  · obtain ⟨hend, hiff⟩ := firmware_ticks hjob hptr hticks (hfw hjob)
    exact ⟨hend, hiff.trans ⟨fun h _ => h, fun h => h hjob⟩⟩
  · have hsize : o.setup.cfgSize ≤ MAX_CFG_SIZE := hsetup ▸ (bounded_run env F s es).size
    obtain ⟨hend, heq⟩ := config_ticks (size_of_config hsize hjob) htotal hptr hticks hsum
    exact ⟨hend, iff_of_true heq (fun h => absurd h hjob)⟩

/-- A device with a partition for new firmware. -/
def plainOta : OtaApi Unit where
  nextPartition := fun _ => some 0
  otaBegin := fun _ fw => (some 1, fw)
  otaWrite := fun _ _ fw => (true, fw)
  otaEnd := fun _ fw => (true, fw)
  setBoot := fun _ fw => fw

def plainEnv : OtaEnv Unit := ⟨fun _ => 0, fun _ => .working, plainOta⟩

/-- The session of a firmware upload, on a device with an erased partition. -/
def firmwareSession : Ota Unit :=
  (onWrite plainEnv (ascii "fw.bin") (started plainEnv.past NorFlash.erased (stockServer loadedStore [])).app).2

theorem fwName_job : jobOfName (ascii "fw.bin") true = .loadFW := by decide

theorem firmwareSession_opens : onWrite plainEnv (ascii "fw.bin")
    (run (otaServer plainEnv) (started plainEnv.past NorFlash.erased (stockServer loadedStore [])) []).app =
      (0, firmwareSession) := by
  simp only [firmwareSession, run, onWrite, testFileName, fwName_job]
  rfl

theorem firmwareSession_job : firmwareSession.job = .loadFW := by
  simp only [firmwareSession, onWrite, testFileName, fwName_job]
  rfl

/-- The first megabyte of firmware, in blocks. -/
theorem ticks_iff_megabyte :
    (incCurPtrs (List.replicate 2048 512) firmwareSession).ticks = 2048 * 512 * TOTAL_PI / totalSize firmwareSession := by
  have htotal : totalSize firmwareSession = 1024 * 1024 * 4 := by rw [totalSize, firmwareSession_job]
  have hsum : (List.replicate 2048 512).sum = 2048 * 512 := List.sum_replicate_nat
  have hle : (List.replicate 2048 512).sum ≤ totalSize firmwareSession := by
    rw [hsum, htotal]
    decide
  have hticks := (ticks_iff plainEnv NorFlash.erased (stockServer loadedStore []) [] (.inl firmwareSession_opens)
    (by rw [htotal]; decide) hle (fun _ => by rw [hsum]; decide)).2
  rw [hsum] at hticks
  exact hticks.2 (fun _ => by decide)

/-- 2 MiB of firmware. -/
theorem ticks_lost : (incCurPtrs (List.replicate 4096 512) firmwareSession).curPtr = 2 ^ 21 ∧
    (incCurPtrs (List.replicate 4096 512) firmwareSession).ticks ≠ 2 ^ 21 * TOTAL_PI / totalSize firmwareSession := by
  obtain ⟨-, hptr, hticks⟩ := opens_start (.inl firmwareSession_opens)
  have hsum : (List.replicate 4096 512).sum = 2 ^ 21 := List.sum_replicate_nat
  have hle : (List.replicate 4096 512).sum ≤ 3 * 1024 * 1024 := by
    rw [hsum]
    decide
  obtain ⟨hend, hiff⟩ := firmware_ticks firmwareSession_job hptr hticks hle
  rw [hsum] at hend hiff
  exact ⟨hend, fun h => absurd (hiff.1 h) (by decide)⟩

end Mstd.Tftp
