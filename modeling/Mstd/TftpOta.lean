import Mstd.SetupData
import Mstd.Tftp
/-!
# The update server (`tftp_ota_server.cpp`)

`TftpOtaServer` as a `Handler` over its members, `ota_cfg_buffer` and the statics of `setup_data.cpp`.  The functions
`esp_ota_*` are a parameter, `OtaApi`, over a state of their own.  `size_t` has 32 bits.  `saved` is a history variable,
the results of the saves in order; `fate` numbers the flash's answers by it.
-/
namespace Mstd.Tftp

open ByteMem (Ptr Buffer window)

def TOTAL_PI : Nat := 2048

/-- The range of `size_t`. -/
def SIZE_T : Nat := 2 ^ 32

inductive Job where
  | none
  | loadFW
  | loadCfg
  | loadFCfg
  | sendCfg
  | sendFCfg
  deriving DecidableEq

/-- `esp_ota_get_next_update_partition`, `esp_ota_begin` (a handle on `ESP_OK`), `esp_ota_write` and `esp_ota_end`
(whether they return `ESP_OK`), `esp_ota_set_boot_partition`. -/
structure OtaApi (φ : Type) where
  nextPartition : φ → Option Nat
  otaBegin : Nat → φ → Option Nat × φ
  otaWrite : Nat → List UInt8 → φ → Bool × φ
  otaEnd : Nat → φ → Bool × φ
  setBoot : Option Nat → φ → φ

/-- What the server runs on: the RAM behind `cfg_full`, the flash's answers to the saves, the OTA functions. -/
structure OtaEnv (φ : Type) where
  past : Ptr
  fate : Nat → Fate
  api : OtaApi φ

structure Ota (φ : Type) where
  setup : Setup
  job : Job
  curPtr : Nat
  cfgBuf : Buffer MAX_CFG_SIZE
  otaHandle : Nat
  nextPartition : Option Nat
  ticks : Nat
  msgs : List String
  fw : φ
  saved : List Saved

variable {φ : Type}

/-- The driver calls on the config partition so far. -/
def Ota.flashOps (s : Ota φ) : List FlashOp := s.saved.flatMap Saved.ops

def Ota.msg (s : Ota φ) (text : String) : Ota φ := { s with msgs := s.msgs ++ [text] }

/-- `oled.start_pi`. -/
def Ota.startPi (s : Ota φ) : Ota φ := { s with ticks := 0 }

/-! ## File names -/

/-- The end of `s` from the last `c` on. -/
def strrchr (c : UInt8) : List UInt8 → Option (List UInt8)
  | []      => .none
  | b :: bs => (strrchr c bs).or (if b = c then some (b :: bs) else .none)

def jobOfName (fname : List UInt8) (isWrite : Bool) : Job :=
  if fname = ascii "full.cfg" then (if isWrite then .loadFCfg else .sendFCfg)
  else
    match strrchr 0x2E fname with
    | .none => .none
    | some p =>
      if p = ascii ".bin" then (if isWrite then .loadFW else .none)
      else if p = ascii ".cfg" then (if isWrite then .loadCfg else .sendCfg)
      else .none

/-- `job = test_file_name(fname, is_write)`. -/
def testFileName (fname : List UInt8) (isWrite : Bool) (s : Ota φ) : Ota φ :=
  { s with curPtr := 0, job := jobOfName fname isWrite }

/-! ## Requests -/

/-- The firmware branch of `on_write`. -/
def beginFirmware (env : OtaEnv φ) (s : Ota φ) : Int × Ota φ :=
  match env.api.nextPartition s.fw with
  | .none => (-1, { s with nextPartition := .none }.msg "OTA Error:\nFail to prep part")
  | some part =>
    match env.api.otaBegin part s.fw with
    | (.none, fw) => (-1, { s with nextPartition := some part, fw := fw }.msg "OTA Error:\nFail to start part wr")
    | (some handle, fw) =>
      (0, ({ s with nextPartition := some part, fw := fw, otaHandle := handle }.msg "Loading firmware").startPi)

def onWrite (env : OtaEnv φ) (file : List UInt8) (s : Ota φ) : Int × Ota φ :=
  let s := { testFileName file true s with cfgBuf := Buffer.fill MAX_CFG_SIZE 0xFF }
  match s.job with
  | .none     => (-1, s.msg "OTA Error:\nWrong file name")
  | .loadFW   => beginFirmware env s
  | .loadCfg  => (0, (s.msg "Loading config").startPi)
  | .loadFCfg =>
    if s.setup.cfgFullLoaded then (0, (s.msg "Loading cfg partition").startPi)
    else (-1, s.msg "OTA Error:\nNo cfg part to send")
  | _         => (-1, s)

def onRead (file : List UInt8) (s : Ota φ) : Int × Ota φ :=
  let s := testFileName file false s
  match s.job with
  | .none     => (-1, s.msg "OTA Error:\nWrong file name")
  | .sendCfg  =>
    if s.setup.config.isNone then (-1, s.msg "OTA Error:\nNo config to send")
    else (0, (s.msg "Sending config").startPi)
  | .sendFCfg =>
    if s.setup.cfgFullLoaded then (0, (s.msg "Sending cfg partition").startPi)
    else (-1, s.msg "OTA Error:\nNo cfg part to send")
  | _         => (-1, s)

/-! ## Data -/

/-- `total_size` of `inc_cur_ptr`. -/
def totalSize (s : Ota φ) : Nat :=
  match s.job with
  | .loadFW                          => 1024 * 1024 * 4
  | .loadCfg | .loadFCfg | .sendFCfg => MAX_CFG_SIZE
  | .sendCfg                         => s.setup.cfgSize
  | .none                            => 0

/-- `cur_ptr * TOTAL_PI / total_size`. -/
def piAt (curPtr total : Nat) : Nat := curPtr * TOTAL_PI % SIZE_T / total

def incCurPtr (increment : Nat) (s : Ota φ) : Ota φ :=
  let after := (s.curPtr + increment) % SIZE_T
  if totalSize s = 0 then { s with curPtr := after }
  else { s with curPtr := after, ticks := s.ticks + (piAt after (totalSize s) - piAt s.curPtr (totalSize s)) }

theorem incCurPtr_fields (k : Nat) (s : Ota φ) :
    (incCurPtr k s).setup = s.setup ∧ (incCurPtr k s).saved = s.saved ∧ (incCurPtr k s).job = s.job ∧
      (incCurPtr k s).cfgBuf = s.cfgBuf ∧ (incCurPtr k s).curPtr = (s.curPtr + k) % SIZE_T := by
  unfold incCurPtr
  split <;> exact ⟨rfl, rfl, rfl, rfl, rfl⟩

/-- An `int` converted to `size_t`. -/
def toSizeT (len : Int) : Nat := (len % SIZE_T).toNat

/-- The config branch of `on_write_data`: a negative `len` that passes the check is a copy outside both arrays. -/
def writeCfg (buffer : List UInt8) (len : Int) (s : Ota φ) : Option (Int × Ota φ) :=
  if (toSizeT len + s.curPtr) % SIZE_T ≤ MAX_CFG_SIZE then
    if len < 0 then .none
    else
      some (len, incCurPtr (toSizeT len) { s with cfgBuf := s.cfgBuf.put s.curPtr (buffer.take len.toNat) })
  else some (-1, s.msg "OTA Error:\nCfg buffer overflow")

/-- The firmware branch of `on_write_data`.  `esp_ota_write` takes the length as a `size_t` and reads as many bytes: what a
negative one does is not defined. -/
def writeFirmware (env : OtaEnv φ) (buffer : List UInt8) (len : Int) (s : Ota φ) : Option (Int × Ota φ) :=
  if s.otaHandle = 0 then some (-1, s)
  else if len < 0 then .none
  else
    match env.api.otaWrite s.otaHandle (buffer.take len.toNat) s.fw with
    | (true, fw)  => some (len, incCurPtr (toSizeT len) { s with fw := fw })
    | (false, fw) => some (-1, { s with fw := fw }.msg "OTA Error:\nFail to write to part")

def onWriteData (env : OtaEnv φ) (buffer : List UInt8) (len : Int) (s : Ota φ) : Option (Int × Ota φ) :=
  match s.job with
  | .loadFW              => writeFirmware env buffer len s
  | .loadCfg | .loadFCfg => writeCfg buffer len s
  | _                    => some (-1, s)

theorem onWriteData_ne_none (env : OtaEnv φ) (buffer : List UInt8) (len : Int) (s : Ota φ) (hlen : 0 ≤ len) :
    onWriteData env buffer len s ≠ none := by
  have hneg : ¬ len < 0 := Int.not_lt.2 hlen
  unfold onWriteData
  cases s.job with
  | loadCfg | loadFCfg =>
    simp only [writeCfg, hneg, if_false]
    split <;> exact Option.some_ne_none _
  | loadFW =>
    simp only [writeFirmware, hneg, if_false]
    split
    · exact Option.some_ne_none _
    · split <;> exact Option.some_ne_none _
  | none | sendCfg | sendFCfg => exact Option.some_ne_none _

/-- `int rest = size - cur_ptr` and the copy of at most `rest` bytes behind `base + cur_ptr`. -/
def readFrom (env : OtaEnv φ) (base size : Nat) (len : Int) (s : Ota φ) : Option (Int × List UInt8 × Ota φ) :=
  let rest := (BitVec.ofNat 32 size - BitVec.ofNat 32 s.curPtr).toInt
  let len := if len > rest then rest else len
  if len < 0 then .none
  else
    some (len, window (NorFlash.mem s.setup.cfgFull env.past) (base + s.curPtr) len.toNat, incCurPtr (toSizeT len) s)

def onReadData (env : OtaEnv φ) (len : Int) (s : Ota φ) : Option (Int × List UInt8 × Ota φ) :=
  match s.job with
  | .sendCfg =>
    match s.setup.config with
    | .none     => some (-1, [], s)
    | some base => readFrom env base s.setup.cfgSize len s
  | .sendFCfg => if s.setup.cfgFullLoaded then readFrom env 0 MAX_CFG_SIZE len s else some (-1, [], s)
  | _         => some (-1, [], s)

/-! ## The end of a transfer -/

/-- `err`, when there is one, goes to the display by way of `ota_cfg_buffer`. -/
def reportError (err : Option String) (s : Ota φ) : Ota φ :=
  match err with
  | .none   => s
  | some e => { s with cfgBuf := s.cfgBuf.put 0 (ascii ("OTA Error:\n" ++ e) ++ [0]) }.msg ("OTA Error:\n" ++ e)

/-- The image in `ota_cfg_buffer` after a save went through it. -/
def afterSave (r : Saved) (s : Ota φ) : Ota φ :=
  reportError r.err { s with setup := r.dev, cfgBuf := s.cfgBuf.put 0 r.image, saved := s.saved ++ [r] }

/-- `ota_cfg_buffer` as `save_config_full` takes it. -/
def flashImage (b : Buffer MAX_CFG_SIZE) : Flash := fun i => b.bytes.get (i.cast b.size.symm)

/-- A firmware update that verifies ends in a reboot. -/
def onClose (env : OtaEnv φ) (s : Ota φ) : Option (Ota φ) :=
  match s.job with
  | .loadFW =>
    if s.otaHandle = 0 then some s
    else
      match env.api.otaEnd s.otaHandle s.fw with
      | (true, _)   => .none
      | (false, fw) => some (reportError (some "Fail img verification") { s with fw := fw })
  | .loadCfg =>
    some (afterSave (saveConfigImage (env.fate s.saved.length) s.setup (s.cfgBuf.bytes.take s.curPtr)) s)
  | .loadFCfg => some (afterSave (saveConfigFull (env.fate s.saved.length) s.setup (flashImage s.cfgBuf)) s)
  | _         => some s

/-- `on_close` does not return exactly when a firmware update verifies. -/
theorem onClose_none_iff (env : OtaEnv φ) (s : Ota φ) :
    onClose env s = none ↔ s.job = .loadFW ∧ s.otaHandle ≠ 0 ∧ (env.api.otaEnd s.otaHandle s.fw).1 = true := by
  unfold onClose
  cases s.job with
  | loadFW =>
    simp only [true_and]
    by_cases hzero : s.otaHandle = 0
    · rw [if_pos hzero]
      exact ⟨fun h => (by cases h), fun h => absurd hzero h.1⟩
    · rw [if_neg hzero]
      rcases env.api.otaEnd s.otaHandle s.fw with ⟨ok, fw⟩
      cases ok with
      | true => exact ⟨fun _ => ⟨hzero, rfl⟩, fun _ => rfl⟩
      | false => exact ⟨fun h => (by cases h), fun h => by cases h.2⟩
  | none | loadCfg | loadFCfg | sendCfg | sendFCfg => exact ⟨fun h => (by cases h), fun h => by cases h.1⟩

/-- `on_close` behind an `esp_ota_end` that accepts the image, up to `reboot`. -/
def onRestart (env : OtaEnv φ) (s : Ota φ) : Ota φ :=
  let fw := (env.api.otaEnd s.otaHandle s.fw).2
  { s with fw := env.api.setBoot s.nextPartition fw, otaHandle := 0 }.msg "Update successful\nReboot in 5 second"

def otaServer (env : OtaEnv φ) : Handler (Ota φ) where
  onWrite := onWrite env
  onRead := onRead
  onWriteData := onWriteData env
  onReadData := onReadData env
  onClose := onClose env
  onRestart := onRestart env

end Mstd.Tftp
