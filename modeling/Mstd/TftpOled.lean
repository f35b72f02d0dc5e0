import Mstd.OledScreen
import Mstd.TftpProject
import Mstd.TftpTicks
import Mstd.TftpTurns
/-!
# What the update server shows (`hardware.h`, `tftp_ota_server.cpp`)

The server with the display on its bus: a method draws its message, then starts the bar or moves it.  In every run the
screen is what its `View` says (`shown_run`): the text of `app_main` at the top, until a transfer of a config has brought
its bar to the end and with it cleared the screen, and below it the first line of the last message.
-/
namespace Mstd.Tftp

open ByteMem (Ptr Buffer)
open Oled (SSD1306 Display Cell PrintableText lines lineBytes screen clearedAt Bar)

variable {φ : Type}

def OLED_AP_ROW : Nat := 0

def OLED_MSG_ROW : Nat := 5

def OLED_MSG_PI : Nat := 6

/-- `oled.draw_text`. -/
def drawOled (row : Nat) (text : String) (o : SSD1306) : Option SSD1306 :=
  (Oled.drawText row (ascii text) o.display).map (fun d => { o with display := d })

/-- `msg`, for each text. -/
def msgsOled (texts : List String) (o : SSD1306) : Option SSD1306 :=
  texts.foldlM (fun o text => drawOled OLED_MSG_ROW text o) o

/-- What is to be read on the screen: whether the text at the top is there, and the line in the row of the messages. -/
structure View where
  top : Bool
  status : List UInt8

def firstLine (text : String) : List UInt8 := (lines (ascii text)).headD []

/-- A transfer of a config has brought all of its bytes. -/
def Full (s : Ota φ) : Prop := s.job.isConfig ∧ s.curPtr = totalSize s ∧ totalSize s ≠ 0

instance (j : Job) : Decidable j.isConfig := inferInstanceAs (Decidable (_ ∨ _ ∨ _ ∨ _))

instance (s : Ota φ) : Decidable (Full s) := inferInstanceAs (Decidable (_ ∧ _ ∧ _))

/-- The view behind a method that takes `s` to `t`. -/
def View.after (v : View) (s t : Ota φ) : View :=
  let v := (t.msgs.drop s.msgs.length).foldl (fun v text => { v with status := firstLine text }) v
  if Full t ∧ ¬ Full s then { top := false, status := [] } else v

/-- The server with its display; there is none when a glyph is read outside the font.  `view` is a history variable. -/
structure Shown (φ : Type) where
  ota : Ota φ
  oled : Option SSD1306
  view : View

/-- A method took the server to `t`: its messages are drawn, then the bar is started, or moved by its ticks. -/
def Shown.call (s : Shown φ) (t : Ota φ) (starts : Bool) : Shown φ where
  ota := t
  oled := (s.oled.bind (msgsOled (t.msgs.drop s.ota.msgs.length))).bind (fun o =>
    if starts then Oled.startPi OLED_MSG_PI o else Oled.ticks (t.ticks - s.ota.ticks) o)
  view := s.view.after s.ota t

/-- `TftpOtaServer` with the display: only a request that is taken starts the bar. -/
def shownServer (env : OtaEnv φ) : Handler (Shown φ) where
  onWrite file s := ((onWrite env file s.ota).1, s.call (onWrite env file s.ota).2 ((onWrite env file s.ota).1 == 0))
  onRead file s := ((onRead file s.ota).1, s.call (onRead file s.ota).2 ((onRead file s.ota).1 == 0))
  onWriteData buffer len s := (onWriteData env buffer len s.ota).map (fun r => (r.1, s.call r.2 false))
  onReadData len s := (onReadData env len s.ota).map (fun r => (r.1, r.2.1, s.call r.2.2 false))
  onClose s := (onClose env s.ota).map (fun t => s.call t false)
  onRestart s := s.call (onRestart env s.ota) false

/-- **The display changes nothing**: without it the server is `otaServer`. -/
theorem shownServer_projects (env : OtaEnv φ) : (shownServer env).Projects (otaServer env) Shown.ota where
  onWrite _ _ := rfl
  onRead _ _ := rfl
  onWriteData buffer len s := by
    show onWriteData env buffer len s.ota = _
    simp only [shownServer]
    cases onWriteData env buffer len s.ota <;> rfl
  onReadData len s := by
    show onReadData env len s.ota = _
    simp only [shownServer]
    cases onReadData env len s.ota <;> rfl
  onClose s := by
    show onClose env s.ota = _
    simp only [shownServer]
    cases onClose env s.ota <;> rfl
  onRestart _ := rfl

/-! ## Messages -/

/-- A text of `n` lines that fit the screen. -/
structure Fits (n : Nat) (text : String) : Prop where
  printable : PrintableText (ascii text)
  count : (lines (ascii text)).length = n
  width : ∀ l ∈ lines (ascii text), l.length ≤ 21

instance (text : List UInt8) : Decidable (PrintableText text) :=
  List.decidableBAll (fun c => (0x20 ≤ c ∧ c ≤ 0x7A) ∨ c = 0x0A) text

instance (n : Nat) (text : String) : Decidable (Fits n text) :=
  decidable_of_iff (PrintableText (ascii text) ∧ (lines (ascii text)).length = n ∧ ∀ l ∈ lines (ascii text), l.length ≤ 21)
    ⟨fun ⟨h, h', h''⟩ => ⟨h, h', h''⟩, fun ⟨h, h', h''⟩ => ⟨h, h', h''⟩⟩

/-- The texts that `on_close` reports. -/
def closeErrors : List String :=
  ["Fail img verification", "No Config partition", "Image too big", "Image too small", "Image size is odd",
   "Image size wrong", "Image CRC wrong", "Can't erase partition", "Can't write config"]

theorem closeErrors_fit : ∀ e ∈ closeErrors, Fits 2 ("OTA Error:\n" ++ e) := by decide +kernel

/-- An error of `on_close`, if any. -/
def Listed (err : Option String) : Prop := ∀ e, err = some e → e ∈ closeErrors

theorem listed_none : Listed none := fun _ h => by cases h

theorem listed_some {text : String} (h : text ∈ closeErrors) : Listed (some text) := fun e he => by
  cases he
  exact h

theorem listed_checkImage (image : List UInt8) {e : String} (h : checkImage image = .error e) : Listed (some e) := by
  unfold checkImage at h
  simp only at h
  repeat' split at h
  all_goals cases h
  all_goals exact listed_some (by decide)

theorem listed_writeImage (fate : Fate) (d : Setup) (image : List UInt8) (ops : List FlashOp) :
    Listed (writeImage fate d image ops).err := by
  unfold writeImage
  split
  · exact listed_some (by decide)
  · exact listed_none

theorem listed_saveConfigImage (fate : Fate) (d : Setup) (image : List UInt8) :
    Listed (saveConfigImage fate d image).err := by
  unfold saveConfigImage
  split
  · exact listed_some (by decide)
  · cases hc : checkImage image with
    | error e => exact listed_checkImage image hc
    | ok image' =>
      show Listed (storeImage fate d image').err
      unfold storeImage
      split
      · split
        · exact listed_writeImage _ _ _ _
        · exact listed_some (by decide)
      · exact listed_writeImage _ _ _ _

theorem listed_saveConfigFull (fate : Fate) (d : Setup) (image : Flash) : Listed (saveConfigFull fate d image).err := by
  unfold saveConfigFull
  simp only
  split
  · exact listed_some (by decide)
  · split
    · exact listed_some (by decide)
    · split
      · exact listed_some (by decide)
      · exact listed_none

/-- What a method says: nothing, or one text. -/
inductive Speaks (P : String → Prop) (s t : Ota φ) : Prop
  | silent (h : t.msgs = s.msgs)
  | told (text : String) (hP : P text) (h : t.msgs = s.msgs ++ [text])

theorem Speaks.mono {P Q : String → Prop} {s t : Ota φ} (hPQ : ∀ text, P text → Q text) (h : Speaks P s t) :
    Speaks Q s t := by
  cases h with
  | silent h => exact .silent h
  | told text hP h => exact .told text (hPQ text hP) h

/-- A text of one line or two. -/
def Fits12 (text : String) : Prop := Fits 1 text ∨ Fits 2 text

theorem beginFirmware_speaks (env : OtaEnv φ) (s : Ota φ) : Speaks Fits12 s (beginFirmware env s).2 := by
  unfold beginFirmware
  split
  · exact .told _ (.inr (by decide +kernel)) rfl
  · split
    · exact .told _ (.inr (by decide +kernel)) rfl
    · exact .told _ (.inl (by decide +kernel)) rfl

theorem onWrite_speaks (env : OtaEnv φ) (file : List UInt8) (s : Ota φ) : Speaks Fits12 s (onWrite env file s).2 := by
  unfold onWrite testFileName
  cases jobOfName file true with
  | none => exact .told _ (.inr (by decide +kernel)) rfl
  | loadFW =>
    cases beginFirmware_speaks env { s with curPtr := 0, job := .loadFW, cfgBuf := Buffer.fill MAX_CFG_SIZE 0xFF } with
    | silent h => exact .silent h
    | told text hP h => exact .told text hP h
  | loadCfg => exact .told _ (.inl (by decide +kernel)) rfl
  | loadFCfg =>
    simp only
    split
    · exact .told _ (.inl (by decide +kernel)) rfl
    · exact .told _ (.inr (by decide +kernel)) rfl
  | sendCfg | sendFCfg => exact .silent rfl

theorem onRead_speaks (file : List UInt8) (s : Ota φ) : Speaks Fits12 s (onRead file s).2 := by
  unfold onRead testFileName
  cases jobOfName file false with
  | none => exact .told _ (.inr (by decide +kernel)) rfl
  | sendCfg =>
    simp only
    split
    · exact .told _ (.inr (by decide +kernel)) rfl
    · exact .told _ (.inl (by decide +kernel)) rfl
  | sendFCfg =>
    simp only
    split
    · exact .told _ (.inl (by decide +kernel)) rfl
    · exact .told _ (.inr (by decide +kernel)) rfl
  | loadFW | loadCfg | loadFCfg => exact .silent rfl

/-! ## The bar in a session -/

/-- **A partition for firmware**: `esp_ota_write` counts what it takes, and refuses what does not fit. -/
structure OtaApi.Within (api : OtaApi φ) (used : φ → Nat) (max : Nat) : Prop where
  writes : ∀ handle data fw fw', api.otaWrite handle data fw = (true, fw') →
    used fw' = used fw + data.length ∧ used fw' ≤ max
  refuses : ∀ handle data fw fw', api.otaWrite handle data fw = (false, fw') → used fw ≤ used fw'

/-- The 3 MiB of an application partition. -/
def APP_SIZE : Nat := 3 * 1024 * 1024

/-- **The ticks of a session** are those of its pointer; firmware gets at most as many. -/
structure InBar (used : φ → Nat) (s : Ota φ) : Prop where
  bounded : Bounded s
  job : s.job ≠ .none
  config : s.job.isConfig → s.ticks = s.curPtr * TOTAL_PI / totalSize s
  firmware : s.job = .loadFW → s.ticks ≤ s.curPtr / 2048 ∧ s.curPtr ≤ used s.fw ∧ s.curPtr ≤ APP_SIZE

theorem Job.isConfig_or {j : Job} (h : j ≠ .none) : j.isConfig ∨ j = .loadFW := by
  cases j with
  | none => exact absurd rfl h
  | loadFW => exact .inr rfl
  | loadCfg => exact .inl (.inl rfl)
  | loadFCfg => exact .inl (.inr (.inl rfl))
  | sendCfg => exact .inl (.inr (.inr (.inl rfl)))
  | sendFCfg => exact .inl (.inr (.inr (.inr rfl)))

theorem not_isConfig_loadFW : ¬ Job.loadFW.isConfig := by decide

/-- **The bar is at its end exactly behind a whole config.** -/
theorem InBar.full_iff {used : φ → Nat} {s : Ota φ} (h : InBar used s) :
    s.ticks ≤ TOTAL_PI ∧ (s.ticks = TOTAL_PI ↔ Full s) := by
  rcases Job.isConfig_or h.job with hjob | hjob
  · have hptr := h.bounded.ptr hjob
    have hticks := h.config hjob
    by_cases hzero : totalSize s = 0
    · rw [hzero, Nat.div_zero] at hticks
      rw [hticks]
      exact ⟨Nat.zero_le _, iff_of_false (by decide) (fun hf => hf.2.2 hzero)⟩
    · have hpos : 0 < totalSize s := Nat.pos_of_ne_zero hzero
      have hiff : s.curPtr = totalSize s ↔ s.curPtr * TOTAL_PI / totalSize s = TOTAL_PI := by
        constructor
        · intro heq
          rw [heq, Nat.mul_div_cancel_left _ hpos]
        · intro heq
          by_contra hne
          have hlt : s.curPtr < totalSize s := Nat.lt_of_le_of_ne hptr hne
          have hless : s.curPtr * TOTAL_PI / totalSize s < TOTAL_PI :=
            Nat.div_lt_of_lt_mul (Nat.mul_lt_mul_of_pos_right hlt (by decide))
          omega
      have hle : s.curPtr * TOTAL_PI / totalSize s ≤ TOTAL_PI :=
        Nat.div_le_of_le_mul (Nat.mul_le_mul_right _ hptr)
      rw [hticks]
      exact ⟨hle, hiff.symm.trans ⟨fun heq => ⟨hjob, heq, hzero⟩, fun hf => hf.2.1⟩⟩
  · obtain ⟨hticks, -, hmax⟩ := h.firmware hjob
    unfold APP_SIZE at hmax
    unfold TOTAL_PI
    refine ⟨by omega, iff_of_false (by omega) (fun hf => ?_)⟩
    exact not_isConfig_loadFW (hjob ▸ hf.1)

/-- A block that fits keeps the ticks of a config with its pointer. -/
theorem ticks_incCurPtr {s : Ota φ} {k : Nat} (hsize : totalSize s ≤ MAX_CFG_SIZE) (hfit : s.curPtr + k ≤ totalSize s)
    (hticks : s.ticks = s.curPtr * TOTAL_PI / totalSize s) :
    (incCurPtr k s).ticks = (incCurPtr k s).curPtr * TOTAL_PI / totalSize (incCurPtr k s) := by
  unfold MAX_CFG_SIZE at hsize
  have hmod : s.curPtr + k < SIZE_T := by
    unfold SIZE_T
    omega
  by_cases hzero : totalSize s = 0
  · rw [totalSize_incCurPtr, hzero, Nat.div_zero]
    rw [hzero, Nat.div_zero] at hticks
    rw [incCurPtr, if_pos hzero]
    exact hticks
  · obtain ⟨htotal, hptr, ht⟩ := incCurPtr_eq (k := k) hzero hmod
    have hbound : totalSize s * TOTAL_PI < SIZE_T := by
      unfold TOTAL_PI SIZE_T
      omega
    rw [ht, hptr, htotal]
    exact ticks_exact hbound hfit hticks

theorem InBar.inc {used : φ → Nat} {s : Ota φ} (h : InBar used s) {k : Nat} (hjob : s.job.isConfig)
    (hfit : s.curPtr + k ≤ totalSize s) : InBar used (incCurPtr k s) := by
  obtain ⟨-, -, hsame, -, -⟩ := incCurPtr_fields k s
  have hsize := totalSize_le h.bounded.size hjob
  refine ⟨h.bounded.inc (fun _ => Nat.le_trans (Nat.mod_le _ _) hfit), hsame ▸ h.job,
    fun _ => ticks_incCurPtr hsize hfit (h.config hjob), fun hfw => ?_⟩
  rw [hsame] at hfw
  exact absurd (hfw ▸ hjob) not_isConfig_loadFW

/-- The fields that the bar depends on. -/
theorem InBar.of_fields {used : φ → Nat} {s t : Ota φ} (h : InBar used s) (hsetup : t.setup = s.setup)
    (hjob : t.job = s.job) (hptr : t.curPtr = s.curPtr) (hticks : t.ticks = s.ticks) (hfw : used s.fw ≤ used t.fw) :
    InBar used t := by
  have htotal : totalSize t = totalSize s := by
    unfold totalSize
    rw [hjob, hsetup]
  refine ⟨h.bounded.of_fields (by rw [hsetup]) hjob hptr, hjob ▸ h.job, fun hj => ?_, fun hj => ?_⟩
  · rw [hticks, hptr, htotal]
    exact h.config (hjob ▸ hj)
  · obtain ⟨h1, h2, h3⟩ := h.firmware (hjob ▸ hj)
    rw [hticks, hptr]
    exact ⟨h1, Nat.le_trans h2 hfw, h3⟩

/-- A method in a session: it says two lines, and leaves the bar, or says nothing. -/
structure InSessionStep (used : φ → Nat) (s t : Ota φ) : Prop where
  speaks : Speaks (Fits 2) s t
  told : t.msgs ≠ s.msgs → t.ticks = s.ticks
  grows : s.ticks ≤ t.ticks
  inBar : InBar used t

theorem InSessionStep.same {used : φ → Nat} {s : Ota φ} (h : InBar used s) : InSessionStep used s s :=
  ⟨.silent rfl, fun _ => rfl, Nat.le_refl _, h⟩

theorem ticks_grow (k : Nat) (s : Ota φ) : s.ticks ≤ (incCurPtr k s).ticks := by
  unfold incCurPtr
  simp only
  split
  · exact Nat.le_refl _
  · exact Nat.le_add_right _ _

theorem incCurPtr_msgs (k : Nat) (s : Ota φ) : (incCurPtr k s).msgs = s.msgs ∧ (incCurPtr k s).fw = s.fw := by
  unfold incCurPtr
  simp only
  split <;> exact ⟨rfl, rfl⟩

theorem InSessionStep.inc {used : φ → Nat} {s t : Ota φ} {k : Nat} (hticks : t.ticks = s.ticks) (hmsgs : t.msgs = s.msgs)
    (h : InBar used (incCurPtr k t)) : InSessionStep used s (incCurPtr k t) := by
  obtain ⟨hm, -⟩ := incCurPtr_msgs k t
  refine ⟨.silent (hm.trans hmsgs), fun hne => absurd (hm.trans hmsgs) hne, ?_, h⟩
  rw [← hticks]
  exact ticks_grow k t

/-- A block of firmware brings at most the ticks of its bytes. -/
theorem ticks_firmware {ptr k ticks : Nat} (h : ticks ≤ ptr / 2048) :
    ticks + (piAt (ptr + k) (1024 * 1024 * 4) - piAt ptr (1024 * 1024 * 4)) ≤ (ptr + k) / 2048 := by
  unfold piAt TOTAL_PI SIZE_T
  omega

theorem InBar.firmware_inc {used : φ → Nat} {s : Ota φ} (h : InBar used s) (hjob : s.job = .loadFW) {fw : φ} {k : Nat}
    (hused : used fw = used s.fw + k) (hmax : used fw ≤ APP_SIZE) : InBar used (incCurPtr k { s with fw := fw }) := by
  obtain ⟨hticks, hptr, -⟩ := h.firmware hjob
  have htotal : totalSize { s with fw := fw } = 1024 * 1024 * 4 := by
    unfold totalSize
    rw [hjob]
  have hfit : s.curPtr + k < SIZE_T := by
    unfold APP_SIZE at hmax
    unfold SIZE_T
    omega
  obtain ⟨-, hptr', hticks'⟩ := incCurPtr_eq (k := k) (s := { s with fw := fw }) (by rw [htotal]; decide) hfit
  obtain ⟨-, -, hsame, -, -⟩ := incCurPtr_fields k { s with fw := fw }
  have hb : Bounded { s with fw := fw } := ⟨h.bounded.size, h.bounded.ptr⟩
  refine ⟨hb.inc (fun hj => absurd (hjob ▸ hj) not_isConfig_loadFW), ?_, fun hj => ?_, fun _ => ?_⟩
  · rw [hsame]
    exact h.job
  · rw [hsame] at hj
    exact absurd (hjob ▸ hj) not_isConfig_loadFW
  · rw [hptr', hticks', htotal, (incCurPtr_msgs k _).2]
    show _ ∧ s.curPtr + k ≤ used fw ∧ s.curPtr + k ≤ APP_SIZE
    exact ⟨ticks_firmware hticks, by omega, by omega⟩

section

variable {env : OtaEnv φ} {used : φ → Nat} {s t : Ota φ}

theorem overflow_fits : Fits 2 "OTA Error:\nCfg buffer overflow" := by decide +kernel

theorem noWrite_fits : Fits 2 "OTA Error:\nFail to write to part" := by decide +kernel

theorem inBar_writeCfg (h : InBar used s) (hjob : s.job.isConfig) (htotal : totalSize s = MAX_CFG_SIZE)
    {buffer : List UInt8} {len ret : Int} (hlen : len ≤ 512) (hw : writeCfg buffer len s = some (ret, t)) :
    InSessionStep used s t := by
  have hptr := h.bounded.ptr hjob
  unfold writeCfg at hw
  split at hw
  · rename_i hfit
    split at hw
    · cases hw
    · rename_i hneg
      cases hw
      have hroom : s.curPtr + toSizeT len ≤ totalSize s := by
        rw [htotal] at hptr ⊢
        unfold toSizeT SIZE_T MAX_CFG_SIZE at *
        omega
      have hb : InBar used { s with cfgBuf := s.cfgBuf.put s.curPtr (buffer.take len.toNat) } :=
        h.of_fields rfl rfl rfl rfl (Nat.le_refl _)
      exact InSessionStep.inc (t := { s with cfgBuf := s.cfgBuf.put s.curPtr (buffer.take len.toNat) }) rfl rfl
        (hb.inc hjob hroom)
  · cases hw
    exact ⟨.told _ overflow_fits rfl, fun _ => rfl, Nat.le_refl _, h.of_fields rfl rfl rfl rfl (Nat.le_refl _)⟩

/-- **A block of a write session.** -/
theorem inBar_onWriteData (hfw : env.api.Within used APP_SIZE) (h : InBar used s) {buffer : List UInt8} {len ret : Int}
    (hbuf : buffer.length = 512) (hlen : len ≤ 512) (hw : onWriteData env buffer len s = some (ret, t)) :
    InSessionStep used s t := by
  cases hjob : s.job with
  | loadCfg =>
    rw [onWriteData, hjob] at hw
    exact inBar_writeCfg h (by rw [hjob]; decide) (by rw [totalSize, hjob]) hlen hw
  | loadFCfg =>
    rw [onWriteData, hjob] at hw
    exact inBar_writeCfg h (by rw [hjob]; decide) (by rw [totalSize, hjob]) hlen hw
  | loadFW =>
    rw [onWriteData, hjob] at hw
    simp only [writeFirmware] at hw
    split at hw
    · cases hw
      exact InSessionStep.same h
    · split at hw
      · cases hw
      · rename_i hneg
        cases hwrite : env.api.otaWrite s.otaHandle (buffer.take len.toNat) s.fw with
        | mk ok fw =>
          rw [hwrite] at hw
          cases ok with
          | true =>
            cases hw
            obtain ⟨hused, hmax⟩ := hfw.writes _ _ _ _ hwrite
            have hk : (buffer.take len.toNat).length = toSizeT len := by
              rw [List.length_take, hbuf]
              unfold toSizeT SIZE_T
              omega
            rw [hk] at hused
            exact InSessionStep.inc (t := { s with fw := fw }) rfl rfl (h.firmware_inc hjob hused hmax)
          | false =>
            cases hw
            exact ⟨.told _ noWrite_fits rfl, fun _ => rfl, Nat.le_refl _,
              h.of_fields rfl rfl rfl rfl (hfw.refuses _ _ _ _ hwrite)⟩
  | none | sendCfg | sendFCfg =>
    rw [onWriteData, hjob] at hw
    cases hw
    exact InSessionStep.same h

theorem inBar_readFrom (h : InBar used s) (hjob : s.job.isConfig) {base size : Nat} (hsize : totalSize s = size)
    {ret : Int} {data : List UInt8} (hr : readFrom env base size (TFTP_DATA_SIZE - 4 : Nat) s = some (ret, data, t)) :
    InSessionStep used s t := by
  have hp : s.curPtr ≤ size := hsize ▸ h.bounded.ptr hjob
  have hmax : size ≤ MAX_CFG_SIZE := hsize ▸ totalSize_le h.bounded.size hjob
  have hlen := length_blockAt (ByteMem.window (NorFlash.mem s.setup.cfgFull env.past) base size) s.curPtr
  rw [ByteMem.length_window] at hlen
  cases (readFrom_block env hp hmax rfl).symm.trans hr
  refine InSessionStep.inc rfl rfl (h.inc hjob ?_)
  unfold MAX_CFG_SIZE at hmax
  unfold toSizeT SIZE_T
  rw [hsize, hlen]
  omega

/-- **A block of a read session.** -/
theorem inBar_onReadData (h : InBar used s) {ret : Int} {data : List UInt8}
    (hr : onReadData env (TFTP_DATA_SIZE - 4 : Nat) s = some (ret, data, t)) : InSessionStep used s t := by
  cases hjob : s.job with
  | sendCfg =>
    rw [onReadData, hjob] at hr
    simp only at hr
    cases hconf : s.setup.config with
    | none =>
      rw [hconf] at hr
      cases hr
      exact InSessionStep.same h
    | some base =>
      rw [hconf] at hr
      exact inBar_readFrom h (by rw [hjob]; decide) (by rw [totalSize, hjob]) hr
  | sendFCfg =>
    rw [onReadData, hjob] at hr
    simp only at hr
    split at hr
    · exact inBar_readFrom h (by rw [hjob]; decide) (by rw [totalSize, hjob]) hr
    · cases hr
      exact InSessionStep.same h
  | none | loadFW | loadCfg | loadFCfg =>
    rw [onReadData, hjob] at hr
    cases hr
    exact InSessionStep.same h

theorem Full.of_fields {s t : Ota φ} (hjob : t.job = s.job) (hsize : t.setup.cfgSize = s.setup.cfgSize)
    (hptr : t.curPtr = s.curPtr) (h : Full t) : Full s := by
  have htotal : totalSize t = totalSize s := by
    unfold totalSize
    rw [hjob, hsize]
  unfold Full at h
  rwa [hjob, hptr, htotal] at h

/-- **The close of a session** says at most its error, and leaves the bar. -/
theorem onClose_speaks (hc : onClose env s = some t) :
    Speaks (Fits 2) s t ∧ t.ticks = s.ticks ∧ (Full t → Full s) := by
  have herr : ∀ (err : Option String) (u : Ota φ), Listed err → u.msgs = s.msgs → u.ticks = s.ticks →
      (Full u → Full s) → Speaks (Fits 2) s (reportError err u) ∧ (reportError err u).ticks = s.ticks ∧
        (Full (reportError err u) → Full s) := by
    intro err u hlist hmsgs hticks hfull
    cases err with
    | none => exact ⟨.silent hmsgs, hticks, hfull⟩
    | some e =>
      refine ⟨.told _ (closeErrors_fit e (hlist e rfl)) ?_, hticks, hfull⟩
      rw [← hmsgs]
      rfl
  have hsave : ∀ call : SaveCall, Listed (call.run (env.fate s.saved.length) s.setup).err →
      Speaks (Fits 2) s (afterSave (call.run (env.fate s.saved.length) s.setup) s) ∧
        (afterSave (call.run (env.fate s.saved.length) s.setup) s).ticks = s.ticks ∧
        (Full (afterSave (call.run (env.fate s.saved.length) s.setup) s) → Full s) := by
    intro call hlist
    exact herr _ _ hlist rfl rfl (Full.of_fields rfl (ram_run (env.fate s.saved.length) s.setup call).2.1 rfl)
  cases hjob : s.job with
  | loadFW =>
    rw [onClose, hjob] at hc
    simp only at hc
    split at hc
    · cases hc
      exact ⟨.silent rfl, rfl, id⟩
    · split at hc
      · cases hc
      · cases hc
        exact herr _ _ (listed_some (by decide)) rfl rfl (Full.of_fields hjob.symm rfl rfl)
  | loadCfg =>
    rw [onClose, hjob] at hc
    cases hc
    exact hsave (.image _) (listed_saveConfigImage _ _ _)
  | loadFCfg =>
    rw [onClose, hjob] at hc
    cases hc
    exact hsave (.full _) (listed_saveConfigFull _ _ _)
  | none | sendCfg | sendFCfg =>
    rw [onClose, hjob] at hc
    cases hc
    exact ⟨.silent rfl, rfl, id⟩

end

/-! ## What is drawn -/

def apText : String := "SSID: MSTDP\nPSWD: MSTD-BK-UKNC\nIP  : 192.168.4.1"

/-- The screen is what the view says. -/
structure View.On (v : View) (o : SSD1306) : Prop where
  top : ∀ ram row col, row < 5 → col < 128 → screen ram o.display.writes row col =
    if v.top then (lineBytes ((lines (ascii apText)).getD row [])).getD col 0 else clearedAt row col
  status : ∀ ram col, col < 128 → screen ram o.display.writes OLED_MSG_ROW col = (lineBytes v.status).getD col 0

theorem View.On.of_rows {v : View} {o o' : SSD1306} (h : v.On o)
    (hrows : ∀ ram row col, row < 6 → screen ram o'.display.writes row col = screen ram o.display.writes row col) :
    v.On o' := by
  refine ⟨fun ram row col hrow hcol => ?_, fun ram col hcol => ?_⟩
  · rw [hrows ram row col (Nat.lt_succ_of_lt hrow)]
    exact h.top ram row col hrow hcol
  · rw [hrows ram OLED_MSG_ROW col (by decide)]
    exact h.status ram col hcol

theorem View.On.cleared {o : SSD1306}
    (h : ∀ ram row col, row < 8 → col < 128 → screen ram o.display.writes row col = clearedAt row col) :
    View.On { top := false, status := [] } o := by
  refine ⟨fun ram row col hrow hcol => ?_, fun ram col hcol => ?_⟩
  · rw [if_neg (by decide)]
    exact h ram row col (by omega) hcol
  · rw [h ram OLED_MSG_ROW col (by decide) hcol, Oled.getD_lineBytes_nil]
    exact if_neg (fun hc => absurd hc.1 (by decide))

theorem Fits12.printable {text : String} (h : Fits12 text) : PrintableText (ascii text) :=
  h.elim Fits.printable Fits.printable

theorem Fits12.count {text : String} (h : Fits12 text) :
    0 < (lines (ascii text)).length ∧ (lines (ascii text)).length ≤ 2 := by
  rcases h with h | h <;> rw [h.count] <;> decide

/-- **A message** takes row 5, and perhaps row 6. -/
theorem drawOled_on {v : View} {o : SSD1306} (h : v.On o) {text : String} (hfit : Fits12 text) :
    ∃ o', drawOled OLED_MSG_ROW text o = some o' ∧ View.On { v with status := firstLine text } o' ∧
      o'.piRow = o.piRow ∧ o'.piData = o.piData ∧ o'.piCount = o.piCount ∧ (Fits 2 text → o'.display.page = 6) := by
  obtain ⟨d', hdraw, -, -, -, hscreen⟩ := Oled.drawText_rows hfit.printable (OLED_MSG_ROW : Nat) o.display
  obtain ⟨hpos, hle⟩ := hfit.count
  have hrow : ∀ i : Nat, i < 2 → Oled.rowOf ((OLED_MSG_ROW : Nat) + i) = 5 + i := by
    intro i hi
    unfold Oled.rowOf OLED_MSG_ROW
    omega
  refine ⟨{ o with display := d' }, by rw [drawOled, hdraw]; rfl,
    ⟨fun ram row col hr hcol => ?_, fun ram col hcol => ?_⟩, rfl, rfl, rfl, fun h2 => ?_⟩
  · have hother := (hscreen ram).2 row (fun i hi => by
      rw [hrow i (by omega)]
      omega) col
    rw [hother]
    exact h.top ram row col hr hcol
  · have hfirst : (lines (ascii text))[0]? = some (firstLine text) := by
      rw [firstLine, List.headD_eq_head?_getD, List.head?_eq_getElem?, List.getElem?_eq_getElem hpos, Option.getD_some]
    exact (hscreen ram).1 0 _ hfirst (fun j h0 hj => by
      rw [hrow j (by omega), hrow 0 (by decide)]
      omega) col hcol
  · have hpage := Oled.page_drawText _ _ _ hfit.printable _ hdraw
    rw [h2.count] at hpage
    exact hpage

/-- The view behind the messages of a method. -/
def View.told (v : View) (s t : Ota φ) : View :=
  (t.msgs.drop s.msgs.length).foldl (fun v text => { v with status := firstLine text }) v

theorem View.after_of_not {v : View} {s t : Ota φ} (h : Full t → Full s) : v.after s t = v.told s t :=
  if_neg (fun hf => hf.2 (h hf.1))

/-- **What a method says is drawn.** -/
theorem msgsOled_on {v : View} {o : SSD1306} {s t : Ota φ} (h : v.On o) (hsay : Speaks Fits12 s t) :
    ∃ o', msgsOled (t.msgs.drop s.msgs.length) o = some o' ∧ (v.told s t).On o' ∧ o'.piRow = o.piRow ∧
      o'.piData = o.piData ∧ o'.piCount = o.piCount ∧ (t.msgs = s.msgs → o' = o) := by
  unfold View.told
  cases hsay with
  | silent heq =>
    rw [heq, List.drop_length]
    exact ⟨o, rfl, h, rfl, rfl, rfl, fun _ => rfl⟩
  | told text hP heq =>
    obtain ⟨o', hdraw, hon, h1, h2, h3, -⟩ := drawOled_on h hP
    rw [heq, List.drop_left]
    refine ⟨o', ?_, hon, h1, h2, h3, fun hsame => ?_⟩
    · show (drawOled OLED_MSG_ROW text o).bind some = some o'
      rw [hdraw, Option.bind_some]
    · exact absurd hsame (by simp)

/-- In a session the pointer stays in the rows of the bar. -/
theorem msgsOled_bar {v : View} {o o' : SSD1306} {s t : Ota φ} {n : Nat} (h : v.On o) (hsay : Speaks (Fits 2) s t)
    (hbar : Bar n o) (hdraw : msgsOled (t.msgs.drop s.msgs.length) o = some o') : Bar n o' := by
  cases hsay with
  | silent heq =>
    rw [heq, List.drop_length] at hdraw
    cases hdraw
    exact hbar
  | told text hP heq =>
    obtain ⟨o₁, hone, -, h1, h2, h3, hpage⟩ := drawOled_on h (.inr hP)
    have hbind : (drawOled OLED_MSG_ROW text o).bind some = some o' := by
      rw [heq, List.drop_left] at hdraw
      exact hdraw
    rw [hone, Option.bind_some] at hbind
    cases hbind
    refine ⟨h1.trans hbar.piRow, h2.trans hbar.piData, h3.trans hbar.piCount, ?_⟩
    rw [hpage hP]

/-! ## Between and in the sessions -/

/-- Every message so far fits the screen. -/
def Polite (s : Ota φ) : Prop := ∀ text ∈ s.msgs, Fits12 text

theorem Polite.speaks {s t : Ota φ} (h : Polite s) (hsay : Speaks Fits12 s t) : Polite t := by
  cases hsay with
  | silent heq =>
    unfold Polite
    rw [heq]
    exact h
  | told text hP heq =>
    intro text' hmem
    rw [heq] at hmem
    rcases List.mem_append.1 hmem with hmem | hmem
    · exact h text' hmem
    · rw [List.mem_singleton.1 hmem]
      exact hP

/-- **Between the sessions** the screen is what the view says. -/
structure Between (s : Shown φ) : Prop where
  bounded : Bounded s.ota
  polite : Polite s.ota
  on : ∃ o, s.oled = some o ∧ s.view.On o

/-- **In a session** there is the bar too, until it has come to its end. -/
structure During (used : φ → Nat) (s : Shown φ) : Prop where
  inBar : InBar used s.ota
  polite : Polite s.ota
  on : ∃ o, s.oled = some o ∧ s.view.On o ∧ (s.ota.ticks < TOTAL_PI → Bar s.ota.ticks o)

section

variable {env : OtaEnv φ} {used : φ → Nat} {s : Shown φ} {t : Ota φ}

/-- **A request that is taken** starts the bar. -/
theorem Between.opens (h : Between s) (hsay : Speaks Fits12 s.ota t) (hb : Bounded t) (hptr : t.curPtr = 0)
    (hticks : t.ticks = 0) (hjob : t.job ≠ .none) : During used (s.call t true) := by
  obtain ⟨o, ho, hon⟩ := h.on
  obtain ⟨o₁, hdraw, hon₁, -⟩ := msgsOled_on hon hsay
  obtain ⟨o₂, hstart, hbar, hrows⟩ := Oled.bar_of_startPi o₁
  have hnot : Full t → Full s.ota := fun hf => absurd (hf.2.1.symm.trans hptr) hf.2.2
  refine ⟨⟨hb, hjob, fun _ => ?_, fun _ => ?_⟩, h.polite.speaks hsay, o₂, ?_, ?_, fun _ => ?_⟩
  · show t.ticks = t.curPtr * TOTAL_PI / totalSize t
    rw [hticks, hptr, Nat.zero_mul, Nat.zero_div]
  · show t.ticks ≤ t.curPtr / 2048 ∧ t.curPtr ≤ used t.fw ∧ t.curPtr ≤ APP_SIZE
    rw [hticks, hptr]
    exact ⟨Nat.zero_le _, Nat.zero_le _, Nat.zero_le _⟩
  · simp only [Shown.call, ho, Option.bind_some, hdraw, if_true]
    exact hstart
  · show (s.view.after s.ota t).On o₂
    rw [View.after_of_not hnot]
    exact hon₁.of_rows hrows
  · show Bar t.ticks o₂
    rw [hticks]
    exact hbar

/-- **A method that moves no data** draws its message. -/
theorem call_on {v : View} {o : SSD1306} (ho : s.oled = some o) (hview : s.view = v) (hon : v.On o)
    (hsay : Speaks Fits12 s.ota t) (hticks : t.ticks = s.ota.ticks) (hnot : Full t → Full s.ota) :
    ∃ o', (s.call t false).oled = some o' ∧ (s.call t false).view.On o' := by
  obtain ⟨o₁, hdraw, hon₁, -⟩ := msgsOled_on hon hsay
  refine ⟨o₁, ?_, ?_⟩
  · simp only [Shown.call, ho, Option.bind_some, hdraw, Bool.false_eq_true, if_false, hticks, Nat.sub_self]
    rfl
  · show (s.view.after s.ota t).On o₁
    rw [View.after_of_not hnot, hview]
    exact hon₁

theorem Between.refuses (h : Between s) (hsay : Speaks Fits12 s.ota t) (hb : Bounded t) (hptr : t.curPtr = 0)
    (hticks : t.ticks = s.ota.ticks) : Between (s.call t false) := by
  obtain ⟨o, ho, hon⟩ := h.on
  exact ⟨hb, h.polite.speaks hsay,
    call_on ho rfl hon hsay hticks (fun hf => absurd (hf.2.1.symm.trans hptr) hf.2.2)⟩

/-- **A block** moves the bar, or says why it was refused; the block that completes a config clears the screen. -/
theorem During.moves (h : During used s) (hstep : InSessionStep used s.ota t) : During used (s.call t false) := by
  obtain ⟨o, ho, hon, hbar⟩ := h.on
  have hsay : Speaks Fits12 s.ota t := hstep.speaks.mono (fun _ => Or.inr)
  obtain ⟨o₁, hdraw, hon₁, -, -, -, hsame⟩ := msgsOled_on hon hsay
  have hbar₁ : s.ota.ticks < TOTAL_PI → Bar s.ota.ticks o₁ := fun hlt => msgsOled_bar hon hstep.speaks (hbar hlt) hdraw
  obtain ⟨hle, hfull⟩ := hstep.inBar.full_iff
  obtain ⟨-, hfull₀⟩ := h.inBar.full_iff
  have hgrow := hstep.grows
  have holed : (s.call t false).oled = Oled.ticks (t.ticks - s.ota.ticks) o₁ := by
    simp only [Shown.call, ho, Option.bind_some, hdraw, Bool.false_eq_true, if_false]
  refine ⟨hstep.inBar, h.polite.speaks hsay, ?_⟩
  by_cases hend : t.ticks = TOTAL_PI
  · by_cases hwas : s.ota.ticks = TOTAL_PI
    · -- the bar was at its end before
      refine ⟨o₁, ?_, ?_, fun hlt => absurd hend (Nat.ne_of_lt hlt)⟩
      · rw [holed, hend, hwas, Nat.sub_self]
        rfl
      · show (s.view.after s.ota t).On o₁
        rw [View.after_of_not (fun _ => hfull₀.1 hwas)]
        exact hon₁
    · unfold TOTAL_PI at hend hwas hle
      obtain ⟨o₂, hticks, hclear⟩ := (hbar₁ (by unfold TOTAL_PI; omega)).ticks_full
        (k := t.ticks - s.ota.ticks) (by omega) (by omega)
      refine ⟨o₂, holed.trans hticks, ?_, fun hlt => absurd hend (Nat.ne_of_lt hlt)⟩
      show (s.view.after s.ota t).On o₂
      rw [View.after, if_pos ⟨hfull.1 hend, fun hf => hwas (hfull₀.2 hf)⟩]
      exact View.On.cleared hclear
  · have hlt : t.ticks < TOTAL_PI := Nat.lt_of_le_of_ne hle hend
    obtain ⟨o₂, hticks, hbar₂, hrows⟩ := (hbar₁ (Nat.lt_of_le_of_lt hgrow hlt)).ticks (t.ticks - s.ota.ticks) (by
      unfold TOTAL_PI at hlt
      omega)
    refine ⟨o₂, holed.trans hticks, ?_, fun _ => ?_⟩
    · show (s.view.after s.ota t).On o₂
      rw [View.after_of_not (fun hf => absurd (hfull.2 hf) hend)]
      exact hon₁.of_rows hrows
    · rw [Nat.add_sub_cancel' hgrow] at hbar₂
      exact hbar₂

theorem During.closes (h : During used s) (hb : Bounded t) (hsay : Speaks (Fits 2) s.ota t)
    (hticks : t.ticks = s.ota.ticks) (hnot : Full t → Full s.ota) : Between (s.call t false) := by
  obtain ⟨o, ho, hon, -⟩ := h.on
  have hsay' : Speaks Fits12 s.ota t := hsay.mono (fun _ => Or.inr)
  exact ⟨hb, h.polite.speaks hsay', call_on ho rfl hon hsay' hticks hnot⟩

/-- **The restart** says that the update is there. -/
theorem During.restarts (h : During used s) (env : OtaEnv φ) :
    Between (s.call (onRestart env s.ota) false) ∧
      (s.call (onRestart env s.ota) false).view.status = ascii "Update successful" := by
  have hfit : Fits 2 "Update successful\nReboot in 5 second" := by decide +kernel
  have hnot : Full (onRestart env s.ota) → Full s.ota := Full.of_fields rfl rfl rfl
  refine ⟨h.closes (h.inBar.bounded.of_fields rfl rfl rfl) (.told _ hfit rfl) rfl hnot, ?_⟩
  show (s.view.after s.ota (onRestart env s.ota)).status = _
  rw [View.after_of_not hnot, View.told, onRestart, Ota.msg, List.drop_left]
  show firstLine "Update successful\nReboot in 5 second" = _
  decide +kernel

/-! ## Requests -/

/-- What a request leaves: it is taken and starts at 0, or refused and leaves the bar. -/
theorem beginFirmware_request (env : OtaEnv φ) (s : Ota φ) :
    ((beginFirmware env s).1 = 0 ∧ (beginFirmware env s).2.ticks = 0 ∧ (beginFirmware env s).2.job = s.job) ∨
      ((beginFirmware env s).1 = -1 ∧ (beginFirmware env s).2.ticks = s.ticks) := by
  unfold beginFirmware
  split
  · exact .inr ⟨rfl, rfl⟩
  · split
    · exact .inr ⟨rfl, rfl⟩
    · exact .inl ⟨rfl, rfl, rfl⟩

theorem onWrite_request (env : OtaEnv φ) (file : List UInt8) (s : Ota φ) :
    ((onWrite env file s).1 = 0 ∧ (onWrite env file s).2.ticks = 0 ∧ (onWrite env file s).2.job ≠ .none) ∨
      ((onWrite env file s).1 = -1 ∧ (onWrite env file s).2.ticks = s.ticks) := by
  unfold onWrite testFileName
  cases jobOfName file true with
  | loadFW =>
    obtain ⟨h1, h2, h3⟩ | ⟨h1, h2⟩ := beginFirmware_request env
      { s with curPtr := 0, job := .loadFW, cfgBuf := Buffer.fill MAX_CFG_SIZE 0xFF }
    · exact .inl ⟨h1, h2, fun h => by cases h3.symm.trans h⟩
    · exact .inr ⟨h1, h2⟩
  | loadCfg => exact .inl ⟨rfl, rfl, fun h => by cases h⟩
  | loadFCfg =>
    simp only
    split
    · exact .inl ⟨rfl, rfl, fun h => by cases h⟩
    · exact .inr ⟨rfl, rfl⟩
  | none | sendCfg | sendFCfg => exact .inr ⟨rfl, rfl⟩

theorem onRead_request (file : List UInt8) (s : Ota φ) :
    ((onRead file s).1 = 0 ∧ (onRead file s).2.ticks = 0 ∧ (onRead file s).2.job ≠ .none) ∨
      ((onRead file s).1 = -1 ∧ (onRead file s).2.ticks = s.ticks) := by
  unfold onRead testFileName
  cases jobOfName file false with
  | sendCfg =>
    simp only
    split
    · exact .inr ⟨rfl, rfl⟩
    · exact .inl ⟨rfl, rfl, fun h => by cases h⟩
  | sendFCfg =>
    simp only
    split
    · exact .inl ⟨rfl, rfl, fun h => by cases h⟩
    · exact .inr ⟨rfl, rfl⟩
  | none | loadFW | loadCfg | loadFCfg => exact .inr ⟨rfl, rfl⟩

end

/-- **The turns of the server with its display.** -/
theorem shownServer_turns {env : OtaEnv φ} {used : φ → Nat} (hfw : env.api.Within used APP_SIZE) :
    (shownServer env).Turns Between (During used) (During used) where
  opensWrite file s h hpos := by
    obtain ⟨h0, hticks, hjob⟩ | ⟨h1, -⟩ := onWrite_request env file s.ota
    · have hcall : (shownServer env).onWrite file s = (0, s.call (onWrite env file s.ota).2 true) := by
        simp only [shownServer, h0]
        rfl
      rw [hcall]
      exact h.opens (onWrite_speaks env file s.ota) ((bounded_keeps env).onWrite file s.ota h.bounded)
        (onWrite_start env file s.ota).2 hticks hjob
    · exact absurd (show 0 ≤ (onWrite env file s.ota).1 from hpos) (by rw [h1]; decide)
  refusesWrite file s h hneg := by
    obtain ⟨h0, -⟩ | ⟨h1, hticks⟩ := onWrite_request env file s.ota
    · exact absurd (show (onWrite env file s.ota).1 < 0 from hneg) (by rw [h0]; decide)
    · have hcall : (shownServer env).onWrite file s = (-1, s.call (onWrite env file s.ota).2 false) := by
        simp only [shownServer, h1]
        rfl
      rw [hcall]
      exact h.refuses (onWrite_speaks env file s.ota) ((bounded_keeps env).onWrite file s.ota h.bounded)
        (onWrite_start env file s.ota).2 hticks
  opensRead file s h hpos := by
    obtain ⟨h0, hticks, hjob⟩ | ⟨h1, -⟩ := onRead_request file s.ota
    · have hcall : (shownServer env).onRead file s = (0, s.call (onRead file s.ota).2 true) := by
        simp only [shownServer, h0]
        rfl
      rw [hcall]
      exact h.opens (onRead_speaks file s.ota) ((bounded_keeps env).onRead file s.ota h.bounded)
        (onRead_file env.past file s.ota).2.2.2.1 hticks hjob
    · exact absurd (show 0 ≤ (onRead file s.ota).1 from hpos) (by rw [h1]; decide)
  refusesRead file s h hneg := by
    obtain ⟨h0, -⟩ | ⟨h1, hticks⟩ := onRead_request file s.ota
    · exact absurd (show (onRead file s.ota).1 < 0 from hneg) (by rw [h0]; decide)
    · have hcall : (shownServer env).onRead file s = (-1, s.call (onRead file s.ota).2 false) := by
        simp only [shownServer, h1]
        rfl
      rw [hcall]
      exact h.refuses (onRead_speaks file s.ota) ((bounded_keeps env).onRead file s.ota h.bounded)
        (onRead_file env.past file s.ota).2.2.2.1 hticks
  onWriteData buffer len s ret s' h hbuf hlen hw := by
    cases hdata : onWriteData env buffer len s.ota with
    | none =>
      simp only [shownServer, hdata] at hw
      cases hw
    | some r =>
      simp only [shownServer, hdata] at hw
      cases hw
      exact h.moves (inBar_onWriteData hfw h.inBar hbuf hlen hdata)
  onReadData s ret data s' h hr := by
    cases hdata : onReadData env (TFTP_DATA_SIZE - 4 : Nat) s.ota with
    | none =>
      simp only [shownServer, hdata] at hr
      cases hr
    | some r =>
      simp only [shownServer, hdata] at hr
      cases hr
      exact h.moves (inBar_onReadData h.inBar hdata)
  closeWrite s s' h hc := by
    cases hclose : onClose env s.ota with
    | none =>
      simp only [shownServer, hclose] at hc
      cases hc
    | some t =>
      simp only [shownServer, hclose] at hc
      cases hc
      obtain ⟨hsay, hticks, hnot⟩ := onClose_speaks hclose
      exact h.closes (h.inBar.bounded.close hclose) hsay hticks hnot
  closeRead s s' h hc := by
    cases hclose : onClose env s.ota with
    | none =>
      simp only [shownServer, hclose] at hc
      cases hc
    | some t =>
      simp only [shownServer, hclose] at hc
      cases hc
      obtain ⟨hsay, hticks, hnot⟩ := onClose_speaks hclose
      exact h.closes (h.inBar.bounded.close hclose) hsay hticks hnot

/-! ## Runs -/

/-- The screen of `app_main`: cleared by `oled.init`, then the text at the top and the first message. -/
def bootOled (o : SSD1306) : Option SSD1306 :=
  ((Oled.clrScreen 0 8 o.display).bind (fun d => drawOled OLED_AP_ROW apText { o with display := d })).bind
    (drawOled OLED_MSG_ROW "Waiting for update")

def bootView : View := { top := true, status := firstLine "Waiting for update" }

theorem apText_fits : Fits 3 apText := by decide +kernel

theorem waiting_fits : Fits 1 "Waiting for update" := by decide +kernel

theorem bootOled_on (o : SSD1306) : ∃ o', bootOled o = some o' ∧ bootView.On o' := by
  obtain ⟨d₀, ws, hclr, -, -, -⟩ := Oled.clrScreen_eq 0 o.display (Nat.zero_le 8)
  have hblank := Oled.screen_clrScreen 0 o.display (Nat.zero_le 8) d₀ hclr
  obtain ⟨d₁, hap, -, -, -, hscreen⟩ := Oled.drawText_rows apText_fits.printable (OLED_AP_ROW : Nat) d₀
  have hrow : ∀ i : Nat, i < 8 → Oled.rowOf ((OLED_AP_ROW : Nat) + i) = i := by
    intro i hi
    unfold Oled.rowOf OLED_AP_ROW
    omega
  have hcount := apText_fits.count
  have htop : ∀ ram row col, row < 6 → col < 128 →
      screen ram d₁.writes row col = (lineBytes ((lines (ascii apText)).getD row [])).getD col 0 := by
    intro ram row col hr hcol
    by_cases hlt : row < 3
    · have hget : (lines (ascii apText))[row]? = some ((lines (ascii apText)).getD row []) := by
        rw [List.getD_eq_getElem?_getD, List.getElem?_eq_getElem (by omega), Option.getD_some]
      have hline := (hscreen ram).1 row _ hget (fun j hj hlen => by
        rw [hrow j (by omega), hrow row (by omega)]
        omega) col hcol
      rwa [hrow row (by omega)] at hline
    · have hother := (hscreen ram).2 row (fun i hi => by
        rw [hrow i (by omega)]
        omega) col
      have hnil : (lines (ascii apText)).getD row [] = [] := List.getD_eq_default _ _ (by omega)
      rw [hother, hblank ram row col (by omega) hcol, if_pos (Nat.zero_le _), hnil, Oled.getD_lineBytes_nil]
  have hon : View.On { top := true, status := [] } { o with display := d₁ } := by
    refine ⟨fun ram row col hr hcol => ?_, fun ram col hcol => ?_⟩
    · rw [if_pos rfl]
      exact htop ram row col (by omega) hcol
    · have hnil : (lines (ascii apText)).getD OLED_MSG_ROW [] = [] := List.getD_eq_default _ _ (by rw [hcount]; decide)
      rw [htop ram OLED_MSG_ROW col (by decide) hcol, hnil]
  obtain ⟨o', hdraw, hon', -⟩ := drawOled_on hon (.inl waiting_fits)
  refine ⟨o', ?_, hon'⟩
  have hfirst : drawOled OLED_AP_ROW apText { o with display := d₀ } = some { o with display := d₁ } := by
    rw [drawOled, hap]
    rfl
  rw [bootOled, hclr, Option.bind_some, hfirst, Option.bind_some]
  exact hdraw

/-- The server as it starts, without messages yet. -/
def startedQuiet (past : Ptr) (F : Flash) (s : Srv (Ota φ)) : Srv (Ota φ) :=
  { started past F s with app := { (started past F s).app with msgs := [] } }

/-- The server as it starts, with the display as `app_main` leaves it. -/
def bootShown (past : Ptr) (F : Flash) (o : SSD1306) (s : Srv (Ota φ)) : Srv (Shown φ) :=
  (startedQuiet past F s).map (fun ota => { ota := ota, oled := bootOled o, view := bootView })

/-- **The screen in every run**, whatever the datagrams are: the server does what it does without the display, every message
fits the screen, no glyph is read outside the font, and the screen is what the view says; behind a restart, that the update
was successful. -/
theorem shown_run (env : OtaEnv φ) {used : φ → Nat} (hfw : env.api.Within used APP_SIZE) (F : Flash) (o : SSD1306)
    (s : Srv (Ota φ)) (es : List Recv) :
    (run (shownServer env) (bootShown env.past F o s) es).map Shown.ota =
        run (otaServer env) (startedQuiet env.past F s) es ∧
      (∀ text ∈ (run (shownServer env) (bootShown env.past F o s) es).app.ota.msgs, Fits 1 text ∨ Fits 2 text) ∧
      (∃ o', (run (shownServer env) (bootShown env.past F o s) es).app.oled = some o' ∧
        (run (shownServer env) (bootShown env.past F o s) es).app.view.On o') ∧
      ((run (shownServer env) (bootShown env.past F o s) es).mode = .stopped →
        (run (shownServer env) (bootShown env.past F o s) es).app.view.status = ascii "Update successful") := by
  obtain ⟨o₀, hboot, hon⟩ := bootOled_on o
  have hstart : Between (bootShown env.past F o s).app :=
    ⟨(started_bounded env.past F s).of_fields rfl rfl rfl, fun text hmem => absurd hmem List.not_mem_nil, o₀, hboot, hon⟩
  have hturn := (shownServer_turns hfw).run (OnTurn.idle rfl hstart) es
  have hmap := (run_map (shownServer_projects env) (bootShown env.past F o s) es).symm
  rw [bootShown, Srv.map_back (fun _ => rfl), ← bootShown] at hmap
  refine ⟨hmap, ?_⟩
  generalize run (shownServer env) (bootShown env.past F o s) es = final at hturn ⊢
  have hbehind : final.mode = .stopped → Between final.app ∧ final.app.view.status = ascii "Update successful" := by
    intro hmode
    unfold OnTurn at hturn
    rw [hmode] at hturn
    obtain ⟨app, h | h, -, happ⟩ := hturn
    · rw [happ]
      exact h.restarts env
    · rw [happ]
      exact h.restarts env
  have hstop := fun hmode => (hbehind hmode).2
  rcases hturn.some with h | h | h | ⟨hmode, -⟩
  · exact ⟨h.polite, h.on, hstop⟩
  · obtain ⟨o', ho, hon', -⟩ := h.on
    exact ⟨h.polite, ⟨o', ho, hon'⟩, hstop⟩
  · obtain ⟨o', ho, hon', -⟩ := h.on
    exact ⟨h.polite, ⟨o', ho, hon'⟩, hstop⟩
  · exact ⟨(hbehind hmode).1.polite, (hbehind hmode).1.on, hstop⟩

/-- A partition for firmware that counts its bytes. -/
def partitionOta : OtaApi Nat where
  nextPartition := fun _ => some 0
  otaBegin := fun _ _ => (some 1, 0)
  otaWrite := fun _ data fw => if fw + data.length ≤ APP_SIZE then (true, fw + data.length) else (false, fw)
  otaEnd := fun _ fw => (false, fw)
  setBoot := fun _ fw => fw

theorem partitionOta_within : partitionOta.Within id APP_SIZE where
  writes handle data fw fw' h := by
    unfold partitionOta at h
    simp only at h
    split at h
    · rename_i hfit
      cases h
      exact ⟨rfl, hfit⟩
    · cases h
  refuses handle data fw fw' h := by
    unfold partitionOta at h
    simp only at h
    split at h
    · cases h
    · cases h
      exact Nat.le_refl _

def partitionEnv : OtaEnv Nat := ⟨fun _ => 0, fun _ => .working, partitionOta⟩

def quietServer : Srv (Ota Nat) :=
  { mode := .idle, buffer := Buffer.fill _ 0, dataSize := 0, client := 0, out := [], hist := [],
    app := { setup := boot NorFlash.erased, job := .none, curPtr := 0, cfgBuf := Buffer.fill _ 0, otaHandle := 0,
             nextPartition := none, ticks := 0, msgs := [], fw := 0, saved := [] } }

/-- A whole download of the partition clears the screen: the text at the top is gone. -/
theorem shown_run_download :
    ∃ o', (run (shownServer partitionEnv) (bootShown partitionEnv.past NorFlash.erased SSD1306.new quietServer)
        (readEvents 1 (ascii "full.cfg") 4096)).app.oled = some o' ∧ ∀ ram row col, row < 5 → col < 128 →
      screen ram o'.display.writes row col = clearedAt row col := by
  obtain ⟨-, -, ⟨o', ho, hon⟩, -⟩ := shown_run partitionEnv partitionOta_within NorFlash.erased SSD1306.new quietServer
    (readEvents 1 (ascii "full.cfg") 4096)
  have hview : (run (shownServer partitionEnv) (bootShown partitionEnv.past NorFlash.erased SSD1306.new quietServer)
      (readEvents 1 (ascii "full.cfg") 4096)).app.view.top = false := by
    decide +kernel
  refine ⟨o', ho, fun ram row col hrow hcol => ?_⟩
  have htop := hon.top ram row col hrow hcol
  rw [hview] at htop
  exact htop

end Mstd.Tftp
