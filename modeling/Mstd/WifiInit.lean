import Mathlib.Data.List.OfFn
import Mstd.CfgImage
import Mstd.SetupRecord
import Mstd.SetupSelect
import Mstd.TftpSession
/-!
# The boot (`app_main`, `wifi_module.cpp`)

`load_config` reads the partition into `cfg_full`, and `wifi_init` hands the credentials of the config to the driver.
It terminates `passwd` in place, through `config`, so in the image that the update server sends.  The server sends the
partition as it is exactly when that byte is zero already, or not in the image (`boot_serves_iff`).
-/
namespace Mstd

open ByteMem (Ptr window ofList)
open NorFlash (mem program erased)
open StateTransition (Reaches)
open Relation (ReflTransGen)

/-! ## `wifi_init` -/

/-- `config->ssid`. -/
def ssidAt (off : Nat) : Nat := off + 7

/-- `config->passwd`. -/
def passwdAt (off : Nat) : Nat := off + 40

/-- The string in the `n` bytes from `off` on. -/
def stringAt (p : Ptr) (off n : Nat) : List UInt8 := (window p off n).takeWhile (· ≠ 0)

/-- `ssid` and `password` of the `wifi_config_t` of the station. -/
structure StaConfig where
  ssid : List UInt8
  password : List UInt8

/-- The RAM behind `cfg_full`, the statics, and the station's config if there is one. -/
structure WifiInit where
  past : Ptr
  setup : Setup
  sta : Option StaConfig

/-- A byte stored at offset `i` from `cfg_full` on. -/
def storeByte (past : Ptr) (d : Setup) (i : Nat) (b : UInt8) : Ptr × Setup :=
  if h : i < MAX_CFG_SIZE then (past, { d with cfgFull := Function.update d.cfgFull ⟨i, h⟩ b })
  else (Function.update past i b, d)

/-- `do_sta` needs a config with an SSID.  `strncpy` copies at most 32 bytes of it; `strcpy` of the password ends at
`passwd[63]` at the latest. -/
def wifiInit (past : Ptr) (d : Setup) : WifiInit :=
  match d.config with
  | none     => { past := past, setup := d, sta := none }
  | some off =>
    if mem d.cfgFull past (ssidAt off) = 0 then { past := past, setup := d, sta := none }
    else
      let stored := storeByte past d (passwdAt off + 63) 0
      let p := mem stored.2.cfgFull stored.1
      { past := stored.1, setup := stored.2,
        sta := some { ssid := stringAt p (ssidAt off) 32, password := stringAt p (passwdAt off) 64 } }

/-- `load_config`, then `wifi_init`, after a reset. -/
def bootWifi (past : Ptr) (F : Flash) : WifiInit := wifiInit past (reload past F)

theorem mem_storeByte (past : Ptr) (d : Setup) (i : Nat) (b : UInt8) (j : Nat) :
    mem (storeByte past d i b).2.cfgFull (storeByte past d i b).1 j = if j = i then b else mem d.cfgFull past j := by
  unfold storeByte
  by_cases h : i < MAX_CFG_SIZE
  · rw [dif_pos h]
    by_cases hj : j < MAX_CFG_SIZE
    · rw [NorFlash.mem_of_lt _ _ hj, NorFlash.mem_of_lt _ _ hj]
      simp only [Function.update_apply, Fin.mk.injEq]
    · rw [NorFlash.mem_of_ge _ _ (Nat.not_lt.1 hj), NorFlash.mem_of_ge _ _ (Nat.not_lt.1 hj), if_neg (by omega)]
  · rw [dif_neg h]
    by_cases hj : j < MAX_CFG_SIZE
    · rw [NorFlash.mem_of_lt _ _ hj, NorFlash.mem_of_lt _ _ hj, if_neg (by omega)]
    · rw [NorFlash.mem_of_ge _ _ (Nat.not_lt.1 hj), NorFlash.mem_of_ge _ _ (Nat.not_lt.1 hj)]
      simp only [Function.update_apply]

/-- **The store makes `strcpy` safe**: the password fits the driver's 64 bytes with its terminator. -/
theorem length_password_lt {past : Ptr} {d : Setup} {c : StaConfig} (h : (wifiInit past d).sta = some c) :
    c.password.length < 64 := by
  unfold wifiInit at h
  cases hconf : d.config with
  | none => rw [hconf] at h; cases h
  | some off =>
    rw [hconf] at h
    simp only at h
    split at h
    · cases h
    · cases h
      have hzero := mem_storeByte past d (passwdAt off + 63) 0 (passwdAt off + 63)
      rw [if_pos rfl] at hzero
      have hlen : (stringAt (mem (storeByte past d (passwdAt off + 63) 0).2.cfgFull
          (storeByte past d (passwdAt off + 63) 0).1) (passwdAt off) 64).length ≤ 64 :=
        (List.takeWhile_sublist _).length_le.trans (by rw [ByteMem.length_window])
      refine Nat.lt_of_le_of_ne hlen (fun heq => ?_)
      -- a string of 64 bytes would be the whole window, with the zero at its end
      have hall := (List.takeWhile_prefix (l := window (mem (storeByte past d (passwdAt off + 63) 0).2.cfgFull
        (storeByte past d (passwdAt off + 63) 0).1) (passwdAt off) 64) (fun b => decide (b ≠ 0))).eq_of_length
        (heq.trans (ByteMem.length_window _ _ _).symm)
      rw [List.takeWhile_eq_self_iff] at hall
      have hw := ByteMem.getElem?_window (mem (storeByte past d (passwdAt off + 63) 0).2.cfgFull
        (storeByte past d (passwdAt off + 63) 0).1) (passwdAt off) 64 63 (by decide)
      have hne := hall _ (List.mem_of_getElem? hw)
      rw [hzero] at hne
      exact absurd hne (by decide)

/-- The config stays where it is, and its last byte of `passwd` is zeroed if there is an SSID. -/
theorem wifiInit_setup (past : Ptr) (d : Setup) :
    (wifiInit past d).setup.config = d.config ∧ (wifiInit past d).setup.cfgSize = d.cfgSize ∧
      (wifiInit past d).setup.cfgFullLoaded = d.cfgFullLoaded := by
  have hstore : ∀ i b, (storeByte past d i b).2.config = d.config ∧ (storeByte past d i b).2.cfgSize = d.cfgSize ∧
      (storeByte past d i b).2.cfgFullLoaded = d.cfgFullLoaded := by
    intro i b
    unfold storeByte
    split <;> exact ⟨rfl, rfl, rfl⟩
  unfold wifiInit
  split
  · exact ⟨rfl, rfl, rfl⟩
  · split
    · exact ⟨rfl, rfl, rfl⟩
    · exact hstore _ _

/-- **What `wifi_init` does to the memory** when there is an SSID. -/
theorem mem_wifiInit {past : Ptr} {d : Setup} {off : Nat} (hconf : d.config = some off)
    (hssid : mem d.cfgFull past (ssidAt off) ≠ 0) :
    mem (wifiInit past d).setup.cfgFull (wifiInit past d).past =
      Function.update (mem d.cfgFull past) (passwdAt off + 63) 0 := by
  funext j
  unfold wifiInit
  rw [hconf]
  simp only [hssid, if_false]
  rw [mem_storeByte, Function.update_apply]

/-- **When `wifi_init` leaves the image as it is.** -/
theorem wifiInit_cfgFull_iff (past : Ptr) (d : Setup) :
    (wifiInit past d).setup.cfgFull = d.cfgFull ↔
      ∀ off, d.config = some off → mem d.cfgFull past (ssidAt off) = 0 ∨ MAX_CFG_SIZE ≤ passwdAt off + 63 ∨
        mem d.cfgFull past (passwdAt off + 63) = 0 := by
  unfold wifiInit
  cases hconf : d.config with
  | none => exact ⟨fun _ off h => (by cases h), fun _ => rfl⟩
  | some off =>
    simp only [Option.some.injEq, forall_eq']
    by_cases hssid : mem d.cfgFull past (ssidAt off) = 0
    · rw [if_pos hssid]
      exact ⟨fun _ => Or.inl hssid, fun _ => rfl⟩
    · rw [if_neg hssid]
      unfold storeByte
      by_cases hin : passwdAt off + 63 < MAX_CFG_SIZE
      · rw [dif_pos hin]
        simp only [hssid, Nat.not_le.2 hin, false_or, Function.update_eq_self_iff, NorFlash.mem_of_lt _ past hin]
        exact eq_comm
      · rw [dif_neg hin]
        exact ⟨fun _ => Or.inr (Or.inl (Nat.not_lt.1 hin)), fun _ => rfl⟩

/-! ## The selected record -/

/-- **The selected record is the last one on the chain of frames.** -/
theorem config_reload_iff (past : Ptr) (F : Flash) (off : Nat) :
    (reload past F).config = some off ↔
      ∃ sz, OnChain (mem F past) off sz ∧ ∀ y sz', OnChain (mem F past) y sz' → y ≤ off := by
  obtain ⟨hrecord, hlast⟩ := lastRecord_reload past F
  constructor
  · intro h
    refine ⟨_, hrecord off h, fun y sz' hy => ?_⟩
    obtain ⟨off', hoff', hle⟩ := hlast y sz' hy
    rw [h] at hoff'
    cases hoff'
    exact hle
  · rintro ⟨sz, hon, hmax⟩
    obtain ⟨off', hoff', hle⟩ := hlast off sz hon
    rw [hoff', Nat.le_antisymm (hmax off' _ (hrecord off' hoff')) hle]

/-- The last record of the partition has no SSID, or its `passwd` ends in a zero, or outside the partition. -/
def PasswdTerminated (past : Ptr) (F : Flash) : Prop :=
  ∀ off sz, OnChain (mem F past) off sz → (∀ y sz', OnChain (mem F past) y sz' → y ≤ off) →
    mem F past (ssidAt off) = 0 ∨ MAX_CFG_SIZE ≤ passwdAt off + 63 ∨ mem F past (passwdAt off + 63) = 0

theorem bootWifi_cfgFull_iff (past : Ptr) (F : Flash) :
    (bootWifi past F).setup.cfgFull = F ↔ PasswdTerminated past F := by
  rw [show ((bootWifi past F).setup.cfgFull = F) = ((wifiInit past (reload past F)).setup.cfgFull =
    (reload past F).cfgFull) from rfl, wifiInit_cfgFull_iff]
  simp only [config_reload_iff]
  exact ⟨fun h off sz hon hmax => h off ⟨sz, hon, hmax⟩, fun h off ⟨sz, hon, hmax⟩ => h off sz hon hmax⟩

/-! ## The server behind the boot -/

/-- The CRC field of these bytes is right, and no header makes the tool report another CRC. -/
structure CrcSound (bytes : List UInt8) : Prop where
  crc : crcAt (ofList bytes) 0 = imageCrc bytes
  tool : ∀ (d : Cfg.ConfigData) (crc expected : Nat), d.isBinaryAccepted bytes ≠ .error (.wrongCrc crc expected)

theorem crcSound_of_crc {bytes : List UInt8} (h : crcAt (ofList bytes) 0 = imageCrc bytes) : CrcSound bytes := by
  refine ⟨h, fun d crc expected hbad => ?_⟩
  unfold Cfg.ConfigData.isBinaryAccepted at hbad
  by_cases hlen : 7 ≤ bytes.length
  · rw [Cfg.decodeHeader_eq hlen] at hbad
    simp only [Cfg.evalCrc_eq, h] at hbad
    split at hbad
    · cases hbad
    · rw [if_neg (fun hne => hne.2 rfl)] at hbad
      unfold Cfg.ConfigData.getTomlValue Cfg.ConfigData.slot at hbad
      cases hslot : d.data.get? "version".toList with
      | none => rw [hslot] at hbad; cases hbad
      | some slot =>
        simp only [hslot, Except.map] at hbad
        split at hbad <;> cases hbad
  · rw [Cfg.decodeHeader, if_pos (by omega)] at hbad
    cases hbad

namespace Tftp

variable {φ : Type}

def fullName : List UInt8 := ascii "full.cfg"

/-- The server of a device that has booted from this partition. -/
def bootServer (past : Ptr) (F : Flash) (s : Srv (Ota φ)) : Srv (Ota φ) :=
  { s with mode := .idle, app := { s.app with setup := (bootWifi past F).setup } }

/-- What it runs on: the RAM behind `cfg_full` as the boot left it. -/
def bootEnv (env : OtaEnv φ) (F : Flash) : OtaEnv φ := { env with past := (bootWifi env.past F).past }

/-- What `read` gets in a complete download. -/
def brought (env : OtaEnv φ) (s : Srv (Ota φ)) (c : Addr) (name : List UInt8) (size : Nat) : Option (List UInt8) :=
  readResult ((run (otaServer env) s (readEvents c name size)).out.drop s.out.length)

/-- **The device serves its partition**: `full.cfg` is the partition, and `cfg.cfg` has a right CRC. -/
structure ServesPartition (env : OtaEnv φ) (s : Srv (Ota φ)) (F : Flash) : Prop where
  full : ∀ c, brought env s c fullName MAX_CFG_SIZE = some (flashBytes F)
  config : s.app.setup.config ≠ none →
    ∀ c, ∃ bytes, brought env s c cfgName s.app.setup.cfgSize = some bytes ∧ CrcSound bytes

section

variable (env : OtaEnv φ) (F : Flash) (s : Srv (Ota φ)) (c : Addr)

theorem bootServer_rests : Rests (bootServer env.past F s) (bootWifi env.past F).setup s.app.saved := ⟨rfl, rfl, rfl⟩

/-- A download of `full.cfg` brings `cfg_full`. -/
theorem brought_full :
    brought (bootEnv env F) (bootServer env.past F s) c fullName MAX_CFG_SIZE =
      some (flashBytes (bootWifi env.past F).setup.cfgFull) := by
  have hloaded : (bootWifi env.past F).setup.cfgFullLoaded = true := (wifiInit_setup env.past (reload env.past F)).2.2
  have hfile : fileOf (bootEnv env F).past (bootWifi env.past F).setup (jobOfName fullName false) =
      some (flashBytes (bootWifi env.past F).setup.cfgFull) := by
    rw [show jobOfName fullName false = .sendFCfg by decide, fileOf, Job.source, if_pos hloaded, Option.map_some,
      window_flashBytes]
  have hread := run_read (bootEnv env F) (bootServer_rests env F s) fullName (by decide) (by decide)
    (Nat.le_refl MAX_CFG_SIZE) (fun bytes hb => by
      rw [hfile] at hb
      rw [← Option.some.inj hb, length_flashBytes]) c
  rw [hfile] at hread
  exact hread.2

/-- A download of `cfg.cfg` brings the bytes at `config`. -/
theorem brought_config :
    brought (bootEnv env F) (bootServer env.past F s) c cfgName (bootWifi env.past F).setup.cfgSize =
      (bootWifi env.past F).setup.configBytes (bootEnv env F).past := by
  have hsize : (bootWifi env.past F).setup.cfgSize ≤ MAX_CFG_SIZE := by
    rw [bootWifi, (wifiInit_setup env.past (reload env.past F)).2.1]
    exact reload_fits env.past F
  exact (run_download (bootEnv env F) (bootServer_rests env F s) hsize c).2

/-- In an image as it was the config has a right CRC. -/
theorem crcSound_of_cfgFull (hkeep : (bootWifi env.past F).setup.cfgFull = F)
    (hconf : (bootWifi env.past F).setup.config ≠ none) :
    ∃ bytes, (bootWifi env.past F).setup.configBytes (bootEnv env F).past = some bytes ∧ CrcSound bytes := by
  obtain ⟨hconfig, hsize, -⟩ := wifiInit_setup env.past (reload env.past F)
  obtain ⟨off, hoff⟩ := Option.ne_none_iff_exists'.1 hconf
  have hrec := ((lastRecord_reload env.past F).1 off (hconfig ▸ hoff)).2
  obtain ⟨hfour, hfit⟩ := hrec.fits
  have hlen := ByteMem.length_window (mem F env.past) off (reload env.past F).cfgSize
  have hw : window (mem F (bootEnv env F).past) off (reload env.past F).cfgSize =
      window (mem F env.past) off (reload env.past F).cfgSize := by
    refine ByteMem.window_congr (fun i _ hi => ?_)
    rw [NorFlash.mem_of_lt _ _ (by omega), NorFlash.mem_of_lt _ _ (by omega)]
  refine ⟨window (mem F env.past) off (reload env.past F).cfgSize, ?_, crcSound_of_crc ?_⟩
  · rw [Setup.configBytes, hoff, Option.map_some, hkeep, ← hw]
    exact congrArg some (congrArg _ hsize)
  · have hwin : window (mem F env.past) off (window (mem F env.past) off (reload env.past F).cfgSize).length =
        window (mem F env.past) off (reload env.past F).cfgSize := by rw [hlen]
    rw [← crcAt_of_window hwin (by omega), hrec.crc, ← evalCrc_of_window hwin (by omega), hlen]

/-- **When the boot leaves the served files as they are in the partition**: the last record has no SSID, or its
`passwd` is terminated, or it ends before `passwd[63]` at the end of the partition. -/
theorem boot_serves_iff :
    ServesPartition (bootEnv env F) (bootServer env.past F s) F ↔ PasswdTerminated env.past F := by
  rw [← bootWifi_cfgFull_iff]
  constructor
  · intro h
    have hfull := h.full 0
    rw [brought_full] at hfull
    exact List.ofFn_injective (Option.some.inj hfull)
  · intro hkeep
    refine ⟨fun c => ?_, fun hconf c => ?_⟩
    · rw [brought_full, hkeep]
    · obtain ⟨bytes, hbytes, hsound⟩ := crcSound_of_cfgFull env F hkeep hconf
      exact ⟨bytes, (brought_config env F s c).trans hbytes, hsound⟩

end

/-- A config of version 1 with a password of 64 characters. -/
def longPassword : List UInt8 :=
  [0xFF, 0xFF, 0xFF, 0xFF, 0x1A, 0x00, 0x01, 0x41] ++ List.replicate 32 0 ++ List.replicate 64 0x61 ++ [0xCF, 0, 0, 0]

def longPasswordFlash : Flash := program erased 0 (savedImage longPassword)

theorem longPassword_record :
    RecordAt (mem longPasswordFlash stockEnv.past) 0 108 ∧ nextFrame (mem longPasswordFlash stockEnv.past) 108 = none :=
  ⟨⟨by decide +kernel, by decide +kernel⟩, by decide +kernel⟩

/-- After a boot with this config `full.cfg` is not the partition, and `cfg.cfg` fails its CRC. -/
theorem boot_alters_longPassword :
    let env := bootEnv stockEnv longPasswordFlash
    let s := bootServer stockEnv.past longPasswordFlash (stockServer loadedStore [])
    brought env s 0 fullName MAX_CFG_SIZE ≠ some (flashBytes longPasswordFlash) ∧
      ∃ bytes, brought env s 0 cfgName s.app.setup.cfgSize = some bytes ∧ ¬ CrcSound bytes := by
  obtain ⟨hrec, hend⟩ := longPassword_record
  have hon : OnChain (mem longPasswordFlash stockEnv.past) 0 108 := ⟨ReflTransGen.refl, hrec⟩
  have hconf : (reload stockEnv.past longPasswordFlash).config = some 0 :=
    (config_reload_iff _ _ 0).2 ⟨108, hon, fun y sz' hy => (hy.alone hrec hend).1.le⟩
  have hsize : (reload stockEnv.past longPasswordFlash).cfgSize = 108 :=
    (((lastRecord_reload _ _).1 0 hconf).alone hrec hend).2
  refine ⟨fun hfull => ?_, window (Function.update (mem longPasswordFlash stockEnv.past) 103 0) 0 108, ?_, fun hsound => ?_⟩
  · rw [brought_full] at hfull
    have hkeep : (wifiInit stockEnv.past (reload stockEnv.past longPasswordFlash)).setup.cfgFull =
        (reload stockEnv.past longPasswordFlash).cfgFull := List.ofFn_injective (Option.some.inj hfull)
    exact absurd ((wifiInit_cfgFull_iff _ _).1 hkeep 0 hconf) (by decide +kernel)
  · refine (brought_config stockEnv longPasswordFlash _ 0).trans ?_
    rw [Setup.configBytes, bootWifi, (wifiInit_setup _ _).1, (wifiInit_setup _ _).2.1, hconf, hsize, Option.map_some]
    refine congrArg some (congrArg (window · 0 108) ?_)
    exact mem_wifiInit hconf (by decide +kernel)
  · exact absurd hsound.crc (by decide +kernel)

end Tftp

end Mstd
