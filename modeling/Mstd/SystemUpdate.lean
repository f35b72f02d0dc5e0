import Mstd.CfgMain
import Mstd.SystemRoundTrip
/-!
# An update over the network

`main -u` reads the config of a device over a network that loses, repeats and reorders datagrams, sets what its command
line names, and sends the image back over a link that loses packets.  The next boot selects it, with every other setting
as it was (`device_updated`).
-/
namespace Mstd.Tftp

open Cfg (World Args Config ConfigImage ConfigData hiddenNames encodeField joined)

variable {φ : Type}

/-- The image of a source that is a device. -/
theorem sourceLoad_device {w : World} {force : Nat} {src ip : Py.Str} {bytes : List UInt8} {l : Cfg.Load}
    (hinit : ConfigImage.init src .none = .ok ⟨.tftp ip, Cfg.cfgFile⟩) (hread : w.read ip Cfg.cfgFile = some bytes)
    (h : Cfg.sourceLoad w force src = .ok l) : l = .bin bytes force := by
  unfold Cfg.sourceLoad at h
  rw [hinit] at h
  simp only [ConfigImage.value, hread, bind, Except.bind] at h
  cases h
  rfl

/-- **What `main` sends** to a device that it read from: the new values in the fields that are named, and the old bytes in
all others. -/
theorem update_fields {w : World} {args : Args} {cfg : Config} (hcfg : w.config args.config = .ok cfg)
    (hlayout : cfg.DeviceLayout) (hbypass : args.bypass = false) {src ip : Py.Str}
    (hfiles : args.srcFiles = .ok ([src], src)) {bytes img : List UInt8} (hread : w.read ip Cfg.cfgFile = some bytes)
    (hmain : Cfg.main w args = .ok (.device ip Cfg.cfgFile img)) :
    (args.unsafeCrc = false → Cfg.Whole img cfg.version) ∧
    ∀ f ∈ cfg.fields, f.name ∉ hiddenNames →
      ((img.drop f.shift).take f.size = encodeField f.type
        (joined f (some (ConfigData.fromBinary f ((bytes.drop f.shift).take f.size))) args.overrides)) ∧
      ((∀ o ∈ args.argOverride, o.1 ≠ f.name) → f.shift + f.size ≤ bytes.length →
        (img.drop f.shift).take f.size = (bytes.drop f.shift).take f.size) := by
  obtain ⟨srcs, dst, ls, d, d', hfiles', hls, hloads, hsave⟩ := Cfg.main_saved hcfg hbypass hmain rfl
  cases hfiles.symm.trans hfiles'
  obtain ⟨-, hwhole, hfields⟩ := Cfg.saved_joined hlayout hloads hsave
  refine ⟨hwhole, fun f hf hname => ?_⟩
  -- one source, which is the device
  cases hls with
  | cons hl hnil =>
    cases hnil
    rw [sourceLoad_device (Cfg.main_device hbypass hfiles hmain) hread hl] at hfields
    have hfield := hfields f hf hname
    refine ⟨hfield, fun hnot hle => ?_⟩
    rw [hfield, Cfg.joined_append, Args.overrides, Cfg.joined_overrides f hnot]
    exact Cfg.encodeField_fromBinary f (by simp; omega)

/-- **A device is reconfigured over a network.**  `main` reads its config over any network, sets what the command line
names and sends it back over a lossy link.  The device stores the image, the next boot selects it; the fields that are
named hold their new values, and all others what they held. -/
theorem device_updated (env : OtaEnv φ) (host device : Addr) (s s' : Srv (Ota φ)) (F : Flash) (ds : List Link.Delivery)
    (bytes : List UInt8) (hsel : selected env.past F = some bytes) (hlen : 104 ≤ bytes.length) (hkept : PasswdKept bytes)
    (hret : (readBack env host device s F ds).left.progress = .returned)
    (w : World) (args : Args) (cfg : Config) (hcfg : w.config args.config = .ok cfg) (hlayout : cfg.DeviceLayout)
    (hbypass : args.bypass = false) (hwith : args.unsafeCrc = false) (src ip : Py.Str)
    (hfiles : args.srcFiles = .ok ([src], src))
    (hread : w.read ip Cfg.cfgFile = some (readBack env host device s F ds).left.result) (img : List UInt8)
    (hmain : Cfg.main w args = .ok (.device ip Cfg.cfgFile img)) (hcrc : imageCrc img ≠ 0xFFFFFFFF)
    (actions : List Link.Action) (hrep : Reported env host device s' img actions) :
    selected env.past (uploaded env host device s' img actions) = some img ∧
      ∀ f ∈ cfg.fields, f.name ∉ hiddenNames →
        ((img.drop f.shift).take f.size = encodeField f.type
          (joined f (some (ConfigData.fromBinary f ((bytes.drop f.shift).take f.size))) args.overrides)) ∧
        ((∀ o ∈ args.argOverride, o.1 ≠ f.name) → f.shift + f.size ≤ bytes.length →
          (img.drop f.shift).take f.size = (bytes.drop f.shift).take f.size) := by
  have hback := readBack_selected env host device s F hsel hlen hkept ds hret
  obtain ⟨hwhole, hfields⟩ := update_fields hcfg hlayout hbypass hfiles (hback ▸ hread) hmain
  have hwhole := hwhole hwith
  refine ⟨?_, hfields⟩
  have hsaved : savedImage img = img := by
    rw [savedImage, hwhole.crc, Cfg.evalCrc_eq]
    exact if_neg hcrc
  have hstored := upload_stored env host device s' cfgName img actions hrep.flash hrep.good hwhole.accepted hcrc
    (by decide) (by decide) (by decide) hrep.arrives hrep.returned env.past
  rwa [hsaved] at hstored

/-- A partition with a config of version 1. -/
def configuredFlash : Flash := (saveConfigImage .working freshStore (Cfg.zeroImage 26 108)).dev.flash

/-- `main -u` with an SSID, for a device. -/
def ssidArgs : Args where
  srcConfig := Cfg.mstdName
  dstConfig := some "ssid=ap".toList
  update := true

/-- The request is repeated on the way back, and the first ACK is lost on the way there. -/
theorem device_updated_ssid :
    ∃ img, Cfg.main (Cfg.smallWorld
        (readBack stockEnv 1 2 freshServer configuredFlash [.right 0, .right 0, .left 0]).left.result) ssidArgs =
          .ok (.device Cfg.mstdIp Cfg.cfgFile img) ∧
      selected stockEnv.past (uploaded stockEnv 1 2 freshServer img
        [.rightRecv, .loseToLeft 0, .leftTimeout, .rightRecv, .leftRecv]) = some img := by
  obtain ⟨img, hmain, hp⟩ := Cfg.main_sent
    (Cfg.smallWorld (readBack stockEnv 1 2 freshServer configuredFlash [.right 0, .right 0, .left 0]).left.result)
    ssidArgs Cfg.mstdIp
    (p := fun img => decide (imageCrc img ≠ 0xFFFFFFFF ∧ (uploadRun (otaServer stockEnv) 1 2 freshServer cfgName img
      [.rightRecv, .loseToLeft 0, .leftTimeout, .rightRecv, .leftRecv]).left.progress = .returned)) (by decide +kernel)
  obtain ⟨hcrc, hret⟩ := of_decide_eq_true hp
  refine ⟨img, hmain, (device_updated stockEnv 1 2 freshServer freshServer configuredFlash [.right 0, .right 0, .left 0]
    (Cfg.zeroImage 26 108) (by decide +kernel) (by decide +kernel) (by decide +kernel) (by decide +kernel) _ ssidArgs
    Cfg.configV1 (Cfg.config_smallWorld _) Cfg.configV1_deviceLayout rfl rfl Cfg.mstdName Cfg.mstdIp rfl rfl img hmain hcrc
    [.rightRecv, .loseToLeft 0, .leftTimeout, .rightRecv, .leftRecv]
    ⟨fun _ => rfl, freshStore_good, ⟨trivial, trivial, trivial, trivial, trivial, trivial⟩, hret⟩).1⟩

end Mstd.Tftp
