import Mstd.TftpAtomic
import Mstd.TftpDownload
import Mstd.WifiInit
/-!
# From the tool to the device and back

`send` brings an image to the device over a link that loses packets, the device writes it to its flash and is reset,
`wifi_init` uses it, and `read` brings the file back over a network that loses, repeats and reorders datagrams: it is the
image, with its CRC filled in (`image_survives`).
-/
namespace Mstd

open ByteMem (Ptr)
open NorFlash (mem)

/-- There is no SSID in these bytes, or `passwd` ends in a zero: `wifi_init` changes nothing in them. -/
def PasswdKept (bytes : List UInt8) : Prop := bytes.getD 7 0 = 0 ∨ bytes.getD 103 0 = 0

instance (bytes : List UInt8) : Decidable (PasswdKept bytes) := by unfold PasswdKept; infer_instance

/-- The byte at `i` of the selected record. -/
theorem mem_of_selected {past : Ptr} {F : Flash} {off : Nat} {bytes : List UInt8}
    (hoff : (reload past F).config = some off) (hsel : selected past F = some bytes) {i : Nat} (hi : i < bytes.length) :
    mem F past (off + i) = bytes.getD i 0 := by
  rw [selected, configBytes_reload, hoff, Option.map_some] at hsel
  have hbytes := Option.some.inj hsel
  rw [← hbytes, ByteMem.length_window] at hi
  rw [← hbytes, List.getD_eq_getElem?_getD, ByteMem.getElem?_window _ _ _ _ hi, Option.getD_some]

/-- **The boot uses the record that a load selects**, when its password is terminated. -/
theorem configBytes_bootWifi {past : Ptr} {F : Flash} {bytes : List UInt8} (hsel : selected past F = some bytes)
    (hlen : 104 ≤ bytes.length) (hkept : PasswdKept bytes) :
    (bootWifi past F).setup.configBytes (bootWifi past F).past = some bytes := by
  obtain ⟨hconfig, hsize, -⟩ := wifiInit_setup past (reload past F)
  cases hoff : (reload past F).config with
  | none =>
    rw [selected, configBytes_reload, hoff] at hsel
    cases hsel
  | some off =>
    have hbyte : ∀ i, i < bytes.length → mem F past (off + i) = bytes.getD i 0 :=
      fun i hi => mem_of_selected hoff hsel hi
    have hmem : mem (bootWifi past F).setup.cfgFull (bootWifi past F).past = mem F past := by
      by_cases hssid : mem (reload past F).cfgFull past (ssidAt off) = 0
      · unfold bootWifi wifiInit
        rw [hoff]
        simp only [hssid, if_true]
        rfl
      · have hzero : mem F past (off + 103) = 0 := by
          rw [hbyte 103 (by omega)]
          refine hkept.resolve_left (fun h7 => hssid ?_)
          rw [← h7]
          exact hbyte 7 (by omega)
        rw [bootWifi, mem_wifiInit hoff hssid]
        exact Function.update_eq_self_iff.2 hzero.symm
    rw [← hsel, selected, configBytes_reload, Setup.configBytes, hmem]
    show Option.map _ (bootWifi past F).setup.config = _
    rw [show (bootWifi past F).setup.config = _ from hconfig, show (bootWifi past F).setup.cfgSize = _ from hsize]

namespace Tftp

variable {φ : Type}

/-- A `read` of `cfg.cfg` from the device that has booted from this partition. -/
def readBack (env : OtaEnv φ) (host device : Addr) (s : Srv (Ota φ)) (F : Flash) (ds : List Link.Delivery) :
    Link.Net Read (Srv (Ota φ)) Datagram Datagram :=
  downloadRun (bootEnv env F) host device (bootServer env.past F s) cfgName ds

/-- **What `read` brings is what a load selects**, when `wifi_init` leaves it as it is. -/
theorem readBack_selected (env : OtaEnv φ) (host device : Addr) (s : Srv (Ota φ)) (F : Flash) {bytes : List UInt8}
    (hsel : selected env.past F = some bytes) (hlen : 104 ≤ bytes.length) (hkept : PasswdKept bytes)
    (ds : List Link.Delivery) (hret : (readBack env host device s F ds).left.progress = .returned) :
    (readBack env host device s F ds).left.result = bytes := by
  have hsize : (bootServer env.past F s).app.setup.cfgSize ≤ MAX_CFG_SIZE := by
    show (bootWifi env.past F).setup.cfgSize ≤ MAX_CFG_SIZE
    rw [bootWifi, (wifiInit_setup env.past (reload env.past F)).2.1]
    exact reload_fits env.past F
  have hread := (downloadRun_file (bootEnv env F) host device (s := bootServer env.past F s) rfl hsize
    (show 0 ∉ cfgName by decide) (show cfgName.length ≤ 500 by decide) ds).2 hret
  rw [show jobOfName cfgName false = .sendCfg by decide, fileOf_sendCfg] at hread
  have hbytes := configBytes_bootWifi hsel hlen hkept
  exact (Option.some.inj (hbytes.symm.trans hread)).symm

/-- **An upload of `cfg.cfg` that `send` reported**, to a device with a good store whose flash works; the last block got
through. -/
structure Reported (env : OtaEnv φ) (host device : Addr) (s : Srv (Ota φ)) (image : List UInt8)
    (actions : List Link.Action) : Prop where
  flash : ∀ i, env.fate i = .working
  good : ∀ past, Good past s.app.setup
  arrives : Link.Along (LastArrives cfgName image) (clientMachine device) (serverMachine (otaServer env) host)
    (uploadStart s cfgName image) actions
  returned : (uploadRun (otaServer env) host device s cfgName image actions).left.progress = .returned

/-- The partition once the server has taken what was in flight. -/
def uploaded (env : OtaEnv φ) (host device : Addr) (s : Srv (Ota φ)) (image : List UInt8) (actions : List Link.Action) :
    Flash :=
  (Link.drain (clientMachine device) (serverMachine (otaServer env) host)
    (uploadRun (otaServer env) host device s cfgName image actions)).right.app.setup.flash

/-- **An image survives the way to the device and back.**  `send` brings it to the device over a lossy link; the device
stores it with its CRC filled in, is reset and boots; `read` brings `cfg.cfg` back over any network.  What comes back is
the image with its CRC. -/
theorem image_survives (env : OtaEnv φ) (host device : Addr) (s s' : Srv (Ota φ)) (image : List UInt8)
    (actions : List Link.Action) (ds : List Link.Delivery) (himg : Accepted (savedImage image))
    (hcrc : imageCrc image ≠ 0xFFFFFFFF) (hkept : PasswdKept (savedImage image))
    (hrep : Reported env host device s image actions)
    (hret : (readBack env host device s' (uploaded env host device s image actions) ds).left.progress = .returned) :
    (readBack env host device s' (uploaded env host device s image actions) ds).left.result = savedImage image := by
  have hsel : selected env.past (uploaded env host device s image actions) = some (savedImage image) :=
    upload_stored env host device s cfgName image actions hrep.flash hrep.good himg hcrc (by decide) (by decide)
      (by decide) hrep.arrives hrep.returned env.past
  have hmin := himg.ge_min
  unfold sizeofConfigV0 at hmin
  exact readBack_selected env host device s' _ hsel (by omega) hkept ds hret

/-- A device that is new, an ACK that is lost, and a download in which the request is repeated. -/
theorem image_survives_repeated :
    (readBack stockEnv 1 2 freshServer (uploaded stockEnv 1 2 freshServer smallImage
      [.rightRecv, .loseToLeft 0, .leftTimeout, .rightRecv, .leftRecv]) [.right 0, .right 0, .left 0]).left.result =
        savedImage smallImage :=
  image_survives stockEnv 1 2 freshServer freshServer smallImage
    [.rightRecv, .loseToLeft 0, .leftTimeout, .rightRecv, .leftRecv] [.right 0, .right 0, .left 0]
    ((accepted_savedImage_iff smallImage).2 (by decide +kernel)) smallImage_crc (by decide +kernel)
    ⟨fun _ => rfl, freshStore_good, ⟨trivial, trivial, trivial, trivial, trivial, trivial⟩, by decide +kernel⟩
    (by decide +kernel)

end Tftp

end Mstd
