import Mstd.Crc32
import Mstd.NorFlash
/-!
# The config store (`setup_data.cpp`)

The statics of `setup_data.cpp` and the content of the `config` partition are one record, `Setup`.  `config` is the
offset of the selected record in `cfg_full`.  The flash driver is modelled by its documented effect: `Fate` says
whether a call's erase succeeds, and whether its write does or stops after a prefix.  `past` is the RAM behind
`cfg_full`, which a header read at offset 4092 reaches.
-/
namespace Mstd

open ByteMem (Ptr window u16 u32)
open NorFlash (Cells mem program erased)

def MAX_CFG_SIZE : Nat := 4096

/-- `sizeof(Config_V0)`: crc 4, size 2, version 1, ssid 33, passwd 64, oled_contrast 1, reserved 3. -/
def sizeofConfigV0 : Nat := 108

/-- `sizeof(config)`: `config` is a pointer, of 4 bytes on the ESP32. -/
def sizeofConfig : Nat := 4

abbrev Flash := Cells MAX_CFG_SIZE

/-- The statics `find_active_config` writes. -/
structure Active where
  config : Option Nat
  cfgSize : Nat
  nextCfgShift : Int

structure Setup extends Active where
  flash : Flash
  cfgPat : Bool
  cfgFull : Flash
  cfgFullLoaded : Bool

/-- The statics after a reset are zero; the partition keeps its content. -/
def boot (flash : Flash) : Setup :=
  { flash := flash, cfgPat := false, cfgFull := fun _ => 0, cfgFullLoaded := false, config := none, cfgSize := 0,
    nextCfgShift := 0 }

/-! ## Reading a record -/

/-- `C.crc` of the record at `off`. -/
def crcAt (p : Ptr) (off : Nat) : Nat := u32 p off

/-- `C.size` of the record at `off`. -/
def sizeAt (p : Ptr) (off : Nat) : Nat := u16 p (off + 4)

def evalCrc (p : Ptr) (start stop : Nat) : Nat := (crc32Le 0 (window p start (stop - start))).toNat

/-- `(C.size & 0x3FF) * 4 + 4`. -/
def recordSize (p : Ptr) (off : Nat) : Nat := (sizeAt p off &&& 0x3FF) * 4 + 4

def checkForFreeBytes (p : Ptr) (off stop : Nat) : Bool :=
  if off < stop then
    if p off ≠ 0xFF then false else checkForFreeBytes p (off + 1) stop
  else true
termination_by stop - off

/-- What the loop of `find_active_config` sees at `ptr`. -/
inductive Frame where
  | finish
  | free
  | torn
  | outside
  | record (sz : Nat)
  deriving DecidableEq

def frameAt (p : Ptr) (ptr : Nat) : Frame :=
  if ptr < MAX_CFG_SIZE then
    if crcAt p ptr = 0xFFFFFFFF then .free
    else if sizeAt p ptr >>> 8 = 0xFF then .torn
    else if ptr + recordSize p ptr > MAX_CFG_SIZE then .outside
    else .record (recordSize p ptr)
  else .finish

/-- `start + (((uint8_t*)&C.size - start + 4) & ~3)`, the offset after a torn header. -/
def afterTorn (ptr : Nat) : Nat := (ptr + 4 + 4) / 4 * 4

/-- A record that fits the partition is selected when its CRC is right and its size passes the check. -/
def acceptRecord (p : Ptr) (ptr sz : Nat) (a : Active) : Active :=
  if crcAt p ptr = evalCrc p (ptr + 4) (ptr + sz) then
    if sz ≥ sizeofConfig then { a with cfgSize := sz, config := some ptr } else a
  else a

/-- One pass of the loop goes on at an offset or leaves the loop. -/
inductive Pass where
  | next (ptr : Nat) (a : Active)
  | leave (a : Active)

def scanPass (p : Ptr) (ptr : Nat) (a : Active) : Pass :=
  match frameAt p ptr with
  | .finish    => .leave a
  | .free      => .leave { a with nextCfgShift := if checkForFreeBytes p ptr MAX_CFG_SIZE then ptr else -1 }
  | .torn      => .next (afterTorn ptr) a
  | .outside   => .leave a
  | .record sz => .next (ptr + sz) (acceptRecord p ptr sz a)

theorem ptr_lt_of_scanPass {p : Ptr} {ptr ptr' : Nat} {a a' : Active} (h : scanPass p ptr a = .next ptr' a') :
    ptr < MAX_CFG_SIZE ∧ ptr < ptr' := by
  unfold scanPass frameAt at h
  split at h
  case h_1 => cases h
  case h_2 => cases h
  case h_4 => cases h
  case h_3 hf =>
    cases h
    unfold afterTorn
    refine ⟨?_, by omega⟩
    by_contra hge
    rw [if_neg hge] at hf
    cases hf
  case h_5 sz hf =>
    cases h
    have hlt : ptr < MAX_CFG_SIZE := by
      by_contra hge
      rw [if_neg hge] at hf
      cases hf
    rw [if_pos hlt] at hf
    split at hf
    · cases hf
    · split at hf
      · cases hf
      · split at hf
        · cases hf
        · cases hf
          unfold recordSize
          omega

def findFrom (p : Ptr) (ptr : Nat) (a : Active) : Active :=
  match _h : scanPass p ptr a with
  | .next ptr' a' => findFrom p ptr' a'
  | .leave a'     => a'
termination_by MAX_CFG_SIZE - ptr
decreasing_by
  have := ptr_lt_of_scanPass _h
  omega

def findActiveConfig (p : Ptr) (a : Active) : Active := findFrom p 0 a

/-! ## Loading -/

/-- The partition lookup and the read: a failed read leaves some bytes in `cfg_full`. -/
structure LoadEnv where
  found : Bool
  readFail : Option Flash

def LoadEnv.working : LoadEnv := ⟨true, none⟩

def loadConfig (env : LoadEnv) (past : Ptr) (d : Setup) : Setup :=
  if d.cfgFullLoaded then d
  else if !(d.cfgPat || env.found) then d
  else
    match env.readFail with
    | some junk => { d with cfgFull := junk, cfgPat := false }
    | none =>
      { d with
        cfgPat := true
        cfgFull := d.flash
        cfgFullLoaded := true
        toActive := findActiveConfig (mem d.flash past) d.toActive }

/-- The bytes at `config`. -/
def Setup.configBytes (past : Ptr) (d : Setup) : Option (List UInt8) :=
  d.config.map (fun off => window (mem d.cfgFull past) off d.cfgSize)

/-- The device after a reset with this partition content and a `load_config` that can read it. -/
def reload (past : Ptr) (flash : Flash) : Setup := loadConfig .working past (boot flash)

/-! ## Saving -/

/-- How the flash answers the erase and the write of one call. -/
structure Fate where
  eraseOk : Bool
  writeFail : Option Nat

def Fate.working : Fate := ⟨true, none⟩

/-- A call into the flash driver, a write with the content it finds. -/
inductive FlashOp where
  | erase
  | write (found : Flash) (off : Nat) (data : List UInt8)

def FlashOp.OnErased : FlashOp → Prop
  | .erase                => True
  | .write found off data => NorFlash.ErasedOn found off (off + data.length)

/-- What a save returns: the error string (`NULL` is `none`), the store, the image it was given, now with its CRC,
and the driver calls it made. -/
structure Saved where
  err : Option String
  dev : Setup
  image : List UInt8
  ops : List FlashOp

/-- The checks of `save_config_image`; an image that passes leaves with its CRC field filled in. -/
def checkImage (image : List UInt8) : Except String (List UInt8) :=
  let p := ByteMem.ofList image
  if image.length > MAX_CFG_SIZE then .error "Image too big"
  else if image.length < sizeofConfigV0 then .error "Image too small"
  else if image.length &&& 3 ≠ 0 then .error "Image size is odd"
  else if recordSize p 0 ≠ image.length ∨ sizeAt p 0 >>> 8 = 0xFF then .error "Image size wrong"
  else if crcAt p 0 = 0xFFFFFFFF then .ok (LittleEndian.encode 4 (evalCrc p 4 image.length) ++ image.drop 4)
  else if crcAt p 0 ≠ evalCrc p 4 image.length then .error "Image CRC wrong"
  else .ok image

/-- `esp_partition_write` at `next_cfg_shift` and what follows it. -/
def writeImage (fate : Fate) (d : Setup) (image : List UInt8) (ops : List FlashOp) : Saved :=
  let off := d.nextCfgShift.toNat
  let ops := ops ++ [.write d.flash off image]
  match fate.writeFail with
  | some k =>
    { err := some "Can't write config", image := image, ops := ops,
      dev := { d with flash := program d.flash off (image.take k), nextCfgShift := -1 } }
  | none =>
    { err := none, image := image, ops := ops,
      dev := { d with flash := program d.flash off image, nextCfgShift := d.nextCfgShift + image.length } }

/-- The flash part of `save_config_image`: erase when the record does not fit behind the last one, then write. -/
def storeImage (fate : Fate) (d : Setup) (image : List UInt8) : Saved :=
  if d.nextCfgShift < 0 ∨ d.nextCfgShift + image.length > MAX_CFG_SIZE then
    if fate.eraseOk then writeImage fate { d with nextCfgShift := 0, flash := erased } image [.erase]
    else
      { err := some "Can't erase partition", dev := { d with nextCfgShift := 0 }, image := image, ops := [.erase] }
  else writeImage fate d image []

def saveConfigImage (fate : Fate) (d : Setup) (image : List UInt8) : Saved :=
  if !d.cfgPat then { err := some "No Config partition", dev := d, image := image, ops := [] }
  else
    match checkImage image with
    | .error e => { err := some e, dev := d, image := image, ops := [] }
    | .ok image' => storeImage fate d image'

/-- The bytes of a whole-partition image, as `esp_partition_write` takes them. -/
def flashBytes (image : Flash) : List UInt8 := List.ofFn image

def saveConfigFull (fate : Fate) (d : Setup) (image : Flash) : Saved :=
  let bytes := flashBytes image
  if !d.cfgPat then { err := some "No Config partition", dev := d, image := bytes, ops := [] }
  else if !fate.eraseOk then { err := some "Can't erase partition", dev := d, image := bytes, ops := [.erase] }
  else
    let ops := [.erase, .write erased 0 bytes]
    match fate.writeFail with
    | some k =>
      { err := some "Can't write config", image := bytes, ops := ops,
        dev := { d with flash := program erased 0 (bytes.take k), nextCfgShift := 0 } }
    | none =>
      { err := none, image := bytes, ops := ops,
        dev := { d with flash := program erased 0 bytes, nextCfgShift := 0 } }

end Mstd
