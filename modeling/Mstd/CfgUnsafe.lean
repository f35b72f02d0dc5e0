import Mstd.CfgAccept
import Mstd.CfgStamp
import Mstd.CfgText
import Mstd.PyInt
/-!
# Images saved without a CRC (`mstd.cfg.py`, `save_bin_config(unsafe_crc=True)`)

`set_cl_value`, and objects behind any sequence of loads and overrides (`Load`).  An image saved without a CRC keeps the
one the object holds, if any, and the device takes it exactly when that is still right (`unsafe_image_taken_iff`).
-/
namespace Mstd.Cfg

open Py (Str Dict)
open ByteMem (ofList)

/-- `is_string`: an enum counts as one. -/
def FieldType.isString : FieldType → Bool
  | .enum _ | .enumChar _ | .enumDummy _ | .char _ => true
  | .int _ | .dummy _                              => false

/-- A way to fill an object; a text is given by what `tomllib.loads` makes of it, any table. -/
inductive Load where
  | bin (val : List UInt8) (force : Nat)
  | text (toml : Dict Str TomlValue) (force : Nat)
  | cl (name val : Str)

/-- A struct as the device declares its own: it begins with `crc`, `size` and `version`, its members have distinct names,
and it has a size that a record can have. -/
structure Config.DeviceLayout (cfg : Config) : Prop where
  starts : cfg.StartsWithHeader
  names : (cfg.cfgStruct.map CfgField.name).Nodup
  min : 108 ≤ cfg.size
  max : cfg.size ≤ 4096

namespace ConfigData

/-- `set_cl_value`: a name that is no field's is ignored. -/
def setClValue (d : ConfigData) (valName valValue : Str) : Except Error ConfigData :=
  match d.data.get? valName with
  | none   => .ok d
  | some s =>
    if s.fld.type.isString then d.setTomlValue valName (.str valValue)
    else
      match Py.int0 valValue with
      | some i => d.setTomlValue valName (.int i)
      | none   => .error .valueError

def load (d : ConfigData) : Load → Except Error ConfigData
  | .bin val force   => d.loadBinConfig val force
  | .text toml force => d.setFullToml (force != 0) toml
  | .cl name val     => d.setClValue name val

/-- The loads one after the other, the first error ends them. -/
def loads (d : ConfigData) (ls : List Load) : Except Error ConfigData := ls.foldlM load d

variable {d d' : ConfigData}

/-! ## Loads keep the config -/

theorem cfg_setTomlValue {name : Str} {val : TomlValue} (h : d.setTomlValue name val = .ok d') : d'.cfg = d.cfg := by
  obtain ⟨v, rfl⟩ := setTomlValue_ok h
  rfl

theorem cfg_setFullToml {allowUnknown : Bool} : ∀ {toml : Dict Str TomlValue} {d d' : ConfigData},
    d.setFullToml allowUnknown toml = .ok d' → d'.cfg = d.cfg
  | [], d, d', h => by cases h; rfl
  | (key, val) :: toml, d, d', h => by
    rw [setFullToml] at h
    split at h
    · split at h
      · exact cfg_setFullToml h
      · cases h
    · cases hset : d.setTomlValue key val with
      | error x => rw [hset] at h; cases h
      | ok d₁ =>
        rw [hset] at h
        exact (cfg_setFullToml h).trans (cfg_setTomlValue hset)

theorem cfg_load {l : Load} (h : d.load l = .ok d') : d'.cfg = d.cfg := by
  cases l with
  | bin val force =>
    have hset : d.setFullBinary val = .ok d' := setFullBinary_of_load h
    exact cfg_setBinaries hset
  | text toml force => exact cfg_setFullToml h
  | cl name val =>
    have h : d.setClValue name val = .ok d' := h
    unfold setClValue at h
    split at h
    · cases h; rfl
    · split at h
      · exact cfg_setTomlValue h
      · split at h
        · exact cfg_setTomlValue h
        · cases h

theorem cfg_loads {ls : List Load} (h : d.loads ls = .ok d') : d'.cfg = d.cfg := by
  induction ls generalizing d with
  | nil => cases h; rfl
  | cons l ls ih =>
    obtain ⟨d₁, hl, hls⟩ := of_bind_eq_ok h
    exact (ih hls).trans (cfg_load hl)

/-! ## What a successful save shows -/

theorem valueFits_of_toBinary {v : Option Value} {f : CfgField} {bytes : List UInt8} (h : toBinary ⟨v, f⟩ = .ok bytes) :
    ValueFits f.type v := by
  obtain ⟨name, shift, default, type, comment⟩ := f
  cases v with
  | none => cases type <;> trivial
  | some val =>
    cases val with
    | int i =>
      have hnone (t : FieldType) (hfits : ¬ LittleEndian.Fits t.size t.isSigned i) :
          LittleEndian.encodeInt t.size t.isSigned i = none := if_neg hfits
      cases type with
      | char n => cases h
      | enumChar e => cases h
      | int t =>
        by_contra hfits
        simp only [toBinary, hnone (.int t) hfits] at h
        cases h
      | enum e =>
        by_contra hfits
        simp only [toBinary, hnone (.enum e) hfits] at h
        cases h
      | enumDummy e =>
        by_contra hfits
        simp only [toBinary, hnone (.enumDummy e) hfits] at h
        cases h
      | dummy n =>
        by_contra hfits
        simp only [toBinary, hnone (.dummy n) hfits] at h
        cases h
    | bytes b =>
      have hshort {n : Nat} (h : (if b.length ≤ n then .ok (b ++ List.replicate (n - b.length) 0)
          else .error (.stringTooLong b.length) : Except Error (List UInt8)) = .ok bytes) : b.length ≤ n := by
        by_contra hlong
        rw [if_neg hlong] at h
        cases h
      cases type with
      | int t => cases h
      | enum e => cases h
      | enumDummy e => cases h
      | dummy n => cases h
      | char n => exact hshort h
      | enumChar e => exact hshort h

theorem fits_of_getFullBinary (hown : d.cfg.OwnSlots) {bytes : List UInt8} (h : d.getFullBinary = .ok bytes) : d.Fits := by
  have hall : ∀ {fs : List CfgField} {bytes : List UInt8}, (∀ f ∈ fs, f ∈ d.cfg.cfgStruct) → d.getBinaries fs = .ok bytes →
      ∀ f ∈ fs, f.isFiller = false → ValueFits f.type (d.value f.name) := by
    intro fs
    induction fs with
    | nil => exact fun _ _ f hf => absurd hf List.not_mem_nil
    | cons g fs ih =>
      intro bytes hfs hget f hf hfill
      rw [getBinaries] at hget
      split at hget
      · rename_i b bs hb hbs
        rcases List.mem_cons.1 hf with rfl | hf
        · rw [hfill, if_neg Bool.false_ne_true, getBinaryValue,
            slot_eq hown (mem_fields.2 ⟨hfs f (List.mem_cons_self ..), hfill⟩)] at hb
          exact valueFits_of_toBinary hb
        · exact ih (fun x hx => hfs x (List.mem_cons_of_mem _ hx)) hbs f hf hfill
      · cases hget
      · cases hget
  intro f hf
  exact hall (fun _ h => h) h f (mem_fields.1 hf).1 (mem_fields.1 hf).2

theorem store_store (d : ConfigData) (name : Str) (v : Value) : (d.store name v).store name v = d.store name v := by
  have htwice : ∀ data : Dict Str DataSlot,
      Dict.modify (fun s => { s with value := some v }) (Dict.modify (fun s => { s with value := some v }) data name) name =
        Dict.modify (fun s => { s with value := some v }) data name := by
    intro data
    induction data with
    | nil => rfl
    | cons p data ih =>
      obtain ⟨k, s⟩ := p
      by_cases hk : k = name
      · simp only [Dict.modify, hk, if_true]
      · simp only [Dict.modify, hk, if_false, ih]
  unfold store
  congr 1
  exact htwice d.data

/-- **`patch_binary_image` without a CRC** goes through with the version stamped: what is left is the test of the CRC. -/
theorem patchBinaryImage_unsafe (hlayout : d.cfg.DeviceLayout) (h : d.patchBinaryImage false = .ok d') :
    d.cfg.version < 2 ^ 8 ∧ d.stamped.Fits ∧
      (d.stamped.getTomlValue crcName).bind (fun crc =>
        if isSet crc then .ok d.stamped else d.stamped.setTomlValue crcName (.int 0xFFFFFFFF)) = .ok d' := by
  have hown := ownSlots_of_nodup hlayout.names
  have hmin := hlayout.min
  have hmax := hlayout.max
  obtain ⟨fc, fs, fv, rest, hstruct, hc, hs, hv⟩ := hlayout.starts
  have hfs : fs ∈ d.cfg.fields := mem_fields.2 ⟨by rw [hstruct]; simp, hs.isFiller⟩
  have hfv : fv ∈ d.cfg.fields := mem_fields.2 ⟨by rw [hstruct]; simp, hv.isFiller⟩
  obtain ⟨d₁, hset, hrest⟩ := of_bind_eq_ok h
  have hset : d.setTomlValue versionName (.int d.cfg.version) = .ok d₁ := hset
  rw [setInt_eq hown hfv hv] at hset
  split at hset
  case isFalse => cases hset
  case isTrue hver =>
    cases hset
    obtain ⟨img, hbin, -⟩ := of_bind_eq_ok hrest
    have hfits₁ : (d.store versionName (.int d.cfg.version)).Fits := fits_of_getFullBinary hown hbin
    have hsize : LittleEndian.Fits IntType.uint16_t.size IntType.uint16_t.isSigned ((d.cfg.size / 4 : Nat) - 1 : Int) := by
      have hcast : ((d.cfg.size / 4 : Nat) - 1 : Int) = ((d.cfg.size / 4 - 1 : Nat) : Int) := by omega
      exact hcast ▸ fits_natCast (show d.cfg.size / 4 - 1 < 65536 by omega)
    -- the version is there already
    have hsame : (d.store versionName (.int d.cfg.version)).stamped = d.stamped := by
      rw [stamped, stamped]
      show (((d.store versionName (.int d.cfg.version)).store versionName (.int d.cfg.version)).store sizeName _) = _
      rw [store_store]
      rfl
    have hagain : (d.store versionName (.int d.cfg.version)).patchBinaryImage false = d.patchBinaryImage false := by
      have h1 : d.setTomlValue "version".toList (.int d.cfg.version) = .ok (d.store versionName (.int d.cfg.version)) :=
        (setInt_eq hown hfv hv _).trans (if_pos hver)
      have h2 : (d.store versionName (.int d.cfg.version)).setTomlValue "version".toList (.int d.cfg.version) =
          .ok (d.store versionName (.int d.cfg.version)) := by
        refine ((setInt_eq (d := d.store versionName (.int d.cfg.version)) hown hfv hv _).trans (if_pos hver)).trans ?_
        rw [store_store]
      unfold patchBinaryImage
      rw [h1, show (d.store versionName (.int d.cfg.version)).cfg = d.cfg from rfl, h2]
    have hpatch := patchBinaryImage_eq (d := d.store versionName (.int d.cfg.version)) hown hfits₁ hfv hv hfs hs hver hsize
      false
    rw [hagain, h, if_neg Bool.false_ne_true, hsame] at hpatch
    refine ⟨?_, hsame ▸ stamped_fits (d := d.store versionName (.int d.cfg.version)) hown hfits₁ hfv hv hfs hs hver hsize,
      hpatch.symm⟩
    have hlt : (d.cfg.version : Int) < 256 := hver.2
    exact_mod_cast hlt

/-! ## The CRC field -/

/-- The CRC field of the object, as the device will find it: empty, left to the device, or right for the fields behind it
with version and size stamped. -/
def CrcHolds (d : ConfigData) : Prop :=
  d.value crcName = none ∨ d.value crcName = some (.int 0) ∨ d.value crcName = some (.int 0xFFFFFFFF) ∨
    d.value crcName = some (.int (evalCrc (d.stamped.image.drop 4)))

/-- The object behind `save_bin_config(unsafe_crc=True)`: the stamped one, with a CRC field that is left to the device or
was set before. -/
structure SavedUnsafe (d d' : ConfigData) (crc : Nat) : Prop where
  cfg : d'.cfg = d.cfg
  fits : d'.Fits
  version : d.cfg.version < 2 ^ 8
  value_version : d'.value versionName = some (.int d.cfg.version)
  value_size : d'.value sizeName = some (.int (d.cfg.size / 4 - 1 : Nat))
  value_crc : d'.value crcName = some (.int crc)
  crc_lt : crc < 2 ^ 32
  drop_image : d'.image.drop 4 = d.stamped.image.drop 4
  holds : (crc = 0xFFFFFFFF ∨ crc = evalCrc (d.stamped.image.drop 4)) ↔ d.CrcHolds

/-- A CRC field that holds nothing is left to the device. -/
theorem savedUnsafe_of_ones (hown : d.stamped.cfg.OwnSlots) {fc : CfgField} {fs : List CfgField}
    (hstruct : d.cfg.cfgStruct = fc :: fs) (hc : fc.Is crcName .uint32_t) (hfits : d.stamped.Fits)
    (hver : d.cfg.version < 2 ^ 8) (hvs : d.stamped.value sizeName = some (.int (d.cfg.size / 4 - 1 : Nat)))
    (hvv : d.stamped.value versionName = some (.int d.cfg.version))
    (hvalue : d.value crcName = none ∨ d.value crcName = some (.int 0))
    (h : d.stamped.setTomlValue crcName (.int 0xFFFFFFFF) = .ok d') : SavedUnsafe d d' 0xFFFFFFFF := by
  have hfc : fc ∈ d.stamped.cfg.fields := mem_fields.2 ⟨by show fc ∈ d.cfg.cfgStruct; rw [hstruct]; simp, hc.isFiller⟩
  have hfit : LittleEndian.Fits IntType.uint32_t.size IntType.uint32_t.isSigned 0xFFFFFFFF := by decide
  rw [setInt_eq hown hfc hc, if_pos hfit] at h
  cases h
  have hfits' : (d.stamped.store crcName (.int 0xFFFFFFFF)).Fits := fitsInt_store hown hfc hc hfits hfit
  have hdrop := drop_image_store (d := d.stamped) (v := .int 0xFFFFFFFF) hown hstruct hc hfits hfits'
  rw [show fc.size = 4 by rw [CfgField.size, hc.type]; rfl] at hdrop
  refine ⟨rfl, hfits', hver, ?_, ?_, ?_, by decide, hdrop, iff_of_true (Or.inl rfl) ?_⟩
  · rw [valueInt_store hown hfc hc, if_neg (by decide), hvv]
  · rw [valueInt_store hown hfc hc, if_neg (by decide), hvs]
  · rw [valueInt_store hown hfc hc, if_pos rfl]; rfl
  · exact hvalue.imp_right Or.inl

theorem patchBinaryImage_savedUnsafe (hlayout : d.cfg.DeviceLayout) (h : d.patchBinaryImage false = .ok d') :
    ∃ crc, SavedUnsafe d d' crc := by
  obtain ⟨hver, hfits, h⟩ := patchBinaryImage_unsafe hlayout h
  have hown := ownSlots_of_nodup hlayout.names
  have hmin := hlayout.min
  obtain ⟨fc, fs, fv, rest, hstruct, hc, hs, hv⟩ := hlayout.starts
  have hfc : fc ∈ d.cfg.fields := mem_fields.2 ⟨by rw [hstruct]; simp, hc.isFiller⟩
  have hfs : fs ∈ d.cfg.fields := mem_fields.2 ⟨by rw [hstruct]; simp, hs.isFiller⟩
  have hfv : fv ∈ d.cfg.fields := mem_fields.2 ⟨by rw [hstruct]; simp, hv.isFiller⟩
  obtain ⟨hvc, hvs, hvv⟩ := stamped_values hown hfs hs hfv hv (by omega)
  rw [getTomlValue_stamped_crc (lastNamed_is hown hfc hc)] at h
  have hfit : ValueFits (.int .uint32_t) (d.value crcName) := by
    have hfit := hfits fc hfc
    rwa [hc.name, hvc, hc.type] at hfit
  cases hvalue : d.value crcName with
  | none =>
    rw [hvalue] at h
    obtain ⟨name, shift, default, type, comment⟩ := fc
    obtain rfl : type = .int .uint32_t := hc.type
    exact ⟨_, savedUnsafe_of_ones hown hstruct hc hfits hver hvs hvv (.inl hvalue) h⟩
  | some v =>
    cases v with
    | bytes b => rw [hvalue] at hfit; cases hfit
    | int i =>
      rw [hvalue] at hfit
      obtain ⟨hlo, hhi⟩ : 0 ≤ i ∧ i < 2 ^ 32 := ⟨hfit.1, hfit.2⟩
      have hset : isSet (tomlOf ⟨d.value crcName, fc⟩) = (i != 0) := by
        obtain ⟨name, shift, default, type, comment⟩ := fc
        obtain rfl : type = .int .uint32_t := hc.type
        rw [hvalue]
        rfl
      simp only [Except.bind, hset] at h
      by_cases hi : i = 0
      · subst hi
        rw [if_neg (by decide)] at h
        exact ⟨_, savedUnsafe_of_ones hown hstruct hc hfits hver hvs hvv (.inr hvalue) h⟩
      · -- a CRC field that was set stays
        rw [if_pos (bne_iff_ne.2 hi)] at h
        cases h
        lift i to Nat using hlo
        refine ⟨i, rfl, hfits, hver, hvv, hvs, hvc.trans hvalue, by omega, rfl, ?_⟩
        unfold CrcHolds
        rw [hvalue]
        simp only [reduceCtorEq, false_or, Option.some.injEq, Value.int.injEq, hi]
        omega

/-- **An image saved without a CRC** is taken by the device exactly when its CRC field is left to the device or right, and
that is exactly when the object's CRC field is empty or still right. -/
theorem SavedUnsafe.taken_iff {crc : Nat} (h : SavedUnsafe d d' crc) (hlayout : d.cfg.DeviceLayout) :
    ((crcAt (ofList d'.image) 0 = 0xFFFFFFFF ∨ crcAt (ofList d'.image) 0 = evalCrc (d'.image.drop 4)) ↔ d.CrcHolds) ∧
    ((∀ dev : Setup, dev.cfgPat = true → (saveConfigImage .working dev d'.image).err = none) ↔ d.CrcHolds) := by
  have hmin := hlayout.min
  have hmax := hlayout.max
  have haligned := d.cfg.aligned
  have hlen := length_image h.fits
  rw [h.cfg] at hlen
  have hsizelt : d.cfg.size / 4 - 1 < 2 ^ 16 := by omega
  obtain ⟨hcrc, hsize, -⟩ := header_image (h.cfg ▸ hlayout.starts) h.value_crc h.value_size h.value_version h.crc_lt hsizelt
    h.version
  have hholds : (crcAt (ofList d'.image) 0 = 0xFFFFFFFF ∨ crcAt (ofList d'.image) 0 = evalCrc (d'.image.drop 4)) ↔
      d.CrcHolds := by rw [hcrc, h.drop_image]; exact h.holds
  refine ⟨hholds, ?_⟩
  have hcode : evalCrc (d'.image.drop 4) = imageCrc d'.image := by rw [evalCrc_eq]; rfl
  rw [hcode] at hholds
  have hrecord : recordSize (ofList d'.image) 0 = d'.image.length := by
    rw [Mstd.recordSize, hsize, hlen, show (0x3FF : Nat) = 2 ^ 10 - 1 from rfl, Nat.and_two_pow_sub_one_eq_mod]
    omega
  constructor
  · intro hdev
    obtain ⟨-, hsaved, -⟩ := accepted_of_null (hdev freshStore rfl)
    exact hholds.1 ((accepted_savedImage_iff _).1 hsaved).2.2.2.2.2
  · intro hd dev hpat
    have htorn : sizeAt (ofList d'.image) 0 >>> 8 ≠ 0xFF := by
      rw [hsize, Nat.shiftRight_eq_div_pow]
      omega
    have hacc := (accepted_savedImage_iff d'.image).2
      ⟨by rw [hlen]; exact hmax, by rw [hlen]; exact hmin, by rw [hlen]; omega, hrecord, htorn, hholds.2 hd⟩
    rw [saveConfigImage_accepted hpat hacc, storeImage_working]

end ConfigData

/-- **An image saved without a CRC**, of an object behind any loads, is taken by the device exactly when the CRC field of
the object was empty or is still right. -/
theorem unsafe_image_taken_iff (cfg : Config) (hlayout : cfg.DeviceLayout) (ls : List Load) (d : ConfigData)
    (hloads : (ConfigData.new cfg).loads ls = .ok d) (d' : ConfigData) (img : List UInt8)
    (hsave : d.saveBinConfig true = .ok (d', img)) :
    ((crcAt (ofList img) 0 = 0xFFFFFFFF ∨ crcAt (ofList img) 0 = evalCrc (img.drop 4)) ↔ d.CrcHolds) ∧
    ((∀ dev : Setup, dev.cfgPat = true → (saveConfigImage .working dev img).err = none) ↔ d.CrcHolds) := by
  have hcfg : d.cfg = cfg := ConfigData.cfg_loads hloads
  have hlayout : d.cfg.DeviceLayout := hcfg ▸ hlayout
  obtain ⟨d₁, hpatch, hsave⟩ := of_bind_eq_ok hsave
  obtain ⟨binImg, hbin, hsave⟩ := of_bind_eq_ok hsave
  cases hsave
  obtain ⟨crc, hsaved⟩ := ConfigData.patchBinaryImage_savedUnsafe hlayout hpatch
  have hown : d'.cfg.OwnSlots := hsaved.cfg ▸ ownSlots_of_nodup hlayout.names
  obtain rfl : img = d'.image := Except.ok.inj (hbin.symm.trans (ConfigData.getFullBinary_eq hown hsaved.fits))
  exact hsaved.taken_iff hlayout

theorem configV1_deviceLayout : configV1.DeviceLayout :=
  ⟨configV1_starts, by decide +kernel, by decide, by decide⟩

/-- An object, saved without a CRC. -/
def loadAndSave (cfg : Config) (ls : List Load) : Except Error (ConfigData × ConfigData × List UInt8) := do
  let d ← (ConfigData.new cfg).loads ls
  let saved ← d.saveBinConfig true
  .ok (d, saved)

theorem loadAndSave_ok {cfg : Config} {ls : List Load} {p : ConfigData × ConfigData × List UInt8 → Bool}
    (h : (loadAndSave cfg ls).toOption.any p = true) :
    ∃ d d' img, (ConfigData.new cfg).loads ls = .ok d ∧ d.saveBinConfig true = .ok (d', img) ∧ p (d, d', img) = true := by
  cases hrun : loadAndSave cfg ls with
  | error x => rw [hrun] at h; cases h
  | ok r =>
    rw [hrun] at h
    obtain ⟨d, hd, hrun⟩ := of_bind_eq_ok hrun
    obtain ⟨⟨d', img⟩, hsave, hrun⟩ := of_bind_eq_ok hrun
    cases hrun
    exact ⟨d, d', img, hd, hsave, h⟩

/-- The defaults, with a name and a contrast. -/
theorem unsafe_image_taken_text :
    ∃ d d' img, (ConfigData.new configV1).loads [.text [("ssid".toList, .str "ap".toList)] 0,
        .cl "oled_contrast".toList "0x10".toList] = .ok d ∧ d.saveBinConfig true = .ok (d', img) ∧
      (saveConfigImage .working freshStore img).err = none := by
  obtain ⟨d, d', img, hd, hsave, hvalue⟩ := loadAndSave_ok (p := fun r => r.1.value crcName = none)
    (show (loadAndSave configV1 [.text [("ssid".toList, .str "ap".toList)] 0,
      .cl "oled_contrast".toList "0x10".toList]).toOption.any _ = true by decide +kernel)
  exact ⟨d, d', img, hd, hsave, (unsafe_image_taken_iff configV1 configV1_deviceLayout _ d hd d' img hsave).2.2
    (Or.inl (of_decide_eq_true hvalue)) freshStore rfl⟩

/-- An image is loaded, the contrast changed: the old CRC is saved, and the device rejects the image. -/
theorem unsafe_image_stale :
    configV1.DeviceLayout ∧ ∃ d d' img, (ConfigData.new configV1).loads [.bin (zeroImage 26 108) 0,
        .cl "oled_contrast".toList "1".toList] = .ok d ∧ d.saveBinConfig true = .ok (d', img) ∧
      (saveConfigImage .working freshStore img).err = some "Image CRC wrong" := by
  obtain ⟨d, d', img, hd, hsave, herr⟩ := loadAndSave_ok
    (p := fun r => (saveConfigImage .working freshStore r.2.2).err = some "Image CRC wrong")
    (show (loadAndSave configV1 [.bin (zeroImage 26 108) 0,
      .cl "oled_contrast".toList "1".toList]).toOption.any _ = true by decide +kernel)
  exact ⟨configV1_deviceLayout, d, d', img, hd, hsave, of_decide_eq_true herr⟩

end Mstd.Cfg
