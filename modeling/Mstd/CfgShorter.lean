import Mstd.CfgAccept
import Mstd.CfgStamp
/-!
# Images of older versions (`mstd.cfg.py`, `load_bin_config`)

`set_full_binary` runs over all the fields, also behind the end of a shorter image.  `setBinaries_last` says what it
leaves in the slot of a field; `shorter_image_iff` says when a field that the image does not reach keeps its value.
-/
namespace Mstd.Cfg

open Py (Str)

/-- The field has the slot of its name. -/
structure Config.HasSlot (cfg : Config) (f : CfgField) : Prop where
  mem : f ∈ cfg.cfgStruct
  notFiller : f.isFiller = false
  last : lastNamed f.name cfg.cfgStruct = some f

theorem hasSlot_of_nodup {cfg : Config} (h : (cfg.cfgStruct.map CfgField.name).Nodup) {f : CfgField} (hf : f ∈ cfg.fields) :
    cfg.HasSlot f := ⟨(mem_fields.1 hf).1, (mem_fields.1 hf).2, lastNamed_of_nodup h (mem_fields.1 hf).1⟩

/-- What no bytes are read as. -/
def FieldType.emptyValue : FieldType → Value
  | .char _ | .enumChar _ => .bytes []
  | _                     => .int 0

theorem fromBinary_nil (f : CfgField) : ConfigData.fromBinary f [] = f.type.emptyValue := by
  have hzero (signed : Bool) : LittleEndian.decodeInt signed [] = 0 := by cases signed <;> rfl
  unfold ConfigData.fromBinary FieldType.emptyValue
  cases f.type <;> simp only [hzero]

namespace ConfigData

theorem ne_of_lastNamed {name : Str} : ∀ {fs : List CfgField}, lastNamed name fs = none → ∀ f ∈ fs, f.name ≠ name
  | g :: gs, hnone, f, hf => by
    rw [lastNamed, Option.or_eq_none_iff] at hnone
    rcases List.mem_cons.1 hf with rfl | hf
    · intro hname
      rw [if_pos hname] at hnone
      cases hnone.2
    · exact ne_of_lastNamed hnone.1 f hf

/-- The loop of `set_full_binary` leaves a name alone that only fillers have. -/
theorem setBinaries_other {name : Str} : ∀ {fs : List CfgField} {d d' : ConfigData} {bytes : List UInt8},
    (∀ f ∈ fs, f.name = name → f.isFiller = true) → d.setBinaries bytes fs = .ok d' → d'.value name = d.value name
  | [], d, d', _, _, h => by cases h; rfl
  | g :: gs, d, d', bytes, hfill, h => by
    have hrest : ∀ f ∈ gs, f.name = name → f.isFiller = true := fun f hf => hfill f (List.mem_cons_of_mem g hf)
    obtain ⟨-, h⟩ | ⟨hg, s, -, h⟩ := setBinaries_cons h
    · exact setBinaries_other hrest h
    · have hname : g.name ≠ name := fun hname => by
        rw [hfill g (List.mem_cons_self ..) hname] at hg
        cases hg
      rw [setBinaries_other hrest h, value_store_ne d hname]

/-- **What the loop of `set_full_binary` leaves in a slot**: what the bytes of the field are read as. -/
theorem setBinaries_last {name : Str} {f : CfgField} (hfill : f.isFiller = false) (bytes : List UInt8) {size : Nat} :
    ∀ {fs : List CfgField} {d d' : ConfigData} {shift : Nat}, Layout shift fs size → lastNamed name d.cfg.cfgStruct = some f →
      lastNamed name fs = some f → d.setBinaries (bytes.drop shift) fs = .ok d' →
      d'.value name = some (fromBinary f ((bytes.drop f.shift).take f.size))
  | g :: gs, d, d', shift, hlayout, hlast, hfs, h => by
    have hcons := setBinaries_cons h
    rw [List.drop_drop] at hcons
    rw [lastNamed] at hfs
    cases hrest : lastNamed name gs with
    | some f' =>
      -- the field comes later
      rw [hrest] at hfs
      obtain rfl := Option.some.inj hfs
      obtain ⟨-, h⟩ | ⟨-, s, -, h⟩ := hcons
      · exact setBinaries_last hfill bytes hlayout.2 hlast hrest h
      · exact setBinaries_last (d := d.store g.name _) hfill bytes hlayout.2 hlast hrest h
    | none =>
      rw [hrest, Option.none_or] at hfs
      split at hfs
      · rename_i hname
        obtain rfl := Option.some.inj hfs
        subst hname
        obtain ⟨hf, -⟩ | ⟨-, s, hs, h⟩ := hcons
        · rw [hfill] at hf; cases hf
        · have hother : ∀ x ∈ gs, x.name = g.name → x.isFiller = true := fun x hx hname =>
            absurd hname (ne_of_lastNamed hrest x hx)
          rw [setBinaries_other hother h, value_store_self hlast, fld_of_last hs hlast, hlayout.1]
      · cases hfs

end ConfigData

/-- What a field holds behind the load of an image: the bytes of the image, or nothing where it has ended. -/
theorem value_of_load {d d' : ConfigData} {val : List UInt8} {force : Nat} (h : d.loadBinConfig val force = .ok d')
    {f : CfgField} (hf : d.cfg.HasSlot f) :
    d'.value f.name = some (ConfigData.fromBinary f ((val.drop f.shift).take f.size)) :=
  ConfigData.setBinaries_last hf.notFiller val d.cfg.layout hf.last hf.last (ConfigData.setFullBinary_of_load h)

theorem value_behind {d d' : ConfigData} {val : List UInt8} {force : Nat} (h : d.loadBinConfig val force = .ok d')
    {f : CfgField} (hf : d.cfg.HasSlot f) (hbehind : val.length ≤ f.shift) : d'.value f.name = some f.type.emptyValue := by
  rw [value_of_load h hf, List.drop_of_length_le hbehind, List.take_nil, fromBinary_nil]

theorem Layout.ends_before {fs : List CfgField} {shift size : Nat} (h : Layout shift fs size) {f g : CfgField} (hf : f ∈ fs)
    (hg : g ∈ fs) (hlt : f.shift < g.shift) : f.shift + f.size ≤ g.shift := by
  induction fs generalizing shift with
  | nil => cases hf
  | cons x fs ih =>
    rcases List.mem_cons.1 hf with rfl | hfs
    · rcases List.mem_cons.1 hg with rfl | hgs
      · omega
      · exact h.1 ▸ le_shift h.2 hgs
    · rcases List.mem_cons.1 hg with rfl | hgs
      · have hle := le_shift h.2 hfs
        have hshift := h.1
        omega
      · exact ih h.2 hfs hgs

theorem toBinary_emptyValue (f : CfgField) :
    ConfigData.toBinary ⟨some f.type.emptyValue, f⟩ = .ok (List.replicate f.size 0) := by
  have hzero (w : Nat) : LittleEndian.encode w 0 = List.replicate w 0 := by
    have hencode := LittleEndian.encode_decode (List.replicate w 0)
    rwa [LittleEndian.decode_zeros, List.length_replicate] at hencode
  obtain ⟨name, shift, default, type, comment⟩ := f
  cases type <;>
    simp [ConfigData.toBinary, FieldType.emptyValue, LittleEndian.encodeInt, fits_zero, hzero, CfgField.size, FieldType.size]

/-- **When the fields behind a shorter image keep their values**: only fillers and those that hold nothing do. -/
theorem shorter_image_iff (d d' : ConfigData) (val : List UInt8) (hload : d.loadBinConfig val 0 = .ok d')
    (hend : ∃ f ∈ d.cfg.cfgStruct, f.shift = val.length) :
    ((∀ f, d.cfg.HasSlot f → val.length ≤ f.shift → d'.value f.name = d.value f.name) ↔
      ∀ f, d.cfg.HasSlot f → val.length ≤ f.shift → d.value f.name = some f.type.emptyValue) ∧
    ((∀ f, d.cfg.HasSlot f → val.length ≤ f.shift → d'.getBinaryValue f.name = d.getBinaryValue f.name) ↔
      ∀ f, d.cfg.HasSlot f → val.length ≤ f.shift → d.getBinaryValue f.name = .ok (List.replicate f.size 0)) ∧
    (∀ f, d.cfg.HasSlot f → f.shift < val.length → f.shift + f.size ≤ val.length ∧
      d'.value f.name = some (ConfigData.fromBinary f ((val.drop f.shift).take f.size))) ∧
    ∀ name, (∀ f ∈ d.cfg.cfgStruct, f.name = name → f.isFiller = true) → d'.value name = d.value name := by
  have hset := ConfigData.setFullBinary_of_load hload
  have hcfg : d'.cfg = d.cfg := ConfigData.cfg_setBinaries hset
  have hbinary : ∀ f, d.cfg.HasSlot f → val.length ≤ f.shift → d'.getBinaryValue f.name = .ok (List.replicate f.size 0) :=
    fun f hf hbehind => by
      rw [ConfigData.getBinaryValue, ConfigData.slot_of_last (hcfg ▸ hf.last), Except.bind, value_behind hload hf hbehind,
        toBinary_emptyValue]
  refine ⟨?_, ?_, fun f hf hlt => ⟨?_, value_of_load hload hf⟩, fun name hfill => ConfigData.setBinaries_other hfill hset⟩
  · exact forall₃_congr (fun f hf hbehind => by rw [value_behind hload hf hbehind, eq_comm])
  · exact forall₃_congr (fun f hf hbehind => by rw [hbinary f hf hbehind, eq_comm])
  · obtain ⟨g, hg, hgn⟩ := hend
    rw [← hgn] at hlt ⊢
    exact d.cfg.layout.ends_before hf.mem hg hlt

def contrastField : CfgField := ⟨"oled_contrast".toList, 104, some 0xCF, .int .uint8_t, []⟩

theorem contrastField_mem : contrastField ∈ configV1.cfgStruct :=
  List.mem_of_getElem? (show configV1.cfgStruct[5]? = some contrastField from rfl)

/-- An image that ends before the contrast of the display, for an object whose later fields are 0. -/
theorem shorter_image_zeros :
    let d := ((ConfigData.new configV1).store "oled_contrast".toList (.int 0)).store "options1".toList (.int 0)
    ∃ d', d.loadBinConfig (zeroImage 25 104) 0 = .ok d' ∧
      ∀ f, configV1.HasSlot f → 104 ≤ f.shift → d'.value f.name = d.value f.name := by
  intro d
  have hok : (d.loadBinConfig (zeroImage 25 104) 0).toOption.isSome = true := by decide +kernel
  cases hload : d.loadBinConfig (zeroImage 25 104) 0 with
  | error x => rw [hload] at hok; cases hok
  | ok d' =>
    have hlen : (zeroImage 25 104).length = 104 := by decide +kernel
    have hcfg : d.cfg = configV1 := rfl
    obtain ⟨hiff, -⟩ := shorter_image_iff d d' (zeroImage 25 104) hload
      ⟨contrastField, by rw [hcfg]; exact contrastField_mem, by rw [hlen]; rfl⟩
    rw [hlen] at hiff
    have hzero : ∀ f ∈ configV1.cfgStruct, f.isFiller = false → 104 ≤ f.shift → d.value f.name = some f.type.emptyValue := by
      decide +kernel
    exact ⟨d', rfl, hiff.2 (fun f hf hbehind => hzero f hf.mem hf.notFiller hbehind)⟩

/-- The contrast of the display is lost. -/
theorem shorter_image_default :
    configV1.HasSlot contrastField ∧ (zeroImage 25 104).length = contrastField.shift ∧
      (ConfigData.new configV1).value contrastField.name = some (.int 0xCF) ∧
      ((ConfigData.new configV1).loadBinConfig (zeroImage 25 104) 0).toOption.map (fun d' => d'.value contrastField.name) =
        some (some (.int 0)) := by
  have hnodup : (configV1.cfgStruct.map CfgField.name).Nodup := by decide +kernel
  refine ⟨hasSlot_of_nodup hnodup (mem_fields.2 ⟨contrastField_mem, rfl⟩), ?_⟩
  decide +kernel

end Mstd.Cfg
