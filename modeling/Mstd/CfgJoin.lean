import Mstd.CfgShorter
import Mstd.CfgUnsafe
/-!
# Joined sources (`mstd.cfg.py`)

`main` loads all its sources into one object, and the overrides behind them.  A field then holds what the last of them
that sets it makes of it, or its default (`value_loads`); the image that is saved has these values in the bytes of the
fields, and its own header (`saved_joined`).
-/
namespace Mstd.Cfg

open Py (Str Dict)

/-- What the entries of a table make of a field. -/
def tomlSets (f : CfgField) : Dict Str TomlValue → Option Value
  | []                 => none
  | (key, val) :: toml =>
    (tomlSets f toml).or (if key = f.name then (ConfigData.fromToml f val).toOption else none)

/-- What an override makes of its field. -/
def clSets (f : CfgField) (val : Str) : Option Value :=
  if f.type.isString then (ConfigData.fromToml f (.str val)).toOption
  else (Py.int0 val).bind (fun i => (ConfigData.fromToml f (.int i)).toOption)

/-- What a source makes of a field, if it sets it: an image sets every field. -/
def Load.sets (f : CfgField) : Load → Option Value
  | .bin val _   => some (ConfigData.fromBinary f ((val.drop f.shift).take f.size))
  | .text toml _ => tomlSets f toml
  | .cl name val => if name = f.name then clSets f val else none

/-- What the last source that sets the field makes of it, or `v`. -/
def joined (f : CfgField) (v : Option Value) (ls : List Load) : Option Value := ls.foldl (fun v l => (l.sets f).or v) v

theorem joined_append (f : CfgField) (v : Option Value) (ls ls' : List Load) :
    joined f v (ls ++ ls') = joined f (joined f v ls) ls' := by
  unfold joined
  rw [List.foldl_append]

/-- Overrides of other fields. -/
theorem joined_overrides (f : CfgField) : ∀ {os : List (Str × Str)}, (∀ o ∈ os, o.1 ≠ f.name) → ∀ (v : Option Value),
    joined f v (os.map (fun o => .cl o.1 o.2)) = v
  | [],      _, v => rfl
  | o :: os, h, v => by
    have hrest := joined_overrides f (fun o' ho' => h o' (List.mem_cons_of_mem o ho')) v
    have hne := h o (List.mem_cons_self ..)
    simpa [joined, Load.sets, hne] using hrest

theorem get?_newSlots_eq (name : Str) : ∀ (data : Dict Str DataSlot) (fs : List CfgField),
    (newSlots data fs).get? name =
      ((lastNamed name fs).map (fun f => (⟨f.valDefault.map .int, f⟩ : DataSlot))).or (data.get? name)
  | data, []      => rfl
  | data, f :: fs => by
    rw [newSlots, get?_newSlots_eq name _ fs, lastNamed, Dict.get?_set]
    cases lastNamed name fs with
    | some g => rfl
    | none =>
      by_cases hname : f.name = name
      · simp [hname]
      · simp [hname]

namespace ConfigData

variable {d d' : ConfigData} {f : CfgField}

/-- An object that is new holds the defaults. -/
theorem value_new {cfg : Config} (hf : cfg.HasSlot f) : (ConfigData.new cfg).value f.name = f.valDefault.map .int := by
  have hget : (ConfigData.new cfg).data.get? f.name = some ⟨f.valDefault.map .int, f⟩ := by
    show (newSlots [] cfg.cfgStruct).get? f.name = _
    rw [get?_newSlots_eq, hf.last]
    rfl
  rw [value, hget]
  rfl

/-! ## What a load sets -/

theorem value_setTomlValue {name : Str} {val : TomlValue} (hf : d.cfg.HasSlot f) (h : d.setTomlValue name val = .ok d') :
    d'.value f.name = (if name = f.name then (fromToml f val).toOption else none).or (d.value f.name) := by
  by_cases hname : name = f.name
  · subst hname
    rw [setTomlValue, slot_of_last hf.last] at h
    cases hval : fromToml f val with
    | error x => simp only [hval] at h; cases h
    | ok v =>
      simp only [hval] at h
      cases h
      rw [if_pos rfl, value_store_self hf.last]
      rfl
  · obtain ⟨v, rfl⟩ := setTomlValue_ok h
    rw [if_neg hname, Option.none_or, value_store_ne d hname]

theorem value_setFullToml {allowUnknown : Bool} : ∀ {toml : Dict Str TomlValue} {d : ConfigData}, d.cfg.HasSlot f →
    d.setFullToml allowUnknown toml = .ok d' → d'.value f.name = (tomlSets f toml).or (d.value f.name)
  | [], d, _, h => by cases h; rfl
  | (key, val) :: toml, d, hf, h => by
    rw [setFullToml] at h
    split at h
    · rename_i hnone
      split at h
      · -- an unknown name is not that of `f`
        have hkey : key ≠ f.name := by
          rintro rfl
          have hslot := d.slots f.name
          rw [Option.isNone_iff_eq_none.1 hnone, hf.last] at hslot
          cases hslot
        rw [value_setFullToml hf h, tomlSets, if_neg hkey, Option.or_none]
      · cases h
    · cases hset : d.setTomlValue key val with
      | error x => rw [hset] at h; cases h
      | ok d₁ =>
        rw [hset] at h
        have hf₁ : d₁.cfg.HasSlot f := (cfg_setTomlValue hset).symm ▸ hf
        rw [value_setFullToml hf₁ h, value_setTomlValue hf hset, tomlSets, Option.or_assoc]

theorem value_setClValue {name val : Str} (hf : d.cfg.HasSlot f) (h : d.setClValue name val = .ok d') :
    d'.value f.name = (Load.sets f (.cl name val)).or (d.value f.name) := by
  unfold setClValue at h
  by_cases hname : name = f.name
  · subst hname
    have hslot := slot_of_last hf.last
    unfold slot at hslot
    rw [Load.sets, if_pos rfl, clSets]
    split at h
    · rename_i hnone; rw [hnone] at hslot; cases hslot
    · rename_i s hs
      rw [hs] at hslot
      cases hslot
      split at h
      · rename_i hstr
        rw [if_pos hstr, value_setTomlValue hf h, if_pos rfl]
      · rename_i hstr
        rw [if_neg hstr]
        split at h
        · rename_i i hi
          rw [hi, Option.bind_some, value_setTomlValue hf h, if_pos rfl]
        · cases h
  · rw [Load.sets, if_neg hname, Option.none_or]
    split at h
    · cases h; rfl
    · split at h
      · rw [value_setTomlValue hf h, if_neg hname, Option.none_or]
      · split at h
        · rw [value_setTomlValue hf h, if_neg hname, Option.none_or]
        · cases h

/-- **One source**: the field holds what the source makes of it, or what it held. -/
theorem value_load {l : Load} (hf : d.cfg.HasSlot f) (h : d.load l = .ok d') :
    d'.value f.name = (l.sets f).or (d.value f.name) := by
  cases l with
  | bin val force => exact value_of_load h hf
  | text toml force => exact value_setFullToml hf h
  | cl name val => exact value_setClValue hf h

/-- **All sources**: the last one that sets the field counts. -/
theorem value_loads {ls : List Load} (hf : d.cfg.HasSlot f) (h : d.loads ls = .ok d') :
    d'.value f.name = joined f (d.value f.name) ls := by
  induction ls generalizing d with
  | nil => cases h; rfl
  | cons l ls ih =>
    obtain ⟨d₁, hl, hls⟩ := of_bind_eq_ok h
    have hf₁ : d₁.cfg.HasSlot f := (cfg_load hl).symm ▸ hf
    rw [ih hf₁ hls, value_load hf hl]
    rfl

/-! ## What a save writes -/

/-- **The fields of a saved image** but those of the header are the fields of the object. -/
theorem saved_fields {unsafeCrc : Bool} {img : List UInt8} (hown : d.cfg.OwnSlots)
    (h : d.saveBinConfig unsafeCrc = .ok (d', img)) :
    d'.cfg = d.cfg ∧ d'.Fits ∧ img = d'.image ∧ ∀ f ∈ d.cfg.fields, f.name ∉ hiddenNames →
      (img.drop f.shift).take f.size = encodeField f.type (d.value f.name) := by
  obtain ⟨d₁, hpatch, h⟩ := of_bind_eq_ok h
  obtain ⟨img₁, hbin, h⟩ := of_bind_eq_ok h
  cases h
  have hcfg := cfg_patchBinaryImage hpatch
  have hown' : d'.cfg.OwnSlots := hcfg ▸ hown
  have hfits := fits_of_getFullBinary hown' hbin
  obtain rfl : img = d'.image := Except.ok.inj (hbin.symm.trans (getFullBinary_eq hown' hfits))
  refine ⟨hcfg, hfits, rfl, fun f hf hname => ?_⟩
  obtain ⟨hmem, hfill⟩ := mem_fields.1 hf
  have hslice := d'.cfg.layout.slice (fun f hf => length_fieldBytes hfits hf) (hcfg.symm ▸ hmem)
  rw [Nat.sub_zero] at hslice
  -- only the fields of the header are stored
  have hvalue : d'.value f.name = d.value f.name := by
    simp only [hiddenNames, List.mem_cons, List.not_mem_nil, or_false, not_or] at hname
    have hc : crcName ≠ f.name := fun h => hname.1 h.symm
    have hs : sizeName ≠ f.name := fun h => hname.2.1 h.symm
    have hv : versionName ≠ f.name := fun h => hname.2.2 h.symm
    obtain ⟨v₁, v₂, rfl | ⟨v₃, rfl⟩⟩ := patchBinaryImage_stores hpatch
    · rw [value_store_ne _ hs, value_store_ne _ hv]
    · rw [value_store_ne _ hc, value_store_ne _ hs, value_store_ne _ hv]
  rw [image, hslice, fieldBytes, hfill, if_neg Bool.false_ne_true, hvalue]

/-- The version can be stamped twice. -/
theorem patchBinaryImage_again (hown : d.cfg.OwnSlots) {fv : CfgField} (hfv : fv ∈ d.cfg.fields) {t : IntType}
    (hv : fv.Is versionName t) (hver : LittleEndian.Fits t.size t.isSigned d.cfg.version) (setCrc : Bool) :
    (d.store versionName (.int d.cfg.version)).patchBinaryImage setCrc = d.patchBinaryImage setCrc := by
  have h1 : d.setTomlValue "version".toList (.int d.cfg.version) = .ok (d.store versionName (.int d.cfg.version)) :=
    (setInt_eq hown hfv hv _).trans (if_pos hver)
  have h2 : (d.store versionName (.int d.cfg.version)).setTomlValue "version".toList (.int d.cfg.version) =
      .ok (d.store versionName (.int d.cfg.version)) := by
    refine ((setInt_eq (d := d.store versionName (.int d.cfg.version)) hown hfv hv _).trans (if_pos hver)).trans ?_
    rw [store_store]
  unfold patchBinaryImage
  rw [h1, show (d.store versionName (.int d.cfg.version)).cfg = d.cfg from rfl, h2]

/-- **An image saved with a CRC is whole**, whatever the object holds. -/
theorem saved_whole {img : List UInt8} (hlayout : d.cfg.DeviceLayout) (h : d.saveBinConfig false = .ok (d', img)) :
    Whole img d.cfg.version := by
  have hown := ownSlots_of_nodup hlayout.names
  obtain ⟨fc, fs, fv, rest, hstruct, -, -, hv⟩ := hlayout.starts
  have hfv : fv ∈ d.cfg.fields := mem_fields.2 ⟨by rw [hstruct]; simp, hv.isFiller⟩
  obtain ⟨d₁, hpatch, hrest⟩ := of_bind_eq_ok h
  obtain ⟨d₂, hset, hpatch'⟩ := of_bind_eq_ok hpatch
  have hset : d.setTomlValue versionName (.int d.cfg.version) = .ok d₂ := hset
  rw [setInt_eq hown hfv hv] at hset
  split at hset
  case isFalse => cases hset
  case isTrue hver =>
    cases hset
    obtain ⟨img₁, hbin, -⟩ := of_bind_eq_ok hpatch'
    have hfits : (d.store versionName (.int d.cfg.version)).Fits := fits_of_getFullBinary hown hbin
    have hle : d.cfg.version ≤ 255 := by
      have hlt : (d.cfg.version : Int) < 256 := hver.2
      omega
    obtain ⟨d₃, hsave, -, -, hwhole⟩ := saveBinConfig_whole (d := d.store versionName (.int d.cfg.version)) hlayout.starts
      hown hle hlayout.min hlayout.max hfits
    have hsame : (d.store versionName (.int d.cfg.version)).saveBinConfig false = d.saveBinConfig false := by
      unfold saveBinConfig
      rw [patchBinaryImage_again hown hfv hv hver]
    rw [hsame, h] at hsave
    cases hsave
    exact hwhole

end ConfigData

/-- **The image of joined sources**: the fields are what the sources make of them, the header is its own. -/
theorem saved_joined {cfg : Config} (hlayout : cfg.DeviceLayout) {ls : List Load} {d d' : ConfigData}
    (hloads : (ConfigData.new cfg).loads ls = .ok d) {unsafeCrc : Bool} {img : List UInt8}
    (hsave : d.saveBinConfig unsafeCrc = .ok (d', img)) :
    img.length = cfg.size ∧ (unsafeCrc = false → Whole img cfg.version) ∧
      ∀ f ∈ cfg.fields, f.name ∉ hiddenNames →
        (img.drop f.shift).take f.size = encodeField f.type (joined f (f.valDefault.map .int) ls) := by
  have hcfg : d.cfg = cfg := ConfigData.cfg_loads hloads
  obtain ⟨hcfg', hfits, himage, hfields⟩ :=
    ConfigData.saved_fields (hcfg.symm ▸ ownSlots_of_nodup hlayout.names) hsave
  refine ⟨?_, fun hsafe => ?_, fun f hf hname => ?_⟩
  · rw [himage, ConfigData.length_image hfits, hcfg', hcfg]
  · rw [hsafe] at hsave
    exact hcfg ▸ ConfigData.saved_whole (hcfg.symm ▸ hlayout) hsave
  · have hslot : cfg.HasSlot f := hasSlot_of_nodup hlayout.names hf
    rw [hfields f (hcfg.symm ▸ hf) hname, ConfigData.value_loads (d := .new cfg) hslot hloads, ConfigData.value_new hslot]

end Mstd.Cfg
