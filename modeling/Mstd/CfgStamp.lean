import Mstd.CfgImage
/-!
# Stamping and slots (`mstd.cfg.py`, `patch_binary_image`)

When `patch_binary_image` goes through (`patchBinaryImage_ok`, `patchBinaryImage_of_stampable`), and what the setters do
to the slots (`patchBinaryImage_stores`, `setBinaries_cons`).
-/
namespace Mstd.Cfg

open Py (Str Dict)

namespace ConfigData

/-! ## Stamping -/

/-- The header fields take what `patch_binary_image` puts there: the CRC of the stamped image, or a mark for the device
where the CRC is left out and the field holds nothing. -/
structure Stampable (d : ConfigData) (unsafeCrc : Bool) : Prop where
  version : ∃ f ∈ d.cfg.fields, ∃ t, f.Is versionName t ∧ LittleEndian.Fits t.size t.isSigned d.cfg.version
  size : ∃ f ∈ d.cfg.fields, ∃ t, f.Is sizeName t ∧ LittleEndian.Fits t.size t.isSigned ((d.cfg.size / 4 : Nat) - 1 : Int)
  crc : ∃ f, lastNamed crcName d.cfg.cfgStruct = some f ∧
    ((unsafeCrc = true ∧ isSet (tomlOf ⟨d.value crcName, f⟩) = true) ∨
      ∃ t, f.Is crcName t ∧
        LittleEndian.Fits t.size t.isSigned (if unsafeCrc then 0xFFFFFFFF else evalCrc (d.stamped.image.drop 4)))

theorem lastNamed_mem {name : Str} : ∀ {fs : List CfgField} {g : CfgField}, lastNamed name fs = some g → g ∈ fs ∧ g.name = name
  | f :: fs, g, h => by
    rw [lastNamed] at h
    cases hrest : lastNamed name fs with
    | some x =>
      rw [hrest] at h
      cases h
      obtain ⟨hmem, hname⟩ := lastNamed_mem hrest
      exact ⟨List.mem_cons_of_mem _ hmem, hname⟩
    | none =>
      rw [hrest, Option.none_or] at h
      split at h
      · cases h; exact ⟨List.mem_cons_self .., ‹_›⟩
      · cases h

theorem slot_last {d : ConfigData} {name : Str} {s : DataSlot} (h : d.slot name = .ok s) :
    d.data.get? name = some s ∧ lastNamed name d.cfg.cfgStruct = some s.fld := by
  unfold slot at h
  cases hs : d.data.get? name with
  | none => rw [hs] at h; cases h
  | some s' =>
    rw [hs] at h
    cases h
    have hlast := d.slots name
    rw [hs] at hlast
    exact ⟨rfl, hlast.symm⟩

variable {d d' : ConfigData}

theorem setInt_ok {name : Str} (hname : ¬ reservedName <+: name) {val : Int}
    (h : d.setTomlValue name (.int val) = .ok d') :
    ∃ f ∈ d.cfg.fields, ∃ t, f.Is name t ∧ LittleEndian.Fits t.size t.isSigned val ∧ d' = d.store name (.int val) := by
  unfold setTomlValue at h
  cases hs : d.slot name with
  | error x => rw [hs] at h; cases h
  | ok s =>
    rw [hs] at h
    obtain ⟨hmem, rfl⟩ := lastNamed_mem (slot_last hs).2
    have hparsed := (d.cfg.parsed _ hmem).type
    obtain ⟨value, name, shift, default, type, comment⟩ := s
    cases type with
    | int t =>
      simp only [fromToml] at h
      split at h
      · cases h
        exact ⟨_, mem_fields.2 ⟨hmem, rfl⟩, t, ⟨rfl, rfl⟩, ‹_›, rfl⟩
      · cases h
    | enum e => cases h
    | enumChar e => cases h
    | enumDummy e => cases h
    | char n => cases h
    | dummy n => exact absurd hparsed hname

/-- Nothing happens to the fields but that integers of the right range are set. -/
def Keeps (d d' : ConfigData) : Prop :=
  d'.cfg = d.cfg ∧ ∀ f ∈ d.cfg.fields, d'.value f.name = d.value f.name ∨
    ∃ t val, f.type = .int t ∧ LittleEndian.Fits t.size t.isSigned val ∧ d'.value f.name = some (.int val)

theorem Keeps.trans {d'' : ConfigData} (h : Keeps d d') (h' : Keeps d' d'') : Keeps d d'' := by
  refine ⟨h'.1.trans h.1, fun f hf => ?_⟩
  rcases h'.2 f (h.1 ▸ hf) with heq | hint
  · rw [heq]
    exact h.2 f hf
  · exact .inr hint

theorem keeps_store (hown : d.cfg.OwnSlots) {f : CfgField} (hf : f ∈ d.cfg.fields) {name : Str} {t : IntType} (h : f.Is name t)
    {val : Int} (hfits : LittleEndian.Fits t.size t.isSigned val) : Keeps d (d.store name (.int val)) := by
  refine ⟨rfl, fun g hg => ?_⟩
  rw [valueInt_store hown hf h]
  by_cases hname : name = g.name
  · obtain rfl := hown.eq_of_name hf hg (h.name.trans hname)
    exact .inr ⟨t, val, h.type, hfits, if_pos hname⟩
  · exact .inl (if_neg hname)

theorem notReserved_version : ¬ reservedName <+: versionName := by decide
theorem notReserved_size : ¬ reservedName <+: sizeName := by decide
theorem notReserved_crc : ¬ reservedName <+: crcName := by decide

/-- The first two steps of `patch_binary_image`. -/
theorem patchBinaryImage_start (hown : d.cfg.OwnSlots) (hfits : d.Fits) {setCrc : Bool}
    (h : d.patchBinaryImage setCrc = .ok d') :
    (∃ f ∈ d.cfg.fields, ∃ t, f.Is versionName t ∧ LittleEndian.Fits t.size t.isSigned d.cfg.version) ∧
      ∃ f ∈ d.cfg.fields, ∃ t, f.Is sizeName t ∧
        LittleEndian.Fits t.size t.isSigned ((d.cfg.size / 4 : Nat) - 1 : Int) := by
  obtain ⟨d₁, hset, h⟩ := of_bind_eq_ok h
  have hset : d.setTomlValue versionName (.int d.cfg.version) = .ok d₁ := hset
  obtain ⟨fv, hfv, tv, hv, hver, rfl⟩ := setInt_ok notReserved_version hset
  refine ⟨⟨fv, hfv, tv, hv, hver⟩, ?_⟩
  have hfits₁ := fitsInt_store hown hfv hv hfits hver
  have hlen : (d.store versionName (.int d.cfg.version)).image.length = d.cfg.size := length_image hfits₁
  obtain ⟨img, hbin, h⟩ := of_bind_eq_ok h
  obtain rfl : img = (d.store versionName (.int d.cfg.version)).image :=
    Except.ok.inj (hbin.symm.trans (getFullBinary_eq hown hfits₁))
  rw [hlen, if_neg (Classical.not_not.2 d.cfg.aligned)] at h
  obtain ⟨d₂, hset₂, -⟩ := of_bind_eq_ok h
  obtain ⟨fs, hfs, ts, hs, hsize, -⟩ :=
    setInt_ok (d := d.store versionName (.int d.cfg.version)) notReserved_size hset₂
  exact ⟨fs, hfs, ts, hs, hsize⟩

theorem lastNamed_is (hown : d.cfg.OwnSlots) {f : CfgField} (hf : f ∈ d.cfg.fields) {name : Str} {t : IntType}
    (h : f.Is name t) : lastNamed name d.cfg.cfgStruct = some f := h.name ▸ hown.last f hf

theorem patchBinaryImage_ok (hown : d.cfg.OwnSlots) (hfits : d.Fits) {unsafeCrc : Bool}
    (h : d.patchBinaryImage (!unsafeCrc) = .ok d') : d.Stampable unsafeCrc ∧ Keeps d d' := by
  obtain ⟨⟨fv, hfv, tv, hv, hver⟩, fs, hfs, ts, hs, hsize⟩ := patchBinaryImage_start hown hfits h
  have hown₁ : (d.store versionName (.int d.cfg.version)).cfg.OwnSlots := hown
  have hkeeps : Keeps d d.stamped := (keeps_store hown hfv hv hver).trans (keeps_store hown₁ hfs hs hsize)
  have hown₂ : d.stamped.cfg.OwnSlots := hown
  rw [patchBinaryImage_eq hown hfits hfv hv hfs hs hver hsize] at h
  cases unsafeCrc with
  | false =>
    obtain ⟨fc, hfc, t, hc, hcrc, rfl⟩ := setInt_ok (d := d.stamped) notReserved_crc h
    exact ⟨⟨⟨fv, hfv, tv, hv, hver⟩, ⟨fs, hfs, ts, hs, hsize⟩, fc, lastNamed_is hown hfc hc, .inr ⟨t, hc, hcrc⟩⟩,
      hkeeps.trans (keeps_store hown₂ hfc hc hcrc)⟩
  | true =>
    rw [if_neg (by decide)] at h
    cases hslot : d.stamped.slot crcName with
    | error x => rw [getTomlValue, hslot] at h; cases h
    | ok s =>
      have hlast : lastNamed crcName d.cfg.cfgStruct = some s.fld := (slot_last hslot).2
      rw [getTomlValue_stamped_crc hlast] at h
      simp only [Except.bind] at h
      split at h
      · cases h
        exact ⟨⟨⟨fv, hfv, tv, hv, hver⟩, ⟨fs, hfs, ts, hs, hsize⟩, s.fld, hlast, .inl ⟨rfl, ‹_›⟩⟩, hkeeps⟩
      · obtain ⟨fc, hfc, t, hc, hcrc, rfl⟩ := setInt_ok (d := d.stamped) notReserved_crc h
        exact ⟨⟨⟨fv, hfv, tv, hv, hver⟩, ⟨fs, hfs, ts, hs, hsize⟩, fc, lastNamed_is hown hfc hc, .inr ⟨t, hc, hcrc⟩⟩,
          hkeeps.trans (keeps_store hown₂ hfc hc hcrc)⟩

/-- **`patch_binary_image`** goes through where the header fields take their values. -/
theorem patchBinaryImage_of_stampable (hown : d.cfg.OwnSlots) (hfits : d.Fits) {unsafeCrc : Bool} (h : d.Stampable unsafeCrc) :
    ∃ d', d.patchBinaryImage (!unsafeCrc) = .ok d' := by
  obtain ⟨⟨fv, hfv, tv, hv, hver⟩, ⟨fs, hfs, ts, hs, hsize⟩, fc, hlast, hcrc⟩ := h
  have hmem {t : IntType} (hc : fc.Is crcName t) : fc ∈ d.cfg.fields := mem_fields.2 ⟨(lastNamed_mem hlast).1, hc.isFiller⟩
  have hown₂ : d.stamped.cfg.OwnSlots := hown
  rw [patchBinaryImage_eq hown hfits hfv hv hfs hs hver hsize]
  cases unsafeCrc with
  | false =>
    rcases hcrc with ⟨hu, -⟩ | ⟨t, hc, hcrc⟩
    · cases hu
    · exact ⟨_, (setInt_eq hown₂ (hmem hc) hc _).trans (if_pos hcrc)⟩
  | true =>
    rw [if_neg (by decide), getTomlValue_stamped_crc hlast]
    simp only [Except.bind]
    split
    · exact ⟨_, rfl⟩
    · rename_i hset
      rcases hcrc with ⟨-, hcrc⟩ | ⟨t, hc, hcrc⟩
      · exact absurd hcrc hset
      · exact ⟨_, (setInt_eq hown₂ (hmem hc) hc _).trans (if_pos hcrc)⟩

/-! ## Slots of other fields -/

theorem setTomlValue_ok {name : Str} {val : TomlValue} (h : d.setTomlValue name val = .ok d') : ∃ v, d' = d.store name v := by
  unfold setTomlValue at h
  cases hs : d.slot name with
  | error x => rw [hs] at h; cases h
  | ok s =>
    rw [hs] at h
    simp only at h
    cases hv : fromToml s.fld val with
    | error x => rw [hv] at h; cases h
    | ok v => rw [hv] at h; cases h; exact ⟨v, rfl⟩

/-- `patch_binary_image` stores nothing but the header fields. -/
theorem patchBinaryImage_stores {setCrc : Bool} (h : d.patchBinaryImage setCrc = .ok d') :
    ∃ v₁ v₂, d' = (d.store versionName v₁).store sizeName v₂ ∨
      ∃ v₃, d' = ((d.store versionName v₁).store sizeName v₂).store crcName v₃ := by
  obtain ⟨d₁, hset₁, h⟩ := of_bind_eq_ok h
  obtain ⟨v₁, rfl⟩ := setTomlValue_ok hset₁
  obtain ⟨img₁, -, h⟩ := of_bind_eq_ok h
  split at h
  · cases h
  · obtain ⟨d₂, hset₂, h⟩ := of_bind_eq_ok h
    obtain ⟨v₂, rfl⟩ := setTomlValue_ok hset₂
    obtain ⟨img₂, -, h⟩ := of_bind_eq_ok h
    refine ⟨v₁, v₂, ?_⟩
    split at h
    · exact .inr (setTomlValue_ok h)
    · obtain ⟨crc, -, h⟩ := of_bind_eq_ok h
      split at h
      · cases h; exact .inl rfl
      · exact .inr (setTomlValue_ok h)

theorem cfg_patchBinaryImage {setCrc : Bool} (h : d.patchBinaryImage setCrc = .ok d') : d'.cfg = d.cfg := by
  obtain ⟨v₁, v₂, rfl | ⟨v₃, rfl⟩⟩ := patchBinaryImage_stores h <;> rfl

theorem setBinaryValue_ok {name : Str} {val : List UInt8} (h : d.setBinaryValue name val = .ok d') :
    ∃ s, d.data.get? name = some s ∧ d' = d.store name (fromBinary s.fld val) := by
  unfold setBinaryValue at h
  cases hs : d.slot name with
  | error x => rw [hs] at h; cases h
  | ok s => rw [hs] at h; cases h; exact ⟨s, (slot_last hs).1, rfl⟩

theorem fld_of_last {name : Str} {s : DataSlot} {g : CfgField} (hs : d.data.get? name = some s)
    (hlast : lastNamed name d.cfg.cfgStruct = some g) : s.fld = g := by
  have hslot := d.slots name
  rw [hs, hlast] at hslot
  exact Option.some.inj hslot

/-- **A pass of the loop of `set_full_binary`**: a filler is skipped, and any other field goes to the slot of its name. -/
theorem setBinaries_cons {f : CfgField} {fs : List CfgField} {bytes : List UInt8}
    (h : d.setBinaries bytes (f :: fs) = .ok d') :
    (f.isFiller = true ∧ d.setBinaries (bytes.drop f.size) fs = .ok d') ∨
      (f.isFiller = false ∧ ∃ s, d.data.get? f.name = some s ∧
        (d.store f.name (fromBinary s.fld (bytes.take f.size))).setBinaries (bytes.drop f.size) fs = .ok d') := by
  rw [setBinaries] at h
  cases hfill : f.isFiller with
  | true =>
    rw [hfill, if_pos rfl] at h
    exact .inl ⟨rfl, h⟩
  | false =>
    rw [hfill, if_neg Bool.false_ne_true] at h
    cases hset : d.setBinaryValue f.name (bytes.take f.size) with
    | error x => rw [hset] at h; cases h
    | ok d₁ =>
      rw [hset] at h
      obtain ⟨s, hs, rfl⟩ := setBinaryValue_ok hset
      exact .inr ⟨rfl, s, hs, h⟩

theorem cfg_setBinaries : ∀ {fs : List CfgField} {d d' : ConfigData} {bytes : List UInt8}, d.setBinaries bytes fs = .ok d' →
    d'.cfg = d.cfg
  | [], d, d', bytes, h => by cases h; rfl
  | f :: fs, d, d', bytes, h => by
    obtain ⟨-, h⟩ | ⟨-, s, -, h⟩ := setBinaries_cons h
    · exact cfg_setBinaries h
    · exact cfg_setBinaries (d := d.store f.name _) h

end ConfigData

end Mstd.Cfg
