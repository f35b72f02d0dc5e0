import Mstd.CfgData
import Mstd.SetupDurable
/-!
# Images of the config tool and the device

`getBinaries_eq` and `setBinaries_eq` say what the loops over the fields write and read, field by field at its shift.
An image that `save_bin_config` made passes the tool's and the device's checks and is read back (`saved_image_agrees`).
-/
namespace Mstd.Cfg

open Py (Str Dict)

/-! ## One field -/

/-- The value can be written to a field of this type. -/
def ValueFits : FieldType → Option Value → Prop
  | _,           none              => True
  | .char n,     some (.bytes val) => val.length ≤ n
  | .enumChar e, some (.bytes val) => val.length ≤ e.baseType.size
  | .char _,     some (.int _)     => False
  | .enumChar _, some (.int _)     => False
  | _,           some (.bytes _)   => False
  | t,           some (.int val)   => LittleEndian.Fits t.size t.isSigned val

instance (t : FieldType) (v : Option Value) : Decidable (ValueFits t v) :=
  match v with
  | none              => .isTrue (by cases t <;> trivial)
  | some (.bytes val) =>
    match t with
    | .char n                                    => inferInstanceAs (Decidable (val.length ≤ n))
    | .enumChar e                                => inferInstanceAs (Decidable (val.length ≤ e.baseType.size))
    | .int _ | .enum _ | .enumDummy _ | .dummy _ => .isFalse id
  | some (.int val)   =>
    match t with
    | .char _ | .enumChar _  => .isFalse id
    | .int t                 => inferInstanceAs (Decidable (LittleEndian.Fits t.size t.isSigned val))
    | .enum e | .enumDummy e => inferInstanceAs (Decidable (LittleEndian.Fits e.baseType.size e.baseType.isSigned val))
    | .dummy n               => inferInstanceAs (Decidable (LittleEndian.Fits n false val))

/-- The value that a field's bytes stand for: `None` is written as 0 or the empty string, a string up to its size. -/
def written : FieldType → Option Value → Value
  | .char n,     some (.bytes val) => .bytes (val ++ List.replicate (n - val.length) 0)
  | .enumChar e, some (.bytes val) => .bytes (val ++ List.replicate (e.baseType.size - val.length) 0)
  | .char n,     _                 => .bytes (List.replicate n 0)
  | .enumChar e, _                 => .bytes (List.replicate e.baseType.size 0)
  | _,           some val          => val
  | _,           none              => .int 0

/-- The bytes of a value. -/
def valueBytes (t : FieldType) : Value → List UInt8
  | .int val   => LittleEndian.encode t.size (val % 256 ^ t.size).toNat
  | .bytes val => val

def encodeField (t : FieldType) (v : Option Value) : List UInt8 := valueBytes t (written t v)

theorem fits_zero (w : Nat) (signed : Bool) : LittleEndian.Fits w signed 0 := by
  have h : (0 : Int) < 256 ^ w := by positivity
  unfold LittleEndian.Fits
  split <;> omega

theorem fits_natCast {w n : Nat} (h : n < 256 ^ w) : LittleEndian.Fits w false n := by
  unfold LittleEndian.Fits
  rw [if_neg Bool.false_ne_true]
  exact ⟨Int.natCast_nonneg n, by exact_mod_cast h⟩

section

variable {f : CfgField} {v : Option Value}

theorem toBinary_eq (h : ValueFits f.type v) : ConfigData.toBinary ⟨v, f⟩ = .ok (encodeField f.type v) := by
  obtain ⟨name, shift, default, type, comment⟩ := f
  cases v with
  | none =>
    cases type <;> simp [ConfigData.toBinary, LittleEndian.encodeInt, fits_zero, encodeField, written, valueBytes,
      CfgField.size, FieldType.size]
  | some val =>
    cases type <;> cases val <;> simp_all [ConfigData.toBinary, LittleEndian.encodeInt, encodeField, written, valueBytes,
      ValueFits, CfgField.size, FieldType.size]

theorem length_encodeField (h : ValueFits f.type v) : (encodeField f.type v).length = f.size := by
  obtain ⟨name, shift, default, type, comment⟩ := f
  cases v with
  | none => cases type <;> simp [encodeField, written, valueBytes, CfgField.size, FieldType.size]
  | some val =>
    cases type <;> cases val <;> simp_all [encodeField, written, valueBytes, CfgField.size, FieldType.size, ValueFits]

theorem decodeInt_encode {w : Nat} {signed : Bool} {i : Int} (h : LittleEndian.Fits w signed i) :
    LittleEndian.decodeInt signed (LittleEndian.encode w (i % 256 ^ w).toNat) = i :=
  LittleEndian.decodeInt_encodeInt (if_pos h)

theorem encode_decodeInt (signed : Bool) {w : Nat} {bytes : List UInt8} (h : bytes.length = w) :
    LittleEndian.encode w (LittleEndian.decodeInt signed bytes % 256 ^ w).toNat = bytes := by
  subst h
  have hround := LittleEndian.encodeInt_decodeInt signed bytes
  rw [LittleEndian.encodeInt, if_pos (LittleEndian.fits_decodeInt signed bytes)] at hround
  exact Option.some.inj hround

/-- **A field's bytes are read back as the value they stand for.** -/
theorem fromBinary_encodeField (h : ValueFits f.type v) :
    ConfigData.fromBinary f (encodeField f.type v) = written f.type v := by
  have hzero (w : Nat) (signed : Bool) := decodeInt_encode (fits_zero w signed)
  obtain ⟨name, shift, default, type, comment⟩ := f
  cases v with
  | none => cases type <;> simp [ConfigData.fromBinary, encodeField, written, valueBytes] <;> exact hzero _ _
  | some val =>
    cases type <;> cases val <;> simp_all [ConfigData.fromBinary, encodeField, written, valueBytes, ValueFits] <;>
      exact decodeInt_encode h

/-- What a field's bytes are read as is written as the same bytes. -/
theorem encodeField_fromBinary (f : CfgField) {bytes : List UInt8} (h : bytes.length = f.size) :
    encodeField f.type (some (ConfigData.fromBinary f bytes)) = bytes := by
  obtain ⟨name, shift, default, type, comment⟩ := f
  cases type with
  | char n =>
    have hn : n - bytes.length = 0 := by rw [h]; exact Nat.sub_self n
    simp [ConfigData.fromBinary, encodeField, written, valueBytes, hn]
  | enumChar e =>
    have hn : e.baseType.size - bytes.length = 0 := by rw [h]; exact Nat.sub_self _
    simp [ConfigData.fromBinary, encodeField, written, valueBytes, hn]
  | int t => exact encode_decodeInt _ h
  | enum e => exact encode_decodeInt _ h
  | enumDummy e => exact encode_decodeInt _ h
  | dummy n => exact encode_decodeInt _ h

theorem valueFits_fromBinary (f : CfgField) {bytes : List UInt8} (h : bytes.length = f.size) :
    ValueFits f.type (some (ConfigData.fromBinary f bytes)) := by
  obtain ⟨name, shift, default, type, comment⟩ := f
  have hfit (signed : Bool) := LittleEndian.fits_decodeInt signed bytes
  rw [h] at hfit
  cases type with
  | char n => exact Nat.le_of_eq h
  | enumChar e => exact Nat.le_of_eq h
  | int t => exact hfit _
  | enum e => exact hfit _
  | enumDummy e => exact hfit _
  | dummy n => exact hfit _

end

/-! ## The fields of a config -/

/-- The fields that are no fillers. -/
def Config.fields (cfg : Config) : List CfgField := cfg.cfgStruct.filter (fun f => !f.isFiller)

/-- Every field that is no filler has the slot of its name, and no other of them has its name. -/
structure Config.OwnSlots (cfg : Config) : Prop where
  nodup : (cfg.fields.map CfgField.name).Nodup
  last : ∀ f ∈ cfg.fields, lastNamed f.name cfg.cfgStruct = some f

theorem mem_fields {cfg : Config} {f : CfgField} : f ∈ cfg.fields ↔ f ∈ cfg.cfgStruct ∧ f.isFiller = false := by
  rw [Config.fields, List.mem_filter, Bool.not_eq_true']

theorem lastNamed_of_notMem {name : Str} {fs : List CfgField} (h : name ∉ fs.map CfgField.name) :
    lastNamed name fs = none := by
  induction fs with
  | nil => rfl
  | cons f fs ih =>
    rw [List.map_cons, List.mem_cons, not_or] at h
    rw [lastNamed, ih h.2, if_neg (fun hname => h.1 hname.symm)]
    rfl

theorem lastNamed_of_nodup {fs : List CfgField} (h : (fs.map CfgField.name).Nodup) {f : CfgField} (hf : f ∈ fs) :
    lastNamed f.name fs = some f := by
  induction fs with
  | nil => cases hf
  | cons g fs ih =>
    rw [List.map_cons, List.nodup_cons] at h
    rw [lastNamed]
    rcases List.mem_cons.1 hf with rfl | hf
    · rw [lastNamed_of_notMem h.1, if_pos rfl]; rfl
    · rw [ih h.2 hf]; rfl

theorem ownSlots_of_nodup {cfg : Config} (h : (cfg.cfgStruct.map CfgField.name).Nodup) : cfg.OwnSlots where
  nodup := h.sublist (List.filter_sublist.map _)
  last _ hf := lastNamed_of_nodup h (mem_fields.1 hf).1

theorem Config.OwnSlots.eq_of_name {cfg : Config} (h : cfg.OwnSlots) {f g : CfgField} (hf : f ∈ cfg.fields)
    (hg : g ∈ cfg.fields) (hname : f.name = g.name) : f = g := List.inj_on_of_nodup_map h.nodup hf hg hname

namespace ConfigData

def value (d : ConfigData) (name : Str) : Option Value := (d.data.get? name).bind DataSlot.value

variable {d : ConfigData} {f : CfgField}

theorem slot_of_last {name : Str} (hlast : lastNamed name d.cfg.cfgStruct = some f) :
    d.slot name = .ok ⟨d.value name, f⟩ := by
  have hslot := d.slots name
  rw [hlast] at hslot
  obtain ⟨s, hs, rfl⟩ := Option.map_eq_some_iff.1 hslot
  rw [slot, value, hs]
  rfl

theorem slot_eq (hown : d.cfg.OwnSlots) (hf : f ∈ d.cfg.fields) : d.slot f.name = .ok ⟨d.value f.name, f⟩ :=
  slot_of_last (hown.last f hf)

theorem value_store_ne (d : ConfigData) {name x : Str} (h : name ≠ x) (v : Value) : (d.store name v).value x = d.value x := by
  rw [value, store, Dict.get?_modify, if_neg h]
  rfl

theorem value_store_self {name : Str} (hlast : lastNamed name d.cfg.cfgStruct = some f) (v : Value) :
    (d.store name v).value name = some v := by
  have hslot := d.slots name
  rw [hlast] at hslot
  obtain ⟨s, hs, -⟩ := Option.map_eq_some_iff.1 hslot
  rw [value, store, Dict.get?_modify, if_pos rfl, hs]
  rfl

theorem value_store (hown : d.cfg.OwnSlots) (hf : f ∈ d.cfg.fields) (v : Value) (x : Str) :
    (d.store f.name v).value x = if f.name = x then some v else d.value x := by
  by_cases hx : f.name = x
  · subst hx
    rw [if_pos rfl, value_store_self (hown.last f hf)]
  · rw [if_neg hx, value_store_ne d hx]

theorem setTomlValue_eq (hown : d.cfg.OwnSlots) (hf : f ∈ d.cfg.fields) (val : TomlValue) :
    d.setTomlValue f.name val = (fromToml f val).map (d.store f.name) := by
  rw [setTomlValue, slot_eq hown hf]

theorem getTomlValue_eq (hown : d.cfg.OwnSlots) (hf : f ∈ d.cfg.fields) :
    d.getTomlValue f.name = .ok (tomlOf ⟨d.value f.name, f⟩) := by
  rw [getTomlValue, slot_eq hown hf]
  rfl

theorem setBinaryValue_eq (hown : d.cfg.OwnSlots) (hf : f ∈ d.cfg.fields) (val : List UInt8) :
    d.setBinaryValue f.name val = .ok (d.store f.name (fromBinary f val)) := by
  rw [setBinaryValue, slot_eq hown hf]
  rfl

/-- What `get_full_binary` puts for a field. -/
def fieldBytes (d : ConfigData) (f : CfgField) : List UInt8 :=
  if f.isFiller then List.replicate f.size 0 else encodeField f.type (d.value f.name)

/-- The values of the fields can be written. -/
def Fits (d : ConfigData) : Prop := ∀ f ∈ d.cfg.fields, ValueFits f.type (d.value f.name)

theorem length_fieldBytes (h : d.Fits) (hf : f ∈ d.cfg.cfgStruct) : (d.fieldBytes f).length = f.size := by
  unfold fieldBytes
  cases hfill : f.isFiller with
  | true => rw [if_pos rfl, List.length_replicate]
  | false => rw [if_neg Bool.false_ne_true, length_encodeField (h f (mem_fields.2 ⟨hf, hfill⟩))]

/-- **The loop of `get_full_binary`** puts the fields' bytes one behind the other. -/
theorem getBinaries_eq (hown : d.cfg.OwnSlots) (hfits : d.Fits) {fs : List CfgField} (hfs : ∀ f ∈ fs, f ∈ d.cfg.cfgStruct) :
    d.getBinaries fs = .ok (fs.flatMap d.fieldBytes) := by
  induction fs with
  | nil => rfl
  | cons f fs ih =>
    have hf := hfs f (List.mem_cons_self ..)
    have hfield : (if f.isFiller then .ok (List.replicate f.size 0) else d.getBinaryValue f.name) =
        (.ok (d.fieldBytes f) : Except Error (List UInt8)) := by
      unfold fieldBytes
      cases hfill : f.isFiller with
      | true => rw [if_pos rfl, if_pos rfl]
      | false =>
        have hmem := mem_fields.2 ⟨hf, hfill⟩
        rw [if_neg Bool.false_ne_true, if_neg Bool.false_ne_true, getBinaryValue, slot_eq hown hmem, Except.bind,
          toBinary_eq (hfits f hmem)]
    rw [getBinaries, hfield, ih (fun g hg => hfs g (List.mem_cons_of_mem _ hg)), List.flatMap_cons]

theorem getFullBinary_eq (hown : d.cfg.OwnSlots) (hfits : d.Fits) :
    d.getFullBinary = .ok (d.cfg.cfgStruct.flatMap d.fieldBytes) := getBinaries_eq hown hfits (fun _ hf => hf)

end ConfigData

/-! ## Layouts -/

section

variable {g : CfgField → List UInt8} {fs : List CfgField} {shift size : Nat}

theorem Layout.length (h : Layout shift fs size) (hg : ∀ f ∈ fs, (g f).length = f.size) :
    shift + (fs.flatMap g).length = size := by
  induction fs generalizing shift with
  | nil => exact h
  | cons f fs ih =>
    have hrest := ih h.2 (fun x hx => hg x (List.mem_cons_of_mem _ hx))
    rw [List.flatMap_cons, List.length_append, hg f (List.mem_cons_self ..)]
    omega

theorem Layout.le_shift (h : Layout shift fs size) {f : CfgField} (hf : f ∈ fs) : shift ≤ f.shift := by
  induction fs generalizing shift with
  | nil => cases hf
  | cons f' fs ih =>
    rcases List.mem_cons.1 hf with rfl | hf
    · exact Nat.le_of_eq h.1.symm
    · exact Nat.le_trans (Nat.le_add_right _ _) (ih h.2 hf)

theorem Layout.le_size (h : Layout shift fs size) {f : CfgField} (hf : f ∈ fs) : f.shift + f.size ≤ size := by
  induction fs generalizing shift with
  | nil => cases hf
  | cons f' fs ih =>
    rcases List.mem_cons.1 hf with rfl | hf
    · have hlen := Layout.length h.2 (g := fun f => List.replicate f.size 0) (fun _ _ => List.length_replicate)
      have hshift := h.1
      omega
    · exact ih h.2 hf

theorem Layout.slice (h : Layout shift fs size) (hg : ∀ f ∈ fs, (g f).length = f.size) {f : CfgField} (hf : f ∈ fs) :
    ((fs.flatMap g).drop (f.shift - shift)).take f.size = g f := by
  induction fs generalizing shift with
  | nil => cases hf
  | cons f' fs ih =>
    have hlen := hg f' (List.mem_cons_self ..)
    rcases List.mem_cons.1 hf with rfl | hf
    · rw [h.1, Nat.sub_self, List.drop_zero, List.flatMap_cons, List.take_left' hlen]
    · have hle := Layout.le_shift h.2 hf
      rw [List.flatMap_cons, show f.shift - shift = f'.size + (f.shift - (shift + f'.size)) by omega, ← List.drop_drop,
        List.drop_left' hlen]
      exact ih h.2 (fun x hx => hg x (List.mem_cons_of_mem _ hx)) hf

end

namespace ConfigData

/-- What `set_full_binary` leaves: the value that each field's bytes are read as. -/
def Reads (d : ConfigData) (bytes : List UInt8) (fs : List CfgField) : Prop :=
  ∀ f ∈ fs, f.isFiller = false → d.value f.name = some (fromBinary f ((bytes.drop f.shift).take f.size))

/-- **The loop of `set_full_binary`** reads each field at its shift. -/
theorem setBinaries_eq {d : ConfigData} (hown : d.cfg.OwnSlots) (bytes : List UInt8) {fs : List CfgField}
    {shift size : Nat} (hlayout : Layout shift fs size) (hfs : ∀ f ∈ fs, f ∈ d.cfg.cfgStruct)
    (hnodup : ((fs.filter (fun f => !f.isFiller)).map CfgField.name).Nodup) :
    ∃ d', d.setBinaries (bytes.drop shift) fs = .ok d' ∧ d'.cfg = d.cfg ∧ d'.Reads bytes fs ∧
      ∀ name, (∀ f ∈ fs, f.isFiller = false → f.name ≠ name) → d'.value name = d.value name := by
  induction fs generalizing d shift with
  | nil => exact ⟨d, rfl, rfl, fun f hf => (nomatch hf), fun _ _ => rfl⟩
  | cons f fs ih =>
    have hmem := fun g hg => hfs g (List.mem_cons_of_mem f hg)
    rw [setBinaries, List.drop_drop]
    cases hfill : f.isFiller with
    | true =>
      rw [if_pos rfl]
      rw [List.filter_cons_of_neg (by simp [hfill])] at hnodup
      obtain ⟨d', hset, hcfg, hreads, hrest⟩ := ih hown hlayout.2 hmem hnodup
      refine ⟨d', hset, hcfg, fun g hg hgfill => ?_, fun name hname => hrest name (fun g hg =>
        hname g (List.mem_cons_of_mem _ hg))⟩
      rcases List.mem_cons.1 hg with rfl | hg
      · rw [hfill] at hgfill; cases hgfill
      · exact hreads g hg hgfill
    | false =>
      have hf := mem_fields.2 ⟨hfs f (List.mem_cons_self ..), hfill⟩
      rw [if_neg Bool.false_ne_true, setBinaryValue_eq hown hf]
      rw [List.filter_cons_of_pos (by simp [hfill]), List.map_cons, List.nodup_cons] at hnodup
      have hother : ∀ g ∈ fs, g.isFiller = false → g.name ≠ f.name := fun g hg hgfill hname =>
        hnodup.1 (hname ▸ List.mem_map_of_mem (List.mem_filter.2 ⟨hg, by rw [hgfill]; rfl⟩))
      obtain ⟨d', hset, hcfg, hreads, hrest⟩ :=
        ih (d := d.store f.name (fromBinary f ((bytes.drop shift).take f.size))) hown hlayout.2 hmem hnodup.2
      refine ⟨d', hset, hcfg, fun g hg hgfill => ?_, fun name hname => ?_⟩
      · rcases List.mem_cons.1 hg with rfl | hg
        · rw [hrest g.name hother, value_store hown hf, if_pos rfl, hlayout.1]
        · exact hreads g hg hgfill
      · rw [hrest name (fun g hg => hname g (List.mem_cons_of_mem _ hg)), value_store hown hf,
          if_neg (hname f (List.mem_cons_self ..) hfill)]

theorem setFullBinary_eq {d : ConfigData} (hown : d.cfg.OwnSlots) (bytes : List UInt8) :
    ∃ d', d.setFullBinary bytes = .ok d' ∧ d'.cfg = d.cfg ∧ d'.Reads bytes d.cfg.cfgStruct := by
  obtain ⟨d', hset, hcfg, hreads, -⟩ := setBinaries_eq hown bytes d.cfg.layout (fun _ hf => hf) hown.nodup
  exact ⟨d', hset, hcfg, hreads⟩

theorem setFullBinary_of_load {d d' : ConfigData} {image : List UInt8} {force : Nat}
    (h : d.loadBinConfig image force = .ok d') : d.setFullBinary image = .ok d' := by
  unfold loadBinConfig at h
  split at h
  · split at h
    · cases h
    · split at h
      · cases h
      · exact h
  · exact h

/-- What was read from bytes of the right size is written as the same bytes, with zeros for the fillers. -/
theorem Reads.fieldBytes {d : ConfigData} {bytes : List UInt8} (h : d.Reads bytes d.cfg.cfgStruct) {f : CfgField}
    (hf : f ∈ d.cfg.cfgStruct) (hlen : ((bytes.drop f.shift).take f.size).length = f.size) :
    d.fieldBytes f = if f.isFiller then List.replicate f.size 0 else (bytes.drop f.shift).take f.size := by
  unfold ConfigData.fieldBytes
  cases hfill : f.isFiller with
  | true => rfl
  | false => rw [if_neg Bool.false_ne_true, if_neg Bool.false_ne_true, h f hf hfill, encodeField_fromBinary f hlen]

theorem Reads.fits {d : ConfigData} {bytes : List UInt8} (h : d.Reads bytes d.cfg.cfgStruct)
    (hlen : ∀ f ∈ d.cfg.cfgStruct, ((bytes.drop f.shift).take f.size).length = f.size) : d.Fits := by
  intro f hf
  obtain ⟨hmem, hfill⟩ := mem_fields.1 hf
  rw [h f hmem hfill]
  exact valueFits_fromBinary f (hlen f hmem)

end ConfigData

/-! ## Stamping the header -/

/-- An integer field of this name. -/
structure CfgField.Is (f : CfgField) (name : Str) (t : IntType) : Prop where
  name : f.name = name
  type : f.type = .int t

def crcName : Str := "crc".toList
def sizeName : Str := "size".toList
def versionName : Str := "version".toList

theorem CfgField.Is.isFiller {f : CfgField} {name : Str} {t : IntType} (h : f.Is name t) : f.isFiller = false := by
  rw [CfgField.isFiller, h.type]
  rfl

namespace ConfigData

variable {d : ConfigData} {f : CfgField} {name : Str} {t : IntType}

theorem setInt_eq (hown : d.cfg.OwnSlots) (hf : f ∈ d.cfg.fields) (h : f.Is name t) (i : Int) :
    d.setTomlValue name (.int i) =
      if LittleEndian.Fits t.size t.isSigned i then .ok (d.store name (.int i)) else .error .overflowError := by
  have hfrom : fromToml f (.int i) =
      if LittleEndian.Fits t.size t.isSigned i then .ok (.int i) else .error .overflowError := by
    unfold fromToml CfgField.size
    rw [h.type]
    rfl
  rw [← h.name, setTomlValue_eq hown hf, hfrom]
  split <;> rfl

theorem fits_store (hown : d.cfg.OwnSlots) (hf : f ∈ d.cfg.fields) (hfits : d.Fits) {v : Value}
    (hv : ValueFits f.type (some v)) : (d.store f.name v).Fits := by
  intro g hg
  rw [value_store hown hf]
  by_cases hname : f.name = g.name
  · obtain rfl := hown.eq_of_name hf hg hname
    rwa [if_pos rfl]
  · rw [if_neg hname]
    exact hfits g hg

theorem fitsInt_store (hown : d.cfg.OwnSlots) (hf : f ∈ d.cfg.fields) (h : f.Is name t) (hfits : d.Fits) {i : Int}
    (hi : LittleEndian.Fits t.size t.isSigned i) : (d.store name (.int i)).Fits := by
  rw [← h.name]
  refine fits_store hown hf hfits ?_
  rw [h.type]
  exact hi

theorem valueInt_store (hown : d.cfg.OwnSlots) (hf : f ∈ d.cfg.fields) (h : f.Is name t) (v : Value) (x : Str) :
    (d.store name v).value x = if name = x then some v else d.value x := by
  rw [← h.name, value_store hown hf]

/-- `patch_binary_image` up to the CRC. -/
def stamped (d : ConfigData) : ConfigData :=
  (d.store versionName (.int d.cfg.version)).store sizeName (.int ((d.cfg.size / 4 : Nat) - 1 : Int))

theorem value_stamped (d : ConfigData) {x : Str} (hsize : sizeName ≠ x) (hver : versionName ≠ x) :
    d.stamped.value x = d.value x := by
  rw [stamped, value_store_ne _ hsize, value_store_ne _ hver]

theorem getTomlValue_stamped_crc (hlast : lastNamed crcName d.cfg.cfgStruct = some f) :
    d.stamped.getTomlValue crcName = .ok (tomlOf ⟨d.value crcName, f⟩) := by
  have hslot := slot_of_last (d := d.stamped) hlast
  rw [value_stamped d (by decide) (by decide)] at hslot
  rw [getTomlValue, hslot]
  rfl

theorem stamped_values (hown : d.cfg.OwnSlots) {fs fv : CfgField} (hfs : fs ∈ d.cfg.fields) (hs : fs.Is sizeName .uint16_t)
    (hfv : fv ∈ d.cfg.fields) (hv : fv.Is versionName .uint8_t) (hmin : 4 ≤ d.cfg.size) :
    d.stamped.value crcName = d.value crcName ∧
      d.stamped.value sizeName = some (.int (d.cfg.size / 4 - 1 : Nat)) ∧
      d.stamped.value versionName = some (.int d.cfg.version) := by
  have hcast : ((d.cfg.size / 4 : Nat) - 1 : Int) = ((d.cfg.size / 4 - 1 : Nat) : Int) := by omega
  have hstore := valueInt_store (d := d.store versionName (.int d.cfg.version)) hown hfs hs
    (.int ((d.cfg.size / 4 : Nat) - 1 : Int))
  refine ⟨value_stamped d (by decide) (by decide), ?_, ?_⟩
  · rw [stamped, hstore, if_pos rfl, hcast]
  · rw [stamped, hstore, if_neg (by decide), valueInt_store hown hfv hv, if_pos rfl]

/-- The image of an object whose values can be written. -/
def image (d : ConfigData) : List UInt8 := d.cfg.cfgStruct.flatMap d.fieldBytes

theorem length_image (hfits : d.Fits) : d.image.length = d.cfg.size := by
  have h := d.cfg.layout.length (fun f hf => length_fieldBytes hfits hf)
  rwa [Nat.zero_add] at h

theorem stamped_fits (hown : d.cfg.OwnSlots) (hfits : d.Fits) {fv fs : CfgField} {tv ts : IntType}
    (hfv : fv ∈ d.cfg.fields) (hv : fv.Is versionName tv) (hfs : fs ∈ d.cfg.fields) (hs : fs.Is sizeName ts)
    (hver : LittleEndian.Fits tv.size tv.isSigned d.cfg.version)
    (hsize : LittleEndian.Fits ts.size ts.isSigned ((d.cfg.size / 4 : Nat) - 1 : Int)) : d.stamped.Fits :=
  fitsInt_store (d := d.store versionName (.int d.cfg.version)) hown hfs hs (fitsInt_store hown hfv hv hfits hver) hsize

/-- **`patch_binary_image`** stamps version and size and goes on to the CRC, when both fit their fields. -/
theorem patchBinaryImage_eq (hown : d.cfg.OwnSlots) (hfits : d.Fits) {fv fs : CfgField} {tv ts : IntType}
    (hfv : fv ∈ d.cfg.fields) (hv : fv.Is versionName tv) (hfs : fs ∈ d.cfg.fields) (hs : fs.Is sizeName ts)
    (hver : LittleEndian.Fits tv.size tv.isSigned d.cfg.version)
    (hsize : LittleEndian.Fits ts.size ts.isSigned ((d.cfg.size / 4 : Nat) - 1 : Int)) (setCrc : Bool) :
    d.patchBinaryImage setCrc =
      if setCrc then d.stamped.setTomlValue crcName (.int (evalCrc (d.stamped.image.drop 4)))
      else (d.stamped.getTomlValue crcName).bind (fun crc =>
        if isSet crc then .ok d.stamped else d.stamped.setTomlValue crcName (.int 0xFFFFFFFF)) := by
  have hfits1 := fitsInt_store hown hfv hv hfits hver
  have hfits2 := stamped_fits hown hfits hfv hv hfs hs hver hsize
  have hlen : (d.store versionName (.int d.cfg.version)).image.length = d.cfg.size := length_image hfits1
  have hset1 : d.setTomlValue versionName (.int d.cfg.version) = .ok (d.store versionName (.int d.cfg.version)) := by
    rw [setInt_eq hown hfv hv, if_pos hver]
  have hset2 : (d.store versionName (.int d.cfg.version)).setTomlValue sizeName
      (.int ((d.cfg.size / 4 : Nat) - 1 : Int)) = .ok d.stamped := by
    rw [setInt_eq (d := d.store versionName (.int d.cfg.version)) hown hfs hs, if_pos hsize]
    rfl
  have hbin1 : (d.store versionName (.int d.cfg.version)).getFullBinary =
      .ok (d.store versionName (.int d.cfg.version)).image := getFullBinary_eq hown hfits1
  have hbin2 : d.stamped.getFullBinary = .ok d.stamped.image := getFullBinary_eq hown hfits2
  unfold patchBinaryImage
  rw [show "version".toList = versionName from rfl, show "size".toList = sizeName from rfl,
    show "crc".toList = crcName from rfl, hset1]
  simp only [bind, Except.bind, hbin1, hlen, d.cfg.aligned, ne_eq, not_true_eq_false, if_false, hset2, hbin2]

end ConfigData

/-! ## The header, as the tool and the device read it -/

open ByteMem (ofList)

/-- **`decode_header` reads what the device reads.** -/
theorem decodeHeader_eq {val : List UInt8} (h : 7 ≤ val.length) :
    decodeHeader val =
      .ok ⟨crcAt (ofList val) 0, recordSize (ofList val) 0, LittleEndian.decode ((val.drop 6).take 1)⟩ := by
  rw [decodeHeader, if_neg (by omega), recordSize, sizeAt, crcAt, ByteMem.u32, ByteMem.u16,
    ByteMem.window_ofList_slice val (by omega), ByteMem.window_ofList_slice val (by omega), List.drop_zero]

/-- A whole image: its header has its own size and CRC, and a version. -/
structure Whole (val : List UInt8) (version : Nat) : Prop where
  min : sizeofConfigV0 ≤ val.length
  max : val.length ≤ MAX_CFG_SIZE
  dvd : 4 ∣ val.length
  size : sizeAt (ofList val) 0 = val.length / 4 - 1
  crc : crcAt (ofList val) 0 = evalCrc (val.drop 4)
  version : LittleEndian.decode ((val.drop 6).take 1) = version

theorem Whole.recordSize {val : List UInt8} {version : Nat} (h : Whole val version) :
    recordSize (ofList val) 0 = val.length := by
  have hmin := h.min
  have hmax := h.max
  obtain ⟨k, hk⟩ := h.dvd
  unfold sizeofConfigV0 at hmin
  unfold MAX_CFG_SIZE at hmax
  rw [Mstd.recordSize, h.size, show (0x3FF : Nat) = 2 ^ 10 - 1 from rfl, Nat.and_two_pow_sub_one_eq_mod]
  omega

/-- The device's store takes a whole image as it is. -/
theorem Whole.accepted {val : List UInt8} {version : Nat} (h : Whole val version) : Accepted (savedImage val) := by
  have hmax := h.max
  refine (accepted_savedImage_iff val).2 ⟨hmax, h.min, h.dvd, h.recordSize, ?_, Or.inr ?_⟩
  · unfold MAX_CFG_SIZE at hmax
    rw [h.size, Nat.shiftRight_eq_div_pow]
    omega
  · rw [h.crc, evalCrc_eq]
    rfl

theorem Whole.device {val : List UInt8} {version : Nat} (h : Whole val version) {dev : Setup}
    (hpat : dev.cfgPat = true) : (saveConfigImage .working dev val).err = none := by
  rw [saveConfigImage_accepted hpat h.accepted, storeImage_working]

/-- **The tool accepts a whole image** of a version in its range, without a warning. -/
theorem Whole.tool {val : List UInt8} {version : Nat} (h : Whole val version) (hcrc : evalCrc (val.drop 4) ≠ 0xFFFFFFFF)
    {d : ConfigData} {fv : CfgField} (hown : d.cfg.OwnSlots) (hfv : fv ∈ d.cfg.fields) (hname : fv.name = versionName)
    (hlc : d.cfg.lcVersion ≤ version) (hle : version ≤ d.cfg.version) : d.isBinaryAccepted val = .ok [] := by
  have hmin := h.min
  unfold sizeofConfigV0 at hmin
  have hget : d.getTomlValue "version".toList = .ok (ConfigData.tomlOf ⟨d.value fv.name, fv⟩) := by
    rw [show "version".toList = fv.name from hname.symm, ConfigData.getTomlValue_eq hown hfv]
  unfold ConfigData.isBinaryAccepted
  rw [decodeHeader_eq (by omega), h.recordSize, h.version, h.crc]
  simp only [Nat.le_refl, not_true_eq_false, if_false, gt_iff_lt, Nat.lt_irrefl, hcrc, ne_eq, and_false, hget, hlc, hle,
    and_self, if_true]

/-! ## Saved images -/

/-- The struct begins with `uint32_t crc`, `uint16_t size` and `uint8_t version`. -/
def Config.StartsWithHeader (cfg : Config) : Prop :=
  ∃ crc size version rest, cfg.cfgStruct = crc :: size :: version :: rest ∧ crc.Is crcName .uint32_t ∧
    size.Is sizeName .uint16_t ∧ version.Is versionName .uint8_t

theorem header_bytes {val rest : List UInt8} {crc size version : Nat}
    (h : val = LittleEndian.encode 4 crc ++ (LittleEndian.encode 2 size ++ (LittleEndian.encode 1 version ++ rest)))
    (hcrc : crc < 256 ^ 4) (hsize : size < 256 ^ 2) (hver : version < 256 ^ 1) :
    crcAt (ofList val) 0 = crc ∧ sizeAt (ofList val) 0 = size ∧ LittleEndian.decode ((val.drop 6).take 1) = version := by
  have hlen : 7 ≤ val.length := by
    rw [h]
    simp only [List.length_append, LittleEndian.length_encode]
    omega
  have h4 : val.drop 4 = LittleEndian.encode 2 size ++ (LittleEndian.encode 1 version ++ rest) := by
    rw [h, List.drop_left' (LittleEndian.length_encode _ _)]
  have h6 : val.drop 6 = LittleEndian.encode 1 version ++ rest := by
    rw [show (6 : Nat) = 4 + 2 from rfl, ← List.drop_drop, h4, List.drop_left' (LittleEndian.length_encode _ _)]
  refine ⟨?_, ?_, ?_⟩
  · rw [crcAt, ByteMem.u32, ByteMem.window_ofList_slice val (by omega), List.drop_zero, h,
      List.take_left' (LittleEndian.length_encode _ _), LittleEndian.decode_encode 4 _ hcrc]
  · rw [sizeAt, ByteMem.u16, ByteMem.window_ofList_slice val (by omega), h4,
      List.take_left' (LittleEndian.length_encode _ _), LittleEndian.decode_encode 2 _ hsize]
  · rw [h6, List.take_left' (LittleEndian.length_encode _ _), LittleEndian.decode_encode 1 _ hver]

namespace ConfigData

variable {d : ConfigData}

theorem fieldBytes_int {f : CfgField} {name : Str} {t : IntType} (h : f.Is name t) {n : Nat}
    (hv : d.value name = some (.int n)) (hn : n < 256 ^ t.size) : d.fieldBytes f = LittleEndian.encode t.size n := by
  have hmod : ((n : Int) % 256 ^ t.size).toNat = n := by
    rw [Int.emod_eq_of_lt (Int.natCast_nonneg n) (by exact_mod_cast hn), Int.toNat_natCast]
  rw [fieldBytes, h.isFiller, if_neg Bool.false_ne_true, h.name, hv, h.type]
  show LittleEndian.encode t.size ((n : Int) % 256 ^ t.size).toNat = _
  rw [hmod]

theorem fieldBytes_store_ne (hown : d.cfg.OwnSlots) {f g : CfgField} (hf : f ∈ d.cfg.fields) (v : Value)
    (hne : g.isFiller = false → f.name ≠ g.name) : (d.store f.name v).fieldBytes g = d.fieldBytes g := by
  unfold fieldBytes
  cases hfill : g.isFiller with
  | true => rfl
  | false => rw [if_neg Bool.false_ne_true, if_neg Bool.false_ne_true, value_store hown hf, if_neg (hne hfill)]

/-- A change of the first field does not reach the bytes behind it. -/
theorem drop_image_store (hown : d.cfg.OwnSlots) {f : CfgField} {fs : List CfgField} {name : Str} {t : IntType} {v : Value}
    (hstruct : d.cfg.cfgStruct = f :: fs) (h : f.Is name t) (hfits : d.Fits) (hfits' : (d.store name v).Fits) :
    (d.store name v).image.drop f.size = d.image.drop f.size := by
  have hmem : f ∈ d.cfg.cfgStruct := by rw [hstruct]; exact List.mem_cons_self ..
  have hf : f ∈ d.cfg.fields := mem_fields.2 ⟨hmem, h.isFiller⟩
  have hnodup := hown.nodup
  rw [Config.fields, hstruct, List.filter_cons_of_pos (by rw [h.isFiller]; rfl), List.map_cons, List.nodup_cons] at hnodup
  have hrest : fs.flatMap (d.store name v).fieldBytes = fs.flatMap d.fieldBytes := List.flatMap_congr (fun g hg => by
    rw [← h.name]
    refine fieldBytes_store_ne hown hf v (fun hfill hname => hnodup.1 (hname ▸ ?_))
    exact List.mem_map_of_mem (List.mem_filter.2 ⟨hg, by rw [hfill]; rfl⟩))
  have hlen := length_fieldBytes hfits hmem
  have hlen' := length_fieldBytes hfits' hmem
  rw [image, image, show (d.store name v).cfg = d.cfg from rfl, hstruct, List.flatMap_cons, List.flatMap_cons,
    List.drop_left' hlen, List.drop_left' hlen', hrest]

/-- **The header of an image**, as the tool and the device read it, is in the slots of its three fields. -/
theorem header_image (hstart : d.cfg.StartsWithHeader) {crc size version : Nat} (hvc : d.value crcName = some (.int crc))
    (hvs : d.value sizeName = some (.int size)) (hvv : d.value versionName = some (.int version)) (hcrc : crc < 2 ^ 32)
    (hsize : size < 2 ^ 16) (hver : version < 2 ^ 8) :
    crcAt (ofList d.image) 0 = crc ∧ sizeAt (ofList d.image) 0 = size ∧
      LittleEndian.decode ((d.image.drop 6).take 1) = version := by
  obtain ⟨fc, fs, fv, rest, hstruct, hc, hs, hv⟩ := hstart
  have hbc : d.fieldBytes fc = LittleEndian.encode 4 crc := fieldBytes_int hc hvc hcrc
  have hbs : d.fieldBytes fs = LittleEndian.encode 2 size := fieldBytes_int hs hvs hsize
  have hbv : d.fieldBytes fv = LittleEndian.encode 1 version := fieldBytes_int hv hvv hver
  have himage : d.image = LittleEndian.encode 4 crc ++ (LittleEndian.encode 2 size ++
      (LittleEndian.encode 1 version ++ rest.flatMap d.fieldBytes)) := by
    rw [image, hstruct, List.flatMap_cons, List.flatMap_cons, List.flatMap_cons, hbc, hbs, hbv]
  exact header_bytes himage hcrc hsize hver

/-- **`save_bin_config` with a CRC** makes a whole image. -/
theorem saveBinConfig_whole (hstart : d.cfg.StartsWithHeader) (hown : d.cfg.OwnSlots) (hver : d.cfg.version ≤ 255)
    (hmin : 108 ≤ d.cfg.size) (hmax : d.cfg.size ≤ 4096) (hfits : d.Fits) :
    ∃ d', d.saveBinConfig false = .ok (d', d'.image) ∧ d'.cfg = d.cfg ∧ d'.Fits ∧ Whole d'.image d.cfg.version := by
  obtain ⟨fc, fs, fv, rest, hstruct, hc, hs, hv⟩ := hstart
  have hfc : fc ∈ d.cfg.fields := mem_fields.2 ⟨by rw [hstruct]; simp, hc.isFiller⟩
  have hfs : fs ∈ d.cfg.fields := mem_fields.2 ⟨by rw [hstruct]; simp, hs.isFiller⟩
  have hfv : fv ∈ d.cfg.fields := mem_fields.2 ⟨by rw [hstruct]; simp, hv.isFiller⟩
  have haligned := d.cfg.aligned
  have hcast : ((d.cfg.size / 4 : Nat) - 1 : Int) = ((d.cfg.size / 4 - 1 : Nat) : Int) := by omega
  have hverfit : LittleEndian.Fits IntType.uint8_t.size IntType.uint8_t.isSigned d.cfg.version :=
    fits_natCast (Nat.lt_succ_of_le hver)
  have hsizefit : LittleEndian.Fits IntType.uint16_t.size IntType.uint16_t.isSigned ((d.cfg.size / 4 : Nat) - 1 : Int) :=
    hcast ▸ fits_natCast (show d.cfg.size / 4 - 1 < 65536 by omega)
  have hcrcfit : LittleEndian.Fits IntType.uint32_t.size IntType.uint32_t.isSigned
      (evalCrc (d.stamped.image.drop 4)) := fits_natCast (by rw [evalCrc_eq]; exact crc32Le_lt _)
  have hown2 : d.stamped.cfg.OwnSlots := hown
  have hfits2 := stamped_fits hown hfits hfv hv hfs hs hverfit hsizefit
  have hpatch := patchBinaryImage_eq hown hfits hfv hv hfs hs hverfit hsizefit true
  rw [if_pos rfl, setInt_eq hown2 hfc hc, if_pos hcrcfit] at hpatch
  generalize hcrc : evalCrc (d.stamped.image.drop 4) = crc at *
  have hfits3 : (d.stamped.store crcName (.int crc)).Fits := fitsInt_store hown2 hfc hc hfits2 hcrcfit
  have hbin : (d.stamped.store crcName (.int crc)).getFullBinary = .ok (d.stamped.store crcName (.int crc)).image :=
    getFullBinary_eq hown2 hfits3
  have hlen := length_image hfits3
  refine ⟨d.stamped.store crcName (.int crc), ?_, rfl, hfits3, ?_⟩
  · rw [saveBinConfig, show (!false) = true from rfl, hpatch]
    simp only [bind, Except.bind, hbin]
  -- the fields of the header, and the rest
  have hvc : (d.stamped.store crcName (.int crc)).value crcName = some (.int crc) := by
    rw [valueInt_store hown2 hfc hc, if_pos rfl]
  obtain ⟨-, hsize, hversion⟩ := stamped_values hown hfs hs hfv hv (by omega)
  have hvs : (d.stamped.store crcName (.int crc)).value sizeName = some (.int (d.cfg.size / 4 - 1 : Nat)) := by
    rw [valueInt_store hown2 hfc hc, if_neg (by decide), hsize]
  have hvv : (d.stamped.store crcName (.int crc)).value versionName = some (.int d.cfg.version) := by
    rw [valueInt_store hown2 hfc hc, if_neg (by decide), hversion]
  -- the CRC field does not count for the CRC
  have hdrop : (d.stamped.store crcName (.int crc)).image.drop 4 = d.stamped.image.drop 4 := by
    have hdrop := drop_image_store (d := d.stamped) (v := .int crc) hown2 hstruct hc hfits2 hfits3
    rwa [show fc.size = 4 by rw [CfgField.size, hc.type]; rfl] at hdrop
  generalize hd : d.stamped.store crcName (.int crc) = d' at *
  have hcfg : d'.cfg = d.cfg := by rw [← hd]; rfl
  have hcrclt : crc < 2 ^ 32 := by rw [← hcrc, evalCrc_eq]; exact crc32Le_lt _
  obtain ⟨h1, h2, h3⟩ := header_image (hcfg ▸ ⟨fc, fs, fv, rest, hstruct, hc, hs, hv⟩) hvc hvs hvv hcrclt
    (show _ < 65536 by omega) (Nat.lt_succ_of_le hver)
  rw [hcfg] at hlen
  exact ⟨by rw [hlen]; exact hmin, by rw [hlen]; exact hmax, by rw [hlen]; omega, by rw [h2, hlen],
    by rw [h1, hdrop, hcrc], h3⟩

end ConfigData

/-- **The tool and the device agree on an image saved with a CRC**: both accept it, and the tool reads back what it
wrote. -/
theorem saved_image_agrees (d : ConfigData) (hstart : d.cfg.StartsWithHeader)
    (hnames : (d.cfg.cfgStruct.map CfgField.name).Nodup) (hver : d.cfg.version ≤ 255) (hmin : 108 ≤ d.cfg.size)
    (hmax : d.cfg.size ≤ 4096) (hfits : d.Fits) :
    ∃ d' b, d.saveBinConfig false = .ok (d', b) ∧
      (evalCrc (b.drop 4) ≠ 0xFFFFFFFF →
        b.length = d.cfg.size ∧
        (∃ bh, decodeHeader b = .ok bh ∧ bh.size = b.length ∧ bh.version = d.cfg.version) ∧
        d'.isBinaryAccepted b = .ok [] ∧
        (∀ dev : Setup, dev.cfgPat = true → (saveConfigImage .working dev b).err = none) ∧
        ∃ fresh, (ConfigData.new d.cfg).loadBinConfig b 0 = .ok fresh ∧
          (∀ f ∈ d.cfg.fields, fresh.value f.name = some (written f.type (d'.value f.name))) ∧
          fresh.getFullBinary = .ok b) := by
  have hown := ownSlots_of_nodup hnames
  obtain ⟨d', hsave, hcfg, hfits', hwhole⟩ := ConfigData.saveBinConfig_whole hstart hown hver hmin hmax hfits
  refine ⟨d', d'.image, hsave, fun hcrc => ?_⟩
  obtain ⟨fc, fs, fv, rest, hstruct, hc, hs, hv⟩ := hstart
  have hfv : fv ∈ d.cfg.fields := mem_fields.2 ⟨by rw [hstruct]; simp, hv.isFiller⟩
  have hlen : d'.image.length = d.cfg.size := hcfg ▸ ConfigData.length_image hfits'
  have htool (e : ConfigData) (he : e.cfg = d.cfg) : e.isBinaryAccepted d'.image = .ok [] :=
    hwhole.tool hcrc (he ▸ hown) (he ▸ hfv) hv.name (he ▸ d.cfg.lcVersion_le) (he ▸ Nat.le_refl _)
  refine ⟨hlen, ⟨_, decodeHeader_eq (by omega), hwhole.recordSize, hwhole.version⟩, htool d' hcfg,
    fun dev hpat => hwhole.device hpat, ?_⟩
  obtain ⟨fresh, hset, hfcfg, hreads⟩ := ConfigData.setFullBinary_eq (d := ConfigData.new d.cfg) hown d'.image
  have hfcfg' : fresh.cfg = d.cfg := hfcfg
  have hslice : ∀ f ∈ d.cfg.cfgStruct, (d'.image.drop f.shift).take f.size = d'.fieldBytes f := fun f hf => by
    have h := d'.cfg.layout.slice (fun f hf => ConfigData.length_fieldBytes hfits' hf) (hcfg ▸ hf)
    rwa [Nat.sub_zero] at h
  have hsize : ∀ f ∈ d.cfg.cfgStruct, ((d'.image.drop f.shift).take f.size).length = f.size := fun f hf => by
    rw [hslice f hf, ConfigData.length_fieldBytes hfits' (hcfg ▸ hf)]
  have hreads' : fresh.Reads d'.image fresh.cfg.cfgStruct := hfcfg' ▸ hreads
  refine ⟨fresh, ?_, fun f hf => ?_, ?_⟩
  · rw [ConfigData.loadBinConfig, if_pos (by decide), htool (ConfigData.new d.cfg) rfl]
    exact hset
  · obtain ⟨hmem, hfill⟩ := mem_fields.1 hf
    rw [hreads f hmem hfill, hslice f hmem, ConfigData.fieldBytes, hfill, if_neg Bool.false_ne_true,
      fromBinary_encodeField (hfits' f (hcfg ▸ hf))]
  · rw [ConfigData.getFullBinary_eq (hfcfg' ▸ hown) (hreads'.fits (hfcfg' ▸ hsize)), ConfigData.image, hfcfg', hcfg]
    refine congrArg Except.ok (List.flatMap_congr (fun f hf => ?_))
    rw [hreads'.fieldBytes (hfcfg' ▸ hf) (hsize f hf), hslice f hf, ConfigData.fieldBytes]
    split <;> rfl

/-! ## The config of the tool's header -/

/-- `Options1` of `setup_data.h`. -/
def options1 : EnumDef :=
  ⟨"Options1".toList, .uint8_t,
    [⟨"WFOP_No".toList, 0x00⟩, ⟨"WFOP_AP".toList, 0x01⟩, ⟨"WFOP_Sta".toList, 0x02⟩, ⟨"WFOP_Both".toList, 0x03⟩,
      ⟨"WFOP_Auto".toList, 0x04⟩, ⟨"WFOP_MASK".toList, 0x07⟩, ⟨"Nxt_Options".toList, 0x08⟩]⟩

/-- `Config_V1` of `setup_data.h`, without its comments. -/
def configV1 : Config where
  version := 1
  lcVersion := 1
  cfgStruct :=
    [⟨crcName, 0, none, .int .uint32_t, []⟩, ⟨sizeName, 4, none, .int .uint16_t, []⟩,
      ⟨versionName, 6, none, .int .uint8_t, []⟩, ⟨"ssid".toList, 7, none, .char 33, []⟩,
      ⟨"passwd".toList, 40, none, .char 64, []⟩, ⟨"oled_contrast".toList, 104, some 0xCF, .int .uint8_t, []⟩,
      ⟨"options1".toList, 105, some 4, .enum options1, []⟩, ⟨"reserved".toList, 106, some 0, .dummy 2, []⟩]
  size := 108
  parsed := by decide +kernel
  lcVersion_ne := by decide
  lcVersion_le := by decide
  layout := ⟨rfl, rfl, rfl, rfl, rfl, rfl, rfl, rfl, rfl⟩
  aligned := rfl

theorem configV1_starts : configV1.StartsWithHeader := ⟨_, _, _, _, rfl, ⟨rfl, rfl⟩, ⟨rfl, rfl⟩, ⟨rfl, rfl⟩⟩

theorem configV1_fits : (ConfigData.new configV1).Fits := by
  unfold ConfigData.Fits
  decide +kernel

/-- The header's defaults. -/
theorem saved_image_agrees_default :
    ∃ d' b, (ConfigData.new configV1).saveBinConfig false = .ok (d', b) ∧ evalCrc (b.drop 4) ≠ 0xFFFFFFFF ∧
      d'.isBinaryAccepted b = .ok [] := by
  obtain ⟨d', b, hsave, hagrees⟩ := saved_image_agrees (ConfigData.new configV1) configV1_starts (by decide +kernel)
    (by decide) (by decide) (by decide) configV1_fits
  have hne : ((ConfigData.new configV1).saveBinConfig false).toOption.map (fun r => evalCrc (r.2.drop 4)) ≠
      some 0xFFFFFFFF := by decide +kernel
  rw [hsave] at hne
  have hcrc : evalCrc (b.drop 4) ≠ 0xFFFFFFFF := fun h => hne (congrArg some h)
  exact ⟨d', b, hsave, hcrc, (hagrees hcrc).2.2.1⟩

end Mstd.Cfg
