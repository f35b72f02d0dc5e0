import Mstd.CfgImage
/-!
# Images read and written back (`mstd.cfg.py`, `set_full_binary` and `get_full_binary`)

Whatever the layout, an image that was read in is written out again byte for byte, but for zeros in the fillers
(`binary_roundTrips`): no two fields have a byte in common (`Layout.unique`), and each is read and written at its shift.
-/
namespace Mstd.Cfg

/-- The byte at offset `i` belongs to the field. -/
def CfgField.Covers (f : CfgField) (i : Nat) : Prop := f.shift ≤ i ∧ i < f.shift + f.size

instance (f : CfgField) (i : Nat) : Decidable (f.Covers i) := inferInstanceAs (Decidable (_ ∧ _))

/-- The byte at offset `i` belongs to a filler. -/
def Config.InFiller (cfg : Config) (i : Nat) : Prop := ∃ f ∈ cfg.cfgStruct, f.isFiller = true ∧ f.Covers i

instance (cfg : Config) (i : Nat) : Decidable (cfg.InFiller i) := inferInstanceAs (Decidable (∃ f ∈ _, _))

/-- The bytes with zeros in the place of the fillers. -/
def Config.withoutFillers (cfg : Config) (bytes : List UInt8) : List UInt8 :=
  bytes.mapIdx (fun i b => if cfg.InFiller i then 0 else b)

namespace Layout

variable {fs : List CfgField} {shift size i : Nat}

/-- **No two fields have a byte in common.** -/
theorem unique (h : Layout shift fs size) {f g : CfgField} (hf : f ∈ fs) (hg : g ∈ fs) (hfi : f.Covers i)
    (hgi : g.Covers i) : f = g := by
  induction fs generalizing shift with
  | nil => cases hf
  | cons x fs ih =>
    -- the first field ends where the others begin
    have hbehind : ∀ y ∈ fs, x.shift + x.size ≤ y.shift := fun y hy => h.1 ▸ le_shift h.2 hy
    obtain ⟨hf1, hf2⟩ := hfi
    obtain ⟨hg1, hg2⟩ := hgi
    rcases List.mem_cons.1 hf with rfl | hfs
    · rcases List.mem_cons.1 hg with rfl | hgs
      · rfl
      · have := hbehind g hgs; omega
    · rcases List.mem_cons.1 hg with rfl | hgs
      · have := hbehind f hfs; omega
      · exact ih h.2 hfs hgs

/-- The fields leave no byte out. -/
theorem ext (h : Layout shift fs size) {x y : List UInt8} (hx : shift + x.length = size) (hy : shift + y.length = size)
    (hslice : ∀ f ∈ fs, (x.drop (f.shift - shift)).take f.size = (y.drop (f.shift - shift)).take f.size) : x = y := by
  induction fs generalizing shift x y with
  | nil =>
    have hsize : shift = size := h
    rw [List.length_eq_zero_iff.1 (by omega : x.length = 0), List.length_eq_zero_iff.1 (by omega : y.length = 0)]
  | cons f fs ih =>
    have hle := h.le_size (List.mem_cons_self ..)
    have hshift := h.1
    have hhead := hslice f (List.mem_cons_self ..)
    rw [hshift, Nat.sub_self, List.drop_zero, List.drop_zero] at hhead
    have htail : x.drop f.size = y.drop f.size := by
      refine ih h.2 (by rw [List.length_drop]; omega) (by rw [List.length_drop]; omega) (fun g hg => ?_)
      have hg' := hslice g (List.mem_cons_of_mem _ hg)
      have hge := le_shift h.2 hg
      rwa [List.drop_drop, List.drop_drop, show f.size + (g.shift - (shift + f.size)) = g.shift - shift by omega]
    rw [← List.take_append_drop f.size x, hhead, htail, List.take_append_drop]

end Layout

theorem length_withoutFillers (cfg : Config) (bytes : List UInt8) : (cfg.withoutFillers bytes).length = bytes.length :=
  List.length_mapIdx

/-- A field without its fillers' bytes is the field, or zeros. -/
theorem slice_withoutFillers {cfg : Config} {f : CfgField} (hf : f ∈ cfg.cfgStruct) {bytes : List UInt8}
    (hlen : bytes.length = cfg.size) :
    ((cfg.withoutFillers bytes).drop f.shift).take f.size =
      if f.isFiller then List.replicate f.size 0 else (bytes.drop f.shift).take f.size := by
  have hle := cfg.layout.le_size hf
  refine List.ext_getElem? (fun j => ?_)
  by_cases hj : j < f.size
  · have hcov : f.Covers (f.shift + j) := ⟨Nat.le_add_right _ _, Nat.add_lt_add_left hj _⟩
    have hget : bytes[f.shift + j]? = some bytes[f.shift + j] := List.getElem?_eq_getElem (by omega)
    rw [List.getElem?_take_of_lt hj, List.getElem?_drop, Config.withoutFillers, List.getElem?_mapIdx, hget,
      Option.map_some]
    cases hfill : f.isFiller with
    | true =>
      have hin : cfg.InFiller (f.shift + j) := ⟨f, hf, hfill, hcov⟩
      rw [if_pos hin, if_pos rfl, List.getElem?_replicate, if_pos hj]
    | false =>
      have hnot : ¬ cfg.InFiller (f.shift + j) := by
        rintro ⟨g, hg, hgfill, hgcov⟩
        obtain rfl := cfg.layout.unique hf hg hcov hgcov
        rw [hfill] at hgfill
        cases hgfill
      rw [if_neg hnot, if_neg Bool.false_ne_true, List.getElem?_take_of_lt hj, List.getElem?_drop, hget]
  · have hfield : (if f.isFiller then List.replicate f.size 0 else (bytes.drop f.shift).take f.size)[j]? = none := by
      refine List.getElem?_eq_none ?_
      split
      · rw [List.length_replicate]; omega
      · rw [List.length_take]; omega
    rw [hfield, List.getElem?_take, if_neg hj]

/-- **An image is written out as it was read**, with zeros for the fillers: every field is read from its shift and written
there, and no value overflows. -/
theorem binary_roundTrips (d : ConfigData) (hnames : (d.cfg.cfgStruct.map CfgField.name).Nodup) (bytes : List UInt8)
    (hlen : bytes.length = d.cfg.size) :
    ∃ d', d.setFullBinary bytes = .ok d' ∧ d'.getFullBinary = .ok (d.cfg.withoutFillers bytes) ∧
      ∀ f ∈ d.cfg.fields, ∃ v, d'.value f.name = some v ∧
        v = ConfigData.fromBinary f ((bytes.drop f.shift).take f.size) ∧
        d'.getBinaryValue f.name = .ok ((bytes.drop f.shift).take f.size) := by
  have hown := ownSlots_of_nodup hnames
  obtain ⟨d', hset, hcfg, hreads⟩ := ConfigData.setFullBinary_eq hown bytes
  have hown' : d'.cfg.OwnSlots := hcfg ▸ hown
  have hreads' : d'.Reads bytes d'.cfg.cfgStruct := hcfg ▸ hreads
  have hsize : ∀ f ∈ d'.cfg.cfgStruct, ((bytes.drop f.shift).take f.size).length = f.size := fun f hf => by
    have hle := d'.cfg.layout.le_size hf
    rw [List.length_take, List.length_drop, hlen, ← hcfg]
    omega
  have hfits : d'.Fits := hreads'.fits hsize
  refine ⟨d', hset, ?_, fun f hf => ⟨_, ?_, rfl, ?_⟩⟩
  · have himage := ConfigData.length_image hfits
    rw [ConfigData.getFullBinary_eq hown' hfits, ← hcfg]
    refine congrArg Except.ok (d'.cfg.layout.ext (by rw [Nat.zero_add]; exact himage) ?_ (fun f hf => ?_))
    · rw [Nat.zero_add, length_withoutFillers, hlen, hcfg]
    · have hslice := d'.cfg.layout.slice (fun f hf => ConfigData.length_fieldBytes hfits hf) hf
      rw [Nat.sub_zero] at hslice ⊢
      rw [hslice, hreads'.fieldBytes hf (hsize f hf), slice_withoutFillers hf (hlen.trans (by rw [hcfg]))]
  · exact hreads f (mem_fields.1 hf).1 (mem_fields.1 hf).2
  · have hf' : f ∈ d'.cfg.fields := hcfg ▸ hf
    have hbytes := hreads'.fieldBytes (mem_fields.1 hf').1 (hsize f (mem_fields.1 hf').1)
    rw [ConfigData.fieldBytes, (mem_fields.1 hf).2, if_neg Bool.false_ne_true, if_neg Bool.false_ne_true] at hbytes
    rw [ConfigData.getBinaryValue, ConfigData.slot_eq hown' hf', Except.bind, toBinary_eq (hfits f hf'), hbytes]

/-- Ones in every bit of the header's struct. -/
theorem binary_roundTrips_ones :
    ∃ d', (ConfigData.new configV1).setFullBinary (List.replicate 108 0xFF) = .ok d' ∧
      d'.getFullBinary = .ok (List.replicate 106 0xFF ++ [0, 0]) := by
  obtain ⟨d', hset, hget, -⟩ := binary_roundTrips (ConfigData.new configV1) (by decide +kernel)
    (List.replicate 108 0xFF) (by decide +kernel)
  have hzero : configV1.withoutFillers (List.replicate 108 0xFF) = List.replicate 106 0xFF ++ [0, 0] := by decide +kernel
  exact ⟨d', hset, hget.trans (congrArg Except.ok hzero)⟩

end Mstd.Cfg
