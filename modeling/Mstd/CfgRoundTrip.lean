import Mstd.CfgCharText
import Mstd.CfgStamp
/-!
# Text export and import (`mstd.cfg.py`, class `ConfigData`)

`save_text_config` behind `load_bin_config`, and `load_text_config` into a fresh object: `text_roundTrips_iff` says when
every field comes back.  `fieldBack_iff` is the step for one field, `setFullToml_entries` the loop over the document.
-/
namespace Mstd.Cfg

open Py (Str Dict)

/-! ## One field -/

/-- The same value: strings count up to their first zero. -/
def SameValue (t : FieldType) (v v' : Option Value) : Prop :=
  match t with
  | .char _ => ∃ bytes bytes', v = some (.bytes bytes) ∧ v' = some (.bytes bytes') ∧ upToNul bytes' = upToNul bytes
  | _       => v' = v

/-- The value of a field is read back from its line. -/
def FieldBack (f : CfgField) (v : Option Value) : Prop :=
  ∃ w v', f.readLine (ConfigData.tomlOf ⟨v, f⟩) = some w ∧ ConfigData.fromToml f w = .ok v' ∧ SameValue f.type v (some v')

/-- What a value has to be for that. -/
def FieldKept : FieldType → Option Value → Prop
  | .enum e,     some (.int val)     => e.Legible val
  | .enumChar _, _                   => False
  | .char _,     some (.bytes bytes) => CharKept bytes
  | _,           _                   => True

theorem EnumDef.Parsed.quotable {e : EnumDef} (h : e.Parsed) (val : Int) : Quotable (e.int2str val) := by
  have hctrl {c : Char} (hc : c ∈ e.int2str val) : c ≠ '\'' ∧ Toml.isCtrl c = false := by
    rcases h.mem_int2str hc with hc | hc
    · refine ⟨Py.ne_of_isWord hc (by decide), ?_⟩
      have := Py.isWord_cases hc
      simp only [Toml.isCtrl, Bool.or_eq_false_iff, decide_eq_false_iff_not, beq_eq_false_iff_ne]
      omega
    · simp only [List.mem_cons, List.not_mem_nil, or_false] at hc
      rcases hc with rfl | rfl | rfl | rfl <;> decide
  refine ⟨fun hin => ?_, fun c hc hc' => ?_, fun hhead => ?_⟩
  · exact (hctrl (hin.subset (List.mem_cons_self ..))).1 rfl
  · rw [(hctrl hc).2] at hc'
    cases hc'
  · exact absurd (hctrl (List.mem_of_mem_head? hhead)).2 (by decide)

/-- What `set_full_binary` stores in a field. -/
def Loaded (f : CfgField) (v : Option Value) : Prop := ∃ bytes, bytes.length = f.size ∧ v = some (ConfigData.fromBinary f bytes)

section

variable {name comment : Str} {shift : Nat} {default : Option Int}

theorem fieldBack_int {t : IntType} {val : Int} (hfits : LittleEndian.Fits t.size t.isSigned val) :
    FieldBack ⟨name, shift, default, .int t, comment⟩ (some (.int val)) ↔
      CfgField.Plain ⟨name, shift, default, .int t, comment⟩ := by
  constructor
  · rintro ⟨w, v', hline, -, -⟩
    by_contra hplain
    rw [CfgField.readLine, if_neg hplain] at hline
    cases hline
  · exact fun hplain => ⟨.int val, .int val, if_pos hplain, if_pos hfits, rfl⟩

theorem fieldBack_enum {e : EnumDef} (he : e.Parsed) {val : Int}
    (hfits : LittleEndian.Fits e.baseType.size e.baseType.isSigned val) :
    FieldBack ⟨name, shift, default, .enum e, comment⟩ (some (.int val)) ↔
      CfgField.Plain ⟨name, shift, default, .enum e, comment⟩ ∧ e.Legible val := by
  rw [← e.str2int_int2str_iff he val]
  have hread := readBack_quotable (he.quotable val)
  constructor
  · rintro ⟨w, v', hline, hok, hsame⟩
    rw [CfgField.readLine] at hline
    split at hline
    · rename_i hplain
      refine ⟨hplain, ?_⟩
      obtain rfl : w = .str (e.int2str val) := Option.some.inj (hline.symm.trans hread)
      simp only [ConfigData.fromToml] at hok
      cases hn : e.str2int (e.int2str val) with
      | error x => rw [hn] at hok; cases hok
      | ok n =>
        rw [hn] at hok
        simp only at hok
        split at hok
        · cases hok
          exact ⟨n, rfl, Value.int.inj (Option.some.inj hsame)⟩
        · cases hok
    · cases hline
  · rintro ⟨hplain, n, hn, rfl⟩
    refine ⟨_, .int n, (if_pos hplain).trans hread, ?_, rfl⟩
    simp only [ConfigData.fromToml, hn]
    exact if_pos hfits

theorem fieldBack_char {n : Nat} {bytes : List UInt8} (hlen : bytes.length = n) :
    FieldBack ⟨name, shift, default, .char n, comment⟩ (some (.bytes bytes)) ↔
      CfgField.Plain ⟨name, shift, default, .char n, comment⟩ ∧ CharKept bytes := by
  subst hlen
  rw [← charBack_iff]
  constructor
  · rintro ⟨w, v', hline, hok, b, b', hb, hb', hsame⟩
    rw [CfgField.readLine] at hline
    split at hline
    · rename_i hplain
      refine ⟨hplain, ?_⟩
      obtain ⟨s, rfl, -⟩ := readBack_str hline
      cases hb
      cases hb'
      cases hok
      exact ⟨s, hline, hsame⟩
    · cases hline
  · rintro ⟨hplain, s, hread, hsame⟩
    exact ⟨_, _, (if_pos hplain).trans hread, rfl, _, _, rfl, rfl, hsame⟩

end

/-- **When a field is read back from its line.** -/
theorem fieldBack_iff {f : CfgField} (hf : f.Parsed) (hfill : f.isFiller = false) {v : Option Value} (hv : Loaded f v) :
    FieldBack f v ↔ f.Plain ∧ FieldKept f.type v := by
  obtain ⟨bytes, hlen, rfl⟩ := hv
  have hfits := valueFits_fromBinary f hlen
  obtain ⟨name, shift, default, type, comment⟩ := f
  cases type with
  | dummy n => cases hfill
  | enumDummy e => cases hfill
  | enumChar e =>
    refine ⟨fun ⟨w, v', _, hok, _⟩ => ?_, fun h => h.2.elim⟩
    cases w with
    | int i => cases hok
    | str s =>
      simp only [ConfigData.fromToml] at hok
      split at hok <;> cases hok
  | int t => exact (fieldBack_int hfits).trans (and_iff_left trivial).symm
  | enum e => exact fieldBack_enum (hf.enum rfl) hfits
  | char n => exact fieldBack_char hlen

/-! ## All fields -/

namespace ConfigData

/-- A value is read back from the document `r` gives, and can be set. -/
def Sets (r : CfgField → Option TomlValue) (f : CfgField) (v : Value) : Prop := ∃ w, r f = some w ∧ fromToml f w = .ok v

theorem Sets.unique {r : CfgField → Option TomlValue} {f : CfgField} {v v' : Value} (h : Sets r f v) (h' : Sets r f v') :
    v = v' := by
  obtain ⟨w, hw, hv⟩ := h
  obtain ⟨w', hw', hv'⟩ := h'
  rw [hw] at hw'
  cases hw'
  rw [hv] at hv'
  exact Except.ok.inj hv'

variable {r : CfgField → Option TomlValue} (allowUnknown : Bool)

theorem setFullToml_cons {e : ConfigData} (hown : e.cfg.OwnSlots) {f : CfgField} (hf : f ∈ e.cfg.fields) (w : TomlValue)
    (toml : Dict Str TomlValue) :
    e.setFullToml allowUnknown ((f.name, w) :: toml) =
      match fromToml f w with
      | .ok v    => (e.store f.name v).setFullToml allowUnknown toml
      | .error x => .error x := by
  have hslot := slot_eq hown hf
  have hsome : ¬ (e.data.get? f.name).isNone = true := by
    intro hnone
    rw [slot, Option.isNone_iff_eq_none.1 hnone] at hslot
    cases hslot
  rw [setFullToml, if_neg hsome, setTomlValue_eq hown hf]
  cases fromToml f w <;> rfl

/-- **The loop of `set_full_toml`** over the values of some fields. -/
theorem setFullToml_entries : ∀ {fs : List CfgField} {e : ConfigData}, e.cfg.OwnSlots → (∀ f ∈ fs, f ∈ e.cfg.fields) →
    (fs.map CfgField.name).Nodup → (∀ f ∈ fs, ∃ v, Sets r f v) →
    ∃ e', e.setFullToml allowUnknown (fs.filterMap (fun f => (r f).map (f.name, ·))) = .ok e' ∧ e'.cfg = e.cfg ∧
      (∀ f ∈ fs, ∃ v, Sets r f v ∧ e'.value f.name = some v) ∧
      ∀ name, name ∉ fs.map CfgField.name → e'.value name = e.value name
  | [], e, _, _, _, _ => ⟨e, rfl, rfl, fun _ hf => absurd hf List.not_mem_nil, fun _ _ => rfl⟩
  | f :: fs, e, hown, hfs, hnodup, hsets => by
    rw [List.map_cons, List.nodup_cons] at hnodup
    have hf := hfs f (List.mem_cons_self ..)
    obtain ⟨v, w, hw, hv⟩ := hsets f (List.mem_cons_self ..)
    obtain ⟨e', hset, hcfg, hvalues, hrest⟩ := setFullToml_entries (e := e.store f.name v) hown
      (fun g hg => hfs g (List.mem_cons_of_mem f hg)) hnodup.2 (fun g hg => hsets g (List.mem_cons_of_mem f hg))
    refine ⟨e', ?_, hcfg, fun g hg => ?_, fun name hname => ?_⟩
    · rw [List.filterMap_cons, hw]
      simp only [Option.map_some]
      rw [setFullToml_cons allowUnknown hown hf, hv]
      exact hset
    · rcases List.mem_cons.1 hg with rfl | hg
      · exact ⟨v, ⟨w, hw, hv⟩, by rw [hrest g.name hnodup.1, value_store hown hf, if_pos rfl]⟩
      · exact hvalues g hg
    · rw [List.map_cons, List.mem_cons, not_or] at hname
      rw [hrest name hname.2, value_store hown hf, if_neg (Ne.symm hname.1)]

theorem sets_of_setFullToml : ∀ {fs : List CfgField} {e e' : ConfigData}, e.cfg.OwnSlots → (∀ f ∈ fs, f ∈ e.cfg.fields) →
    (∀ f ∈ fs, (r f).isSome = true) →
    e.setFullToml allowUnknown (fs.filterMap (fun f => (r f).map (f.name, ·))) = .ok e' → ∀ f ∈ fs, ∃ v, Sets r f v
  | f :: fs, e, e', hown, hfs, hr, hset, g, hg => by
    obtain ⟨w, hw⟩ := Option.isSome_iff_exists.1 (hr f (List.mem_cons_self ..))
    rw [List.filterMap_cons, hw] at hset
    simp only [Option.map_some] at hset
    rw [setFullToml_cons allowUnknown hown (hfs f (List.mem_cons_self ..))] at hset
    cases hv : fromToml f w with
    | error x => rw [hv] at hset; cases hset
    | ok v =>
      rw [hv] at hset
      rcases List.mem_cons.1 hg with rfl | hg
      · exact ⟨v, w, hw, hv⟩
      · exact sets_of_setFullToml (e := e.store f.name v) hown (fun x hx => hfs x (List.mem_cons_of_mem f hx))
          (fun x hx => hr x (List.mem_cons_of_mem f hx)) hset g hg

/-! ## The round trip -/

variable {d d' : ConfigData}

/-- The text that `save_text_config` makes of everything is loaded into a fresh object, and no field differs behind it.
A field has its value where the slot of its name is its own. -/
def RoundTrips (d : ConfigData) (unsafeCrc : Bool) : Prop :=
  ∃ d' text e, d.saveTextConfig unsafeCrc true = .ok (d', text) ∧ (ConfigData.new d.cfg).loadTextConfig text 0 = .ok e ∧
    ∀ f ∈ d.cfg.fields, ∃ v v', d'.slot f.name = .ok ⟨v, f⟩ ∧ e.slot f.name = .ok ⟨v', f⟩ ∧ SameValue f.type v v'

/-- What is needed for that. -/
structure TextSafe (d : ConfigData) (unsafeCrc : Bool) : Prop where
  own : d.cfg.OwnSlots
  header : d.Stampable unsafeCrc
  plain : ∀ f ∈ d.cfg.fields, f.Plain
  kept : ∀ f ∈ d.cfg.fields, FieldKept f.type (d.value f.name)

theorem loaded_of_setFullBinary {d₀ : ConfigData} (hown : d₀.cfg.OwnSlots) {image : List UInt8} (hlen : image.length = d₀.cfg.size)
    (h : d₀.setFullBinary image = .ok d) : d.Fits ∧ ∀ f ∈ d.cfg.fields, Loaded f (d.value f.name) := by
  obtain ⟨d₁, hset, hcfg, hreads⟩ := setFullBinary_eq hown image
  rw [h] at hset
  cases hset
  have hslice : ∀ f ∈ d.cfg.cfgStruct, ((image.drop f.shift).take f.size).length = f.size := by
    intro f hf
    have hle := d.cfg.layout.le_size hf
    rw [hcfg] at hle
    rw [List.length_take, List.length_drop]
    omega
  rw [← hcfg] at hreads
  refine ⟨hreads.fits hslice, fun f hf => ?_⟩
  obtain ⟨hmem, hfill⟩ := mem_fields.1 hf
  exact ⟨_, hslice f hmem, hreads f hmem hfill⟩

theorem loaded_int {f : CfgField} {t : IntType} (ht : f.type = .int t) {val : Int}
    (hfits : LittleEndian.Fits t.size t.isSigned val) : Loaded f (some (.int val)) := by
  have hval : ValueFits f.type (some (.int val)) := by rw [ht]; exact hfits
  refine ⟨encodeField f.type (some (.int val)), length_encodeField hval, ?_⟩
  rw [fromBinary_encodeField hval, ht]
  rfl

theorem Keeps.loaded (h : Keeps d d') (hloaded : ∀ f ∈ d.cfg.fields, Loaded f (d.value f.name)) :
    ∀ f ∈ d.cfg.fields, Loaded f (d'.value f.name) ∧
      (FieldKept f.type (d'.value f.name) ↔ FieldKept f.type (d.value f.name)) := by
  intro f hf
  rcases h.2 f hf with heq | ⟨t, val, ht, hfits, hval⟩
  · rw [heq]
    exact ⟨hloaded f hf, Iff.rfl⟩
  · rw [hval, ht]
    exact ⟨loaded_int ht hfits, by cases d.value f.name <;> simp [FieldKept]⟩

theorem readLine_eq (hown : d.cfg.OwnSlots) {f : CfgField} (hf : f ∈ d.cfg.fields) :
    d.readLine f = f.readLine (tomlOf ⟨d.value f.name, f⟩) := by
  rw [readLine, getTomlValue_eq hown hf]
  rfl

theorem getTomls_ok (d : ConfigData) : ∀ {fs : List CfgField}, (∀ f ∈ fs, f.isFiller = false → (d.readLine f).isSome = true) →
    ∃ text, d.getTomls true fs = .ok text
  | [], _ => ⟨[], rfl⟩
  | f :: fs, h => by
    obtain ⟨rest, hrest⟩ := getTomls_ok d (fun g hg => h g (List.mem_cons_of_mem f hg))
    rw [getTomls]
    split
    · rename_i hfill
      have hread := h f (List.mem_cons_self ..) (by simpa using hfill)
      obtain ⟨w, hw⟩ := Option.isSome_iff_exists.1 hread
      rw [readLine] at hw
      cases hv : d.getTomlValue f.name with
      | error x => rw [hv] at hw; cases hw
      | ok v =>
        rw [hv] at hw
        have hback : readBack v = some w := by
          have hw : f.readLine v = some w := hw
          rw [CfgField.readLine] at hw
          split at hw
          · exact hw
          · cases hw
        obtain ⟨repr, hrepr⟩ := tomlRepr_of_readBack hback
        rw [d.tomlLine_eq_ok.2 ⟨v, repr, hv, hrepr, rfl⟩, hrest]
        exact ⟨_, rfl⟩
    · exact ⟨rest, hrest⟩

end ConfigData

namespace ConfigData

variable {d₀ d : ConfigData} {image : List UInt8} {unsafeCrc : Bool}

theorem TextSafe.roundTrips (hfits : d.Fits)
    (hloaded : ∀ f ∈ d.cfg.fields, Loaded f (d.value f.name)) (h : d.TextSafe unsafeCrc) : d.RoundTrips unsafeCrc := by
  obtain ⟨d', hpatch⟩ := patchBinaryImage_of_stampable h.own hfits h.header
  have hkeeps := (patchBinaryImage_ok h.own hfits hpatch).2
  have hcfg' : d'.cfg = d.cfg := hkeeps.1
  have hown' : d'.cfg.OwnSlots := hcfg' ▸ h.own
  have hback : ∀ f ∈ d.cfg.fields, FieldBack f (d'.value f.name) := by
    intro f hf
    obtain ⟨hmem, hfill⟩ := mem_fields.1 hf
    obtain ⟨hload, hkept⟩ := hkeeps.loaded hloaded f hf
    exact (fieldBack_iff (d.cfg.parsed f hmem) hfill hload).2 ⟨h.plain f hf, hkept.2 (h.kept f hf)⟩
  have hsets : ∀ f ∈ d.cfg.fields, ∃ v, Sets d'.readLine f v ∧ SameValue f.type (d'.value f.name) (some v) := by
    intro f hf
    obtain ⟨w, v, hline, hset, hsame⟩ := hback f hf
    exact ⟨v, ⟨w, by rw [readLine_eq hown' (hcfg' ▸ hf), hline], hset⟩, hsame⟩
  have hread : ∀ f ∈ d.cfg.fields, (d'.readLine f).isSome = true := by
    intro f hf
    obtain ⟨v, ⟨w, hw, -⟩, -⟩ := hsets f hf
    exact Option.isSome_iff_exists.2 ⟨w, hw⟩
  obtain ⟨text, htext⟩ : ∃ text, d'.getFullToml true = .ok text :=
    d'.getTomls_ok (fun f hf hfill => hread f (mem_fields.2 ⟨hcfg' ▸ hf, hfill⟩))
  have hloads : Toml.loads text = some (d'.entries d'.cfg.fields) := by
    rw [d'.loads_getFullToml htext]
    exact d'.readLines_eq_some.2 ⟨fun f hf => ⟨hread f (hcfg' ▸ hf), List.not_mem_nil⟩, hown'.nodup, rfl⟩
  obtain ⟨e, hset, hcfge, hvalues, -⟩ := setFullToml_entries (r := d'.readLine) (0 != 0) (e := ConfigData.new d.cfg) h.own
    (fun _ hf => hf) h.own.nodup (fun f hf => (hsets f hf).imp (fun _ h => h.1))
  refine ⟨d', text, e, ?_, ?_, fun f hf => ?_⟩
  · rw [saveTextConfig, hpatch]
    simp only [bind, Except.bind]
    rw [htext]
  · rw [loadTextConfig, hloads, hcfg']
    exact hset
  · obtain ⟨v, hv, hsame⟩ := hsets f hf
    obtain ⟨v', hv', hvalue⟩ := hvalues f hf
    have hcfge : e.cfg = d.cfg := hcfge
    refine ⟨_, _, slot_eq hown' (hcfg' ▸ hf), slot_eq (hcfge ▸ h.own) (hcfge ▸ hf), ?_⟩
    rw [hvalue, hv'.unique hv]
    exact hsame

theorem RoundTrips.textSafe (hlen : image.length = d₀.cfg.size)
    (hload : d₀.setFullBinary image = .ok d) (h : d.RoundTrips unsafeCrc) : d.TextSafe unsafeCrc := by
  have hd : d.cfg = d₀.cfg := cfg_setBinaries hload
  obtain ⟨d', text, e, hsave, hloadText, hsame⟩ := h
  obtain ⟨d₁, hpatch, hsave⟩ := of_bind_eq_ok hsave
  obtain ⟨text₁, htext, hsave⟩ := of_bind_eq_ok hsave
  cases hsave
  have hcfg' : d'.cfg = d.cfg := cfg_patchBinaryImage hpatch
  unfold loadTextConfig at hloadText
  rw [d'.loads_getFullToml htext, hcfg'] at hloadText
  cases hlines : d'.readLines [] d.cfg.fields with
  | none => rw [hlines] at hloadText; cases hloadText
  | some toml =>
    rw [hlines] at hloadText
    obtain ⟨hread, hnodup, rfl⟩ := d'.readLines_eq_some.1 hlines
    have hown : d.cfg.OwnSlots := ⟨hnodup, fun f hf => by
      obtain ⟨v, v', hslot, -, -⟩ := hsame f hf
      exact hcfg' ▸ (slot_last hslot).2⟩
    have hown' : d'.cfg.OwnSlots := hcfg' ▸ hown
    obtain ⟨hfits, hloaded⟩ := loaded_of_setFullBinary (hd ▸ hown) hlen hload
    obtain ⟨hstamp, hkeeps⟩ := patchBinaryImage_ok hown hfits hpatch
    have hsets := sets_of_setFullToml (r := d'.readLine) (0 != 0) (e := ConfigData.new d.cfg) hown (fun _ hf => hf)
      (fun f hf => (hread f hf).1) hloadText
    obtain ⟨e', hset, hcfge, hvalues, -⟩ := setFullToml_entries (r := d'.readLine) (0 != 0) (e := ConfigData.new d.cfg) hown
      (fun _ hf => hf) hnodup hsets
    obtain rfl : e' = e := Except.ok.inj (hset.symm.trans hloadText)
    have hfields : ∀ f ∈ d.cfg.fields, f.Plain ∧ FieldKept f.type (d.value f.name) := by
      intro f hf
      obtain ⟨hmem, hfill⟩ := mem_fields.1 hf
      obtain ⟨hloaded', hkept⟩ := hkeeps.loaded hloaded f hf
      obtain ⟨v, ⟨w, hw, hv⟩, hvalue⟩ := hvalues f hf
      rw [readLine_eq hown' (hcfg' ▸ hf)] at hw
      obtain ⟨v₁, v₂, hslot, hslot', hs⟩ := hsame f hf
      have hcfge : e'.cfg = d.cfg := hcfge
      obtain rfl : v₁ = d'.value f.name :=
        congrArg DataSlot.value (Except.ok.inj (hslot.symm.trans (slot_eq hown' (hcfg' ▸ hf))))
      obtain rfl : v₂ = e'.value f.name :=
        congrArg DataSlot.value (Except.ok.inj (hslot'.symm.trans (slot_eq (hcfge ▸ hown) (hcfge ▸ hf))))
      rw [hvalue] at hs
      rw [← hkept]
      exact (fieldBack_iff (d.cfg.parsed f hmem) hfill hloaded').1 ⟨w, v, hw, hv, hs⟩
    exact ⟨hown, hstamp, fun f hf => (hfields f hf).1, fun f hf => (hfields f hf).2⟩

end ConfigData

/-- **When text export and import lose nothing**: behind a load of an image, for every config that was parsed. -/
theorem text_roundTrips_iff {d₀ d : ConfigData} {image : List UInt8}
    (hlen : image.length = d₀.cfg.size) (hload : d₀.loadBinConfig image 0 = .ok d) (unsafeCrc : Bool) :
    d.RoundTrips unsafeCrc ↔ d.TextSafe unsafeCrc := by
  have hset := ConfigData.setFullBinary_of_load hload
  have hd : d.cfg = d₀.cfg := ConfigData.cfg_setBinaries hset
  refine ⟨fun h => h.textSafe hlen hset, fun h => ?_⟩
  obtain ⟨hfits, hloaded⟩ := ConfigData.loaded_of_setFullBinary (hd ▸ h.own) hlen hset
  exact h.roundTrips hfits hloaded

/-- An image of `Config_V1` with empty strings, as the device stores it. -/
def imageV1 (options1 : UInt8) : List UInt8 :=
  let body := [26, 0, 1] ++ List.replicate 97 0 ++ [0xCF, options1, 0, 0]
  LittleEndian.encode 4 (evalCrc body) ++ body

theorem loads_imageV1 (options1 : UInt8)
    (h : ((ConfigData.new configV1).loadBinConfig (imageV1 options1) 0).toOption.isSome = true) :
    ∃ d, (ConfigData.new configV1).loadBinConfig (imageV1 options1) 0 = .ok d ∧ d.cfg = configV1 ∧
      ∀ f ∈ configV1.fields,
        d.value f.name = some (ConfigData.fromBinary f (((imageV1 options1).drop f.shift).take f.size)) := by
  cases hload : (ConfigData.new configV1).loadBinConfig (imageV1 options1) 0 with
  | error x => rw [hload] at h; cases h
  | ok d =>
    obtain ⟨d', hset, hcfg, hreads⟩ := ConfigData.setFullBinary_eq (d := ConfigData.new configV1)
      (ownSlots_of_nodup (by decide +kernel)) (imageV1 options1)
    rw [ConfigData.setFullBinary_of_load hload] at hset
    cases hset
    exact ⟨d, rfl, hcfg, fun f hf => hreads f (mem_fields.1 hf).1 (mem_fields.1 hf).2⟩

theorem text_roundTrips_auto : ∃ d, (ConfigData.new configV1).loadBinConfig (imageV1 4) 0 = .ok d ∧ d.RoundTrips false := by
  obtain ⟨d, hload, hcfg, hvalues⟩ := loads_imageV1 4 (by decide +kernel)
  have hlen : (imageV1 4).length = (ConfigData.new configV1).cfg.size := by decide +kernel
  refine ⟨d, hload, (text_roundTrips_iff hlen hload false).2 ?_⟩
  have hmem {f : CfgField} (h : f ∈ configV1.cfgStruct) (hfill : f.isFiller = false) : f ∈ d.cfg.fields :=
    hcfg ▸ mem_fields.2 ⟨h, hfill⟩
  have hcrc (n : Nat) (hn : n < 2 ^ 32) : LittleEndian.Fits IntType.uint32_t.size IntType.uint32_t.isSigned n := fits_natCast hn
  refine ⟨hcfg ▸ ownSlots_of_nodup (by decide +kernel), ⟨?_, ?_, ?_⟩, hcfg ▸ by decide +kernel, fun f hf => ?_⟩
  · exact ⟨⟨versionName, 6, none, .int .uint8_t, []⟩, hmem (by simp [configV1]) rfl, .uint8_t, ⟨rfl, rfl⟩,
      hcfg ▸ by decide +kernel⟩
  · exact ⟨⟨sizeName, 4, none, .int .uint16_t, []⟩, hmem (by simp [configV1]) rfl, .uint16_t, ⟨rfl, rfl⟩,
      hcfg ▸ by decide +kernel⟩
  · have hcrcmem : (⟨crcName, 0, none, .int .uint32_t, []⟩ : CfgField) ∈ d.cfg.cfgStruct := hcfg ▸ by simp [configV1]
    exact ⟨_, lastNamed_of_nodup (hcfg ▸ by decide +kernel) hcrcmem,
      .inr ⟨.uint32_t, ⟨rfl, rfl⟩, hcrc _ (by rw [evalCrc_eq]; exact crc32Le_lt _)⟩⟩
  · rw [hcfg] at hf
    rw [hvalues f hf]
    have hf' : f ∈ configV1.cfgStruct := (mem_fields.1 hf).1
    simp only [configV1, List.mem_cons, List.not_mem_nil, or_false] at hf'
    rcases hf' with rfl | rfl | rfl | rfl | rfl | rfl | rfl | rfl
    · trivial
    · trivial
    · trivial
    · exact ⟨[], by decide, .inl ⟨33, by decide +kernel⟩⟩
    · exact ⟨[], by decide, .inl ⟨64, by decide +kernel⟩⟩
    · trivial
    · have hvalue : LittleEndian.decodeInt false (((imageV1 4).drop 105).take 1) = 4 := by decide +kernel
      show options1.Legible (LittleEndian.decodeInt false (((imageV1 4).drop 105).take 1))
      rw [hvalue]
      refine ⟨by decide +kernel, ?_⟩
      rw [show options1.shown 4 = [("WFOP_Auto".toList, 4)] by decide +kernel]
      exact ⟨[4], by decide +kernel, rfl⟩
    · trivial

/-- The device stores any options byte; the text has no name for the bits of 5. -/
theorem options_not_roundTrips : ∃ d, (ConfigData.new configV1).loadBinConfig (imageV1 5) 0 = .ok d ∧
    (imageV1 5).length = configV1.size ∧ ¬ d.RoundTrips false := by
  obtain ⟨d, hload, hcfg, hvalues⟩ := loads_imageV1 5 (by decide +kernel)
  have hlen : (imageV1 5).length = (ConfigData.new configV1).cfg.size := by decide +kernel
  refine ⟨d, hload, hlen, fun h => ?_⟩
  have hsafe := h.textSafe hlen (ConfigData.setFullBinary_of_load hload)
  have hf : (⟨"options1".toList, 105, some 4, .enum options1, []⟩ : CfgField) ∈ configV1.fields :=
    mem_fields.2 ⟨by simp [configV1], rfl⟩
  have hkept := hsafe.kept _ (hcfg ▸ hf)
  rw [hvalues _ hf] at hkept
  have hleft := hkept.1
  revert hleft
  decide +kernel

end Mstd.Cfg
