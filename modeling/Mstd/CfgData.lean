import Mathlib.Data.List.DropRight
import Mstd.CfgCrc
import Mstd.CfgEnum
import Mstd.LittleEndian
import Mstd.Toml
import Mstd.Utf8
/-!
# Config data (`mstd.cfg.py`, classes `Config`, `CfgField`, `ConfigData`)

A `Config` is what `__init__` makes of an accepted header: the fields with the shifts that `process_struct_line` gives
them.  `ConfigData` holds a value for every name, which the text and the binary side set and get.  A method returns the
new object, or what it raises.
-/
namespace Mstd.Cfg

open Py (Str Dict)

/-- `val_type` and `enum_ref`.  A header may name an enum `char` or `dummy`, and what a method asks of `val_type` then
holds of its members too. -/
inductive FieldType where
  | int (type : IntType)
  | enum (ref : EnumDef)
  | enumChar (ref : EnumDef)
  | enumDummy (ref : EnumDef)
  | char (size : Nat)
  | dummy (size : Nat)

structure CfgField where
  name : Str
  shift : Nat
  valDefault : Option Int
  type : FieldType
  comment : Str

/-- The type of a member of an enum. -/
def EnumDef.fieldType (valType : Str) (e : EnumDef) : FieldType :=
  if valType = "char".toList then .enumChar e else if valType = "dummy".toList then .enumDummy e else .enum e

def FieldType.size : FieldType → Nat
  | .int t                                => t.size
  | .enum e | .enumChar e | .enumDummy e => e.baseType.size
  | .char n                               => n
  | .dummy n                              => n

def FieldType.isSigned : FieldType → Bool
  | .int t                                => t.isSigned
  | .enum e | .enumChar e | .enumDummy e => e.baseType.isSigned
  | .char _                               => false
  | .dummy _                              => false

/-- `val_type == 'dummy'`. -/
def FieldType.isFiller : FieldType → Bool
  | .dummy _ | .enumDummy _ => true
  | _                       => false

@[simp]
theorem EnumDef.fieldType_size (valType : Str) (e : EnumDef) : (e.fieldType valType).size = e.baseType.size := by
  unfold EnumDef.fieldType
  split
  · rfl
  · split <;> rfl

def CfgField.size (f : CfgField) : Nat := f.type.size

def CfgField.isFiller (f : CfgField) : Bool := f.type.isFiller

/-- The names of fillers begin with it. -/
def reservedName : Str := "reserved".toList

/-- A type as `process_struct_line` gives it to a field of this name. -/
def FieldType.Parsed (name : Str) : FieldType → Prop
  | .int _                                => ¬ reservedName <+: name
  | .enum e | .enumChar e | .enumDummy e => ¬ reservedName <+: name ∧ e.Parsed
  | .char _                               => True
  | .dummy _                              => reservedName <+: name

instance (name : Str) : (t : FieldType) → Decidable (t.Parsed name)
  | .int _                                => inferInstanceAs (Decidable (¬ _))
  | .enum _ | .enumChar _ | .enumDummy _ => inferInstanceAs (Decidable (_ ∧ _))
  | .char _                               => .isTrue trivial
  | .dummy _                              => inferInstanceAs (Decidable (_ <+: _))

/-- A field as `process_struct_line` makes it of a line. -/
structure CfgField.Parsed (f : CfgField) : Prop where
  ne : f.name ≠ []
  word : ∀ c ∈ f.name, Py.isWord c = true
  comment : '\n' ∉ f.comment ∧ '\r' ∉ f.comment
  type : f.type.Parsed f.name

instance (f : CfgField) : Decidable f.Parsed :=
  decidable_of_iff (f.name ≠ [] ∧ f.name.all Py.isWord = true ∧ ('\n' ∉ f.comment ∧ '\r' ∉ f.comment) ∧
    f.type.Parsed f.name)
    ⟨fun h => ⟨h.1, List.all_eq_true.1 h.2.1, h.2.2.1, h.2.2.2⟩, fun h => ⟨h.ne, List.all_eq_true.2 h.word, h.comment, h.type⟩⟩

theorem CfgField.Parsed.enum {f : CfgField} (h : f.Parsed) {e : EnumDef} (he : f.type = .enum e) : e.Parsed := by
  have htype := h.type
  rw [he] at htype
  exact htype.2

/-- The fields lie one behind the other from `shift` to `size`. -/
def Layout (shift : Nat) : List CfgField → Nat → Prop
  | [],      size => shift = size
  | f :: fs, size => f.shift = shift ∧ Layout (shift + f.size) fs size

/-- A config as `__init__` accepts it. -/
structure Config where
  version : Nat
  lcVersion : Nat
  cfgStruct : List CfgField
  size : Nat
  parsed : ∀ f ∈ cfgStruct, f.Parsed
  lcVersion_ne : lcVersion ≠ 0
  lcVersion_le : lcVersion ≤ version
  layout : Layout 0 cfgStruct size
  aligned : size % 4 = 0

inductive Value where
  | int (val : Int)
  | bytes (val : List UInt8)
  deriving DecidableEq

structure DataSlot where
  value : Option Value
  fld : CfgField

/-- The last field of this name. -/
def lastNamed (name : Str) : List CfgField → Option CfgField
  | []      => none
  | f :: fs => (lastNamed name fs).or (if f.name = name then some f else none)

/-- A slot for every name; its field never changes. -/
structure ConfigData where
  cfg : Config
  data : Dict Str DataSlot
  slots : ∀ name, (data.get? name).map DataSlot.fld = lastNamed name cfg.cfgStruct

/-- The loop of `__init__`. -/
def newSlots (data : Dict Str DataSlot) : List CfgField → Dict Str DataSlot
  | []      => data
  | f :: fs => newSlots (data.set f.name ⟨f.valDefault.map .int, f⟩) fs

theorem get?_newSlots (data : Dict Str DataSlot) (fs : List CfgField) (name : Str) :
    ((newSlots data fs).get? name).map DataSlot.fld = (lastNamed name fs).or ((data.get? name).map DataSlot.fld) := by
  induction fs generalizing data with
  | nil => rfl
  | cons f fs ih =>
    rw [newSlots, ih, lastNamed, Dict.get?_set, Option.or_assoc]
    by_cases hname : f.name = name
    · rw [if_pos hname, if_pos hname]; rfl
    · rw [if_neg hname, if_neg hname]; rfl

theorem of_bind_eq_ok {α β : Type} {x : Except Error α} {f : α → Except Error β} {b : β} (h : x >>= f = .ok b) :
    ∃ a, x = .ok a ∧ f a = .ok b := by
  cases x with
  | error e => cases h
  | ok a => exact ⟨a, rfl, h⟩

/-- `ConfigData(cfg)`. -/
def ConfigData.new (cfg : Config) : ConfigData where
  cfg := cfg
  data := newSlots [] cfg.cfgStruct
  slots name := (get?_newSlots [] cfg.cfgStruct name).trans (Option.or_none ..)

/-- What a TOML document gives a key. -/
abbrev TomlValue := Toml.Value

namespace ConfigData

/-- `self.data[name]`. -/
def slot (d : ConfigData) (name : Str) : Except Error DataSlot :=
  match d.data.get? name with
  | some s => .ok s
  | none   => .error (.keyError name)

/-- `self.data[name].value = value`. -/
def store (d : ConfigData) (name : Str) (value : Value) : ConfigData where
  cfg := d.cfg
  data := d.data.modify (fun s => { s with value := some value }) name
  slots x := by
    rw [Dict.get?_modify, ← d.slots x]
    split
    · rw [Option.map_map]; rfl
    · rfl

/-! ## Text -/

/-- `result.decode(errors='replace').rstrip('\0')`. -/
def charText (bytes : List UInt8) : Str := (Utf8.decode bytes).rdropWhile (· == '\x00')

def tomlOf (s : DataSlot) : TomlValue :=
  match s.value with
  | some (.bytes b) => .str (charText b)
  | some (.int i) =>
    match s.fld.type with
    | .enum e | .enumChar e | .enumDummy e => .str (e.int2str i)
    | _                                     => .int i
  | none =>
    match s.fld.type with
    | .char _ | .enumChar _ => .str []
    | _                     => .int 0

def getTomlValue (d : ConfigData) (name : Str) : Except Error TomlValue := (d.slot name).map tomlOf

/-- The bytes of a text in a `char` field: cut to leave room for a terminator when there are too many. -/
def charBytes (size : Nat) (val : Str) : List UInt8 :=
  let valb := Utf8.encode val
  if valb.length > size then (if size = 0 then valb.dropLast else valb.take (size - 1)) else valb

/-- What `set_toml_value` stores in a field.  `str2int` makes no string, so a member of an enum `char` takes none. -/
def fromToml (fld : CfgField) (val : TomlValue) : Except Error Value :=
  match fld.type, val with
  | .enum _, .int _ | .enumChar _, .int _ | .enumDummy _, .int _ => .error (.fieldIsEnum fld.name)
  | .enum e, .str s | .enumDummy e, .str s =>
    match e.str2int s with
    | .ok i    => if LittleEndian.Fits fld.size fld.type.isSigned i then .ok (.int i) else .error .overflowError
    | .error x => .error x
  | .enumChar e, .str s =>
    match e.str2int s with
    | .ok _    => .error (.fieldIsString fld.name)
    | .error x => .error x
  | .char _, .int _ => .error (.fieldIsString fld.name)
  | .char n, .str s => .ok (.bytes (charBytes n s))
  | _, .int i => if LittleEndian.Fits fld.size fld.type.isSigned i then .ok (.int i) else .error .overflowError
  | _, .str _ => .error .typeError

def setTomlValue (d : ConfigData) (name : Str) (val : TomlValue) : Except Error ConfigData :=
  match d.slot name with
  | .error x => .error x
  | .ok s    => (fromToml s.fld val).map (d.store name)

/-! ## Binary -/

/-- `get_binary_value`, behind the lookup: `None` counts as 0 or the empty string. -/
def toBinary (s : DataSlot) : Except Error (List UInt8) :=
  match s.fld.type, s.value with
  | .char _, none | .enumChar _, none                         => .ok (List.replicate s.fld.size 0)
  | .char _, some (.bytes b) | .enumChar _, some (.bytes b) =>
    if b.length ≤ s.fld.size then .ok (b ++ List.replicate (s.fld.size - b.length) 0)
    else .error (.stringTooLong b.length)
  | .char _, some (.int _) | .enumChar _, some (.int _)       => .error .typeError
  | _, some (.bytes _)                                         => .error .typeError
  | t, some (.int i)         =>
    match LittleEndian.encodeInt t.size t.isSigned i with
    | some b => .ok b
    | none   => .error .overflowError
  | t, none                  =>
    match LittleEndian.encodeInt t.size t.isSigned 0 with
    | some b => .ok b
    | none   => .error .overflowError

def getBinaryValue (d : ConfigData) (name : Str) : Except Error (List UInt8) := (d.slot name).bind toBinary

/-- The loop of `get_full_binary`. -/
def getBinaries (d : ConfigData) : List CfgField → Except Error (List UInt8)
  | []      => .ok []
  | f :: fs =>
    match if f.isFiller then .ok (List.replicate f.size 0) else d.getBinaryValue f.name, d.getBinaries fs with
    | .ok b, .ok bs  => .ok (b ++ bs)
    | .error x, _    => .error x
    | _, .error x    => .error x

def getFullBinary (d : ConfigData) : Except Error (List UInt8) := d.getBinaries d.cfg.cfgStruct

/-- What `set_binary_value` stores in a field. -/
def fromBinary (fld : CfgField) (val : List UInt8) : Value :=
  match fld.type with
  | .char _ | .enumChar _ => .bytes val
  | t                     => .int (LittleEndian.decodeInt t.isSigned val)

def setBinaryValue (d : ConfigData) (name : Str) (val : List UInt8) : Except Error ConfigData :=
  (d.slot name).map (fun s => d.store name (fromBinary s.fld val))

/-- The loop of `set_full_binary`. -/
def setBinaries (d : ConfigData) (val : List UInt8) : List CfgField → Except Error ConfigData
  | []      => .ok d
  | f :: fs =>
    if f.isFiller then d.setBinaries (val.drop f.size) fs
    else
      match d.setBinaryValue f.name (val.take f.size) with
      | .ok d'   => d'.setBinaries (val.drop f.size) fs
      | .error x => .error x

def setFullBinary (d : ConfigData) (val : List UInt8) : Except Error ConfigData := d.setBinaries val d.cfg.cfgStruct

end ConfigData

/-! ## Images -/

structure BinHeader where
  crc : Nat
  size : Nat
  version : Nat

/-- `unpack('<IHB', val[:7])`, and the size in bytes. -/
def decodeHeader (val : List UInt8) : Except Error BinHeader :=
  if val.length < 7 then .error .structError
  else
    .ok { crc := LittleEndian.decode (val.take 4)
          size := (LittleEndian.decode ((val.drop 4).take 2) &&& 0x3FF) * 4 + 4
          version := LittleEndian.decode ((val.drop 6).take 1) }

def extraDataWarning : Str := "True bytes of extra data at end of Binary config image\n".toList

def autofilledWarning : Str := "Autofilled CRC field detected in Binary config image. This is not safe\n".toList

namespace ConfigData

/-- The warnings about an image. -/
def isBinaryAccepted (d : ConfigData) (val : List UInt8) : Except Error Str :=
  match decodeHeader val with
  | .error x => .error x
  | .ok bh   =>
    if ¬ bh.size ≤ val.length then .error (.tooShort val.length bh.size)
    else
      let warn := if bh.size > val.length then extraDataWarning else []
      let crc := evalCrc (val.drop 4)
      if bh.crc ≠ 0xFFFFFFFF ∧ bh.crc ≠ crc then .error (.wrongCrc crc bh.crc)
      else
        let warn := if bh.crc = 0xFFFFFFFF then warn ++ autofilledWarning else warn
        match d.getTomlValue "version".toList with
        | .error x => .error x
        | .ok _    =>
          if d.cfg.lcVersion ≤ bh.version ∧ bh.version ≤ d.cfg.version then .ok warn
          else .error (.wrongVersion bh.version d.cfg.lcVersion d.cfg.version)

def loadBinConfig (d : ConfigData) (val : List UInt8) (force : Nat) : Except Error ConfigData :=
  if force < 2 then
    match d.isBinaryAccepted val with
    | .error x => .error x
    | .ok warn => if force = 0 ∧ warn ≠ [] then .error (.notSafe warn) else d.setFullBinary val
  else d.setFullBinary val

/-- `crc` counts as set when it is neither 0 nor empty. -/
def isSet : TomlValue → Bool
  | .int i => i != 0
  | .str s => s != []

def patchBinaryImage (d : ConfigData) (setCrc : Bool) : Except Error ConfigData := do
  let d ← d.setTomlValue "version".toList (.int d.cfg.version)
  let binImg ← d.getFullBinary
  if binImg.length % 4 ≠ 0 then .error (.sizeNotAligned binImg.length)
  else
    let d ← d.setTomlValue "size".toList (.int ((binImg.length / 4 : Nat) - 1 : Int))
    let binImg ← d.getFullBinary
    if setCrc then d.setTomlValue "crc".toList (.int (evalCrc (binImg.drop 4)))
    else
      let crc ← d.getTomlValue "crc".toList
      if isSet crc then .ok d else d.setTomlValue "crc".toList (.int 0xFFFFFFFF)

/-- The object behind the call, and the image. -/
def saveBinConfig (d : ConfigData) (unsafeCrc : Bool) : Except Error (ConfigData × List UInt8) := do
  let d ← d.patchBinaryImage (!unsafeCrc)
  let binImg ← d.getFullBinary
  .ok (d, binImg)

end ConfigData

end Mstd.Cfg
