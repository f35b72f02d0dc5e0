import Mathlib.Data.Int.Bitwise
import Mstd.Py
/-!
# Enums of the config tool (`mstd.cfg.py`, class `EnumDef`)

An enum of the header with the three dictionaries that `post_init` builds, and the text of a value (`int2str`) with its
reading (`str2int`).
-/
namespace Mstd.Cfg

open Py (Str Dict)

/-- What the tool raises, under the text of the assertion or the class of the exception. -/
inductive Error where
  | enumItemNotValid (item enum : Str)
  | enumItemAmbiguous (item enum : Str)
  | enumItemUnknown (item enum : Str)
  | fieldIsEnum (field : Str)
  | fieldIsString (field : Str)
  | unknownField (field : Str)
  | sizeNotAligned (size : Nat)
  | tooShort (size expected : Nat)
  | wrongCrc (crc expected : Nat)
  | wrongVersion (version lcVersion cfgVersion : Nat)
  | notSafe (warn : Str)
  | stringTooLong (size : Nat)
  | keyError (key : Str)
  | overflowError
  | typeError
  | structError
  | valueError
  | regexError
  | tomlDecodeError

inductive IntType where
  | int8_t | uint8_t | int16_t | uint16_t | int32_t | uint32_t | int64_t | uint64_t
  deriving DecidableEq

/-- `BASE_SIZES`. -/
def IntType.size : IntType → Nat
  | .int8_t  | .uint8_t  => 1
  | .int16_t | .uint16_t => 2
  | .int32_t | .uint32_t => 4
  | .int64_t | .uint64_t => 8

/-- `re.match(r'int\d+_t$', ...)`. -/
def IntType.isSigned : IntType → Bool
  | .int8_t  | .int16_t  | .int32_t  | .int64_t  => true
  | .uint8_t | .uint16_t | .uint32_t | .uint64_t => false

structure EnumField where
  name : Str
  value : Nat

structure EnumDef where
  name : Str
  baseType : IntType
  body : List EnumField

/-- A name as `process_enum_line` lets it in. -/
def ItemName (name : Str) : Prop := '_' ∈ name ∧ ∀ c ∈ name, Py.isWord c = true

instance (name : Str) : Decidable (ItemName name) :=
  decidable_of_iff ('_' ∈ name ∧ name.all Py.isWord = true) (and_congr_right' List.all_eq_true)

def EnumDef.Parsed (e : EnumDef) : Prop := ∀ item ∈ e.body, ItemName item.name

instance (e : EnumDef) : Decidable e.Parsed := inferInstanceAs (Decidable (∀ item ∈ e.body, _))

def maskSuffix : Str := "_MASK".toList

/-! ## `post_init` -/

structure Tables where
  toc : Dict Str Nat
  masks : Dict Str Nat
  shortToc : Dict Str (Option Str)

def Tables.addItem (t : Tables) (item : EnumField) : Tables :=
  if maskSuffix <:+ item.name then
    { t with masks := t.masks.set (item.name.take (item.name.length - maskSuffix.length)) item.value }
  else
    let toc := t.toc.set item.name item.value
    match Py.partition '_' item.name with
    | (_, false, _)   => { t with toc := toc }
    | (_, true, rest) =>
      { t with
        toc := toc
        shortToc := t.shortToc.set rest (if (t.shortToc.get? rest).isSome then none else some item.name) }

def EnumDef.tables (e : EnumDef) : Tables := e.body.foldl Tables.addItem ⟨[], [], []⟩

/-! ## `int2str` -/

/-- `f'{val:X}'`. -/
def hexUpper (val : Int) : Str :=
  let digits := (Nat.toDigits 16 val.natAbs).map Char.toUpper
  if val < 0 then '-' :: digits else digits

/-- An item is in the text of `val` when its bits are set and, where its prefix has a mask, no others of the mask. -/
def Tables.shows (t : Tables) (val : Int) (item : Str × Nat) : Bool :=
  Int.land item.2 val == item.2 &&
    match t.masks.get? (Py.partition '_' item.1).1 with
    | some mask => Int.land val mask == item.2
    | none      => true

/-- The name of an item as `int2str` writes it. -/
def Tables.text (t : Tables) (name : Str) : Str :=
  match Py.partition '_' name with
  | (pref, _, short) =>
    match t.shortToc.get? short with
    | some (some _) => short
    | _             => pref ++ '.' :: short

def EnumDef.shown (e : EnumDef) (val : Int) : Dict Str Nat := e.tables.toc.filter (e.tables.shows val)

/-- The bits of `val` that no shown item has. -/
def EnumDef.leftover (e : EnumDef) (val : Int) : Int :=
  Int.ldiff val ((e.shown val).foldl (fun processed item => processed ||| item.2) 0 : Nat)

def EnumDef.int2str (e : EnumDef) (val : Int) : Str :=
  let result := (e.shown val).map (fun item => e.tables.text item.1)
  Py.join ['|'] (if e.leftover val = 0 then result else result ++ ["#0x".toList ++ hexUpper (e.leftover val)])

/-! ## `str2int` -/

def isItemSep (c : Char) : Bool := Py.isSpace c || c == ',' || c == '|'

/-- `re.match(r'_|::|\.', item)`, which looks at the start of the item only. -/
def startsWithDelim : Str → Bool
  | '_' :: _        => true
  | '.' :: _        => true
  | ':' :: ':' :: _ => true
  | _               => false

/-- `re.sub(r'_|::|\.', '_', item)`. -/
def subDelims : Str → Str
  | ':' :: ':' :: cs => '_' :: subDelims cs
  | c :: cs          => (if c = '.' then '_' else c) :: subDelims cs
  | []               => []

/-- The value of one item of the text; the empty ones at the ends of the text are skipped. -/
def EnumDef.item (e : EnumDef) (item : Str) : Except Error Nat :=
  let t := e.tables
  if startsWithDelim item then
    match t.toc.get? (subDelims item) with
    | some value => .ok value
    | none       => .error (.enumItemNotValid (subDelims item) e.name)
  else
    match t.shortToc.get? item with
    | some (some name) =>
      match t.toc.get? name with
      | some value => .ok value
      | none       => .error (.keyError name)
    | some none => .error (.enumItemAmbiguous item e.name)
    | none =>
      match t.toc.get? item with
      | some value => .ok value
      | none       => if item = [] then .ok 0 else .error (.enumItemUnknown item e.name)

/-- The items of a text, joined with `|`. -/
def EnumDef.items (e : EnumDef) (result : Nat) : List Str → Except Error Nat
  | []          => .ok result
  | item :: rest =>
    match e.item item with
    | .ok value => e.items (result ||| value) rest
    | .error x  => .error x

def EnumDef.str2int (e : EnumDef) (val : Str) : Except Error Nat := e.items 0 (Py.splitRuns isItemSep val)

/-- Bits, a masked group, and a value that is read back. -/
example :
    let e : EnumDef := ⟨"Options".toList, .uint8_t, [⟨"WF_Off".toList, 0⟩, ⟨"WF_On".toList, 1⟩, ⟨"WF_MASK".toList, 1⟩,
      ⟨"BT_On2".toList, 2⟩]⟩
    e.int2str 3 = "On|On2".toList ∧ e.int2str 6 = "Off|On2|#0x4".toList ∧
      (e.str2int "On, On2".toList).toOption = some 3 := by decide +kernel

end Mstd.Cfg
