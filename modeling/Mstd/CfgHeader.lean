import Mstd.CfgData
import Mstd.PyInt
/-!
# Parsing a config header (`mstd.cfg.py`, `Config.__init__`)

The regular expressions of the parser are functions that match at the start of a text: none of them has a choice, since
the classes that follow one another in them are disjoint.  `Config.init` makes a `Config` of the lines of a header, or
tells what it raises; `run_good` is the invariant of its loop.
-/
namespace Mstd.Cfg

open Py (Str Dict)

/-- A line of a text file, without its end. -/
abbrev Line := {line : Str // '\n' ∉ line ∧ '\r' ∉ line}

/-- `BASE_SIZES`. -/
def baseSizes : Dict Str IntType :=
  [("int8_t".toList, .int8_t), ("uint8_t".toList, .uint8_t), ("int16_t".toList, .int16_t), ("uint16_t".toList, .uint16_t),
    ("int32_t".toList, .int32_t), ("uint32_t".toList, .uint32_t), ("int64_t".toList, .int64_t),
    ("uint64_t".toList, .uint64_t)]

/-- An enum as `__init__` keeps it, whatever its base type. -/
structure EnumDecl where
  name : Str
  baseType : Str
  body : List EnumField

/-- What `__init__` raises. -/
inductive HeaderError where
  | versionMismatch (v version : Nat)
  | unknownType (valType : Str)
  | misaligned (line : Str) (size shift : Nat)
  | onlyStrings (line : Str)
  | noUnderscore (item : Str)
  | noLcVersion
  | noVersion
  | lcVersionGreater (lcVersion version : Nat)
  | sizeNotAligned (size : Nat)
  | keyError (key : Str)
  | valueError
  | enumItem (x : Error)

/-! ## Patterns -/

def skipSpaces (s : Str) : Str := s.dropWhile Py.isSpace

/-- `line.partition('//')`, without the slashes. -/
def partitionComment : Str → Str × Str
  | '/' :: '/' :: cs => ([], cs)
  | c :: cs          => (c :: (partitionComment cs).1, (partitionComment cs).2)
  | []               => ([], [])

theorem partitionComment_cons {x : Char} {t : Str} (h : x = '/' → t.head? ≠ some '/') :
    partitionComment (x :: t) = (x :: (partitionComment t).1, (partitionComment t).2) := by
  conv => lhs; unfold partitionComment
  split
  · rename_i heq
    obtain ⟨rfl, rfl⟩ := List.cons.inj heq
    exact absurd rfl (h rfl)
  · rename_i heq
    obtain ⟨rfl, rfl⟩ := List.cons.inj heq
    rfl
  · rename_i heq; cases heq

/-- `([\d\w]+)\s+([\d\w]+)\s*`, and what follows. -/
def twoWords (line : Str) : Option (Str × Str × Str) :=
  let valType := line.takeWhile Py.isWord
  let rest := skipSpaces (line.dropWhile Py.isWord)
  let valId := rest.takeWhile Py.isWord
  if valType = [] ∨ valId = [] then none else some (valType, valId, skipSpaces (rest.dropWhile Py.isWord))

/-- What is before the last `;`, if there is one. -/
def upToSemicolon (s : Str) : Option Str :=
  if ';' ∈ s then some ((s.reverse.dropWhile (· ≠ ';')).tail.reverse) else none

/-- `^([\d\w]+)\s+([\d\w]+)\s*(=.*)?;`. -/
def matchScalar (line : Str) : Option (Str × Str × Option Str) :=
  match twoWords line with
  | some (valType, valId, ';' :: _)    => some (valType, valId, none)
  | some (valType, valId, '=' :: rest) => (upToSemicolon rest).map (fun s => (valType, valId, some ('=' :: s)))
  | _                                  => none

/-- `\s*(\d+)\s*` and a last character. -/
def matchDigits (last : Char) (s : Str) : Option Str :=
  let rest := skipSpaces s
  let digits := rest.takeWhile Py.isDigit
  match skipSpaces (rest.dropWhile Py.isDigit) with
  | c :: _ => if c = last ∧ digits ≠ [] then some digits else none
  | []     => none

/-- `([\d\w]+)\s+([\d\w]+)\s*\[\s*(\d+)\s*\]`. -/
def matchArray (line : Str) : Option (Str × Str × Str) :=
  match twoWords line with
  | some (valType, valId, '[' :: rest) => (matchDigits ']' rest).map (fun size => (valType, valId, size))
  | _                                  => none

def isHexDigit (c : Char) : Bool := ('0' ≤ c && c ≤ '9') || ('a' ≤ c && c ≤ 'f') || ('A' ≤ c && c ≤ 'F')

/-- `(0x)?[0-9a-fA-F]+`. -/
def matchHex : Str → Option Str
  | '0' :: 'x' :: rest =>
    if rest.takeWhile isHexDigit = [] then some ['0'] else some ('0' :: 'x' :: rest.takeWhile isHexDigit)
  | s => if s.takeWhile isHexDigit = [] then none else some (s.takeWhile isHexDigit)

/-- `([\d\w]+)\s*=\s*((0x)?[0-9a-fA-F]+)`. -/
def matchEnumItem (line : Str) : Option (Str × Str) :=
  let valId := line.takeWhile Py.isWord
  match skipSpaces (line.dropWhile Py.isWord) with
  | '=' :: rest => if valId = [] then none else (matchHex (skipSpaces rest)).map (fun val => (valId, val))
  | _           => none

/-- `name\s*=\s*(\d+)\s*;`. -/
def matchConstant (name : Str) (s : Str) : Option Str :=
  if name <+: s then
    match skipSpaces (s.drop name.length) with
    | '=' :: rest => matchDigits ';' rest
    | _           => none
  else none

/-- `re.search`, from a place that is behind a character of a word or not; for some patterns it must not be. -/
def search {α : Type} (atWord : Bool) (pattern : Str → Option α) (behindWord : Bool) : Str → Option α
  | []      => none
  | c :: cs =>
    (if atWord && behindWord then none else pattern (c :: cs)).or (search atWord pattern (Py.isWord c) cs)

/-- `struct\s+Config_V(\d+)\s*{`. -/
def matchStruct (s : Str) : Option Str :=
  let rest := s.drop "struct".length
  if "struct".toList <+: s ∧ skipSpaces rest ≠ rest ∧ "Config_V".toList <+: skipSpaces rest then
    -- the digits follow at once
    let digits := (skipSpaces rest).drop "Config_V".length
    if digits.head?.any Py.isDigit then matchDigits '{' digits else none
  else none

/-- `enum\s+([\w\d]+)\s*:\s*([\w\d]+)\s*{`. -/
def matchEnum (s : Str) : Option (Str × Str) :=
  match twoWords s with
  | some (keyword, name, ':' :: rest) =>
    let baseType := (skipSpaces rest).takeWhile Py.isWord
    match skipSpaces ((skipSpaces rest).dropWhile Py.isWord) with
    | '{' :: _ => if keyword = "enum".toList ∧ baseType ≠ [] then some (name, baseType) else none
    | _        => none
  | _ => none

/-! ## The lines -/

structure ParseState where
  version : Nat
  lcVersion : Nat
  maxCfgSize : Nat
  cfgStruct : List CfgField
  enums : Dict Str EnumDecl
  lastEnum : Option Str
  size : Nat
  inStruct : Bool

def ParseState.start : ParseState where
  version := 0
  lcVersion := 0
  maxCfgSize := 4096
  cfgStruct := []
  enums := []
  lastEnum := none
  size := 0
  inStruct := false

/-- `int` of matched digits. -/
def digitsInt (digits : Str) : Except HeaderError Nat :=
  match Py.int10 digits with
  | some i => .ok i.toNat
  | none   => .error .valueError

/-- The type of a field that is no array. -/
def fieldType (enums : Dict Str EnumDecl) (valType : Str) : Except HeaderError FieldType :=
  match baseSizes.get? valType with
  | some t => .ok (.int t)
  | none   =>
    match enums.get? valType with
    | none   => .error (.unknownType valType)
    | some e =>
      match baseSizes.get? e.baseType with
      | some t => .ok (EnumDef.fieldType valType ⟨e.name, t, e.body⟩)
      | none   => .error (.keyError e.baseType)

/-- The default of a field, behind its `=`. -/
def parseDefault (type : FieldType) (valDef : Str) : Except HeaderError Int :=
  match type with
  | .enum e | .enumChar e | .enumDummy e =>
    match e.str2int valDef with
    | .ok n    => .ok n
    | .error x => .error (.enumItem x)
  | _ =>
    match Py.int0 valDef with
    | some i => .ok i
    | none   => .error .valueError

namespace ParseState

def addField (s : ParseState) (f : CfgField) : ParseState :=
  { s with cfgStruct := s.cfgStruct ++ [f], size := s.size + f.size }

/-- `process_struct_line`, for a line with the pattern of a field that is no array. -/
def addScalar (s : ParseState) (line valType valId : Str) (valDef : Option Str) (comment : Str) :
    Except HeaderError ParseState :=
  match fieldType s.enums valType with
  | .error x => .error x
  | .ok type =>
    if s.size % type.size ≠ 0 then .error (.misaligned line type.size s.size)
    else if reservedName <+: valId then .ok (s.addField ⟨valId, s.size, some 0, .dummy type.size, []⟩)
    else
      match valDef with
      | none     => .ok (s.addField ⟨valId, s.size, none, type, comment⟩)
      | some def_ =>
        match parseDefault type (Py.strip Py.isSpace (def_.drop 1)) with
        | .ok i    => .ok (s.addField ⟨valId, s.size, some i, type, comment⟩)
        | .error x => .error x

def addArray (s : ParseState) (line valType valId size comment : Str) : Except HeaderError ParseState :=
  if valType ≠ "char".toList then .error (.onlyStrings line)
  else
    match digitsInt size with
    | .ok n    => .ok (s.addField ⟨valId, s.size, none, .char n, comment⟩)
    | .error x => .error x

/-- A line that matches neither pattern is skipped. -/
def processStructLine (s : ParseState) (line : Str) : Except HeaderError ParseState :=
  let code := (partitionComment line).1
  let comment := Py.strip Py.isSpace (partitionComment line).2
  match matchScalar code with
  | some (valType, valId, valDef) => s.addScalar code valType valId valDef comment
  | none =>
    match matchArray code with
    | some (valType, valId, size) => s.addArray code valType valId size comment
    | none                        => .ok s

def processEnumLine (s : ParseState) (enum : Str) (line : Str) : Except HeaderError ParseState :=
  match matchEnumItem (partitionComment line).1 with
  | none => .ok s
  | some (valId, val) =>
    if '_' ∉ valId then .error (.noUnderscore valId)
    else
      match Py.int0 val with
      | some i => .ok { s with enums := s.enums.modify (fun e => { e with body := e.body ++ [⟨valId, i.toNat⟩] }) enum }
      | none   => .error .valueError

/-- A line outside of enums and of the struct. -/
def processTopLine (s : ParseState) (line : Str) : Except HeaderError ParseState :=
  if let some digits := search false (matchConstant "MAX_CFG_SIZE".toList) false line then
    (digitsInt digits).map (fun n => { s with maxCfgSize := n })
  else if let some digits := search true (matchConstant "ConfigVersion".toList) false line then
    (digitsInt digits).map (fun n => { s with version := n })
  else if let some digits := search true (matchConstant "LC_ConfigVersion".toList) false line then
    (digitsInt digits).map (fun n => { s with lcVersion := n })
  else if let some digits := matchStruct line then
    match digitsInt digits with
    | .ok v    => if v = s.version then .ok { s with inStruct := true } else .error (.versionMismatch v s.version)
    | .error x => .error x
  else if let some (name, baseType) := matchEnum line then
    .ok { s with enums := s.enums.set name ⟨name, baseType, []⟩, lastEnum := some name }
  else .ok s

def closing : Str := ['}', ';']

/-- A line, without the end of the struct. -/
def processLine (s : ParseState) (line : Str) : Except HeaderError ParseState :=
  match s.lastEnum with
  | some enum =>
    if line = closing then .ok { s with lastEnum := none }
    else if s.inStruct then s.processStructLine line
    else s.processEnumLine enum line
  | none => if s.inStruct then s.processStructLine line else s.processTopLine line

/-- The loop of `__init__`, which the end of the struct leaves. -/
def run (s : ParseState) : List Line → Except HeaderError ParseState
  | []            => .ok s
  | line :: lines =>
    if s.inStruct = true ∧ Py.strip Py.isSpace line.val = closing then .ok s
    else
      match s.processLine (Py.strip Py.isSpace line.val) with
      | .ok s'   => s'.run lines
      | .error x => .error x

/-! ## What the loop keeps -/

/-- The fields are those of a config, and the items of the enums have names; before the struct there are no fields. -/
structure Good (s : ParseState) : Prop where
  parsed : ∀ f ∈ s.cfgStruct, f.Parsed
  layout : Layout 0 s.cfgStruct s.size
  items : ∀ name e, s.enums.get? name = some e → ∀ item ∈ e.body, ItemName item.name
  before : s.inStruct = false → s.cfgStruct = []

theorem start_good : start.Good :=
  ⟨fun _ h => absurd h List.not_mem_nil, rfl, fun _ _ h => (nomatch h), fun _ => rfl⟩

end ParseState

theorem Layout.concat {f : CfgField} : ∀ {fs : List CfgField} {shift size : Nat}, Layout shift fs size → f.shift = size →
    Layout shift (fs ++ [f]) (size + f.size)
  | [], _, _, h, hf => by cases h; exact ⟨hf, rfl⟩
  | _ :: _, _, _, h, hf => ⟨h.1, Layout.concat h.2 hf⟩

theorem twoWords_ok {line valType valId rest : Str} (h : twoWords line = some (valType, valId, rest)) :
    valId ≠ [] ∧ ∀ c ∈ valId, Py.isWord c = true := by
  unfold twoWords at h
  simp only at h
  split at h
  · cases h
  · rename_i hne
    cases h
    exact ⟨fun hnil => hne (.inr hnil), fun c hc => List.mem_takeWhile_imp hc⟩

theorem matchScalar_ok {line valType valId : Str} {valDef : Option Str} (h : matchScalar line = some (valType, valId, valDef)) :
    ∃ rest, twoWords line = some (valType, valId, rest) := by
  unfold matchScalar at h
  split at h
  · cases h; exact ⟨_, ‹_›⟩
  · rename_i hwords
    obtain ⟨_, -, h⟩ := Option.map_eq_some_iff.1 h
    cases h
    exact ⟨_, hwords⟩
  · cases h

theorem matchArray_ok {line valType valId size : Str} (h : matchArray line = some (valType, valId, size)) :
    ∃ rest, twoWords line = some (valType, valId, rest) := by
  unfold matchArray at h
  split at h
  · rename_i hwords
    obtain ⟨_, -, h⟩ := Option.map_eq_some_iff.1 h
    cases h
    exact ⟨_, hwords⟩
  · cases h

theorem partitionComment_subset {line : Str} {c : Char} (h : c ∈ (partitionComment line).2) : c ∈ line := by
  induction line using partitionComment.induct with
  | case1 cs => exact List.mem_cons_of_mem _ (List.mem_cons_of_mem _ h)
  | case2 x cs hne ih =>
    have hhead : x = '/' → cs.head? ≠ some '/' := fun hx hcs => by
      obtain ⟨t, ht⟩ := List.head?_eq_some_iff.1 hcs
      exact hne t hx ht
    rw [partitionComment_cons hhead] at h
    exact List.mem_cons_of_mem _ (ih h)
  | case3 => cases h

theorem strip_subset {space : Char → Bool} {s : Str} {c : Char} (h : c ∈ Py.strip space s) : c ∈ s := by
  unfold Py.strip at h
  have h1 := (List.dropWhile_sublist _).subset (List.mem_reverse.1 h)
  exact (List.dropWhile_sublist _).subset (List.mem_reverse.1 h1)

namespace ParseState

variable {s s' : ParseState}

theorem Good.addField (h : s.Good) {f : CfgField} (hf : f.Parsed) (hshift : f.shift = s.size) (hin : s.inStruct = true) :
    (s.addField f).Good := by
  refine ⟨fun g hg => ?_, h.layout.concat hshift, h.items, fun hout => ?_⟩
  · rcases List.mem_append.1 hg with hg | hg
    · exact h.parsed g hg
    · rw [List.mem_singleton.1 hg]; exact hf
  · have hout : s.inStruct = false := hout
    rw [hin] at hout
    cases hout

theorem Good.fieldType (h : s.Good) {valType name : Str} {type : FieldType} (htype : fieldType s.enums valType = .ok type)
    (hname : ¬ reservedName <+: name) : type.Parsed name := by
  unfold Cfg.fieldType at htype
  split at htype
  · cases htype; exact hname
  · split at htype
    · cases htype
    · split at htype
      · cases htype
        have hitems := h.items _ _ ‹_›
        unfold EnumDef.fieldType
        split
        · exact ⟨hname, hitems⟩
        · split
          · exact ⟨hname, hitems⟩
          · exact ⟨hname, hitems⟩
      · cases htype

/-- A line added a field behind the others. -/
structure Adds (s s' : ParseState) (f : CfgField) (name : Str) (size : Nat) : Prop where
  eq : s' = s.addField f
  name : f.name = name
  shift : f.shift = s.size
  size : f.size = size
  parsed : s.Good → f.Parsed

theorem addScalar_ok {line valType valId comment rest : Str} {valDef : Option Str}
    (hwords : twoWords line = some (valType, valId, rest)) (hcomment : '\n' ∉ comment ∧ '\r' ∉ comment)
    (h : s.addScalar line valType valId valDef comment = .ok s') :
    ∃ type, Cfg.fieldType s.enums valType = .ok type ∧ type.size ∣ s.size ∧ ∃ f, Adds s s' f valId type.size := by
  obtain ⟨hne, hword⟩ := twoWords_ok hwords
  have hclean : '\n' ∉ ([] : Str) ∧ '\r' ∉ ([] : Str) := ⟨List.not_mem_nil, List.not_mem_nil⟩
  unfold addScalar at h
  cases htype : Cfg.fieldType s.enums valType with
  | error x => rw [htype] at h; cases h
  | ok type =>
    rw [htype] at h
    simp only at h
    split at h
    · cases h
    · rename_i hdvd
      refine ⟨type, rfl, Nat.dvd_of_mod_eq_zero (Classical.not_not.1 hdvd), ?_⟩
      split at h
      · rename_i hres
        cases h
        exact ⟨_, rfl, rfl, rfl, rfl, fun _ => ⟨hne, hword, hclean, hres⟩⟩
      · rename_i hres
        split at h
        · cases h
          exact ⟨_, rfl, rfl, rfl, rfl, fun hs => ⟨hne, hword, hcomment, hs.fieldType htype hres⟩⟩
        · split at h
          · cases h
            exact ⟨_, rfl, rfl, rfl, rfl, fun hs => ⟨hne, hword, hcomment, hs.fieldType htype hres⟩⟩
          · cases h

theorem addArray_ok {line valType valId size comment rest : Str} (hwords : twoWords line = some (valType, valId, rest))
    (hcomment : '\n' ∉ comment ∧ '\r' ∉ comment) (h : s.addArray line valType valId size comment = .ok s') :
    ∃ n, digitsInt size = .ok n ∧ ∃ f, Adds s s' f valId n := by
  obtain ⟨hne, hword⟩ := twoWords_ok hwords
  unfold addArray at h
  split at h
  · cases h
  · split at h
    · rename_i n hn
      cases h
      exact ⟨n, hn, _, rfl, rfl, rfl, rfl, fun _ => ⟨hne, hword, hcomment, trivial⟩⟩
    · cases h

/-- **What a line of the struct does**: it is skipped, or adds the field of its pattern. -/
theorem processStructLine_ok {line : Str} (hline : '\n' ∉ line ∧ '\r' ∉ line) (h : s.processStructLine line = .ok s') :
    (matchScalar (partitionComment line).1 = none ∧ matchArray (partitionComment line).1 = none ∧ s' = s) ∨
    (∃ valType valId valDef type f, matchScalar (partitionComment line).1 = some (valType, valId, valDef) ∧
      Cfg.fieldType s.enums valType = .ok type ∧ type.size ∣ s.size ∧ Adds s s' f valId type.size) ∨
    ∃ valType valId size n f, matchScalar (partitionComment line).1 = none ∧
      matchArray (partitionComment line).1 = some (valType, valId, size) ∧ digitsInt size = .ok n ∧ Adds s s' f valId n := by
  have hcomment : '\n' ∉ Py.strip Py.isSpace (partitionComment line).2 ∧ '\r' ∉ Py.strip Py.isSpace (partitionComment line).2 :=
    hline.imp (fun h hm => h (partitionComment_subset (strip_subset hm))) (fun h hm => h (partitionComment_subset (strip_subset hm)))
  unfold processStructLine at h
  simp only at h
  split at h
  · rename_i valType valId valDef hscalar
    obtain ⟨rest, hwords⟩ := matchScalar_ok hscalar
    obtain ⟨type, htype, hdvd, f, hadds⟩ := addScalar_ok hwords hcomment h
    exact .inr (.inl ⟨_, _, _, type, f, hscalar, htype, hdvd, hadds⟩)
  · rename_i hscalar
    split at h
    · rename_i valType valId size harray
      obtain ⟨rest, hwords⟩ := matchArray_ok harray
      obtain ⟨n, hn, f, hadds⟩ := addArray_ok hwords hcomment h
      exact .inr (.inr ⟨_, _, _, n, f, hscalar, harray, hn, hadds⟩)
    · cases h
      exact .inl ⟨hscalar, ‹_›, rfl⟩

/-- At most one field for a line. -/
theorem processStructLine_adds {line : Str} (hline : '\n' ∉ line ∧ '\r' ∉ line) (h : s.processStructLine line = .ok s') :
    s' = s ∨ ∃ f name size, Adds s s' f name size := by
  rcases processStructLine_ok hline h with ⟨-, -, rfl⟩ | ⟨_, _, _, _, f, -, -, -, hadds⟩ | ⟨_, _, _, _, f, -, -, -, hadds⟩
  · exact .inl rfl
  · exact .inr ⟨f, _, _, hadds⟩
  · exact .inr ⟨f, _, _, hadds⟩

/-- What the lines outside of the struct leave as it is. -/
structure Outside (s s' : ParseState) : Prop where
  cfgStruct : s'.cfgStruct = s.cfgStruct
  size : s'.size = s.size
  inStruct : s.inStruct = true → s'.inStruct = true
  items : s.Good → ∀ name e, s'.enums.get? name = some e → ∀ item ∈ e.body, ItemName item.name

theorem Outside.good (h : Outside s s') (hs : s.Good) : s'.Good := by
  refine ⟨h.cfgStruct ▸ hs.parsed, ?_, h.items hs, fun hout => ?_⟩
  · rw [h.cfgStruct, h.size]
    exact hs.layout
  · rw [h.cfgStruct]
    refine hs.before ?_
    by_contra hin
    rw [h.inStruct (Bool.eq_true_of_not_eq_false hin)] at hout
    cases hout

theorem processEnumLine_outside {enum line : Str} (h : s.processEnumLine enum line = .ok s') : Outside s s' := by
  unfold processEnumLine at h
  split at h
  · cases h; exact ⟨rfl, rfl, id, fun hs => hs.items⟩
  · rename_i valId val hitem
    split at h
    · cases h
    · rename_i hunder
      split at h
      · cases h
        refine ⟨rfl, rfl, id, fun hs name e he item hitem' => ?_⟩
        have hword : ∀ c ∈ valId, Py.isWord c = true := by
          unfold matchEnumItem at hitem
          simp only at hitem
          split at hitem
          · split at hitem
            · cases hitem
            · obtain ⟨_, -, heq⟩ := Option.map_eq_some_iff.1 hitem
              cases heq
              exact fun c hc => List.mem_takeWhile_imp hc
          · cases hitem
        simp only [Dict.get?_modify] at he
        split at he
        · obtain ⟨e', he', rfl⟩ := Option.map_eq_some_iff.1 he
          rcases List.mem_append.1 hitem' with hm | hm
          · exact hs.items _ _ he' item hm
          · rw [List.mem_singleton.1 hm]
            exact ⟨Classical.not_not.1 hunder, hword⟩
        · exact hs.items _ _ he item hitem'
      · cases h

theorem processTopLine_outside {line : Str} (h : s.processTopLine line = .ok s') : Outside s s' := by
  have hint {digits : Str} {f : Nat → ParseState} (h : (digitsInt digits).map f = .ok s') (hf : ∀ n, Outside s (f n)) :
      Outside s s' := by
    cases hn : digitsInt digits with
    | error x => rw [hn] at h; cases h
    | ok n => rw [hn] at h; cases h; exact hf n
  unfold processTopLine at h
  split at h
  · exact hint h (fun n => ⟨rfl, rfl, id, fun hs => hs.items⟩)
  · split at h
    · exact hint h (fun n => ⟨rfl, rfl, id, fun hs => hs.items⟩)
    · split at h
      · exact hint h (fun n => ⟨rfl, rfl, id, fun hs => hs.items⟩)
      · split at h
        · split at h
          · split at h
            · cases h; exact ⟨rfl, rfl, fun _ => rfl, fun hs => hs.items⟩
            · cases h
          · cases h
        · split at h
          · cases h
            refine ⟨rfl, rfl, id, fun hs name e he item hitem => ?_⟩
            rw [Dict.get?_set] at he
            split at he
            · cases he; cases hitem
            · exact hs.items _ _ he item hitem
          · cases h; exact ⟨rfl, rfl, id, fun hs => hs.items⟩

/-- **What a line does**: one of the struct may add a field, any other leaves the fields as they are. -/
theorem processLine_ok {line : Str} (hline : '\n' ∉ line ∧ '\r' ∉ line) (h : s.processLine line = .ok s') :
    Outside s s' ∨ s.inStruct = true ∧ ∃ f name size, Adds s s' f name size := by
  have hstruct (hin : s.inStruct = true) (h : s.processStructLine line = .ok s') :
      Outside s s' ∨ s.inStruct = true ∧ ∃ f name size, Adds s s' f name size := by
    rcases processStructLine_adds hline h with rfl | hadds
    · exact .inl ⟨rfl, rfl, id, fun hs => hs.items⟩
    · exact .inr ⟨hin, hadds⟩
  unfold processLine at h
  split at h
  · split at h
    · cases h; exact .inl ⟨rfl, rfl, id, fun hs => hs.items⟩
    · split at h
      · exact hstruct ‹_› h
      · exact .inl (processEnumLine_outside h)
  · split at h
    · exact hstruct ‹_› h
    · exact .inl (processTopLine_outside h)

theorem Good.processLine (hs : s.Good) {line : Str} (hline : '\n' ∉ line ∧ '\r' ∉ line) (h : s.processLine line = .ok s') :
    s'.Good := by
  rcases processLine_ok hline h with hout | ⟨hin, f, name, size, hadds⟩
  · exact hout.good hs
  · rw [hadds.eq]
    exact hs.addField (hadds.parsed hs) hadds.shift hin

theorem strip_clean (line : Line) : '\n' ∉ Py.strip Py.isSpace line.val ∧ '\r' ∉ Py.strip Py.isSpace line.val :=
  ⟨fun h => line.2.1 (strip_subset h), fun h => line.2.2 (strip_subset h)⟩

/-- **The invariant of the loop.** -/
theorem run_good : ∀ {lines : List Line} {s s' : ParseState}, s.Good → s.run lines = .ok s' → s'.Good
  | [], s, s', hs, h => by cases h; exact hs
  | line :: lines, s, s', hs, h => by
    rw [run] at h
    split at h
    · cases h; exact hs
    · split at h
      · exact run_good (hs.processLine (strip_clean line) ‹_›) h
      · cases h

end ParseState

/-! ## The config -/

/-- `Config(fname)`. -/
def Config.init (lines : List Line) : Except HeaderError Config :=
  match h : ParseState.start.run lines with
  | .error x => .error x
  | .ok s    =>
    if hlc : s.lcVersion = 0 then .error .noLcVersion
    else if s.version = 0 then .error .noVersion
    else if hle : ¬ s.lcVersion ≤ s.version then .error (.lcVersionGreater s.lcVersion s.version)
    else if hsize : s.size % 4 ≠ 0 then .error (.sizeNotAligned s.size)
    else
      .ok { version := s.version
            lcVersion := s.lcVersion
            cfgStruct := s.cfgStruct
            size := s.size
            parsed := (ParseState.run_good ParseState.start_good h).parsed
            lcVersion_ne := hlc
            lcVersion_le := Classical.not_not.1 hle
            layout := (ParseState.run_good ParseState.start_good h).layout
            aligned := Classical.not_not.1 hsize }

theorem Config.init_ok {lines : List Line} {cfg : Config} (h : Config.init lines = .ok cfg) :
    ∃ s, ParseState.start.run lines = .ok s ∧ s.cfgStruct = cfg.cfgStruct ∧ s.size = cfg.size := by
  unfold Config.init at h
  split at h
  · cases h
  · rename_i s hs
    refine ⟨s, hs, ?_⟩
    split at h
    · cases h
    · split at h
      · cases h
      · split at h
        · cases h
        · split at h
          · cases h
          · cases h; exact ⟨rfl, rfl⟩

end Mstd.Cfg
