import Mstd.CfgHeader
import Mstd.CfgJoin
/-!
# The tool (`mstd.cfg.py`, `ConfigImage` and `main`)

`main` reads its sources, files or devices, and writes one destination.  A `World` is what it finds there: files, and
what a device sends when `TFTPClient` reads from it.  The result is what `main` writes, or what it raises.  `main_ok` has
the branches; from it come what a written image holds (`main_joins`), what a device is sent (`main_sends`), and what no
run does (`main_never`).
-/
namespace Mstd.Cfg

open Py (Str Dict)

/-- What `value` of a `ConfigImage` is. -/
inductive Data where
  | bytes (val : List UInt8)
  | str (val : Str)

/-- `kind`, with what only a device has. -/
inductive ImageKind where
  | tftp (ip : Str)
  | std
  | bin
  | text

structure ConfigImage where
  kind : ImageKind
  fileName : Str

/-- What `main` raises; the first ones are its own assertions. -/
inductive MainError where
  | noFiles
  | newNeedsOne (found : Nat)
  | noDestination
  | firmwareOverride
  | directCopy
  | notBinary
  | wrongMstdName (fileName : Str)
  | expectedMstd (fileName : Str)
  | header (x : HeaderError)
  | config (x : Error)
  | fileNotFound (fileName : Str)
  | tftp
  | attributeError
  | typeError

/-- `lines` are those of a text file that `Config` reads, and `toml` is `tomllib.loads`. -/
structure World where
  file : Str → Option (List UInt8)
  text : Str → Option Str
  lines : Str → Option (List Line)
  toml : Str → Option (Dict Str TomlValue)
  read : (ip fileName : Str) → Option (List UInt8)

/-- What `main` writes, and where. -/
inductive Output where
  | device (ip fileName : Str) (val : List UInt8)
  | stdout (val : Str)
  | bin (fileName : Str) (val : List UInt8)
  | text (fileName : Str) (val : Str)

/-! ## Images -/

def mstdName : Str := "MSTD".toList

def cfgFile : Str := "cfg.cfg".toList
def fullFile : Str := "full.cfg".toList
def fwFile : Str := "fw.bin".toList

/-- `mode`. -/
inductive Mode where
  | none
  | full
  | FW

def Mode.fileName : Mode → Str
  | .none => cfgFile
  | .full => fullFile
  | .FW   => fwFile

def dropPrefix (pref s : Str) : Str := if pref <+: s then s.drop pref.length else s

/-- The second group of `MSTD::?(//)?(.*)$`, behind the first colon: a `.` is no newline, and `$` also matches before the
last one. -/
def mstdHost (s : Str) : Option Str :=
  let rest := dropPrefix ['/', '/'] (dropPrefix [':'] s)
  let ip := rest.takeWhile (· ≠ '\n')
  if rest.drop ip.length = [] ∨ rest.drop ip.length = ['\n'] then some ip else none

namespace ConfigImage

/-- `__init__`. -/
def init (fileName : Str) (mode : Mode) : Except MainError ConfigImage :=
  if fileName = mstdName then .ok ⟨.tftp "192.168.4.1".toList, mode.fileName⟩
  else if mstdName ++ [':'] <+: fileName then
    match mstdHost (fileName.drop 5) with
    | some ip => .ok ⟨.tftp ip, mode.fileName⟩
    | none    => .error (.wrongMstdName fileName)
  else
    match mode with
    | .none =>
      if fileName = ['-'] then .ok ⟨.std, fileName⟩
      else if ".bin".toList <:+ fileName then .ok ⟨.bin, fileName⟩
      else .ok ⟨.text, fileName⟩
    | _ => .error (.expectedMstd fileName)

def isBinary (image : ConfigImage) : Bool :=
  match image.kind with
  | .text => false
  | _     => true

/-- `value`; `sys.stdin` has no `readall`. -/
def value (w : World) (image : ConfigImage) : Except MainError Data :=
  match image.kind with
  | .tftp ip =>
    match w.read ip image.fileName with
    | some val => .ok (.bytes val)
    | none     => .error .tftp
  | .std => .error .attributeError
  | .bin =>
    match w.file image.fileName with
    | some val => .ok (.bytes val)
    | none     => .error (.fileNotFound image.fileName)
  | .text =>
    match w.text image.fileName with
    | some val => .ok (.str val)
    | none     => .error (.fileNotFound image.fileName)

/-- The setter of `value`; `sys.stdout` takes no bytes. -/
def setValue (image : ConfigImage) (val : Data) : Except MainError Output :=
  match image.kind, val with
  | .tftp ip, .bytes val => .ok (.device ip image.fileName val)
  | .std, .str val       => .ok (.stdout val)
  | .bin, .bytes val     => .ok (.bin image.fileName val)
  | .text, .str val      => .ok (.text image.fileName val)
  | _, _                 => .error .typeError

end ConfigImage

def isFullConfigName (fname : Str) : Bool := fullFile.isSuffixOf fname

/-- `os.path.getsize` of a file that does not exist raises. -/
def isFwFile (w : World) (fname : Str) : Except MainError Bool :=
  if ".bin".toList <:+ fname then
    match w.file fname with
    | some val => .ok (val.length > 102400)
    | none     => .error (.fileNotFound fname)
  else .ok false

/-! ## `main` -/

/-- `args`, but for `quiet`. -/
structure Args where
  srcConfig : Str
  dstConfig : Option Str := none
  argumentOverride : List Str := []
  config : Str := "setup_data.h".toList
  bypass : Bool := false
  new : Bool := false
  update : Bool := false
  force : Nat := 0
  unsafeCrc : Bool := false
  hiddenFields : Bool := false

namespace Args

def files (args : Args) : List Str :=
  args.srcConfig :: ((args.dstConfig.filter (· ≠ [])).toList ++ args.argumentOverride)

def argOverride (args : Args) : List (Str × Str) :=
  (args.files.filter ('=' ∈ ·)).map (fun f => (Py.strip Py.isSpace (Py.partition '=' f).1, (Py.partition '=' f).2.2))

/-- The loop of `set_cl_value`. -/
def overrides (args : Args) : List Load := args.argOverride.map (fun o => .cl o.1 o.2)

/-- `src_files` and `dst_file`. -/
def srcFiles (args : Args) : Except MainError (List Str × Str) :=
  match args.files.filter ('=' ∉ ·) with
  | []     => .error .noFiles
  | f :: fs =>
    if args.new then if fs = [] then .ok ([], f) else .error (.newNeedsOne (fs.length + 1))
    else if args.update then .ok (f :: fs, f)
    else if fs = [] then .error .noDestination
    else .ok ((f :: fs).dropLast, (f :: fs).getLast (List.cons_ne_nil f fs))

end Args

/-- `Config(args.config)`. -/
def World.config (w : World) (fname : Str) : Except MainError Config :=
  match w.lines fname with
  | none       => .error (.fileNotFound fname)
  | some lines => (Config.init lines).mapError .header

/-- The condition of the first branch. -/
def isFwUpdate (w : World) (dst : Str) : List Str → Except MainError Bool
  | [src] => (isFwFile w src).map (· && mstdName.isPrefixOf dst)
  | _     => .ok false

/-- What a source makes of its bytes or its text. -/
def sourceLoad (w : World) (force : Nat) (src : Str) : Except MainError Load := do
  match ← (← ConfigImage.init src .none).value w with
  | .bytes val => .ok (.bin val force)
  | .str data  =>
    match w.toml data with
    | some toml => .ok (.text toml force)
    | none      => .error (.config .tomlDecodeError)

/-- The loop over the sources. -/
def loadSources (w : World) (force : Nat) (d : ConfigData) : List Str → Except MainError ConfigData
  | []          => .ok d
  | src :: srcs => do
    let l ← sourceLoad w force src
    let d ← (d.load l).mapError .config
    loadSources w force d srcs

/-- The first branch: firmware. -/
def uploadFw (w : World) (args : Args) (srcs : List Str) (dst : Str) : Except MainError Output := do
  if args.argOverride ≠ [] then .error .firmwareOverride
  else
    let src ← ConfigImage.init (srcs.headD []) .none
    let dst ← ConfigImage.init dst .FW
    dst.setValue (← src.value w)

/-- The second branch: a copy of the bytes. -/
def copyDirect (w : World) (args : Args) (srcs : List Str) (dst : Str) : Except MainError Output := do
  match srcs with
  | [src] =>
    if dst = [] ∨ args.argOverride ≠ [] then .error .directCopy
    else
      let mode := if isFullConfigName src || isFullConfigName dst then Mode.full else Mode.none
      let src ← ConfigImage.init src mode
      let dst ← ConfigImage.init dst mode
      if src.isBinary ∧ dst.isBinary then dst.setValue (← src.value w) else .error .notBinary
  | _ => .error .directCopy

/-- The third branch: the sources are joined. -/
def joinConfigs (w : World) (cfg : Config) (args : Args) (srcs : List Str) (dst : Str) : Except MainError Output := do
  let d ← loadSources w args.force (.new cfg) srcs
  let d ← (d.loads args.overrides).mapError .config
  let dst ← ConfigImage.init dst .none
  if dst.isBinary then
    let saved ← (d.saveBinConfig args.unsafeCrc).mapError .config
    dst.setValue (.bytes saved.2)
  else
    let saved ← (d.saveTextConfig args.unsafeCrc args.hiddenFields).mapError .config
    dst.setValue (.str saved.2)

def main (w : World) (args : Args) : Except MainError Output := do
  let files ← args.srcFiles
  let cfg ← w.config args.config
  if ← isFwUpdate w files.2 files.1 then uploadFw w args files.1 files.2
  else if args.bypass then copyDirect w args files.1 files.2
  else joinConfigs w cfg args files.1 files.2

/-! ## What a run did -/

theorem bind_ok {ε α β : Type} {x : Except ε α} {f : α → Except ε β} {b : β} (h : x >>= f = .ok b) :
    ∃ a, x = .ok a ∧ f a = .ok b := by
  cases x with
  | error e => cases h
  | ok a => exact ⟨a, rfl, h⟩

theorem mapError_ok {ε ε' α : Type} {x : Except ε α} {f : ε → ε'} {a : α} (h : x.mapError f = .ok a) : x = .ok a := by
  cases x with
  | error e => cases h
  | ok b => cases h; rfl

/-- A name that `ConfigImage` takes for a device. -/
def IsMstd (fileName : Str) : Prop := fileName = mstdName ∨ mstdName ++ [':'] <+: fileName

namespace ConfigImage

variable {fileName : Str} {mode : Mode} {image : ConfigImage} {val : Data} {out : Output} {w : World}

/-- **What a name stands for**: a device, or a file when there is no mode. -/
theorem init_ok (h : init fileName mode = .ok image) :
    IsMstd fileName ∧ (∃ ip, image = ⟨.tftp ip, mode.fileName⟩) ∨
      ¬ IsMstd fileName ∧ mode = .none ∧ image.fileName = fileName ∧
        (fileName = ['-'] ∧ image.kind = .std ∨ fileName ≠ ['-'] ∧ (image.kind = .bin ∨ image.kind = .text)) := by
  unfold init at h
  split at h
  · rename_i hname
    cases h
    exact .inl ⟨.inl hname, _, rfl⟩
  · rename_i hname
    split at h
    · rename_i hpre
      split at h
      · cases h; exact .inl ⟨.inr hpre, _, rfl⟩
      · cases h
    · rename_i hpre
      refine .inr ⟨fun hm => hm.elim hname hpre, ?_⟩
      split at h
      · split at h
        · rename_i hdash
          cases h
          exact ⟨rfl, rfl, .inl ⟨hdash, rfl⟩⟩
        · rename_i hdash
          split at h
          · cases h; exact ⟨rfl, rfl, .inr ⟨hdash, .inl rfl⟩⟩
          · cases h; exact ⟨rfl, rfl, .inr ⟨hdash, .inr rfl⟩⟩
      · cases h

theorem setValue_bytes {val : List UInt8} (h : image.setValue (.bytes val) = .ok out) :
    (∃ ip, image.kind = .tftp ip ∧ out = .device ip image.fileName val) ∨
      image.kind = .bin ∧ out = .bin image.fileName val := by
  unfold setValue at h
  split at h
  · rename_i hkind hval; cases hval; cases h; exact .inl ⟨_, hkind, rfl⟩
  · rename_i hval; cases hval
  · rename_i hkind hval; cases hval; cases h; exact .inr ⟨hkind, rfl⟩
  · rename_i hval; cases hval
  · cases h

theorem setValue_str {val : Str} (h : image.setValue (.str val) = .ok out) :
    image.kind = .std ∧ out = .stdout val ∨ image.kind = .text ∧ out = .text image.fileName val := by
  unfold setValue at h
  split at h
  · rename_i hval; cases hval
  · rename_i hkind hval; cases hval; cases h; exact .inl ⟨hkind, rfl⟩
  · rename_i hval; cases hval
  · rename_i hkind hval; cases hval; cases h; exact .inr ⟨hkind, rfl⟩
  · cases h

/-- A binary image has bytes, and is not the standard input. -/
theorem value_ok (h : image.value w = .ok val) :
    image.kind ≠ .std ∧ (image.isBinary = true → ∃ bytes, val = .bytes bytes) := by
  unfold value at h
  unfold isBinary
  split at h
  · rename_i hkind
    split at h
    · cases h; exact ⟨by simp [hkind], fun _ => ⟨_, rfl⟩⟩
    · cases h
  · cases h
  · rename_i hkind
    split at h
    · cases h; exact ⟨by simp [hkind], fun _ => ⟨_, rfl⟩⟩
    · cases h
  · rename_i hkind
    split at h
    · cases h; exact ⟨by simp [hkind], fun hbin => by simp [hkind] at hbin⟩
    · cases h

end ConfigImage

section

variable {w : World} {args : Args} {cfg : Config} {srcs : List Str} {src dst : Str} {out : Output}

theorem isFwUpdate_true (h : isFwUpdate w dst srcs = .ok true) :
    ∃ src fw, srcs = [src] ∧ ".bin".toList <:+ src ∧ w.file src = some fw ∧ 102400 < fw.length ∧ mstdName <+: dst := by
  unfold isFwUpdate at h
  split at h
  · rename_i src
    unfold isFwFile at h
    split at h
    · rename_i hbin
      split at h
      · rename_i fw hfw
        have hand : (decide (fw.length > 102400) && mstdName.isPrefixOf dst) = true := Except.ok.inj h
        rw [Bool.and_eq_true, decide_eq_true_eq, List.isPrefixOf_iff_prefix] at hand
        exact ⟨src, fw, rfl, hbin, hfw, hand.1, hand.2⟩
      · cases h
    · cases h
  · cases h

/-- What a source that is no device nor the standard input has for a value. -/
theorem value_of_file {image : ConfigImage} {bytes : List UInt8} (hinit : ConfigImage.init src .none = .ok image)
    (hsrc : ¬ IsMstd src) (h : image.value w = .ok (.bytes bytes)) : w.file src = some bytes := by
  obtain ⟨hm, -⟩ | ⟨-, -, hname, hkind⟩ := ConfigImage.init_ok hinit
  · exact absurd hm hsrc
  · unfold ConfigImage.value at h
    rw [hname] at h
    obtain ⟨-, hkind⟩ | ⟨-, hkind | hkind⟩ := hkind
    · rw [hkind] at h; cases h
    · rw [hkind] at h
      simp only at h
      split at h
      · rename_i val hval; cases h; exact hval
      · cases h
    · rw [hkind] at h
      simp only at h
      split at h <;> cases h

/-- What a source that is a device has for a value: its `cfg.cfg`. -/
theorem value_of_device {image : ConfigImage} {bytes : List UInt8} (hinit : ConfigImage.init src .none = .ok image)
    (hsrc : IsMstd src) (h : image.value w = .ok (.bytes bytes)) : ∃ ip, w.read ip cfgFile = some bytes := by
  obtain ⟨-, ip, rfl⟩ | ⟨hm, -⟩ := ConfigImage.init_ok hinit
  · unfold ConfigImage.value at h
    simp only at h
    split at h
    · rename_i val hval; cases h; exact ⟨ip, hval⟩
    · cases h
  · exact absurd hsrc hm

theorem uploadFw_ok (h : uploadFw w args [src] dst = .ok out) :
    ∃ image ip val, ConfigImage.init src .none = .ok image ∧ image.value w = .ok (.bytes val) ∧
      out = .device ip fwFile val := by
  unfold uploadFw at h
  split at h
  · cases h
  · obtain ⟨image, hinit, h⟩ := bind_ok h
    obtain ⟨dimage, hdst, h⟩ := bind_ok h
    obtain ⟨val, hval, h⟩ := bind_ok h
    obtain ⟨-, ip, rfl⟩ | ⟨-, hmode, -⟩ := ConfigImage.init_ok hdst
    · cases val with
      | str val => cases h
      | bytes val => cases h; exact ⟨image, ip, val, hinit, hval, rfl⟩
    · cases hmode

theorem copyDirect_ok (h : copyDirect w args srcs dst = .ok out) :
    ∃ src mode image dimage val, srcs = [src] ∧
      mode = (if isFullConfigName src || isFullConfigName dst then Mode.full else Mode.none) ∧
      ConfigImage.init src mode = .ok image ∧ ConfigImage.init dst mode = .ok dimage ∧
      image.value w = .ok (.bytes val) ∧ dimage.setValue (.bytes val) = .ok out := by
  unfold copyDirect at h
  split at h
  · rename_i src
    split at h
    · cases h
    · obtain ⟨image, hinit, h⟩ := bind_ok h
      obtain ⟨dimage, hdst, h⟩ := bind_ok h
      split at h
      · rename_i hbin
        obtain ⟨val, hval, h⟩ := bind_ok h
        obtain ⟨bytes, rfl⟩ := (ConfigImage.value_ok hval).2 hbin.1
        exact ⟨src, _, image, dimage, bytes, rfl, rfl, hinit, hdst, hval, h⟩
      · cases h
  · cases h

theorem loadSources_ok {force : Nat} : ∀ {srcs : List Str} {d d' : ConfigData}, loadSources w force d srcs = .ok d' →
    ∃ ls, List.Forall₂ (fun src l => sourceLoad w force src = .ok l) srcs ls ∧ d.loads ls = .ok d'
  | [],          d, d', h => by cases h; exact ⟨[], .nil, rfl⟩
  | src :: srcs, d, d', h => by
    rw [loadSources] at h
    obtain ⟨l, hl, h⟩ := bind_ok h
    obtain ⟨d₁, hd₁, h⟩ := bind_ok h
    obtain ⟨ls, hls, hloads⟩ := loadSources_ok h
    refine ⟨l :: ls, .cons hl hls, ?_⟩
    show (d.load l >>= fun d => d.loads ls) = _
    rw [mapError_ok hd₁]
    exact hloads

/-- **The third branch**: the sources, then the overrides, are loaded into a new object, which is saved. -/
theorem joinConfigs_ok (h : joinConfigs w cfg args srcs dst = .ok out) :
    ∃ ls d image, List.Forall₂ (fun src l => sourceLoad w args.force src = .ok l) srcs ls ∧
      (ConfigData.new cfg).loads (ls ++ args.overrides) = .ok d ∧ ConfigImage.init dst .none = .ok image ∧
      ((∃ d' val, image.isBinary = true ∧ d.saveBinConfig args.unsafeCrc = .ok (d', val) ∧
          image.setValue (.bytes val) = .ok out) ∨
        ∃ d' val, image.isBinary = false ∧ d.saveTextConfig args.unsafeCrc args.hiddenFields = .ok (d', val) ∧
          image.setValue (.str val) = .ok out) := by
  obtain ⟨d₁, hsrcs, h⟩ := bind_ok h
  obtain ⟨d, hover, h⟩ := bind_ok h
  obtain ⟨image, hinit, h⟩ := bind_ok h
  obtain ⟨ls, hls, hloads⟩ := loadSources_ok hsrcs
  refine ⟨ls, d, image, hls, ?_, hinit, ?_⟩
  · unfold ConfigData.loads at hloads ⊢
    rw [List.foldlM_append, hloads]
    exact mapError_ok hover
  · split at h
    · rename_i hbin
      obtain ⟨saved, hsave, h⟩ := bind_ok h
      exact .inl ⟨saved.1, saved.2, hbin, mapError_ok hsave, h⟩
    · rename_i hbin
      obtain ⟨saved, hsave, h⟩ := bind_ok h
      exact .inr ⟨saved.1, saved.2, Bool.not_eq_true _ ▸ hbin, mapError_ok hsave, h⟩

/-- A device is sent its `cfg.cfg`. -/
theorem joinConfigs_device {ip name : Str} {val : List UInt8}
    (h : joinConfigs w cfg args srcs dst = .ok (.device ip name val)) :
    ConfigImage.init dst .none = .ok ⟨.tftp ip, cfgFile⟩ ∧ name = cfgFile := by
  obtain ⟨ls, d, image, -, -, hinit, ⟨d', val', -, -, hset⟩ | ⟨d', val', -, -, hset⟩⟩ := joinConfigs_ok h
  · obtain ⟨ip', hkind, heq⟩ | ⟨-, heq⟩ := ConfigImage.setValue_bytes hset
    · obtain ⟨-, _, rfl⟩ | ⟨-, -, -, ⟨-, hk⟩ | ⟨-, hk | hk⟩⟩ := ConfigImage.init_ok hinit
      · cases hkind; cases heq; exact ⟨hinit, rfl⟩
      all_goals rw [hk] at hkind; cases hkind
    · cases heq
  · obtain ⟨-, heq⟩ | ⟨-, heq⟩ := ConfigImage.setValue_str hset
    · cases heq
    · cases heq

theorem main_eq {fw : Bool} (hfiles : args.srcFiles = .ok (srcs, dst)) (hcfg : w.config args.config = .ok cfg)
    (hfw : isFwUpdate w dst srcs = .ok fw) :
    main w args = if fw then uploadFw w args srcs dst
      else if args.bypass then copyDirect w args srcs dst else joinConfigs w cfg args srcs dst := by
  unfold main
  rw [hfiles, hcfg]
  simp only [bind, Except.bind, hfw]

/-- **The branches of `main`**. -/
theorem main_ok (h : main w args = .ok out) :
    ∃ srcs dst cfg, args.srcFiles = .ok (srcs, dst) ∧ w.config args.config = .ok cfg ∧
      (isFwUpdate w dst srcs = .ok true ∧ uploadFw w args srcs dst = .ok out ∨
        isFwUpdate w dst srcs = .ok false ∧ (args.bypass = true ∧ copyDirect w args srcs dst = .ok out ∨
          args.bypass = false ∧ joinConfigs w cfg args srcs dst = .ok out)) := by
  obtain ⟨⟨srcs, dst⟩, hfiles, hrest⟩ := bind_ok h
  obtain ⟨cfg, hcfg, hrest⟩ := bind_ok hrest
  obtain ⟨fw, hfw, -⟩ := bind_ok hrest
  rw [main_eq hfiles hcfg hfw] at h
  refine ⟨srcs, dst, cfg, hfiles, hcfg, ?_⟩
  cases fw with
  | true => exact .inl ⟨hfw, h⟩
  | false =>
    rw [if_neg Bool.false_ne_true] at h
    cases hbypass : args.bypass with
    | true => rw [hbypass, if_pos rfl] at h; exact .inr ⟨hfw, .inl ⟨rfl, h⟩⟩
    | false => rw [hbypass, if_neg Bool.false_ne_true] at h; exact .inr ⟨hfw, .inr ⟨rfl, h⟩⟩

end

/-! ## A directory and a device -/

/-- The lines of `setup_data.h` on the enum, the versions and the fields, without their comments. -/
def headerV1 : List Line :=
  ["enum Options1 : uint8_t \x7b", "WFOP_No = 0x00,", "WFOP_AP = 0x01,", "WFOP_Sta = 0x02,", "WFOP_Both = 0x03,",
    "WFOP_Auto = 0x04,", "WFOP_MASK = 0x07,", "Nxt_Options = 0x08,", "\x7d;",
    "static constexpr uint8_t ConfigVersion = 1;", "static constexpr uint8_t LC_ConfigVersion = 1;",
    "struct Config_V1 \x7b", "uint32_t crc;", "uint16_t size;", "uint8_t version;", "char ssid[33] = \x7b0\x7d;",
    "char passwd[64] = \x7b0\x7d;", "uint8_t oled_contrast = 0xCF;", "Options1 options1 = WFOP_Auto;",
    "uint16_t reserved = 0;", "\x7d;"].filterMap
    (fun line => if h : '\n' ∉ line.toList ∧ '\r' ∉ line.toList then some ⟨line.toList, h⟩ else none)

theorem init_headerV1 : Config.init headerV1 = .ok configV1 := by rfl

/-- The header, a text config, and devices that send these bytes. -/
def smallWorld (sent : List UInt8) : World where
  file _ := none
  text fileName := if fileName = "ap.cfg".toList then some "ssid = 'ap'\n".toList else none
  lines fileName := if fileName = "setup_data.h".toList then some headerV1 else none
  toml := Toml.loads
  read _ _ := some sent

theorem config_smallWorld (sent : List UInt8) : (smallWorld sent).config "setup_data.h".toList = .ok configV1 := by
  show (Config.init headerV1).mapError .header = _
  rw [init_headerV1]
  rfl

theorem main_any (w : World) (args : Args) {p : Output → Bool} (h : (main w args).toOption.any p = true) :
    ∃ out, main w args = .ok out ∧ p out = true := by
  cases hmain : main w args with
  | error x => rw [hmain] at h; cases h
  | ok out => rw [hmain] at h; exact ⟨out, rfl, h⟩

/-- The image that is sent to the device at this address as `cfg.cfg`. -/
def Output.sent (ip : Str) : Output → Option (List UInt8)
  | .device ip' name val => if ip' = ip ∧ name = cfgFile then some val else none
  | _                    => none

theorem Output.sent_eq {ip : Str} {out : Output} {val : List UInt8} (h : out.sent ip = some val) :
    out = .device ip cfgFile val := by
  unfold Output.sent at h
  split at h
  · split at h
    · rename_i hip; cases h; rw [hip.1, hip.2]
    · cases h
  · cases h

theorem main_sent (w : World) (args : Args) (ip : Str) {p : List UInt8 → Bool}
    (h : (main w args).toOption.any (fun out => (out.sent ip).any p) = true) :
    ∃ val, main w args = .ok (.device ip cfgFile val) ∧ p val = true := by
  obtain ⟨out, hmain, hout⟩ := main_any w args h
  cases hsent : out.sent ip with
  | none => rw [hsent] at hout; cases hout
  | some val => rw [hsent] at hout; exact ⟨val, Output.sent_eq hsent ▸ hmain, hout⟩

def mstdIp : Str := "192.168.4.1".toList

/-- A text config and an override, for the device. -/
def sendArgs : Args where
  srcConfig := "ap.cfg".toList
  dstConfig := some mstdName
  argumentOverride := ["oled_contrast = 16".toList]

/-! ## The images that `main` writes -/

/-- The config image that is written: to a file, or as `cfg.cfg` to a device. -/
def Output.image : Output → Option (List UInt8)
  | .device _ name val => if name = cfgFile then some val else none
  | .bin _ val         => some val
  | _                  => none

/-- Without `-b`, a config image is saved behind the loads. -/
theorem main_saved {w : World} {args : Args} {cfg : Config} {out : Output} {img : List UInt8}
    (hcfg : w.config args.config = .ok cfg) (hbypass : args.bypass = false) (hmain : main w args = .ok out)
    (himg : out.image = some img) :
    ∃ srcs dst ls d d', args.srcFiles = .ok (srcs, dst) ∧
      List.Forall₂ (fun src l => sourceLoad w args.force src = .ok l) srcs ls ∧
      (ConfigData.new cfg).loads (ls ++ args.overrides) = .ok d ∧ d.saveBinConfig args.unsafeCrc = .ok (d', img) := by
  obtain ⟨srcs, dst, cfg', hfiles, hcfg', hbranch⟩ := main_ok hmain
  obtain rfl : cfg = cfg' := Except.ok.inj (hcfg.symm.trans hcfg')
  obtain ⟨hfw, hup⟩ | ⟨-, ⟨hb, -⟩ | ⟨-, hjoin⟩⟩ := hbranch
  · -- firmware is no config
    obtain ⟨src, fw, rfl, -⟩ := isFwUpdate_true hfw
    obtain ⟨image, ip, val, -, -, rfl⟩ := uploadFw_ok hup
    rw [Output.image, if_neg (by decide)] at himg
    cases himg
  · rw [hbypass] at hb; cases hb
  · obtain ⟨ls, d, image, hls, hloads, -, ⟨d', val, -, hsave, hset⟩ | ⟨d', val, -, -, hset⟩⟩ := joinConfigs_ok hjoin
    · have hval : img = val := by
        obtain ⟨ip, -, rfl⟩ | ⟨-, rfl⟩ := ConfigImage.setValue_bytes hset
        · rw [Output.image] at himg
          split at himg
          · cases himg; rfl
          · cases himg
        · cases himg; rfl
      exact ⟨srcs, dst, ls, d, d', hfiles, hls, hloads, hval ▸ hsave⟩
    · obtain ⟨-, rfl⟩ | ⟨-, rfl⟩ := ConfigImage.setValue_str hset
      · cases himg
      · cases himg

/-- **The sources are joined**: without `-b`, each field of the config image that `main` writes holds what the last source
or override that sets it makes of it, or its default.  The header is its own. -/
theorem main_joins (w : World) (args : Args) (cfg : Config) (hcfg : w.config args.config = .ok cfg)
    (hlayout : cfg.DeviceLayout) (hbypass : args.bypass = false) (out : Output) (hmain : main w args = .ok out)
    (img : List UInt8) (himg : out.image = some img) :
    ∃ srcs dst ls, args.srcFiles = .ok (srcs, dst) ∧
      List.Forall₂ (fun src l => sourceLoad w args.force src = .ok l) srcs ls ∧ img.length = cfg.size ∧
      (args.unsafeCrc = false → Whole img cfg.version) ∧
      ∀ f ∈ cfg.fields, f.name ∉ hiddenNames → (img.drop f.shift).take f.size =
        encodeField f.type (joined f (f.valDefault.map .int) (ls ++ args.overrides)) := by
  obtain ⟨srcs, dst, ls, d, d', hfiles, hls, hloads, hsave⟩ := main_saved hcfg hbypass hmain himg
  exact ⟨srcs, dst, ls, hfiles, hls, saved_joined hlayout hloads hsave⟩

theorem main_joins_text :
    ∃ img, main (smallWorld []) sendArgs = .ok (.device mstdIp cfgFile img) ∧ img.length = 108 ∧ Whole img 1 := by
  obtain ⟨img, hmain, -⟩ := main_sent (smallWorld []) sendArgs mstdIp (p := fun _ => true) (by decide +kernel)
  obtain ⟨-, -, -, -, -, hlen, hwhole, -⟩ := main_joins (smallWorld []) sendArgs configV1 (config_smallWorld [])
    configV1_deviceLayout rfl _ hmain img rfl
  exact ⟨img, hmain, hlen, hwhole rfl⟩

/-- A config is sent to the destination. -/
theorem main_device {w : World} {args : Args} {srcs : List Str} {dst ip : Str} {val : List UInt8}
    (hbypass : args.bypass = false) (hfiles : args.srcFiles = .ok (srcs, dst))
    (h : main w args = .ok (.device ip cfgFile val)) : ConfigImage.init dst .none = .ok ⟨.tftp ip, cfgFile⟩ := by
  obtain ⟨srcs', dst', cfg, hfiles', -, hbranch⟩ := main_ok h
  cases hfiles.symm.trans hfiles'
  obtain ⟨hfw, hup⟩ | ⟨-, ⟨hb, -⟩ | ⟨-, hjoin⟩⟩ := hbranch
  · obtain ⟨src, fw, rfl, -⟩ := isFwUpdate_true hfw
    obtain ⟨image, ip', val', -, -, heq⟩ := uploadFw_ok hup
    exact absurd (Output.device.inj heq).2.1 (by decide)
  · rw [hbypass] at hb; cases hb
  · exact (joinConfigs_device hjoin).1

/-- **What `main` sends to a device**, without `-b` and `--unsafe-crc`: as `fw.bin` the bytes of a large file, or what a
device sends where the name of the file is that of a device, or as `cfg.cfg` an image that every device takes. -/
theorem main_sends (w : World) (args : Args) (cfg : Config) (hcfg : w.config args.config = .ok cfg)
    (hlayout : cfg.DeviceLayout) (hbypass : args.bypass = false) (hwith : args.unsafeCrc = false) (ip name : Str)
    (val : List UInt8) (hmain : main w args = .ok (.device ip name val)) :
    (name = fwFile ∧ ∃ src dst fw, args.srcFiles = .ok ([src], dst) ∧ ".bin".toList <:+ src ∧ w.file src = some fw ∧
      102400 < fw.length ∧ (¬ IsMstd src → val = fw) ∧ (IsMstd src → ∃ ip', w.read ip' cfgFile = some val)) ∨
    (name = cfgFile ∧ Whole val cfg.version ∧
      ∀ dev : Setup, dev.cfgPat = true → (saveConfigImage .working dev val).err = none) := by
  obtain ⟨srcs, dst, cfg', hfiles, -, hbranch⟩ := main_ok hmain
  obtain ⟨hfw, hup⟩ | ⟨-, ⟨hb, -⟩ | ⟨-, hjoin⟩⟩ := hbranch
  · left
    obtain ⟨src, fw, rfl, hbin, hfile, hlarge, -⟩ := isFwUpdate_true hfw
    obtain ⟨image, ip', val', hinit, hval, heq⟩ := uploadFw_ok hup
    cases heq
    refine ⟨rfl, src, dst, fw, hfiles, hbin, hfile, hlarge, fun hsrc => ?_, fun hsrc => value_of_device hinit hsrc hval⟩
    exact Option.some.inj ((value_of_file hinit hsrc hval).symm.trans hfile)
  · rw [hbypass] at hb; cases hb
  · right
    obtain ⟨-, hname⟩ := joinConfigs_device hjoin
    subst hname
    obtain ⟨_, _, ls, d, d', -, -, hloads, hsave⟩ := main_saved hcfg hbypass hmain rfl
    have hwhole := (saved_joined hlayout hloads hsave).2.1 hwith
    exact ⟨rfl, hwhole, fun dev hpat => hwhole.device hpat⟩

theorem main_sends_text :
    ∃ img, main (smallWorld []) sendArgs = .ok (.device mstdIp cfgFile img) ∧
      (saveConfigImage .working freshStore img).err = none := by
  obtain ⟨img, hmain, -⟩ := main_sent (smallWorld []) sendArgs mstdIp (p := fun _ => true) (by decide +kernel)
  obtain ⟨hfw, -⟩ | ⟨-, -, hdev⟩ := main_sends (smallWorld []) sendArgs configV1 (config_smallWorld [])
    configV1_deviceLayout rfl rfl mstdIp cfgFile img hmain
  · exact absurd hfw (by decide)
  · exact ⟨img, hmain, hdev freshStore rfl⟩

/-! ## What `main` never does -/

/-- The same world, where no device has a `full.cfg`. -/
def World.noFull (w : World) : World :=
  { w with read := fun ip fileName => if fileName = fullFile then none else w.read ip fileName }

section

variable {w : World} {args : Args} {cfg : Config} {srcs : List Str} {src dst : Str} {out : Output}

/-- Without a mode, `full.cfg` is not read. -/
theorem value_noFull {image : ConfigImage} (h : ConfigImage.init src .none = .ok image) :
    image.value w.noFull = image.value w := by
  obtain ⟨-, ip, rfl⟩ | ⟨-, -, -, ⟨-, hk⟩ | ⟨-, hk | hk⟩⟩ := ConfigImage.init_ok h
  · have hread : (if cfgFile = fullFile then none else w.read ip cfgFile) = w.read ip cfgFile := if_neg (by decide)
    simp only [ConfigImage.value, Mode.fileName, World.noFull, hread]
  all_goals simp only [ConfigImage.value, hk, World.noFull]

theorem sourceLoad_noFull (force : Nat) (src : Str) : sourceLoad w.noFull force src = sourceLoad w force src := by
  unfold sourceLoad
  cases h : ConfigImage.init src .none with
  | error x => rfl
  | ok image =>
    show (image.value w.noFull >>= _) = (image.value w >>= _)
    rw [value_noFull h]
    rfl

theorem loadSources_noFull (force : Nat) : ∀ (srcs : List Str) (d : ConfigData),
    loadSources w.noFull force d srcs = loadSources w force d srcs
  | [],          d => rfl
  | src :: srcs, d => by
    simp only [loadSources, sourceLoad_noFull, loadSources_noFull force srcs]

theorem joinConfigs_noFull : joinConfigs w.noFull cfg args srcs dst = joinConfigs w cfg args srcs dst := by
  unfold joinConfigs
  rw [loadSources_noFull]

theorem uploadFw_noFull : uploadFw w.noFull args srcs dst = uploadFw w args srcs dst := by
  unfold uploadFw
  cases h : ConfigImage.init (srcs.headD []) .none with
  | error x => rfl
  | ok image => simp only [bind, Except.bind, value_noFull h]

theorem copyDirect_noFull (h : (isFullConfigName src || isFullConfigName dst) = false) :
    copyDirect w.noFull args [src] dst = copyDirect w args [src] dst := by
  simp only [copyDirect, h, Bool.false_eq_true, if_false]
  cases hinit : ConfigImage.init src .none with
  | error x => rfl
  | ok image => simp only [bind, Except.bind, value_noFull hinit]

/-- A source is not the standard input. -/
theorem dash_notMem {force : Nat} {ls : List Load} (h : List.Forall₂ (fun src l => sourceLoad w force src = .ok l) srcs ls) :
    ['-'] ∉ srcs := by
  induction h with
  | nil => exact List.not_mem_nil
  | cons hl _ ih =>
    intro hmem
    rcases List.mem_cons.1 hmem with rfl | hmem
    · cases hl
    · exact ih hmem

theorem kind_dash {mode : Mode} {image : ConfigImage} (h : ConfigImage.init ['-'] mode = .ok image) : image.kind = .std := by
  cases mode with
  | none => cases h; rfl
  | full => cases h
  | FW => cases h

theorem dst_ne_dash {mode : Mode} {image : ConfigImage} {val : List UInt8} (h : ConfigImage.init dst mode = .ok image)
    (hset : image.setValue (.bytes val) = .ok out) : dst ≠ ['-'] := by
  rintro rfl
  obtain ⟨ip, hk, -⟩ | ⟨hk, -⟩ := ConfigImage.setValue_bytes hset
  · rw [kind_dash h] at hk; cases hk
  · rw [kind_dash h] at hk; cases hk

/-- Without a mode, `full.cfg` is not written. -/
theorem setValue_ne_full {image : ConfigImage} {val : Data} (h : ConfigImage.init dst .none = .ok image)
    (hset : image.setValue val = .ok out) (ip : Str) (v : List UInt8) : out ≠ .device ip fullFile v := by
  rintro rfl
  cases val with
  | bytes val =>
    obtain ⟨ip', hk, heq⟩ | ⟨-, heq⟩ := ConfigImage.setValue_bytes hset
    · obtain ⟨-, _, rfl⟩ | ⟨-, -, -, ⟨-, hk'⟩ | ⟨-, hk' | hk'⟩⟩ := ConfigImage.init_ok h
      · exact absurd (Output.device.inj heq).2.1 (show fullFile ≠ cfgFile by decide)
      all_goals rw [hk'] at hk; cases hk
    · cases heq
  | str val =>
    obtain ⟨-, heq⟩ | ⟨-, heq⟩ := ConfigImage.setValue_str hset
    · cases heq
    · cases heq

end

/-- **What `main` never does**: it neither reads the standard input nor writes the standard output, though `-` stands for
them, and `full.cfg` is only copied, by `-b`, from one device to another, one of which has a name that ends in it. -/
theorem main_never (w : World) (args : Args) (out : Output) (h : main w args = .ok out) :
    ∃ srcs dst, args.srcFiles = .ok (srcs, dst) ∧ ['-'] ∉ srcs ∧ dst ≠ ['-'] ∧
      ((∃ ip val, out = .device ip fullFile val) ∨ main w.noFull args ≠ .ok out →
        args.bypass = true ∧ ∃ src, srcs = [src] ∧ IsMstd src ∧ IsMstd dst ∧
          (isFullConfigName src = true ∨ isFullConfigName dst = true)) := by
  obtain ⟨srcs, dst, cfg, hfiles, hcfg, hbranch⟩ := main_ok h
  refine ⟨srcs, dst, hfiles, ?_⟩
  obtain ⟨hfw, hup⟩ | ⟨hfw, ⟨hb, hcopy⟩ | ⟨hb, hjoin⟩⟩ := hbranch
  · -- firmware
    obtain ⟨src, fw, rfl, hbin, -, -, hdst⟩ := isFwUpdate_true hfw
    have hsame : main w.noFull args = .ok out := by
      rw [main_eq (w := w.noFull) hfiles hcfg hfw, if_pos rfl, uploadFw_noFull, hup]
    obtain ⟨image, ip, val, -, -, rfl⟩ := uploadFw_ok hup
    refine ⟨fun hd => ?_, ?_, ?_⟩
    · rw [← List.mem_singleton.1 hd] at hbin
      exact absurd hbin (by decide)
    · rintro rfl
      exact absurd hdst (by decide)
    · rintro (⟨ip', val', heq⟩ | hne)
      · exact absurd (Output.device.inj heq).2.1 (by decide)
      · exact absurd hsame hne
  · -- a copy
    obtain ⟨src, mode, image, dimage, val, rfl, hmode, hinit, hdst, hval, hset⟩ := copyDirect_ok hcopy
    refine ⟨fun hd => ?_, dst_ne_dash hdst hset, fun hfull => ⟨hb, src, rfl, ?_⟩⟩
    · obtain rfl := List.mem_singleton.1 hd
      exact (ConfigImage.value_ok hval).1 (kind_dash hinit)
    · cases hm : isFullConfigName src || isFullConfigName dst with
      | true =>
        -- with a mode, both are devices
        rw [hm, if_pos rfl] at hmode
        subst hmode
        obtain ⟨hsrc, -⟩ | ⟨-, hnone, -⟩ := ConfigImage.init_ok hinit
        · obtain ⟨hdst, -⟩ | ⟨-, hnone, -⟩ := ConfigImage.init_ok hdst
          · exact ⟨hsrc, hdst, Bool.or_eq_true_iff.1 hm⟩
          · cases hnone
        · cases hnone
      | false =>
        rw [hm, if_neg Bool.false_ne_true] at hmode
        subst hmode
        obtain ⟨ip, v, heq⟩ | hne := hfull
        · exact absurd heq (setValue_ne_full hdst hset ip v)
        · refine absurd ?_ hne
          rw [main_eq (w := w.noFull) hfiles hcfg hfw, hb, if_neg Bool.false_ne_true, if_pos rfl, copyDirect_noFull hm, hcopy]
  · -- a join
    obtain ⟨ls, d, image, hls, -, hinit, hsaved⟩ := joinConfigs_ok hjoin
    have hsame : main w.noFull args = .ok out := by
      rw [main_eq (w := w.noFull) hfiles hcfg hfw, hb, if_neg Bool.false_ne_true, if_neg Bool.false_ne_true,
        joinConfigs_noFull, hjoin]
    refine ⟨dash_notMem hls, ?_, ?_⟩
    · obtain ⟨d', val, -, -, hset⟩ | ⟨d', val, hbin, -, -⟩ := hsaved
      · exact dst_ne_dash hinit hset
      · rintro rfl
        rw [ConfigImage.isBinary, kind_dash hinit] at hbin
        cases hbin
    · rintro (⟨ip, val, heq⟩ | hne)
      · obtain ⟨d', val', -, -, hset⟩ | ⟨d', val', -, -, hset⟩ := hsaved
        · exact absurd heq (setValue_ne_full hinit hset ip val)
        · exact absurd heq (setValue_ne_full hinit hset ip val)
      · exact absurd hsame hne

/-- `-b`, from one device to another. -/
def copyArgs : Args where
  srcConfig := mstdName
  dstConfig := some "MSTD://b".toList
  bypass := true

theorem main_never_copy :
    ∃ out, main (smallWorld [1]) copyArgs = .ok out ∧
      ∃ srcs dst, copyArgs.srcFiles = .ok (srcs, dst) ∧ ['-'] ∉ srcs ∧ dst ≠ ['-'] := by
  obtain ⟨out, hmain, -⟩ := main_any (smallWorld [1]) copyArgs (p := fun _ => true) (by decide +kernel)
  obtain ⟨srcs, dst, hfiles, hsrcs, hdst, -⟩ := main_never _ _ out hmain
  exact ⟨out, hmain, srcs, dst, hfiles, hsrcs, hdst⟩

end Mstd.Cfg
