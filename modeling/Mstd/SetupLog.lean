import Mathlib.Data.List.GetD
import Mstd.SetupDurable
/-!
# A log of good and bad frames

What writes and power cuts can leave is a list of frames, each of them a whole record, a damaged one or a torn header.
The scan passes every frame in one step of its own length whatever its kind, so nothing in the log moves what follows
it, and the last whole record is the config (`last_valid_wins`).
-/
namespace Mstd

open ByteMem (Ptr window u16 u32 ofList)
open NorFlash (Cells mem erased ErasedFrom)
open StateTransition (Reaches)
open Relation (ReflTransGen)

/-- **The framing of a record**: its size field gives its length and was written to the end, and so was its CRC field,
whatever it says. -/
structure Framed (bytes : List UInt8) : Prop where
  ge_header : 8 ≤ bytes.length
  size_eq : recordSize (ofList bytes) 0 = bytes.length
  not_torn : sizeAt (ofList bytes) 0 >>> 8 ≠ 0xFF
  written : crcAt (ofList bytes) 0 ≠ 0xFFFFFFFF

/-- The header of a record whose write was aborted on the first byte of the size. -/
structure TornHeader (bytes : List UInt8) : Prop where
  length_eq : bytes.length = 8
  written : crcAt (ofList bytes) 0 ≠ 0xFFFFFFFF
  aborted : bytes[5]? = some 0xFF

inductive LogFrame where
  | valid (bytes : List UInt8) (framed : Framed bytes) (size : sizeofConfigV0 ≤ bytes.length)
      (crc : crcAt (ofList bytes) 0 = imageCrc bytes)
  | damaged (bytes : List UInt8) (framed : Framed bytes) (crc : crcAt (ofList bytes) 0 ≠ imageCrc bytes)
  | torn (bytes : List UInt8) (header : TornHeader bytes)

namespace LogFrame

def bytes : LogFrame → List UInt8
  | valid bytes _ _ _ => bytes
  | damaged bytes _ _ => bytes
  | torn bytes _      => bytes

/-- The record in the frame at `off`, if it is a whole one: its offset and its length. -/
def record (off : Nat) : LogFrame → Option (Nat × Nat)
  | valid bytes _ _ _ => some (off, bytes.length)
  | damaged _ _ _     => none
  | torn _ _          => none

end LogFrame

/-- The frames end to end. -/
def logBytes (frames : List LogFrame) : List UInt8 := frames.flatMap LogFrame.bytes

/-- The partition with the frames from offset 0 on and `0xFF` bytes behind them. -/
def logFlash (frames : List LogFrame) : Flash := fun i => (logBytes frames).getD i 0xFF

/-- Offset and length of the last whole record of a log that starts at `off`. -/
def lastValid (off : Nat) : List LogFrame → Option (Nat × Nat)
  | []      => none
  | f :: fs => (lastValid (off + f.bytes.length) fs).or (f.record off)

/-- The statics once this record is selected, or as they were without one. -/
def Active.select (a : Active) : Option (Nat × Nat) → Active
  | none            => a
  | some (pos, len) => { a with cfgSize := len, config := some pos }

theorem Active.select_select (a : Active) (r s : Option (Nat × Nat)) : (a.select r).select s = a.select (s.or r) := by
  cases s with
  | none => rfl
  | some s => cases r <;> rfl

/-! ## One frame -/

section

variable {p : Ptr} {n : Nat} {bytes : List UInt8}

/-- A record, whole or damaged, is one frame of its own length. -/
theorem Framed.frameAt_eq (h : Framed bytes) (hw : window p n bytes.length = bytes)
    (hfit : n + bytes.length ≤ MAX_CFG_SIZE) : frameAt p n = .record bytes.length := by
  have h8 := h.ge_header
  have hs := sizeAt_of_window hw (by omega)
  rw [frameAt_record_iff, crcAt_of_window hw (by omega), hs]
  exact ⟨h.written, h.not_torn, by rw [recordSize, hs, ← recordSize, h.size_eq], hfit⟩

theorem Framed.acceptRecord_eq (h : Framed bytes) (hw : window p n bytes.length = bytes) (a : Active) :
    acceptRecord p n bytes.length a =
      if crcAt (ofList bytes) 0 = imageCrc bytes then { a with cfgSize := bytes.length, config := some n } else a := by
  have h8 := h.ge_header
  rw [acceptRecord, crcAt_of_window hw (by omega), evalCrc_of_window hw (by omega),
    if_pos (show bytes.length ≥ sizeofConfig by unfold sizeofConfig; omega)]

theorem TornHeader.frameAt_eq (h : TornHeader bytes) (hw : window p n bytes.length = bytes) (hn : n < MAX_CFG_SIZE) :
    frameAt p n = .torn := by
  have hlen := h.length_eq
  have h5 : p (n + 5) = 0xFF := by
    have hi : 5 < bytes.length := by omega
    have ha := h.aborted
    rw [List.getElem?_eq_getElem hi] at ha
    rw [(ByteMem.window_eq_iff p n bytes).1 hw 5 hi]
    exact Option.some.inj ha
  rw [frameAt_torn_iff, crcAt_of_window hw (by omega), sizeAt, ByteMem.u16_shiftRight, h5]
  exact ⟨hn, h.written, rfl⟩

end

theorem LogFrame.length_dvd (f : LogFrame) : 4 ∣ f.bytes.length ∧ 8 ≤ f.bytes.length := by
  cases f with
  | valid bytes framed size crc =>
    refine ⟨?_, framed.ge_header⟩
    have hd := recordSize_dvd (ofList bytes) 0
    rwa [framed.size_eq] at hd
  | damaged bytes framed crc =>
    refine ⟨?_, framed.ge_header⟩
    have hd := recordSize_dvd (ofList bytes) 0
    rwa [framed.size_eq] at hd
  | torn bytes header =>
    have hlen := header.length_eq
    exact ⟨⟨2, hlen⟩, Nat.le_of_eq hlen.symm⟩

/-- **The scan passes a frame of any kind in one step of the frame's length**, and selects whole records only. -/
theorem LogFrame.scanStep_eq (f : LogFrame) {p : Ptr} {n : Nat} (h4 : 4 ∣ n) (hw : window p n f.bytes.length = f.bytes)
    (hfit : n + f.bytes.length ≤ MAX_CFG_SIZE) (a : Active) :
    scanStep p (n, a) = some (n + f.bytes.length, a.select (f.record n)) := by
  rw [scanStep_eq_some]
  cases f with
  | valid bytes framed size crc =>
    have hf := framed.frameAt_eq hw hfit
    exact ⟨by rw [nextFrame, hf]; rfl, by rw [frameActive_record hf, framed.acceptRecord_eq hw, if_pos crc]; rfl⟩
  | damaged bytes framed crc =>
    have hf := framed.frameAt_eq hw hfit
    exact ⟨by rw [nextFrame, hf]; rfl, by rw [frameActive_record hf, framed.acceptRecord_eq hw, if_neg crc]; rfl⟩
  | torn bytes header =>
    have hlen : bytes.length = 8 := header.length_eq
    have hfit' : n + bytes.length ≤ MAX_CFG_SIZE := hfit
    have hf := header.frameAt_eq hw (by omega)
    refine ⟨?_, by rw [frameActive_torn hf]; rfl⟩
    rw [nextFrame, hf, afterTorn_eq h4]
    exact congrArg (fun len => some (n + len)) hlen.symm

/-! ## The log -/

theorem logBytes_cons (f : LogFrame) (fs : List LogFrame) : logBytes (f :: fs) = f.bytes ++ logBytes fs := rfl

theorem length_logBytes_dvd : ∀ frames : List LogFrame, 4 ∣ (logBytes frames).length
  | []      => ⟨0, rfl⟩
  | f :: fs => by
    rw [logBytes_cons, List.length_append]
    exact Nat.dvd_add f.length_dvd.1 (length_logBytes_dvd fs)

/-- **The scan of the frames**, wherever they lie in memory. -/
theorem scan_log {p : Ptr} : ∀ (frames : List LogFrame) {n : Nat} (a : Active), 4 ∣ n →
    window p n (logBytes frames).length = logBytes frames → n + (logBytes frames).length ≤ MAX_CFG_SIZE →
    Reaches (scanStep p) (n, a) (n + (logBytes frames).length, a.select (lastValid n frames))
  | [], _, _, _, _, _ => ReflTransGen.refl
  | f :: fs, n, a, h4, hw, hfit => by
    rw [logBytes_cons, List.length_append] at hfit hw ⊢
    have hsplit := ByteMem.window_append p n f.bytes.length (logBytes fs).length
    rw [hw] at hsplit
    obtain ⟨hhead, htail⟩ := List.append_inj hsplit (by rw [ByteMem.length_window])
    have hstep := f.scanStep_eq h4 hhead.symm (by omega) a
    have hrest := scan_log fs (a.select (f.record n)) (Nat.dvd_add h4 f.length_dvd.1) htail.symm (by omega)
    rw [Nat.add_assoc, Active.select_select] at hrest
    exact ReflTransGen.head hstep hrest

theorem window_logFlash (frames : List LogFrame) (past : Ptr) (h : (logBytes frames).length < MAX_CFG_SIZE) :
    window (mem (logFlash frames) past) 0 (logBytes frames).length = logBytes frames := by
  rw [ByteMem.window_eq_iff]
  intro i hi
  rw [Nat.zero_add, NorFlash.mem_of_lt _ past (show i < MAX_CFG_SIZE by omega)]
  exact List.getD_eq_getElem _ _ hi

theorem erasedFrom_logFlash (frames : List LogFrame) : ErasedFrom (logFlash frames) (logBytes frames).length :=
  fun _ hi => List.getD_eq_default (logBytes frames) _ hi

/-- **The last whole record of a log is the config**, `next_cfg_shift` is the end of the log, and without a whole record
there is no config. -/
theorem last_valid_wins (past : Ptr) (frames : List LogFrame) (h : (logBytes frames).length < MAX_CFG_SIZE) :
    (reload past (logFlash frames)).config = (lastValid 0 frames).map Prod.fst ∧
      (∀ pos len, lastValid 0 frames = some (pos, len) → (reload past (logFlash frames)).cfgSize = len) ∧
      (reload past (logFlash frames)).nextCfgShift = (logBytes frames).length := by
  have h4 := length_logBytes_dvd frames
  have hscan := scan_log frames (boot (logFlash frames)).toActive (Nat.dvd_zero 4) (window_logFlash frames past h)
    (by omega)
  rw [Nat.zero_add] at hscan
  have hfind := (findFrom_reaches hscan).trans
    (findFrom_erased (erasedFrom_logFlash frames) (by unfold MAX_CFG_SIZE at *; omega))
  obtain ⟨hconfig, hsize, hshift⟩ := reload_statics hfind
  refine ⟨hconfig.trans ?_, fun pos len hlast => ?_, hshift⟩
  · cases lastValid 0 frames <;> rfl
  · rw [hsize, hlast]
    rfl

/-- A torn header, a whole record, a torn header and a damaged record. -/
def mixedLog : List LogFrame :=
  let torn : LogFrame := .torn [1, 0, 0, 0, 0x1A, 0xFF, 0xFF, 0xFF] ⟨rfl, by decide, rfl⟩
  [torn,
    .valid (savedImage smallImage)
      ⟨by decide +kernel, by decide +kernel, by decide +kernel, by decide +kernel⟩ (by decide +kernel) (by decide +kernel),
    torn,
    .damaged [1, 0, 0, 0, 1, 0, 0, 0] ⟨by decide, by decide, by decide, by decide⟩ (by decide +kernel)]

theorem last_valid_wins_mixed :
    (reload (fun _ => 0) (logFlash mixedLog)).config = some 8 ∧
      (reload (fun _ => 0) (logFlash mixedLog)).cfgSize = 108 ∧
      (reload (fun _ => 0) (logFlash mixedLog)).nextCfgShift = 132 := by
  have hlen : (logBytes mixedLog).length = 132 := by decide +kernel
  have hlast : lastValid 0 mixedLog = some (8, 108) := by decide +kernel
  obtain ⟨hconfig, hsize, hshift⟩ := last_valid_wins (fun _ => 0) mixedLog (by rw [hlen]; decide)
  exact ⟨by rw [hconfig, hlast]; rfl, hsize 8 108 hlast, by rw [hshift, hlen]; rfl⟩

end Mstd
