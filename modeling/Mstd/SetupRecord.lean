import Mstd.SetupLoad
/-!
# The record a load selects

A load selects the last frame with a right CRC (`LastRecord`), and such a frame lies in the partition with its CRC field
written.  Its size is another matter: the check in `find_active_config` compares with the size of a pointer, so a frame
of 4 bytes passes, and the fields of `Config_V0` lie outside it (`selected_sound_iff`).
-/
namespace Mstd

open ByteMem (Ptr window u16 u32)
open NorFlash (mem program erased)
open StateTransition (Reaches)
open Relation (ReflTransGen)

/-- A frame of `sz` bytes with a right CRC at `off`. -/
structure RecordAt (p : Ptr) (off sz : Nat) : Prop where
  frame : frameAt p off = .record sz
  crc : crcAt p off = evalCrc p (off + 4) (off + sz)

/-- The frames from offset 0 on lead to a frame with a right CRC at `off`. -/
def OnChain (p : Ptr) (off sz : Nat) : Prop := Reaches (nextFrame p) 0 off ∧ RecordAt p off sz

/-- **The selected record is the last frame before `n` with a right CRC**, and without one nothing is selected. -/
structure LastRecord (p : Ptr) (n : Nat) (a : Active) : Prop where
  record : ∀ off, a.config = some off → off < n ∧ OnChain p off a.cfgSize
  last : ∀ y sz, OnChain p y sz → y < n → ∃ off, a.config = some off ∧ y ≤ off

section

variable {p : Ptr}

theorem RecordAt.fits {off sz : Nat} (h : RecordAt p off sz) : 4 ≤ sz ∧ off + sz ≤ MAX_CFG_SIZE := by
  obtain ⟨-, -, hsz, hfit⟩ := (frameAt_record_iff p off sz).1 h.frame
  have := recordSize_pos p off
  exact ⟨by omega, hfit⟩

theorem RecordAt.next {off sz : Nat} (h : RecordAt p off sz) : nextFrame p off = some (off + sz) := by
  rw [nextFrame, h.frame]

theorem RecordAt.size_unique {off sz sz' : Nat} (h : RecordAt p off sz) (h' : RecordAt p off sz') : sz = sz' := by
  have hf := h.frame.symm.trans h'.frame
  cases hf
  rfl

/-- The frames form one chain: a frame before the end of the frame at `x` is not behind `x`. -/
theorem le_of_reaches {x y z : Nat} (hx : Reaches (nextFrame p) 0 x) (hz : nextFrame p x = some z)
    (hy : Reaches (nextFrame p) 0 y) (hlt : y < z) : y ≤ x := by
  have hmono : ∀ {a b : Nat}, Reaches (nextFrame p) a b → a ≤ b :=
    Runs.reaches_mono (m := fun x => x) (fun _ _ h => Nat.le_of_lt (nextFrame_lt h))
  rcases StateTransition.reaches_total hx hy with h | h
  · rcases ReflTransGen.cases_head h with rfl | ⟨w, hw, hwy⟩
    · exact Nat.le_refl _
    · rw [hz] at hw
      cases hw
      exact absurd (hmono hwy) (Nat.not_le.2 hlt)
  · exact hmono h

/-- A record that no frame follows is alone. -/
theorem OnChain.alone {sz y sz' : Nat} (h : RecordAt p 0 sz) (hend : nextFrame p sz = none) (hy : OnChain p y sz') :
    y = 0 ∧ sz' = sz := by
  have hy0 : y = 0 := by
    rcases ReflTransGen.cases_head hy.1 with rfl | ⟨z, hz, hzy⟩
    · rfl
    · rw [h.next, Nat.zero_add] at hz
      cases hz
      have hnext := hy.2.next
      rcases ReflTransGen.cases_head hzy with rfl | ⟨w, hw, -⟩
      · rw [hend] at hnext
        cases hnext
      · rw [hend] at hw
        cases hw
  subst hy0
  exact ⟨rfl, hy.2.size_unique h⟩

/-- **The step**: a frame with a right CRC takes the place of the record before it. -/
theorem LastRecord.step {x y : Nat} {a : Active} (h : LastRecord p x a) (hx : Reaches (nextFrame p) 0 x)
    (hy : nextFrame p x = some y) : LastRecord p y (frameActive p x a) := by
  have hxy := nextFrame_lt hy
  have hkeep : (∀ sz, ¬ RecordAt p x sz) → LastRecord p y a := fun hno => by
    refine ⟨fun off hoff => ?_, fun z sz hz hzy => ?_⟩
    · obtain ⟨hlt, hrec⟩ := h.record off hoff
      exact ⟨Nat.lt_trans hlt hxy, hrec⟩
    · have hzx := le_of_reaches hx hy hz.1 hzy
      rcases Nat.eq_or_lt_of_le hzx with rfl | hzx
      · exact absurd hz.2 (hno sz)
      · exact h.last z sz hz hzx
  obtain ⟨hf, -⟩ | ⟨hf, rfl, -⟩ := nextFrame_cases hy
  · rw [frameActive_torn hf]
    refine hkeep (fun sz hr => ?_)
    rw [hr.frame] at hf
    cases hf
  · rw [frameActive_record hf, acceptRecord]
    have hpos := recordSize_pos p x
    by_cases hcrc : crcAt p x = evalCrc p (x + 4) (x + recordSize p x)
    · rw [if_pos hcrc, if_pos (by unfold sizeofConfig; omega)]
      refine ⟨fun off hoff => ?_, fun z sz hz hzy => ⟨x, rfl, le_of_reaches hx hy hz.1 hzy⟩⟩
      cases hoff
      exact ⟨hxy, hx, hf, hcrc⟩
    · rw [if_neg hcrc]
      refine hkeep (fun sz hr => ?_)
      have hsz : sz = recordSize p x := ((frameAt_record_iff p x sz).1 hr.frame).2.2.1
      exact hcrc (hsz ▸ hr.crc)

theorem LastRecord.reaches {t : Nat × Active} {a : Active} (ha : a.config = none)
    (h : Reaches (scanStep p) (0, a) t) : LastRecord p t.1 t.2 := by
  have hinv := Runs.reaches_invariant
    (I := fun s : Nat × Active => Reaches (nextFrame p) 0 s.1 ∧ LastRecord p s.1 s.2) ?_ h
    ⟨ReflTransGen.refl, fun off hoff => (by rw [ha] at hoff; cases hoff), fun y sz _ hy => absurd hy (Nat.not_lt_zero _)⟩
  · exact hinv.2
  · rintro s t ⟨hs, hlast⟩ hst
    obtain ⟨hn, h2⟩ := scanStep_eq_some.1 hst
    rw [h2]
    exact ⟨hs.tail hn, hlast.step hs hn⟩

end

/-- **A load selects the last frame of the partition with a right CRC.** -/
theorem lastRecord_reload (past : Ptr) (F : Flash) :
    (∀ off, (reload past F).config = some off → OnChain (mem F past) off (reload past F).cfgSize) ∧
      ∀ y sz, OnChain (mem F past) y sz → ∃ off, (reload past F).config = some off ∧ y ≤ off := by
  obtain ⟨n, b, hr, hend, hconfig, hsize⟩ := findFrom_selected (mem F past) 0 (boot F).toActive
  have hlast : LastRecord (mem F past) n b := LastRecord.reaches rfl hr
  have hc : (reload past F).config = b.config := hconfig
  have hs : (reload past F).cfgSize = b.cfgSize := hsize
  rw [hc, hs]
  refine ⟨fun off hoff => (hlast.record off hoff).2, fun y sz hy => hlast.last y sz hy ?_⟩
  -- a frame with a right CRC has a successor, so it is before the end of the chain
  have hmono : ∀ {a b : Nat}, Reaches (nextFrame (mem F past)) a b → a ≤ b :=
    Runs.reaches_mono (m := fun x => x) (fun _ _ h => Nat.le_of_lt (nextFrame_lt h))
  have hnext := hy.2.next
  rcases StateTransition.reaches_total (frames_of_scan hr) hy.1 with h | h
  · rcases ReflTransGen.cases_head h with rfl | ⟨z, hz, -⟩
    · rw [hend] at hnext; cases hnext
    · rw [hend] at hz; cases hz
  · rcases ReflTransGen.cases_head h with rfl | ⟨z, hz, hzn⟩
    · rw [hend] at hnext; cases hnext
    · have := nextFrame_lt hz
      have := hmono hzn
      show y < n
      omega

/-- The config of a load is a whole record with room for the fields of `Config_V0`. -/
structure SelectedSound (past : Ptr) (d : Setup) (off : Nat) : Prop where
  inside : off + d.cfgSize ≤ MAX_CFG_SIZE
  written : crcAt (mem d.cfgFull past) off ≠ 0xFFFFFFFF
  crc : crcAt (mem d.cfgFull past) off = evalCrc (mem d.cfgFull past) (off + 4) (off + d.cfgSize)
  size : sizeofConfigV0 ≤ d.cfgSize

/-- **When the selected config is a whole record**: every frame with a right CRC that is shorter than `Config_V0` has one
behind it that is not. -/
theorem selected_sound_iff (past : Ptr) (F : Flash) :
    (∀ off, (reload past F).config = some off → SelectedSound past (reload past F) off) ↔
      ∀ x sz, OnChain (mem F past) x sz → sz < sizeofConfigV0 →
        ∃ y sz', x < y ∧ OnChain (mem F past) y sz' ∧ sizeofConfigV0 ≤ sz' := by
  obtain ⟨hrecord, hlast⟩ := lastRecord_reload past F
  constructor
  · intro h x sz hx hsmall
    obtain ⟨off, hoff, hle⟩ := hlast x sz hx
    have hrec := hrecord off hoff
    have hsize := (h off hoff).size
    refine ⟨off, _, Nat.lt_of_le_of_ne hle (fun heq => ?_), hrec, hsize⟩
    subst heq
    rw [hrec.2.size_unique hx.2] at hsize
    exact absurd hsmall (Nat.not_lt.2 hsize)
  · intro h off hoff
    have hrec := hrecord off hoff
    refine ⟨hrec.2.fits.2, ((frameAt_record_iff _ _ _).1 hrec.2.frame).1, hrec.2.crc, ?_⟩
    by_contra hsmall
    obtain ⟨y, sz, hlt, hy, -⟩ := h off _ hrec (Nat.not_le.1 hsmall)
    obtain ⟨off', hoff', hle⟩ := hlast y sz hy
    rw [hoff] at hoff'
    cases hoff'
    exact absurd hlt (Nat.not_lt.2 hle)

/-- A partition with one record of eight bytes: its CRC, a size field of 1, two bytes. -/
def tinyFlash : Flash := program erased 0 [0x79, 0xB8, 0xF8, 0x99, 0x01, 0x00, 0x00, 0x00]

/-- A load selects the tiny record, and `ssid` lies behind its last byte. -/
theorem selected_tiny :
    ¬ ∀ (past : Ptr) (F : Flash) (off : Nat), (reload past F).config = some off →
      SelectedSound past (reload past F) off := by
  intro h
  have htiny : RecordAt (mem tinyFlash (fun _ => 0)) 0 8 := ⟨by decide +kernel, by decide +kernel⟩
  have hfree : nextFrame (mem tinyFlash (fun _ => 0)) 8 = none := by decide +kernel
  obtain ⟨hrecord, hlast⟩ := lastRecord_reload (fun _ => 0) tinyFlash
  obtain ⟨off, hoff, -⟩ := hlast 0 8 ⟨ReflTransGen.refl, htiny⟩
  have hsize := (h _ _ off hoff).size
  rw [((hrecord off hoff).alone htiny hfree).2] at hsize
  exact absurd hsize (by decide)

end Mstd
