import Mstd.SetupDurable
/-!
# What a load leaves as append position

The loop leaves in four ways: at an erased header, at a record that runs out of the partition, at the end of the
partition, and behind it after a torn header at its end.  Only the first one writes `next_cfg_shift`; after the others
it keeps the value of the reset, which is 0.  So a load leaves a safe append position exactly when the frames lead to an
erased header (`load_tailErased_iff`).
-/
namespace Mstd

open ByteMem (Ptr window u16 u32 ofList)
open NorFlash (Cells mem program erased ErasedFrom)
open StateTransition (Reaches)
open Relation (ReflTransGen)

/-- **The frames, followed from offset 0 by their headers, lead to an erased header at `n`.** -/
def FreeAt (past : Ptr) (F : Flash) (n : Nat) : Prop :=
  Reaches (nextFrame (mem F past)) 0 n ∧ frameAt (mem F past) n = .free

theorem nextFrame_ptr_lt {p : Ptr} {x y : Nat} (h : nextFrame p x = some y) : x < MAX_CFG_SIZE := by
  obtain ⟨hf, -⟩ | ⟨-, rfl, hle⟩ := nextFrame_cases h
  · exact ((frameAt_torn_iff p x).1 hf).1
  · have := recordSize_pos p x; omega

/-- The loop ends: every scan comes to a frame it does not pass. -/
theorem scan_ends (p : Ptr) (x : Nat) (a : Active) :
    ∃ y b, Reaches (scanStep p) (x, a) (y, b) ∧ nextFrame p y = none := by
  induction hk : MAX_CFG_SIZE - x using Nat.strong_induction_on generalizing x a with
  | _ k ih =>
    cases hn : nextFrame p x with
    | none => exact ⟨x, a, ReflTransGen.refl, hn⟩
    | some y =>
      have hlt := nextFrame_ptr_lt hn
      have hxy := nextFrame_lt hn
      obtain ⟨z, b, hr, hz⟩ := ih (MAX_CFG_SIZE - y) (by omega) y (frameActive p x a) rfl
      exact ⟨z, b, ReflTransGen.head (scanStep_eq_some.2 ⟨hn, rfl⟩) hr, hz⟩

theorem findFrom_selected (p : Ptr) (x : Nat) (a : Active) :
    ∃ y b, Reaches (scanStep p) (x, a) (y, b) ∧ nextFrame p y = none ∧ (findFrom p x a).config = b.config ∧
      (findFrom p x a).cfgSize = b.cfgSize := by
  obtain ⟨y, b, hr, hend⟩ := scan_ends p x a
  have hfind : findFrom p x a = findFrom p y b := findFrom_reaches hr
  refine ⟨y, b, hr, hend, ?_⟩
  rw [hfind]
  cases hf : frameAt p y with
  | finish => rw [findFrom_finish ((frameAt_finish_iff p y).1 hf)]; exact ⟨rfl, rfl⟩
  | free => rw [findFrom_free hf]; exact ⟨rfl, rfl⟩
  | outside => rw [findFrom_outside hf]; exact ⟨rfl, rfl⟩
  | torn => rw [nextFrame, hf] at hend; cases hend
  | record sz => rw [nextFrame, hf] at hend; cases hend

/-- **How the loop leaves**: at an erased header, or with the append position it started with. -/
theorem findFrom_shift (p : Ptr) (x : Nat) (a : Active) :
    (∃ n, Reaches (nextFrame p) x n ∧ frameAt p n = .free ∧
      (findFrom p x a).nextCfgShift = if checkForFreeBytes p n MAX_CFG_SIZE then (n : Int) else -1) ∨
    ((∀ n, Reaches (nextFrame p) x n → frameAt p n ≠ .free) ∧ (findFrom p x a).nextCfgShift = a.nextCfgShift) := by
  obtain ⟨y, b, hr, hend⟩ := scan_ends p x a
  have heq : findFrom p x a = findFrom p y b := findFrom_reaches hr
  have hshift : b.nextCfgShift = a.nextCfgShift := nextCfgShift_reaches hr
  by_cases hfree : frameAt p y = .free
  · exact Or.inl ⟨y, frames_of_scan hr, hfree, by rw [heq, findFrom_free hfree]⟩
  · refine Or.inr ⟨fun n hn hnf => ?_, ?_⟩
    · -- the frames from `x` are one chain, and neither `y` nor a free frame has a successor
      have hnone : nextFrame p n = none := by rw [nextFrame, hnf]
      rcases StateTransition.reaches_total (frames_of_scan hr) hn with h | h
      · rcases ReflTransGen.cases_head h with rfl | ⟨z, hz, -⟩
        · exact hfree hnf
        · rw [hend] at hz; cases hz
      · rcases ReflTransGen.cases_head h with rfl | ⟨z, hz, -⟩
        · exact hfree hnf
        · rw [hnone] at hz; cases hz
    · rw [heq]
      cases hf : frameAt p y with
      | finish => rw [findFrom_finish ((frameAt_finish_iff p y).1 hf), hshift]
      | free => exact absurd hf hfree
      | torn => rw [nextFrame, hf] at hend; cases hend
      | outside => rw [findFrom_outside hf, hshift]
      | record sz => rw [nextFrame, hf] at hend; cases hend

/-- A load that can read the partition is a reload, whatever the lookup found before. -/
theorem loadConfig_boot {env : LoadEnv} (past : Ptr) (F : Flash) (hfound : env.found = true)
    (hread : env.readFail = none) : loadConfig env past (boot F) = reload past F := by
  unfold loadConfig reload loadConfig LoadEnv.working boot
  simp [hfound, hread]

theorem erasedFrom_of_check {past : Ptr} {F : Flash} {n : Nat}
    (h : checkForFreeBytes (mem F past) n MAX_CFG_SIZE = true) : ErasedFrom F n :=
  (NorFlash.erasedFrom_iff_mem F past n).2 ((checkForFreeBytes_iff _ _ _).1 h)

/-- **A load leaves a safe append position exactly when the frames lead to an erased header.**  The append position is
safe when it is -1 or starts an erased tail, so that a save that does not erase writes to erased flash only. -/
theorem load_tailErased_iff (env : LoadEnv) (past : Ptr) (F : Flash) (hfound : env.found = true)
    (hread : env.readFail = none) :
    (TailErased (loadConfig env past (boot F)) ∧
      ∀ image, (saveConfigImage .working (loadConfig env past (boot F)) image).err = none →
        ∀ op ∈ (saveConfigImage .working (loadConfig env past (boot F)) image).ops, op.OnErased) ↔
    ∃ n, FreeAt past F n := by
  rw [loadConfig_boot past F hfound hread]
  have hshift : (reload past F).nextCfgShift = (findFrom (mem F past) 0 (boot F).toActive).nextCfgShift := rfl
  have hflash : (reload past F).flash = F := rfl
  obtain ⟨n, hr, hfree, hn⟩ | ⟨hnot, hzero⟩ := findFrom_shift (mem F past) 0 (boot F).toActive
  · have htail : TailErased (reload past F) := by
      unfold TailErased
      rw [hshift, hn, hflash]
      cases hc : checkForFreeBytes (mem F past) n MAX_CFG_SIZE with
      | false => exact Or.inl rfl
      | true =>
        have hlt := ((frameAt_free_iff _ _).1 hfree).1
        exact Or.inr ⟨n, rfl, Nat.le_of_lt hlt, erasedFrom_of_check hc⟩
    exact ⟨fun _ => ⟨n, hr, hfree⟩, fun _ => ⟨htail, fun image => htail.save_onErased⟩⟩
  · refine ⟨fun ⟨htail, _⟩ => ?_, fun ⟨n, hr, hfree⟩ => absurd hfree (hnot n hr)⟩
    -- the append position is 0, and an erased partition has an erased header at 0
    unfold TailErased at htail
    rw [hshift, hzero, hflash] at htail
    obtain hneg | ⟨n, hn, -, hff⟩ := htail
    · cases hneg
    · obtain rfl : n = 0 := by
        have : (0 : Int) = n := hn
        omega
      have hall := (NorFlash.erasedFrom_iff_mem F past 0).1 hff
      refine ⟨0, ReflTransGen.refl, (frameAt_free_iff _ _).2 ⟨by decide, ?_⟩⟩
      rw [crcAt, ByteMem.u32_eq_max_iff]
      intro i hi hi4
      exact hall i hi (by unfold MAX_CFG_SIZE; omega)

/-- A partition filled by one record of 4096 bytes. -/
def fullPartition : Flash := fun i => if i.val = 4 then 0xFF else if i.val = 5 then 0x03 else 0x00

theorem nextFrame_fullPartition (past : Ptr) : nextFrame (mem fullPartition past) 0 = some MAX_CFG_SIZE := by
  have hagree : ∀ i, i < 8 → mem fullPartition past i = mem fullPartition (fun _ => 0) i := fun i hi => by
    have hlt : i < MAX_CFG_SIZE := by unfold MAX_CFG_SIZE; omega
    rw [NorFlash.mem_of_lt _ past hlt, NorFlash.mem_of_lt _ _ hlt]
  have hf : frameAt (mem fullPartition past) 0 = .record MAX_CFG_SIZE := by
    rw [frameAt_congr hagree (Nat.le_refl 8)]
    decide
  rw [nextFrame, hf]
  rfl

theorem fullPartition_not_free (past : Ptr) : ¬ ∃ n, FreeAt past fullPartition n := by
  rintro ⟨n, hr, hfree⟩
  have hn := nextFrame_fullPartition past
  rcases ReflTransGen.cases_head hr with rfl | ⟨z, hz, hr⟩
  · rw [nextFrame, hfree] at hn; cases hn
  · rw [hn] at hz
    cases hz
    have hend : nextFrame (mem fullPartition past) MAX_CFG_SIZE = none := by
      rw [nextFrame, (frameAt_finish_iff _ _).2 (Nat.le_refl _)]
    rcases ReflTransGen.cases_head hr with rfl | ⟨z, hz, -⟩
    · exact absurd ((frameAt_free_iff _ _).1 hfree).1 (Nat.lt_irrefl _)
    · rw [hend] at hz; cases hz

/-- After a load of a full partition the append position is 0, on programmed flash. -/
theorem load_fullPartition : ¬ ∀ past F, TailErased (reload past F) := by
  intro h
  have htail := h (fun _ => 0) fullPartition
  refine fullPartition_not_free (fun _ => 0) ?_
  obtain ⟨n, hr, hfree, -⟩ | ⟨-, hzero⟩ := findFrom_shift (mem fullPartition (fun _ => 0)) 0 (boot fullPartition).toActive
  · exact ⟨n, hr, hfree⟩
  · have hshift : (reload (fun _ => 0) fullPartition).nextCfgShift = 0 := hzero
    obtain hneg | ⟨n, hn, -, hff⟩ := htail
    · rw [hshift] at hneg; cases hneg
    · obtain rfl : n = 0 := by omega
      have h0 := hff ⟨0, by decide⟩ (Nat.le_refl 0)
      exact absurd h0 (by decide)

/-- A record of 16 bytes and a torn header, with erased flash behind them. -/
def usedPartition : Flash := fun i => if i.val = 4 then 3 else if i.val = 21 then 0xFF else if i.val < 24 then 0 else 0xFF

theorem load_tailErased_used :
    TailErased (loadConfig .working (fun _ => 0) (boot usedPartition)) ∧
      ∀ image, (saveConfigImage .working (loadConfig .working (fun _ => 0) (boot usedPartition)) image).err = none →
        ∀ op ∈ (saveConfigImage .working (loadConfig .working (fun _ => 0) (boot usedPartition)) image).ops, op.OnErased := by
  refine (load_tailErased_iff .working (fun _ => 0) usedPartition rfl rfl).2 ⟨24, ?_, by decide⟩
  have hrecord : nextFrame (mem usedPartition (fun _ => 0)) 0 = some 16 := by decide
  have htorn : nextFrame (mem usedPartition (fun _ => 0)) 16 = some 24 := by decide
  exact ReflTransGen.head hrecord (ReflTransGen.single htorn)

end Mstd
