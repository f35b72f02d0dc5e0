import Mstd.SetupLoad
/-!
# What the scan reads

`scanReads` is the list of the offsets `find_active_config` reads, and the result depends on the bytes there alone
(`findFrom_congr_reads`).  Every offset lies in the partition image, unless the frames lead to its last four bytes: the
size field of a header there lies behind the image (`scan_inside_iff`).
-/
namespace Mstd

open ByteMem (Ptr window u16 u32)
open NorFlash (mem)
open StateTransition (Reaches)
open Relation (ReflTransGen)

/-- The offsets `check_for_free_bytes` reads, up to the first byte that is not free. -/
def freeReads (p : Ptr) (off stop : Nat) : List Nat :=
  if off < stop then
    if p off ≠ 0xFF then [off] else off :: freeReads p (off + 1) stop
  else []
termination_by stop - off

/-- The offsets one pass of the loop reads: `C.crc`, then what follows a free header, or `C.size` and the bytes under
the CRC. -/
def passReads (p : Ptr) (ptr : Nat) : List Nat :=
  match frameAt p ptr with
  | .finish          => []
  | .free            => List.range' ptr 4 ++ freeReads p ptr MAX_CFG_SIZE
  | .torn | .outside => List.range' ptr 4 ++ List.range' (ptr + 4) 2
  | .record sz       => List.range' ptr 4 ++ List.range' (ptr + 4) 2 ++ List.range' (ptr + 4) (sz - 4)

/-- The offsets the loop reads from `ptr` on. -/
def scanReads (p : Ptr) (ptr : Nat) : List Nat :=
  passReads p ptr ++
    match _h : nextFrame p ptr with
    | some ptr' => scanReads p ptr'
    | none      => []
termination_by MAX_CFG_SIZE - ptr
decreasing_by
  have := nextFrame_ptr_lt _h
  have := nextFrame_lt _h
  omega

theorem scanReads_next {p : Ptr} {x y : Nat} (h : nextFrame p x = some y) :
    scanReads p x = passReads p x ++ scanReads p y := by
  rw [scanReads]
  split
  · rename_i hy
    rw [h] at hy
    cases hy
    rfl
  · rename_i hy
    rw [h] at hy
    cases hy

theorem scanReads_end {p : Ptr} {x : Nat} (h : nextFrame p x = none) : scanReads p x = passReads p x := by
  rw [scanReads]
  split
  · rename_i hy
    rw [h] at hy
    cases hy
  · rw [List.append_nil]

/-- **The reads of a scan are those of its passes.** -/
theorem mem_scanReads (p : Ptr) (x i : Nat) :
    i ∈ scanReads p x ↔ ∃ y, Reaches (nextFrame p) x y ∧ i ∈ passReads p y := by
  constructor
  · intro h
    induction hk : MAX_CFG_SIZE - x using Nat.strong_induction_on generalizing x with
    | _ k ih =>
      cases hn : nextFrame p x with
      | none =>
        rw [scanReads_end hn] at h
        exact ⟨x, ReflTransGen.refl, h⟩
      | some y =>
        have hlt := nextFrame_ptr_lt hn
        have hxy := nextFrame_lt hn
        rw [scanReads_next hn] at h
        rcases List.mem_append.1 h with h | h
        · exact ⟨x, ReflTransGen.refl, h⟩
        · obtain ⟨z, hr, hz⟩ := ih (MAX_CFG_SIZE - y) (by omega) y h rfl
          exact ⟨z, ReflTransGen.head hn hr, hz⟩
  · rintro ⟨y, hr, hi⟩
    induction hr using ReflTransGen.head_induction_on with
    | refl =>
      cases hn : nextFrame p y with
      | none => rwa [scanReads_end hn]
      | some z =>
        rw [scanReads_next hn]
        exact List.mem_append_left _ hi
    | head hab _ ih =>
      rw [scanReads_next hab]
      exact List.mem_append_right _ ih

/-! ## The result depends on these bytes alone -/

section

variable {p q : Ptr}

theorem checkForFreeBytes_congr (off stop : Nat) (h : ∀ i ∈ freeReads p off stop, p i = q i) :
    checkForFreeBytes p off stop = checkForFreeBytes q off stop := by
  fun_induction freeReads p off stop with
  | case1 off hlt hne =>
    have ho : p off = q off := h off (List.mem_cons_self ..)
    unfold checkForFreeBytes
    rw [if_pos hlt, if_pos hlt, if_pos hne, if_pos (ho ▸ hne)]
  | case2 off hlt hff ih =>
    have ho : p off = q off := h off (List.mem_cons_self ..)
    unfold checkForFreeBytes
    rw [if_pos hlt, if_pos hlt, if_neg hff, if_neg (ho ▸ hff)]
    exact ih (fun i hi => h i (List.mem_cons_of_mem _ hi))
  | case3 off hge =>
    unfold checkForFreeBytes
    rw [if_neg hge, if_neg hge]

theorem crcAt_congr_reads {x : Nat} (h : ∀ i ∈ List.range' x 4, p i = q i) : crcAt p x = crcAt q x :=
  ByteMem.u32_congr (fun i hi hlt => h i (List.mem_range'_1.2 ⟨hi, hlt⟩))

theorem sizeAt_congr_reads {x : Nat} (h : ∀ i ∈ List.range' (x + 4) 2, p i = q i) : sizeAt p x = sizeAt q x :=
  ByteMem.u16_congr (fun i hi hlt => h i (List.mem_range'_1.2 ⟨hi, hlt⟩))

/-- A header is classified by its CRC field and, unless that is free, its size field. -/
theorem frameAt_congr_reads {x : Nat} (hcrc : crcAt p x = crcAt q x)
    (hsize : frameAt p x ≠ .finish → frameAt p x ≠ .free → sizeAt p x = sizeAt q x) : frameAt p x = frameAt q x := by
  by_cases hlt : x < MAX_CFG_SIZE
  · by_cases hfree : crcAt p x = 0xFFFFFFFF
    · rw [(frameAt_free_iff p x).2 ⟨hlt, hfree⟩, (frameAt_free_iff q x).2 ⟨hlt, hcrc ▸ hfree⟩]
    · have hs : sizeAt p x = sizeAt q x := hsize
        (fun hf => absurd ((frameAt_finish_iff p x).1 hf) (Nat.not_le.2 hlt))
        (fun hf => hfree ((frameAt_free_iff p x).1 hf).2)
      unfold frameAt recordSize
      rw [hcrc, hs]
  · rw [(frameAt_finish_iff p x).2 (Nat.not_lt.1 hlt), (frameAt_finish_iff q x).2 (Nat.not_lt.1 hlt)]

/-- **A pass of the loop depends on what it reads.** -/
theorem scanPass_congr_reads {x : Nat} (h : ∀ i ∈ passReads p x, p i = q i) (a : Active) :
    scanPass p x a = scanPass q x a := by
  unfold passReads at h
  cases hf : frameAt p x with
  | finish =>
    have hq := (frameAt_finish_iff q x).2 ((frameAt_finish_iff p x).1 hf)
    rw [scanPass, scanPass, hf, hq]
  | free =>
    rw [hf] at h
    have hcrc := crcAt_congr_reads (fun i hi => h i (List.mem_append_left _ hi))
    have hq := frameAt_congr_reads hcrc (fun _ hne => absurd hf hne)
    have hfree := checkForFreeBytes_congr x MAX_CFG_SIZE (fun i hi => h i (List.mem_append_right _ hi))
    rw [scanPass, scanPass, ← hq, hf]
    simp only [hfree]
  | torn =>
    rw [hf] at h
    have hcrc := crcAt_congr_reads (fun i hi => h i (List.mem_append_left _ hi))
    have hq := frameAt_congr_reads hcrc
      (fun _ _ => sizeAt_congr_reads (fun i hi => h i (List.mem_append_right _ hi)))
    rw [scanPass, scanPass, ← hq, hf]
  | outside =>
    rw [hf] at h
    have hcrc := crcAt_congr_reads (fun i hi => h i (List.mem_append_left _ hi))
    have hq := frameAt_congr_reads hcrc
      (fun _ _ => sizeAt_congr_reads (fun i hi => h i (List.mem_append_right _ hi)))
    rw [scanPass, scanPass, ← hq, hf]
  | record sz =>
    rw [hf] at h
    have hhead := fun i hi => h i (List.mem_append_left _ hi)
    have hcrc := crcAt_congr_reads (fun i hi => hhead i (List.mem_append_left _ hi))
    have hq := frameAt_congr_reads hcrc
      (fun _ _ => sizeAt_congr_reads (fun i hi => hhead i (List.mem_append_right _ hi)))
    have heval : evalCrc p (x + 4) (x + sz) = evalCrc q (x + 4) (x + sz) := by
      unfold evalCrc
      rw [ByteMem.window_congr (fun i hi hlt => h i (List.mem_append_right _ (List.mem_range'_1.2 ⟨hi, by omega⟩)))]
    rw [scanPass, scanPass, ← hq, hf]
    simp only [acceptRecord, hcrc, heval]

theorem nextFrame_of_pass {x y : Nat} {a b : Active} (h : scanPass p x a = .next y b) : nextFrame p x = some y := by
  unfold scanPass at h
  unfold nextFrame
  cases hf : frameAt p x with
  | torn => rw [hf] at h; cases h; rfl
  | record sz => rw [hf] at h; cases h; rfl
  | _ => rw [hf] at h; cases h

/-- **The statics after the scan depend on what it reads.** -/
theorem findFrom_congr_reads (x : Nat) (a : Active) (h : ∀ i ∈ scanReads p x, p i = q i) :
    findFrom p x a = findFrom q x a := by
  induction hk : MAX_CFG_SIZE - x using Nat.strong_induction_on generalizing x a with
  | _ k ih =>
    have hpass : scanPass p x a = scanPass q x a :=
      scanPass_congr_reads (fun i hi => h i ((mem_scanReads p x i).2 ⟨x, ReflTransGen.refl, hi⟩)) a
    cases hl : scanPass p x a with
    | leave b => rw [findFrom_leave hl, findFrom_leave (hpass.symm.trans hl)]
    | next y b =>
      have hn := nextFrame_of_pass hl
      have hlt := nextFrame_ptr_lt hn
      have hxy := nextFrame_lt hn
      rw [scanReads_next hn] at h
      rw [findFrom_next hl, findFrom_next (hpass.symm.trans hl)]
      exact ih (MAX_CFG_SIZE - y) (by omega) y b (fun i hi => h i (List.mem_append_right _ hi)) rfl

end

/-! ## Where the scan reads -/

theorem freeReads_lt (p : Ptr) (off stop : Nat) : ∀ i ∈ freeReads p off stop, i < stop := by
  fun_induction freeReads p off stop with
  | case1 off hlt hne =>
    intro i hi
    rw [List.mem_singleton.1 hi]
    exact hlt
  | case2 off hlt hff ih =>
    intro i hi
    rcases List.mem_cons.1 hi with rfl | hi
    · exact hlt
    · exact ih i hi
  | case3 off hge => exact fun i hi => absurd hi List.not_mem_nil

theorem frameAt_outside {p : Ptr} {x : Nat} (h : frameAt p x = .outside) :
    x < MAX_CFG_SIZE ∧ crcAt p x ≠ 0xFFFFFFFF := by
  refine ⟨?_, fun hcrc => ?_⟩
  · by_contra hge
    rw [(frameAt_finish_iff p x).2 (Nat.not_lt.1 hge)] at h
    cases h
  · by_cases hlt : x < MAX_CFG_SIZE
    · rw [(frameAt_free_iff p x).2 ⟨hlt, hcrc⟩] at h
      cases h
    · rw [(frameAt_finish_iff p x).2 (Nat.not_lt.1 hlt)] at h
      cases h

/-- A header whose size field is read lies inside the image, unless it starts in the last four bytes. -/
theorem headerReads_inside_iff {x : Nat} (h4 : 4 ∣ x) (hx : x < MAX_CFG_SIZE) :
    (∀ i ∈ List.range' x 4 ++ List.range' (x + 4) 2, i < MAX_CFG_SIZE) ↔ x ≠ 4092 := by
  unfold MAX_CFG_SIZE at *
  constructor
  · rintro h rfl
    exact absurd (h 4096 (by decide)) (Nat.lt_irrefl _)
  · intro hne i hi
    rw [List.mem_append, List.mem_range'_1, List.mem_range'_1] at hi
    omega

/-- **A pass reads outside the image only behind a header in its last four bytes.** -/
theorem passReads_inside_iff (p : Ptr) {x : Nat} (h4 : 4 ∣ x) :
    (∀ i ∈ passReads p x, i < MAX_CFG_SIZE) ↔ (x = 4092 → crcAt p x = 0xFFFFFFFF) := by
  unfold passReads
  cases hf : frameAt p x with
  | finish =>
    have hx := (frameAt_finish_iff p x).1 hf
    unfold MAX_CFG_SIZE at hx
    exact ⟨fun _ hx' => by omega, fun _ i hi => absurd hi List.not_mem_nil⟩
  | free =>
    obtain ⟨hx, hcrc⟩ := (frameAt_free_iff p x).1 hf
    refine ⟨fun _ _ => hcrc, fun _ i hi => ?_⟩
    rcases List.mem_append.1 hi with hi | hi
    · rw [List.mem_range'_1] at hi
      unfold MAX_CFG_SIZE at *
      omega
    · exact freeReads_lt p x MAX_CFG_SIZE i hi
  | torn =>
    obtain ⟨hx, hcrc, -⟩ := (frameAt_torn_iff p x).1 hf
    rw [headerReads_inside_iff h4 hx]
    exact imp_congr_right (fun _ => ⟨False.elim, hcrc⟩)
  | outside =>
    obtain ⟨hx, hcrc⟩ := frameAt_outside hf
    rw [headerReads_inside_iff h4 hx]
    exact imp_congr_right (fun _ => ⟨False.elim, hcrc⟩)
  | record sz =>
    obtain ⟨hcrc, -, hsz, hfit⟩ := (frameAt_record_iff p x sz).1 hf
    have hpos := recordSize_pos p x
    have hx : x < MAX_CFG_SIZE := by omega
    have hhead := headerReads_inside_iff h4 hx
    constructor
    · intro h hx4
      exact absurd hx4 (hhead.1 (fun i hi => h i (List.mem_append_left _ hi)))
    · intro h i hi
      rcases List.mem_append.1 hi with hi | hi
      · exact hhead.2 (fun hx4 => hcrc (h hx4)) i hi
      · rw [List.mem_range'_1] at hi
        omega

/-- **When the scan stays inside the partition image.**  The loop ends whatever the partition holds; it reads nothing
outside the image exactly when the frames do not lead to the last four bytes, or find them erased. -/
theorem scan_inside_iff (past : Ptr) (F : Flash) :
    ((∃ n, Reaches (nextFrame (mem F past)) 0 n ∧ nextFrame (mem F past) n = none) ∧
      ∀ i ∈ scanReads (mem F past) 0, i < MAX_CFG_SIZE) ↔
    (Reaches (nextFrame (mem F past)) 0 4092 → crcAt (mem F past) 4092 = 0xFFFFFFFF) := by
  obtain ⟨n, b, hr, hend⟩ := scan_ends (mem F past) 0 (boot F).toActive
  constructor
  · rintro ⟨-, h⟩ hreach
    exact (passReads_inside_iff _ (by decide)).1
      (fun i hi => h i ((mem_scanReads _ 0 i).2 ⟨4092, hreach, hi⟩)) rfl
  · intro h
    refine ⟨⟨n, frames_of_scan hr, hend⟩, fun i hi => ?_⟩
    obtain ⟨x, hx, hix⟩ := (mem_scanReads _ 0 i).1 hi
    exact (passReads_inside_iff _ (reaches_dvd (Nat.dvd_zero 4) hx)).2 (fun hx' => by subst hx'; exact h hx) i hix

/-- A partition that one damaged record of 4092 bytes leaves four zero bytes of. -/
def lastWord : Flash := fun i => if i.val = 4 then 0xFE else if i.val = 5 then 0x03 else 0x00

theorem scan_lastWord :
    ¬ ∀ (past : Ptr) (F : Flash), (∃ n, Reaches (nextFrame (mem F past)) 0 n ∧ nextFrame (mem F past) n = none) ∧
      ∀ i ∈ scanReads (mem F past) 0, i < MAX_CFG_SIZE := by
  intro h
  have hnext : nextFrame (mem lastWord (fun _ => 0)) 0 = some 4092 := by decide +kernel
  have hread : 4096 ∈ passReads (mem lastWord (fun _ => 0)) 4092 := by decide +kernel
  exact absurd ((h (fun _ => 0) lastWord).2 4096 ((mem_scanReads _ 0 4096).2 ⟨4092, ReflTransGen.single hnext, hread⟩))
    (Nat.lt_irrefl _)

end Mstd
