import Mstd.Runs
import Mstd.SetupData
/-!
# The scan of `find_active_config`

`nextFrame` is where the loop goes on, read off the header alone, and `scanStep` the loop body with the statics.  A
frame that ends at or before `n` is decided by the bytes before `n`, once the byte that would hold the high half of a
size field at `n` is `0xFF` (`scanStep_local`): this is what keeps earlier records out of reach of an append.
-/
namespace Mstd

open ByteMem (Ptr window u16 u32 ofList)
open NorFlash (Cells mem program erased ErasedFrom)
open StateTransition (Reaches)
open Relation (ReflTransGen)

/-- Where the frame at `ptr` ends, if the loop goes on behind it. -/
def nextFrame (p : Ptr) (ptr : Nat) : Option Nat :=
  match frameAt p ptr with
  | .torn      => some (afterTorn ptr)
  | .record sz => some (ptr + sz)
  | _          => none

/-- The statics after the frame at `ptr`. -/
def frameActive (p : Ptr) (ptr : Nat) (a : Active) : Active :=
  match frameAt p ptr with
  | .record sz => acceptRecord p ptr sz a
  | _          => a

/-- One pass of the loop that goes on. -/
def scanStep (p : Ptr) (s : Nat × Active) : Option (Nat × Active) :=
  (nextFrame p s.1).map (fun ptr' => (ptr', frameActive p s.1 s.2))

/-! ## What a frame is -/

theorem frameAt_free_iff (p : Ptr) (ptr : Nat) :
    frameAt p ptr = .free ↔ ptr < MAX_CFG_SIZE ∧ crcAt p ptr = 0xFFFFFFFF := by
  unfold frameAt
  by_cases hlt : ptr < MAX_CFG_SIZE
  · by_cases hcrc : crcAt p ptr = 0xFFFFFFFF
    · simp [hlt, hcrc]
    · rw [if_pos hlt, if_neg hcrc]
      split
      · simp [hcrc]
      · split <;> simp [hcrc]
  · simp [hlt]

theorem frameAt_torn_iff (p : Ptr) (ptr : Nat) :
    frameAt p ptr = .torn ↔ ptr < MAX_CFG_SIZE ∧ crcAt p ptr ≠ 0xFFFFFFFF ∧ sizeAt p ptr >>> 8 = 0xFF := by
  unfold frameAt
  by_cases hlt : ptr < MAX_CFG_SIZE
  · by_cases hcrc : crcAt p ptr = 0xFFFFFFFF
    · simp [hlt, hcrc]
    · rw [if_pos hlt, if_neg hcrc]
      by_cases hs : sizeAt p ptr >>> 8 = 0xFF
      · simp [hlt, hcrc, hs]
      · rw [if_neg hs]
        split <;> simp [hs]
  · simp [hlt]

theorem frameAt_record_iff (p : Ptr) (ptr sz : Nat) :
    frameAt p ptr = .record sz ↔ crcAt p ptr ≠ 0xFFFFFFFF ∧ sizeAt p ptr >>> 8 ≠ 0xFF ∧ sz = recordSize p ptr ∧
      ptr + sz ≤ MAX_CFG_SIZE := by
  unfold frameAt
  have hpos : 4 ≤ recordSize p ptr := Nat.le_add_left 4 _
  by_cases hlt : ptr < MAX_CFG_SIZE
  · by_cases hcrc : crcAt p ptr = 0xFFFFFFFF
    · simp [hlt, hcrc]
    · rw [if_pos hlt, if_neg hcrc]
      by_cases hs : sizeAt p ptr >>> 8 = 0xFF
      · simp [hs]
      · rw [if_neg hs]
        by_cases hout : ptr + recordSize p ptr > MAX_CFG_SIZE
        · rw [if_pos hout]
          constructor
          · intro h; cases h
          · rintro ⟨-, -, rfl, hle⟩; omega
        · rw [if_neg hout]
          constructor
          · intro h; cases h; exact ⟨hcrc, hs, rfl, by omega⟩
          · rintro ⟨-, -, rfl, -⟩; rfl
  · rw [if_neg hlt]
    constructor
    · intro h; cases h
    · rintro ⟨-, -, rfl, hle⟩; omega

theorem frameAt_finish_iff (p : Ptr) (ptr : Nat) : frameAt p ptr = .finish ↔ MAX_CFG_SIZE ≤ ptr := by
  unfold frameAt
  by_cases hlt : ptr < MAX_CFG_SIZE
  · rw [if_pos hlt]
    constructor
    · intro h; split at h <;> try cases h
      split at h <;> try cases h
      split at h <;> cases h
    · intro h; omega
  · rw [if_neg hlt]
    exact ⟨fun _ => Nat.le_of_not_lt hlt, fun _ => rfl⟩

theorem recordSize_dvd (p : Ptr) (ptr : Nat) : 4 ∣ recordSize p ptr := ⟨(sizeAt p ptr &&& 0x3FF) + 1, by
  unfold recordSize; ring⟩

theorem recordSize_pos (p : Ptr) (ptr : Nat) : 4 ≤ recordSize p ptr := Nat.le_add_left 4 _

theorem afterTorn_eq {ptr : Nat} (h : 4 ∣ ptr) : afterTorn ptr = ptr + 8 := by
  unfold afterTorn; omega

/-- **What a frame the loop passes can be**: a torn header of eight bytes, or a record inside the partition. -/
theorem nextFrame_cases {p : Ptr} {ptr ptr' : Nat} (h : nextFrame p ptr = some ptr') :
    (frameAt p ptr = .torn ∧ ptr' = afterTorn ptr) ∨
    (frameAt p ptr = .record (recordSize p ptr) ∧ ptr' = ptr + recordSize p ptr ∧ ptr' ≤ MAX_CFG_SIZE) := by
  unfold nextFrame at h
  split at h
  case h_1 hf => exact Or.inl ⟨hf, (Option.some.inj h).symm⟩
  case h_2 sz hf =>
    obtain ⟨-, -, hsz, hle⟩ := (frameAt_record_iff p ptr sz).1 hf
    subst hsz
    cases Option.some.inj h
    exact Or.inr ⟨hf, rfl, hle⟩
  case h_3 => cases h

theorem nextFrame_lt {p : Ptr} {ptr ptr' : Nat} (h : nextFrame p ptr = some ptr') : ptr < ptr' := by
  obtain ⟨-, rfl⟩ | ⟨-, rfl, -⟩ := nextFrame_cases h
  · unfold afterTorn; omega
  · have := recordSize_pos p ptr; omega

theorem nextFrame_dvd {p : Ptr} {ptr ptr' : Nat} (h4 : 4 ∣ ptr) (h : nextFrame p ptr = some ptr') : 4 ∣ ptr' := by
  obtain ⟨-, rfl⟩ | ⟨-, rfl, -⟩ := nextFrame_cases h
  · rw [afterTorn_eq h4]; omega
  · exact Nat.dvd_add h4 (recordSize_dvd p ptr)

theorem frameActive_torn {p : Ptr} {ptr : Nat} (h : frameAt p ptr = .torn) (a : Active) : frameActive p ptr a = a := by
  rw [frameActive, h]

theorem frameActive_record {p : Ptr} {ptr sz : Nat} (h : frameAt p ptr = .record sz) (a : Active) :
    frameActive p ptr a = acceptRecord p ptr sz a := by
  rw [frameActive, h]

theorem scanStep_eq_some {p : Ptr} {s t : Nat × Active} :
    scanStep p s = some t ↔ nextFrame p s.1 = some t.1 ∧ t.2 = frameActive p s.1 s.2 := by
  unfold scanStep
  rw [Option.map_eq_some_iff]
  constructor
  · rintro ⟨ptr', hn, rfl⟩; exact ⟨hn, rfl⟩
  · rintro ⟨hn, h2⟩; exact ⟨t.1, hn, by rw [← h2]⟩

theorem scanStep_lt {p : Ptr} {s t : Nat × Active} (h : scanStep p s = some t) : s.1 ≤ t.1 :=
  Nat.le_of_lt (nextFrame_lt (scanStep_eq_some.1 h).1)

/-! ## The loop follows the steps -/

theorem findFrom_next {p : Ptr} {ptr ptr' : Nat} {a b : Active} (h : scanPass p ptr a = .next ptr' b) :
    findFrom p ptr a = findFrom p ptr' b := by
  rw [findFrom]
  split
  · rename_i hp; rw [h] at hp; cases hp; rfl
  · rename_i hp; rw [h] at hp; cases hp

theorem scanPass_next {p : Ptr} {ptr ptr' : Nat} {a : Active} (h : nextFrame p ptr = some ptr') :
    scanPass p ptr a = .next ptr' (frameActive p ptr a) := by
  unfold scanPass frameActive
  obtain ⟨hf, ht⟩ | ⟨hf, ht, -⟩ := nextFrame_cases h
  · rw [hf, ht]
  · rw [hf, ht]

theorem findFrom_scanStep {p : Ptr} {s t : Nat × Active} (h : scanStep p s = some t) :
    findFrom p s.1 s.2 = findFrom p t.1 t.2 := by
  obtain ⟨hn, h2⟩ := scanStep_eq_some.1 h
  rw [h2]
  exact findFrom_next (scanPass_next hn)

theorem findFrom_reaches {p : Ptr} {s t : Nat × Active} (h : Reaches (scanStep p) s t) :
    findFrom p s.1 s.2 = findFrom p t.1 t.2 :=
  Runs.loop_eq (F := fun s => findFrom p s.1 s.2) (fun _ _ hst => findFrom_scanStep hst) h

theorem findFrom_leave {p : Ptr} {ptr : Nat} {a b : Active} (h : scanPass p ptr a = .leave b) :
    findFrom p ptr a = b := by
  rw [findFrom]
  split
  · rename_i hp; rw [h] at hp; cases hp
  · rename_i hp; rw [h] at hp; cases hp; rfl

theorem findFrom_finish {p : Ptr} {ptr : Nat} {a : Active} (h : MAX_CFG_SIZE ≤ ptr) : findFrom p ptr a = a :=
  findFrom_leave (by rw [scanPass, (frameAt_finish_iff p ptr).2 h])

theorem findFrom_outside {p : Ptr} {ptr : Nat} {a : Active} (h : frameAt p ptr = .outside) : findFrom p ptr a = a :=
  findFrom_leave (by rw [scanPass, h])

theorem findFrom_free {p : Ptr} {ptr : Nat} {a : Active} (h : frameAt p ptr = .free) :
    findFrom p ptr a = { a with nextCfgShift := if checkForFreeBytes p ptr MAX_CFG_SIZE then ptr else -1 } :=
  findFrom_leave (by rw [scanPass, h])

theorem checkForFreeBytes_iff (p : Ptr) (off stop : Nat) :
    checkForFreeBytes p off stop = true ↔ ∀ i, off ≤ i → i < stop → p i = 0xFF := by
  fun_induction checkForFreeBytes p off stop with
  | case1 off hlt hne =>
    simp only [Bool.false_eq_true, false_iff, not_forall]
    exact ⟨off, Nat.le_refl _, hlt, hne⟩
  | case2 off hlt hff ih =>
    rw [ih]
    constructor
    · intro h i hi hs
      rcases Nat.eq_or_lt_of_le hi with rfl | hi
      · simpa using hff
      · exact h i hi hs
    · intro h i hi hs
      exact h i (by omega) hs
  | case3 off hge =>
    simp only [true_iff]
    intro i hi hs
    omega

/-- An erased tail that starts on a frame boundary is the free space. -/
theorem findFrom_erased {F : Flash} {past : Ptr} {n : Nat} {a : Active} (h : ErasedFrom F n)
    (hn : n + 4 ≤ MAX_CFG_SIZE) : findFrom (mem F past) n a = { a with nextCfgShift := n } := by
  have hff := (NorFlash.erasedFrom_iff_mem F past n).1 h
  have hfree : frameAt (mem F past) n = .free := by
    rw [frameAt_free_iff]
    refine ⟨by omega, ?_⟩
    rw [crcAt, ByteMem.u32_eq_max_iff]
    intro i hi hi4
    exact hff i hi (by omega)
  have hcheck : checkForFreeBytes (mem F past) n MAX_CFG_SIZE = true := (checkForFreeBytes_iff _ _ _).2 hff
  rw [findFrom_free hfree, hcheck, if_pos rfl]

/-! ## Decisions are local -/

theorem crcAt_congr {p q : Ptr} {ptr n : Nat} (h : ∀ i, i < n → p i = q i) (hn : ptr + 4 ≤ n) :
    crcAt p ptr = crcAt q ptr :=
  ByteMem.u32_congr (fun i _ hi => h i (by omega))

theorem sizeAt_congr {p q : Ptr} {ptr n : Nat} (h : ∀ i, i < n → p i = q i) (hn : ptr + 6 ≤ n) :
    sizeAt p ptr = sizeAt q ptr :=
  ByteMem.u16_congr (fun i _ hi => h i (by omega))

theorem evalCrc_congr {p q : Ptr} {start stop n : Nat} (h : ∀ i, i < n → p i = q i) (hn : stop ≤ n) :
    evalCrc p start stop = evalCrc q start stop := by
  unfold evalCrc
  rw [ByteMem.window_congr (fun i hi hi' => h i (by omega))]

/-- A frame of a log whose tail starts with `0xFF` bytes has its whole header before the tail. -/
theorem header_before {p : Ptr} {n x y : Nat} (h4 : 4 ∣ x) (hn : 4 ∣ n) (hff : p (n + 1) = 0xFF)
    (h : nextFrame p x = some y) (hy : y ≤ n) : x + 8 ≤ n := by
  obtain ⟨-, rfl⟩ | ⟨hf, rfl, -⟩ := nextFrame_cases h
  · rw [afterTorn_eq h4] at hy; exact hy
  · obtain ⟨-, hs, -, -⟩ := (frameAt_record_iff p x _).1 hf
    have hd := recordSize_dvd p x
    have hpos := recordSize_pos p x
    by_contra hlt
    -- the frame is four bytes long and ends at `n`: its size field is the tail's, which is torn
    have hxn : x + 4 = n := by omega
    rw [sizeAt, ByteMem.u16_shiftRight, hxn, hff] at hs
    exact hs rfl

theorem frameAt_congr {p q : Ptr} {n x : Nat} (h : ∀ i, i < n → p i = q i) (hx : x + 8 ≤ n) :
    frameAt p x = frameAt q x := by
  have hc := crcAt_congr h (show x + 4 ≤ n by omega)
  have hs := sizeAt_congr h (show x + 6 ≤ n by omega)
  unfold frameAt recordSize
  rw [hc, hs]

theorem acceptRecord_congr {p q : Ptr} {n x sz : Nat} (h : ∀ i, i < n → p i = q i) (hx : x + 4 ≤ n)
    (hsz : x + sz ≤ n) (a : Active) : acceptRecord p x sz a = acceptRecord q x sz a := by
  unfold acceptRecord
  rw [crcAt_congr h hx, evalCrc_congr h hsz]

/-- **The decision for a frame does not depend on later bytes.** -/
theorem scanStep_local {p q : Ptr} {n : Nat} (hn : 4 ∣ n) (hff : p (n + 1) = 0xFF) (h : ∀ i, i < n → p i = q i)
    {s t : Nat × Active} (h4 : 4 ∣ s.1) (hst : scanStep p s = some t) (ht : t.1 ≤ n) : scanStep q s = some t := by
  obtain ⟨hnext, h2⟩ := scanStep_eq_some.1 hst
  have hx := header_before h4 hn hff hnext ht
  have hf := frameAt_congr h hx
  have hnext' : nextFrame q s.1 = some t.1 := by
    rw [← hnext]; unfold nextFrame; rw [hf]
  refine scanStep_eq_some.2 ⟨hnext', h2.trans ?_⟩
  obtain ⟨hft, -⟩ | ⟨hfr, hte, -⟩ := nextFrame_cases hnext
  · rw [frameActive_torn hft, frameActive_torn (hf ▸ hft)]
  · rw [frameActive_record hfr, frameActive_record (hf ▸ hfr)]
    exact acceptRecord_congr h (by omega) (by omega) _

/-- **A run of the scan up to `n` is the same on any memory with the same bytes before `n`.** -/
theorem reaches_local {p q : Ptr} {n : Nat} (hn : 4 ∣ n) (hff : p (n + 1) = 0xFF) (h : ∀ i, i < n → p i = q i)
    {s t : Nat × Active} (h4 : 4 ∣ s.1) (hst : Reaches (scanStep p) s t) (ht : t.1 ≤ n) :
    Reaches (scanStep q) s t :=
  Runs.reaches_transfer (m := Prod.fst) (I := fun s => 4 ∣ s.1) (fun _ _ hab => scanStep_lt hab)
    (fun _ _ ha hab => nextFrame_dvd ha (scanStep_eq_some.1 hab).1)
    (fun _ _ ha hab hb => scanStep_local hn hff h ha hab hb) hst h4 ht

/-! ## Frames and statics together -/

theorem scan_of_frames {p : Ptr} {x y : Nat} (h : Reaches (nextFrame p) x y) (a : Active) :
    ∃ b, Reaches (scanStep p) (x, a) (y, b) := by
  obtain ⟨⟨y', b⟩, hr, rfl⟩ := Runs.reaches_lift (f := scanStep p) (p := Prod.fst)
    (fun s y hs => ⟨(y, frameActive p s.1 s.2), scanStep_eq_some.2 ⟨hs, rfl⟩, rfl⟩) h (x, a) rfl
  exact ⟨b, hr⟩

theorem frames_of_scan {p : Ptr} {s t : Nat × Active} (h : Reaches (scanStep p) s t) :
    Reaches (nextFrame p) s.1 t.1 :=
  Runs.reaches_project (p := Prod.fst) (fun _ _ hab => (scanStep_eq_some.1 hab).1) h

theorem reaches_dvd {p : Ptr} {x y : Nat} (h4 : 4 ∣ x) (h : Reaches (nextFrame p) x y) : 4 ∣ y :=
  Runs.reaches_invariant (I := fun x => 4 ∣ x) (fun _ _ ha hab => nextFrame_dvd ha hab) h h4

/-- The loop never touches the append position before it leaves. -/
theorem nextCfgShift_acceptRecord (p : Ptr) (ptr sz : Nat) (a : Active) :
    (acceptRecord p ptr sz a).nextCfgShift = a.nextCfgShift := by
  unfold acceptRecord
  split
  · split <;> rfl
  · rfl

theorem nextCfgShift_frameActive (p : Ptr) (ptr : Nat) (a : Active) :
    (frameActive p ptr a).nextCfgShift = a.nextCfgShift := by
  unfold frameActive
  split
  · exact nextCfgShift_acceptRecord p ptr _ a
  · rfl

theorem nextCfgShift_reaches {p : Ptr} {s t : Nat × Active} (h : Reaches (scanStep p) s t) :
    t.2.nextCfgShift = s.2.nextCfgShift := by
  refine Runs.reaches_invariant (I := fun x : Nat × Active => x.2.nextCfgShift = s.2.nextCfgShift) ?_ h rfl
  intro a b ha hab
  rw [(scanStep_eq_some.1 hab).2, nextCfgShift_frameActive, ha]

/-- A selected record ends at or before the scan position. -/
def Active.Before (a : Active) (n : Nat) : Prop := ∀ off, a.config = some off → off + a.cfgSize ≤ n

theorem Active.Before.mono {a : Active} {x y : Nat} (h : a.Before x) (hxy : x ≤ y) : a.Before y :=
  fun off hoff => Nat.le_trans (h off hoff) hxy

theorem before_acceptRecord {p : Ptr} {x sz : Nat} {a : Active} (ha : a.Before x) :
    (acceptRecord p x sz a).Before (x + sz) := by
  have hmono : a.Before (x + sz) := ha.mono (Nat.le_add_right x sz)
  unfold acceptRecord
  by_cases hcrc : crcAt p x = evalCrc p (x + 4) (x + sz)
  · by_cases hsz : sz ≥ sizeofConfig
    · rw [if_pos hcrc, if_pos hsz]
      intro off hoff
      cases hoff
      exact Nat.le_refl _
    · rw [if_pos hcrc, if_neg hsz]; exact hmono
  · rw [if_neg hcrc]; exact hmono

theorem before_frameActive {p : Ptr} {x y : Nat} {a : Active} (h : nextFrame p x = some y) (ha : a.Before x) :
    (frameActive p x a).Before y := by
  obtain ⟨hf, -⟩ | ⟨hf, rfl, -⟩ := nextFrame_cases h
  · rw [frameActive_torn hf]; exact ha.mono (Nat.le_of_lt (nextFrame_lt h))
  · rw [frameActive_record hf]; exact before_acceptRecord ha

theorem before_reaches {p : Ptr} {s t : Nat × Active} (h : Reaches (scanStep p) s t) (hs : s.2.Before s.1) :
    t.2.Before t.1 := by
  refine Runs.reaches_invariant (I := fun x : Nat × Active => x.2.Before x.1) ?_ h hs
  intro a b ha hab
  obtain ⟨hn, h2⟩ := scanStep_eq_some.1 hab
  rw [h2]
  exact before_frameActive hn ha

end Mstd
