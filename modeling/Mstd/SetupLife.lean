import Mstd.SetupCut
import Mstd.SetupSelect
/-!
# The config partition as a register

A reset loads the last record that the frames of the partition lead to.  As long as they lead to an erased header, what
is loaded does not depend on the RAM behind `cfg_full` (`FreeAt.selected_congr`), the store is good after the load
(`FreeAt.good`), and a save, whole or cut after any number of bytes, leaves such frames and what `Saved.leaves` says
(`image_leaves`).
-/
namespace Mstd

open ByteMem (Ptr window ofList)
open NorFlash (Cells mem program erased ErasedFrom)
open StateTransition (Reaches)
open Relation (ReflTransGen)

/-! ## Frames that lead to an erased header -/

section

variable {past : Ptr} {F : Flash} {n : Nat}

theorem freeAt_of_erased (hr : Reaches (nextFrame (mem F past)) 0 n) (hff : ErasedFrom F n) (hn : n < MAX_CFG_SIZE) :
    FreeAt past F n := by
  have h4 := reaches_dvd (Nat.dvd_zero 4) hr
  refine ⟨hr, (frameAt_free_iff _ _).2 ⟨hn, (ByteMem.u32_eq_max_iff _ _).2 (fun i hi hi4 => ?_)⟩⟩
  exact (NorFlash.erasedFrom_iff_mem F past n).1 hff i hi (by unfold MAX_CFG_SIZE at *; omega)

/-- The erased header lies in the partition. -/
theorem FreeAt.header (h : FreeAt past F n) : 4 ∣ n ∧ n + 4 ≤ MAX_CFG_SIZE ∧ mem F past (n + 1) = 0xFF := by
  obtain ⟨hlt, hcrc⟩ := (frameAt_free_iff _ _).1 h.2
  have h4 := reaches_dvd (Nat.dvd_zero 4) h.1
  exact ⟨h4, by unfold MAX_CFG_SIZE at *; omega, (ByteMem.u32_eq_max_iff _ _).1 hcrc _ (by omega) (by omega)⟩

/-- **The scan of a log with an erased header** is one of the partition alone. -/
theorem FreeAt.scan_congr (h : FreeAt past F n) (past' : Ptr) (a : Active) :
    ∃ b : Active, Reaches (scanStep (mem F past)) (0, a) (n, b) ∧ Reaches (scanStep (mem F past')) (0, a) (n, b) := by
  obtain ⟨h4, hn, hff⟩ := h.header
  obtain ⟨b, hb⟩ := scan_of_frames h.1 a
  refine ⟨b, hb, reaches_local h4 hff (fun i hi => ?_) (Nat.dvd_zero 4) hb (Nat.le_refl n)⟩
  rw [NorFlash.mem_of_lt _ _ (by omega), NorFlash.mem_of_lt _ _ (by omega)]

theorem FreeAt.congr (h : FreeAt past F n) (past' : Ptr) : FreeAt past' F n := by
  obtain ⟨-, hn, -⟩ := h.header
  obtain ⟨b, -, hb⟩ := h.scan_congr past' (boot F).toActive
  refine ⟨frames_of_scan hb, ?_⟩
  obtain ⟨hlt, hcrc⟩ := (frameAt_free_iff _ _).1 h.2
  refine (frameAt_free_iff _ _).2 ⟨hlt, (crcAt_congr (n := MAX_CFG_SIZE) (fun i hi => ?_) hn).trans hcrc⟩
  rw [NorFlash.mem_of_lt _ _ hi, NorFlash.mem_of_lt _ _ hi]

/-- What a load selects when the frames lead to an erased header. -/
theorem FreeAt.selected_eq (h : FreeAt past F n) {b : Active}
    (hb : Reaches (scanStep (mem F past)) (0, (boot F).toActive) (n, b)) :
    selected past F = b.config.map (fun off => window (mem F past) off b.cfgSize) := by
  have hfind := findFrom_reaches hb
  rw [findFrom_free h.2] at hfind
  obtain ⟨h1, h2, -⟩ := reload_statics hfind
  rw [selected, configBytes_reload, h1, h2]

/-- **What is loaded does not depend on the RAM behind `cfg_full`.** -/
theorem FreeAt.selected_congr (h : FreeAt past F n) (past' : Ptr) : selected past' F = selected past F := by
  obtain ⟨-, hn, -⟩ := h.header
  obtain ⟨b, hb, hb'⟩ := h.scan_congr past' (boot F).toActive
  rw [h.selected_eq hb, (h.congr past').selected_eq hb']
  have hbefore : b.Before n := before_reaches hb (fun off hoff => by cases hoff)
  cases hc : b.config with
  | none => rfl
  | some off =>
    refine congrArg some (ByteMem.window_congr (fun i _ hi => ?_))
    have hle := hbefore off hc
    rw [NorFlash.mem_of_lt _ _ (by omega), NorFlash.mem_of_lt _ _ (by omega)]

/-- **A load from such a partition leaves a good store**, or one that does not know the partition. -/
theorem FreeAt.good (h : FreeAt past F n) (env : LoadEnv) (past' : Ptr) :
    (loadConfig env past' (boot F)).cfgPat = true → Good past (loadConfig env past' (boot F)) := by
  intro hpat
  have h' := h.congr past'
  have hload : loadConfig env past' (boot F) = reload past' F := by
    unfold loadConfig boot at hpat
    simp only [Bool.false_eq_true, if_false, Bool.false_or] at hpat
    cases hfound : env.found with
    | false => rw [hfound] at hpat; cases hpat
    | true =>
      cases hread : env.readFail with
      | some junk => rw [hfound, hread] at hpat; cases hpat
      | none => exact loadConfig_boot past' F hfound hread
  rw [hload]
  refine ⟨rfl, ?_⟩
  obtain ⟨m, hm, hfree, hshift⟩ | ⟨hnone, -⟩ := findFrom_shift (mem F past') 0 (boot F).toActive
  · have hshift' : (reload past' F).nextCfgShift = if checkForFreeBytes (mem F past') m MAX_CFG_SIZE then (m : Int) else -1 :=
      hshift
    split at hshift'
    · rename_i hcheck
      have hmfree : FreeAt past' F m := ⟨hm, hfree⟩
      exact Or.inr ⟨m, hshift', by have := hmfree.header; omega, erasedFrom_of_check hcheck, (hmfree.congr past).1⟩
    · exact Or.inl hshift'
  · exact absurd h'.2 (hnone n h'.1)

end

/-! ## Saves -/

/-- A write ends before the last byte of the partition, and its record has a CRC other than erased flash. -/
def FlashOp.Lasts : FlashOp → Prop
  | .erase            => True
  | .write _ off data => off + data.length < MAX_CFG_SIZE ∧ imageCrc data ≠ 0xFFFFFFFF

instance FlashOp.decidableLasts : (op : FlashOp) → Decidable op.Lasts
  | .erase            => isTrue trivial
  | .write _ off data => inferInstanceAs (Decidable (off + data.length < MAX_CFG_SIZE ∧ imageCrc data ≠ 0xFFFFFFFF))

/-- **The config that a save leaves for the next boot**, behind one that finds `old`. -/
def Saved.leaves (fate : Fate) (r : Saved) (old : Option (List UInt8)) : Option (List UInt8) :=
  let w := fate.written r.image
  match r.ops with
  | []          => old
  | .erase :: _ => if Selectable w then some w else none
  | _           => if Selectable w then some w else old

section

variable {past : Ptr} {fate : Fate} {d : Setup} {image : List UInt8}

/-- A write that stops after `k` bytes leaves a record that is cut there. -/
theorem program_cut (fate : Fate) (F : Flash) (n : Nat) (image : List UInt8) :
    ∃ k ≤ image.length, program F n (fate.written image) = cutAppend F n image k := by
  rw [program_written]
  cases fate.writeFail with
  | none => exact ⟨image.length, Nat.le_refl _, by rw [cutAppend, List.take_length]⟩
  | some k =>
    refine ⟨min k image.length, Nat.min_le_right _ _, congrArg (program F n) ?_⟩
    rw [List.take_eq_take_iff, Nat.min_assoc, Nat.min_self]

/-- **A record that is cut leaves frames that lead to an erased header**, when there is room behind it. -/
theorem program_freeAt {F : Flash} {n : Nat} (fate : Fate) (hr : Reaches (nextFrame (mem F past)) 0 n)
    (hff : ErasedFrom F n) (himg : Accepted image) (hcrc : imageCrc image ≠ 0xFFFFFFFF)
    (hroom : n + image.length < MAX_CFG_SIZE) : ∃ m, FreeAt past (program F n (fate.written image)) m := by
  have hmin := himg.ge_min
  unfold sizeofConfigV0 at hmin
  have h4 := reaches_dvd (Nat.dvd_zero 4) hr
  obtain ⟨k, hk, hcut⟩ := program_cut fate F n image
  rw [hcut]
  have hreach : Reaches (nextFrame (mem (cutAppend F n image k) past)) 0 n := by
    obtain ⟨b, hb⟩ := scan_of_frames hr (boot F).toActive
    exact frames_of_scan (scan_survives hb (by omega) hff past (image.take k))
  have hnext : ∀ m, nextFrame (mem (cutAppend F n image k) past) n = some m →
      Reaches (nextFrame (mem (cutAppend F n image k) past)) 0 m := fun m hm => hreach.tail hm
  obtain ⟨he, -⟩ | ⟨ht, he, -⟩ | hrec := cut_cases past hff himg hcrc (Nat.le_of_lt hroom) hk
  · exact ⟨n, freeAt_of_erased hreach he (by omega)⟩
  · refine ⟨n + 8, freeAt_of_erased (hnext _ ?_) he (by omega)⟩
    rw [nextFrame, ht, afterTorn_eq h4]
  · refine ⟨n + image.length, freeAt_of_erased (hnext _ ?_) ((cut_erased hff).mono (by omega)) hroom⟩
    rw [nextFrame, hrec]

theorem storeImage_ops (d : Setup) (image : List UInt8) (hok : fate.eraseOk = true) :
    (storeImage fate d image).ops = landingOps d image.length ++
      [.write (landing d image.length).1 (landing d image.length).2 image] ∧
      (storeImage fate d image).image = image ∧ (storeImage fate d image).dev.cfgPat = d.cfgPat := by
  unfold storeImage landing landingOps
  by_cases hneed : d.nextCfgShift < 0 ∨ d.nextCfgShift + image.length > MAX_CFG_SIZE
  · simp only [hneed, if_true, hok, writeImage]
    cases fate.writeFail <;> exact ⟨rfl, rfl, rfl⟩
  · simp only [hneed, if_false, writeImage]
    cases fate.writeFail <;> exact ⟨rfl, rfl, rfl⟩

/-- A store is good behind a save that ends with erased flash, or fails to. -/
theorem storeImage_good (hgood : Good past d) (hok : fate.eraseOk = true) (himg : Accepted image)
    (hcrc : imageCrc image ≠ 0xFFFFFFFF) : Good past (storeImage fate d image).dev := by
  obtain ⟨hff, hfit⟩ := hgood.tailErased.landing himg.le_max
  cases hw : fate.writeFail with
  | none =>
    have hfate : fate = .working := by
      cases fate
      simp only at hok hw
      rw [hok, hw]
      rfl
    have hend : AtEnd (storeImage fate d image).dev image (landing d image.length).2 := by
      rw [hfate, storeImage_working]
      exact atEnd_program hff (hgood.landing_reaches _) himg hcrc hfit rfl rfl
    exact hend.good ((storeImage_ops d image hok).2.2.trans hgood.pat) past
  | some k =>
    refine ⟨(storeImage_ops d image hok).2.2.trans hgood.pat, Or.inl ?_⟩
    unfold storeImage writeImage
    rw [hw, hok]
    split <;> rfl

/-- **What a save needs and keeps**: a good store on frames that lead to an erased header. -/
structure Sound (past : Ptr) (d : Setup) : Prop where
  good : d.cfgPat = true → Good past d
  free : ∃ n, FreeAt past d.flash n

/-- **A save that erases and writes for good keeps the store sound**, whole or cut, and leaves what `Saved.leaves`
says. -/
theorem image_leaves (h : Sound past d) (hok : fate.eraseOk = true)
    (hlasts : ∀ op ∈ (saveConfigImage fate d image).ops, op.Lasts) :
    Sound past (saveConfigImage fate d image).dev ∧ (∀ op ∈ (saveConfigImage fate d image).ops, op.OnErased) ∧
      selected past (saveConfigImage fate d image).dev.flash =
        (saveConfigImage fate d image).leaves fate (selected past d.flash) := by
  by_cases hops : (saveConfigImage fate d image).ops = []
  · rw [dev_saveConfigImage hops, Saved.leaves, hops]
    exact ⟨h, fun op hop => (by cases hop), rfl⟩
  -- the save went through to the driver: the partition is known, and the image is a whole record
  rw [ops_saveConfigImage, not_or] at hops
  have hpat : d.cfgPat = true := Bool.eq_true_of_not_eq_false hops.1
  obtain ⟨image', hcheck⟩ : ∃ image', checkImage image = .ok image' := by
    cases hc : checkImage image with
    | error e => exact absurd ⟨e, hc⟩ hops.2
    | ok image' => exact ⟨image', rfl⟩
  obtain ⟨rfl, hacc⟩ := checkImage_eq_ok.1 hcheck
  rw [saveConfigImage_accepted hpat hacc] at hlasts ⊢
  obtain ⟨hops', himg, hpat'⟩ := storeImage_ops d (savedImage image) hok
  have hgood := h.good hpat
  obtain ⟨hff, hfit⟩ := hgood.tailErased.landing hacc.le_max
  have hr := hgood.landing_reaches (savedImage image).length
  obtain ⟨hroom, hcrc⟩ : FlashOp.Lasts (.write _ _ (savedImage image)) := hlasts _ (by
    rw [hops']
    exact List.mem_append_right _ (List.mem_singleton_self _))
  have hflash : (storeImage fate d (savedImage image)).dev.flash = _ := storeImage_flash (fun _ => hok)
  refine ⟨⟨fun _ => storeImage_good hgood hok hacc hcrc, ?_⟩, ?_, ?_⟩
  · rw [hflash]
    exact program_freeAt fate hr hff hacc hcrc hroom
  · intro op hop
    rw [hops'] at hop
    rcases List.mem_append.1 hop with hop | hop
    · exact landingOps_onErased d _ op hop
    · obtain rfl := List.mem_singleton.1 hop
      exact hff.on _
  · rw [hflash, selected_program hr hff hacc hfit, Saved.leaves, hops', himg]
    unfold landingOps landing
    by_cases hneed : d.nextCfgShift < 0 ∨ d.nextCfgShift + (savedImage image).length > MAX_CFG_SIZE
    · simp only [hneed, if_true, List.singleton_append, selected_erased]
    · simp only [hneed, if_false, List.nil_append]

end

end Mstd
