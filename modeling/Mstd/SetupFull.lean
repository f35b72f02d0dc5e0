import Mstd.SetupCut
/-!
# Whole-partition writes and flash errors

`save_config_full` leaves the append position at 0 on the image it wrote, and a failed erase in `save_config_image`
leaves it at 0 on the old flash.  Both are safe only when the flash they leave is erased: `saveConfigFull_iff` and
`recoverable_iff` say exactly when.
-/
namespace Mstd

open ByteMem (Ptr window u16 u32 ofList)
open NorFlash (Cells mem program erased ErasedFrom)
open StateTransition (Reaches)
open Relation (ReflTransGen)

theorem length_flashBytes (X : Flash) : (flashBytes X).length = MAX_CFG_SIZE := List.length_ofFn

theorem window_flashBytes (past : Ptr) (F : Flash) : window (NorFlash.mem F past) 0 MAX_CFG_SIZE = flashBytes F := by
  have hlen := length_flashBytes F
  refine List.ext_getElem (by rw [ByteMem.length_window, hlen]) (fun i hi hi' => ?_)
  have hlt : i < MAX_CFG_SIZE := hlen ▸ hi'
  have hw := ByteMem.getElem?_window (NorFlash.mem F past) 0 MAX_CFG_SIZE i hlt
  rw [List.getElem?_eq_getElem hi, Nat.zero_add, NorFlash.mem_of_lt F past hlt] at hw
  exact (Option.some.inj hw).trans (List.getElem_ofFn hi').symm

theorem program_flashBytes_take (X : Flash) (k : Nat) (i : Fin MAX_CFG_SIZE) :
    program erased 0 ((flashBytes X).take k) i = if i.val < k then X i else 0xFF := by
  have hlen : ((flashBytes X).take k).length = min k MAX_CFG_SIZE := by rw [List.length_take, length_flashBytes]
  by_cases hk : i.val < k
  · have hi : i.val < ((flashBytes X).take k).length := by rw [hlen]; omega
    rw [if_pos hk, NorFlash.program_of_erased erased 0 _ i i.val hi (Nat.zero_add _).symm rfl, List.getElem_take]
    simp [flashBytes]
  · rw [if_neg hk, NorFlash.program_behind erased 0 _ i (by rw [hlen]; omega)]
    rfl

theorem program_flashBytes (X : Flash) : program erased 0 (flashBytes X) = X := by
  funext i
  have h := program_flashBytes_take X MAX_CFG_SIZE i
  rw [List.take_of_length_le (Nat.le_of_eq (length_flashBytes X)), if_pos i.isLt] at h
  exact h

theorem tailErased_zero {d : Setup} (h : d.nextCfgShift = 0) : TailErased d ↔ ErasedFrom d.flash 0 := by
  unfold TailErased
  rw [h]
  constructor
  · rintro (hneg | ⟨n, hn, -, hff⟩)
    · cases hneg
    · obtain rfl : n = 0 := by omega
      exact hff
  · exact fun hff => Or.inr ⟨0, rfl, Nat.zero_le _, hff⟩

/-! ## `save_config_full` -/

theorem saveConfigFull_working {d : Setup} (hpat : d.cfgPat = true) (X : Flash) :
    (saveConfigFull .working d X).err = none ∧
      (saveConfigFull .working d X).dev = { d with flash := X, nextCfgShift := 0 } := by
  unfold saveConfigFull Fate.working
  rw [hpat]
  simp only [Bool.not_true, Bool.false_eq_true, if_false, program_flashBytes, true_and]

/-- A record whose CRC is all ones reads as erased flash. -/
theorem reload_ones {image : List UInt8} (himg : Accepted image) (hones : imageCrc image = 0xFFFFFFFF) (past : Ptr) :
    (reload past (program erased 0 image)).configBytes past = none := by
  have hmin := himg.ge_min
  unfold sizeofConfigV0 at hmin
  have hw : window (mem (program erased 0 image) past) 0 image.length = image :=
    NorFlash.window_program past (by simpa using himg.le_max) ((NorFlash.erasedFrom_erased 0).on _)
  have hfree : frameAt (mem (program (erased : Flash) 0 image) past) 0 = .free := by
    rw [frameAt_free_iff, crcAt_of_window hw (by omega), himg.crc_eq]
    exact ⟨by decide, hones⟩
  obtain ⟨h1, -, -⟩ := reload_statics (findFrom_free (a := (boot (program erased 0 image)).toActive) hfree)
  rw [configBytes_reload, h1]
  rfl

/-- **When the append position survives a whole-partition write**: exactly when the image written is all `0xFF` and
the CRC of the record saved next is not all ones. -/
theorem saveConfigFull_iff (past past' : Ptr) (d : Setup) (X : Flash) (image : List UInt8) (hgood : Good past d)
    (haccept : Accepted (savedImage image)) :
    let full := saveConfigFull .working d X
    let next := saveConfigImage .working full.dev image
    full.err = none ∧
    ((TailErased full.dev ∧ (reload past' next.dev.flash).configBytes past' = some (savedImage image)) ↔
      (∀ i, X i = 0xFF) ∧ imageCrc image ≠ 0xFFFFFFFF) := by
  intro full next
  obtain ⟨herr, hdev⟩ := saveConfigFull_working hgood.pat X
  have hnull : (saveConfigImage .working full.dev image).err = none := by
    rw [saveConfigImage_accepted (by rw [hdev]; exact hgood.pat) haccept, storeImage_working]
  have htail : TailErased full.dev ↔ ∀ i, X i = 0xFF := by
    rw [tailErased_zero (by rw [hdev]), hdev]
    exact ⟨fun h i => h i (Nat.zero_le _), fun h i _ => h i⟩
  refine ⟨herr, fun ⟨ht, hsel⟩ => ⟨htail.1 ht, fun hones => ?_⟩, fun ⟨hX, hcrc⟩ => ⟨htail.2 hX, ?_⟩⟩
  · have hnext : next.dev.flash = program erased 0 (savedImage image) := by
      have hX : X = erased := funext (htail.1 ht)
      show (saveConfigImage .working full.dev image).dev.flash = _
      rw [saveConfigImage_accepted (by rw [hdev]; exact hgood.pat) haccept, storeImage_working, hdev, hX]
      obtain hl | ⟨n, hn, -, hl⟩ := landing_cases { d with flash := erased, nextCfgShift := 0 } (savedImage image).length
      · rw [hl]
      · obtain rfl : n = 0 := by simpa using hn.symm
        rw [hl]
    rw [hnext, reload_ones haccept (by rw [imageCrc_savedImage]; exact hones)] at hsel
    cases hsel
  · have hgood' : Good past full.dev := by
      refine ⟨by rw [hdev]; exact hgood.pat, Or.inr ⟨0, by rw [hdev]; rfl, Nat.zero_le _, ?_, ReflTransGen.refl⟩⟩
      rw [hdev]
      exact fun i _ => hX i
    obtain ⟨-, n, hend⟩ := hgood'.save hnull hcrc
    exact (hend.selected past').1

/-- After a whole-partition write of zeros the append position is 0, on programmed flash. -/
theorem saveConfigFull_zeros :
    ¬ ∀ past d X, Good past d → (saveConfigFull .working d X).err = none →
      TailErased (saveConfigFull .working d X).dev := by
  intro h
  have hdev := (saveConfigFull_working (d := freshStore) rfl (fun _ => 0)).2
  have ht := h (fun _ => 0) freshStore (fun _ => 0) (freshStore_good _) (saveConfigFull_working rfl _).1
  rw [tailErased_zero (by rw [hdev]), hdev] at ht
  exact absurd (ht ⟨0, by decide⟩ (Nat.le_refl 0)) (by decide)

/-- The condition is met by an erased image and the small record. -/
theorem saveConfigFull_erased :
    (reload (fun _ => 0) (saveConfigImage .working (saveConfigFull .working freshStore erased).dev smallImage).dev.flash
      ).configBytes (fun _ => 0) = some (savedImage smallImage) :=
  ((saveConfigFull_iff (fun _ => 0) (fun _ => 0) freshStore erased smallImage (freshStore_good _)
    ((accepted_savedImage_iff smallImage).2 (by decide +kernel))).2.2 ⟨fun _ => rfl, smallImage_crc⟩).2

/-! ## Flash errors -/

/-- A call of one of the two writers. -/
inductive SaveCall where
  | image (image : List UInt8)
  | full (image : Flash)

def SaveCall.run (fate : Fate) (d : Setup) : SaveCall → Saved
  | .image img => saveConfigImage fate d img
  | .full X    => saveConfigFull fate d X

/-- The call stopped at a flash operation. -/
def Saved.FlashFailed (r : Saved) : Prop := r.err = some "Can't erase partition" ∨ r.err = some "Can't write config"

/-- **The failing point leaves erased flash where the append position is**: no `save_config_image` whose erase fails on a
partition with programmed bytes, and no `save_config_full` whose write fails after a byte other than `0xFF`. -/
def SaveCall.LeavesErased (fate : Fate) (d : Setup) : SaveCall → Prop
  | .image img => d.nextCfgShift < 0 ∨ d.nextCfgShift + img.length > MAX_CFG_SIZE → fate.eraseOk = false →
      ErasedFrom d.flash 0
  | .full X => fate.eraseOk = true → ∀ k, fate.writeFail = some k → ∀ i : Fin MAX_CFG_SIZE, i.val < k → X i = 0xFF

theorem checkImage_error {image : List UInt8} {e : String} (h : checkImage image = .error e) :
    e ≠ "Can't erase partition" ∧ e ≠ "Can't write config" := by
  unfold checkImage at h
  simp only at h
  repeat' split at h
  all_goals cases h
  all_goals exact ⟨by decide, by decide⟩

theorem image_recoverable {fate : Fate} {d : Setup} {image : List UInt8} (hpat : d.cfgPat = true)
    (hfail : (saveConfigImage fate d image).FlashFailed) :
    TailErased (saveConfigImage fate d image).dev ↔ SaveCall.LeavesErased fate d (.image image) := by
  cases hc : checkImage image with
  | error e =>
    have hne := checkImage_error hc
    unfold saveConfigImage at hfail
    rw [hpat, hc] at hfail
    rcases hfail with h | h
    · exact absurd (Option.some.inj h) hne.1
    · exact absurd (Option.some.inj h) hne.2
  | ok image' =>
    obtain ⟨rfl, hacc⟩ := checkImage_eq_ok.1 hc
    have hlen := length_savedImage (four_le_of_accepted hacc)
    rw [saveConfigImage_accepted hpat hacc] at hfail ⊢
    simp only [SaveCall.LeavesErased, ← hlen]
    by_cases hneed : d.nextCfgShift < 0 ∨ d.nextCfgShift + (savedImage image).length > MAX_CFG_SIZE
    · cases he : fate.eraseOk with
      | false =>
        rw [storeImage, if_pos hneed, he]
        simp only [Bool.false_eq_true, if_false, hneed, forall_const]
        exact tailErased_zero rfl
      | true =>
        -- the erase worked, so the write failed, and the position is -1
        rw [storeImage, if_pos hneed, he, if_pos rfl] at hfail ⊢
        simp only [Bool.true_eq_false, false_implies, implies_true, iff_true]
        cases hw : fate.writeFail with
        | none => simp [Saved.FlashFailed, writeImage, hw] at hfail
        | some k => unfold writeImage; rw [hw]; exact Or.inl rfl
    · rw [storeImage, if_neg hneed] at hfail ⊢
      simp only [hneed, false_implies, iff_true]
      cases hw : fate.writeFail with
      | none => simp [Saved.FlashFailed, writeImage, hw] at hfail
      | some k => unfold writeImage; rw [hw]; exact Or.inl rfl

theorem full_recoverable {past : Ptr} {fate : Fate} {d : Setup} {X : Flash} (hgood : Good past d)
    (hfail : (saveConfigFull fate d X).FlashFailed) :
    TailErased (saveConfigFull fate d X).dev ↔ SaveCall.LeavesErased fate d (.full X) := by
  unfold saveConfigFull at hfail ⊢
  unfold SaveCall.LeavesErased
  rw [hgood.pat] at hfail ⊢
  cases he : fate.eraseOk with
  | false =>
    simp only [Bool.not_true, Bool.false_eq_true, if_false, Bool.not_false, if_true, false_implies, iff_true]
    exact hgood.tailErased
  | true =>
    rw [he] at hfail
    cases hw : fate.writeFail with
    | none => simp [Saved.FlashFailed, hw] at hfail
    | some k =>
      simp only [Bool.not_true, Bool.false_eq_true, if_false, Option.some.injEq, forall_eq', true_implies]
      rw [tailErased_zero rfl]
      show ErasedFrom (program erased 0 ((flashBytes X).take k)) 0 ↔ _
      constructor
      · intro h i hi
        have := h i (Nat.zero_le _)
        rwa [program_flashBytes_take, if_pos hi] at this
      · intro h i _
        rw [program_flashBytes_take]
        split
        · exact h i ‹_›
        · rfl

/-- **When a flash error leaves the store recoverable**: the append position is -1 or starts an erased tail, and the
next save whose flash operations succeed programs erased bytes only, exactly when the failing point leaves erased flash
at the append position. -/
theorem recoverable_iff (past : Ptr) (fate : Fate) (d : Setup) (call : SaveCall) (hgood : Good past d)
    (hfail : (call.run fate d).FlashFailed) :
    (TailErased (call.run fate d).dev ∧
      ∀ image, (saveConfigImage .working (call.run fate d).dev image).err = none →
        ∀ op ∈ (saveConfigImage .working (call.run fate d).dev image).ops, op.OnErased) ↔
    call.LeavesErased fate d := by
  have htail : TailErased (call.run fate d).dev ↔ call.LeavesErased fate d := by
    cases call with
    | image image => exact image_recoverable hgood.pat hfail
    | full X => exact full_recoverable hgood hfail
  rw [← htail]
  exact ⟨fun h => h.1, fun h => ⟨h, fun image => h.save_onErased⟩⟩

/-- A store whose next save has to erase. -/
def worn : Setup := { boot fullPartition with cfgPat := true, nextCfgShift := -1 }

theorem worn_good (past : Ptr) : Good past worn := ⟨rfl, Or.inl rfl⟩

theorem worn_eraseFails : (SaveCall.run ⟨false, none⟩ worn (.image smallImage)).FlashFailed := by
  unfold Saved.FlashFailed
  decide +kernel

/-- A failed erase leaves the append position at 0, on programmed flash. -/
theorem worn_not_recoverable :
    ¬ ∀ past fate d call, Good past d → (SaveCall.run fate d call).FlashFailed →
      TailErased (SaveCall.run fate d call).dev := by
  intro h
  have ht := h (fun _ => 0) ⟨false, none⟩ worn (.image smallImage) (worn_good _) worn_eraseFails
  have hl := (image_recoverable (d := worn) rfl worn_eraseFails).1 ht (Or.inl (by decide)) rfl
  exact absurd (hl ⟨0, by decide⟩ (Nat.le_refl 0)) (by decide)

/-- A write that stops leaves the position at -1. -/
theorem worn_writeFails : TailErased (SaveCall.run ⟨true, some 7⟩ worn (.image smallImage)).dev :=
  ((recoverable_iff (fun _ => 0) ⟨true, some 7⟩ worn (.image smallImage) (worn_good _)
    (by unfold Saved.FlashFailed; decide +kernel)).2 (fun _ h => nomatch h)).1

end Mstd
