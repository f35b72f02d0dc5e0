import Mstd.SetupScan
/-!
# Appending a record

An image that passes the checks of `save_config_image` (`Accepted`) is, once in memory at the end of a scanned log,
one frame of its own length with a right CRC, so the scan passes the old log unchanged, selects the image and stops
behind it (`scan_append`).
-/
namespace Mstd

open ByteMem (Ptr window u16 u32 ofList)
open NorFlash (Cells mem program erased ErasedFrom)
open StateTransition (Reaches)
open Relation (ReflTransGen)

/-- The CRC-32 of a record's bytes from the size field on. -/
def imageCrc (image : List UInt8) : Nat := (crc32Le 0 (image.drop 4)).toNat

/-- **What `save_config_image` writes**: a whole record with its CRC in place. -/
structure Accepted (image : List UInt8) : Prop where
  le_max : image.length ≤ MAX_CFG_SIZE
  ge_min : sizeofConfigV0 ≤ image.length
  dvd : 4 ∣ image.length
  size_eq : recordSize (ofList image) 0 = image.length
  not_torn : sizeAt (ofList image) 0 >>> 8 ≠ 0xFF
  crc_eq : crcAt (ofList image) 0 = imageCrc image

theorem evalCrc_ofList (image : List UInt8) (h : 4 ≤ image.length) :
    evalCrc (ofList image) 4 image.length = imageCrc image := by
  unfold evalCrc imageCrc
  rw [ByteMem.window_ofList_drop image 4 h]

/-- The image with a CRC field: what an image with the field at `-1` becomes. -/
def fillCrc (image : List UInt8) : List UInt8 := LittleEndian.encode 4 (imageCrc image) ++ image.drop 4

theorem length_fillCrc {image : List UInt8} (h : 4 ≤ image.length) : (fillCrc image).length = image.length := by
  simp [fillCrc]; omega

theorem drop_fillCrc (image : List UInt8) : (fillCrc image).drop 4 = image.drop 4 := by
  rw [fillCrc, List.drop_left' (LittleEndian.length_encode _ _)]

theorem imageCrc_fillCrc (image : List UInt8) : imageCrc (fillCrc image) = imageCrc image := by
  rw [imageCrc, imageCrc, drop_fillCrc]

theorem imageCrc_lt (image : List UInt8) : imageCrc image < 256 ^ 4 := (crc32Le 0 (image.drop 4)).isLt

/-- A load behind the CRC field sees the same bytes after the fill. -/
theorem ofList_fillCrc (image : List UInt8) (i : Nat) (hi : 4 ≤ i) :
    ofList (fillCrc image) i = ofList image i := by
  have he := LittleEndian.length_encode 4 (imageCrc image)
  simp only [ofList, fillCrc, List.getD_eq_getElem?_getD]
  rw [List.getElem?_append_right (by omega), List.getElem?_drop, he]
  congr 2
  omega

theorem crcAt_fillCrc (image : List UInt8) : crcAt (ofList (fillCrc image)) 0 = imageCrc image := by
  have hw : window (ofList (fillCrc image)) 0 4 = LittleEndian.encode 4 (imageCrc image) := by
    rw [ByteMem.window_ofList_take _ 4 (by simp [fillCrc]), fillCrc,
      List.take_left' (LittleEndian.length_encode _ _)]
  rw [crcAt, u32, hw, LittleEndian.decode_encode 4 _ (imageCrc_lt image)]

theorem sizeAt_fillCrc (image : List UInt8) :
    sizeAt (ofList (fillCrc image)) 0 = sizeAt (ofList image) 0 :=
  ByteMem.u16_congr (fun i hi _ => ofList_fillCrc image i (by omega))

theorem and_three_eq_zero (n : Nat) : n &&& 3 = 0 ↔ 4 ∣ n := by
  rw [show n &&& 3 = n % 4 from Nat.and_two_pow_sub_one_eq_mod n 2]
  omega

/-- The image as `save_config_image` leaves it. -/
def savedImage (image : List UInt8) : List UInt8 :=
  if crcAt (ofList image) 0 = 0xFFFFFFFF then fillCrc image else image

theorem length_savedImage {image : List UInt8} (h : 4 ≤ image.length) : (savedImage image).length = image.length := by
  unfold savedImage
  split
  · exact length_fillCrc h
  · rfl

theorem sizeAt_savedImage (image : List UInt8) :
    sizeAt (ofList (savedImage image)) 0 = sizeAt (ofList image) 0 := by
  unfold savedImage
  split
  · exact sizeAt_fillCrc image
  · rfl

theorem crc_savedImage_iff (image : List UInt8) :
    crcAt (ofList (savedImage image)) 0 = imageCrc (savedImage image) ↔
      crcAt (ofList image) 0 = 0xFFFFFFFF ∨ crcAt (ofList image) 0 = imageCrc image := by
  unfold savedImage
  by_cases hfill : crcAt (ofList image) 0 = 0xFFFFFFFF
  · rw [if_pos hfill, crcAt_fillCrc, imageCrc_fillCrc]
    exact ⟨fun _ => Or.inl hfill, fun _ => rfl⟩
  · rw [if_neg hfill]
    exact ⟨Or.inr, fun h => h.resolve_left hfill⟩

theorem four_le_of_accepted {image : List UInt8} (h : Accepted (savedImage image)) : 4 ≤ image.length := by
  have hmin := h.ge_min
  by_contra hlt
  unfold savedImage at hmin
  split at hmin
  · rw [fillCrc, List.length_append, LittleEndian.length_encode, List.length_drop] at hmin
    unfold sizeofConfigV0 at hmin
    omega
  · unfold sizeofConfigV0 at hmin
    omega

theorem accepted_savedImage_iff (image : List UInt8) :
    Accepted (savedImage image) ↔ image.length ≤ MAX_CFG_SIZE ∧ sizeofConfigV0 ≤ image.length ∧ 4 ∣ image.length ∧
      recordSize (ofList image) 0 = image.length ∧ sizeAt (ofList image) 0 >>> 8 ≠ 0xFF ∧
      (crcAt (ofList image) 0 = 0xFFFFFFFF ∨ crcAt (ofList image) 0 = imageCrc image) := by
  constructor
  · intro h
    have h4 := four_le_of_accepted h
    have hlen := length_savedImage h4
    have hsz := sizeAt_savedImage image
    have hrec := h.size_eq
    unfold recordSize at hrec
    have hmax := h.le_max
    have hmin := h.ge_min
    have hdvd := h.dvd
    have hnt := h.not_torn
    rw [hsz] at hrec hnt
    rw [hlen] at hrec hmax hmin hdvd
    exact ⟨hmax, hmin, hdvd, hrec, hnt, (crc_savedImage_iff image).1 h.crc_eq⟩
  · rintro ⟨hmax, hmin, hdvd, hrec, hnt, hcrc⟩
    have h4 : 4 ≤ image.length := by unfold sizeofConfigV0 at hmin; omega
    have hlen := length_savedImage h4
    have hsz := sizeAt_savedImage image
    exact
      { le_max := by rw [hlen]; exact hmax
        ge_min := by rw [hlen]; exact hmin
        dvd := by rw [hlen]; exact hdvd
        size_eq := by rw [recordSize, hsz, hlen]; exact hrec
        not_torn := by rw [hsz]; exact hnt
        crc_eq := (crc_savedImage_iff image).2 hcrc }

/-- **`checkImage` accepts exactly the whole records**, with a right CRC or with the field to fill. -/
theorem checkImage_eq_ok {image image' : List UInt8} :
    checkImage image = .ok image' ↔ image' = savedImage image ∧ Accepted (savedImage image) := by
  rw [accepted_savedImage_iff, ← and_three_eq_zero]
  unfold checkImage
  simp only
  by_cases hmax : image.length > MAX_CFG_SIZE
  · rw [if_pos hmax]
    exact ⟨(nomatch ·), fun h => absurd h.2.1 (by omega)⟩
  by_cases hmin : image.length < sizeofConfigV0
  · rw [if_neg hmax, if_pos hmin]
    exact ⟨(nomatch ·), fun h => absurd h.2.2.1 (by omega)⟩
  by_cases hodd : image.length &&& 3 ≠ 0
  · rw [if_neg hmax, if_neg hmin, if_pos hodd]
    exact ⟨(nomatch ·), fun h => absurd h.2.2.2.1 hodd⟩
  by_cases hbad : recordSize (ofList image) 0 ≠ image.length ∨ sizeAt (ofList image) 0 >>> 8 = 0xFF
  · rw [if_neg hmax, if_neg hmin, if_neg hodd, if_pos hbad]
    exact ⟨(nomatch ·), fun h => (hbad.elim (fun hr => hr h.2.2.2.2.1) (fun ht => h.2.2.2.2.2.1 ht)).elim⟩
  rw [if_neg hmax, if_neg hmin, if_neg hodd, if_neg hbad,
    evalCrc_ofList image (by unfold sizeofConfigV0 at hmin; omega)]
  obtain ⟨hsz, hnt⟩ := not_or.1 hbad
  simp only [show image.length ≤ MAX_CFG_SIZE by omega, show sizeofConfigV0 ≤ image.length by omega,
    not_ne_iff.1 hodd, not_ne_iff.1 hsz, ne_eq, hnt, not_false_eq_true, true_and]
  by_cases hfill : crcAt (ofList image) 0 = 0xFFFFFFFF
  · rw [if_pos hfill, show savedImage image = fillCrc image from if_pos hfill]
    exact ⟨fun h => by cases h; exact ⟨rfl, Or.inl hfill⟩, fun h => by rw [h.1]; rfl⟩
  · rw [if_neg hfill, show savedImage image = image from if_neg hfill]
    by_cases hcrc : crcAt (ofList image) 0 = imageCrc image
    · rw [if_neg (not_not.2 hcrc)]
      exact ⟨fun h => by cases h; exact ⟨rfl, Or.inr hcrc⟩, fun h => by rw [h.1]⟩
    · rw [if_pos hcrc]
      exact ⟨(nomatch ·), fun h => absurd h.2 (not_or.2 ⟨hfill, hcrc⟩)⟩

theorem imageCrc_savedImage (image : List UInt8) : imageCrc (savedImage image) = imageCrc image := by
  unfold savedImage; split
  · exact imageCrc_fillCrc image
  · rfl

/-! ## The record in memory -/

section

variable {p : Ptr} {n : Nat} {image : List UInt8}

theorem byte_of_window (h : window p n image.length = image) {i : Nat} (hi : i < image.length) :
    p (n + i) = ofList image i := by
  rw [(ByteMem.window_eq_iff p n image).1 h i hi, ByteMem.ofList_of_lt hi]

theorem crcAt_of_window (h : window p n image.length = image) (hlen : 4 ≤ image.length) :
    crcAt p n = crcAt (ofList image) 0 := by
  unfold crcAt
  rw [ByteMem.u32_eq, ByteMem.u32_eq, byte_of_window h (show 1 < _ by omega), byte_of_window h (show 2 < _ by omega),
    byte_of_window h (show 3 < _ by omega)]
  rw [show p n = ofList image 0 from byte_of_window h (show 0 < _ by omega)]

theorem sizeAt_of_window (h : window p n image.length = image) (hlen : 6 ≤ image.length) :
    sizeAt p n = sizeAt (ofList image) 0 := by
  unfold sizeAt
  rw [ByteMem.u16_eq, ByteMem.u16_eq, byte_of_window h (show 4 < _ by omega), Nat.add_assoc n 4 1,
    byte_of_window h (show 4 + 1 < _ by omega)]

theorem evalCrc_of_window (h : window p n image.length = image) (hlen : 4 ≤ image.length) :
    evalCrc p (n + 4) (n + image.length) = imageCrc image := by
  have hd := ByteMem.drop_window p n image.length 4 hlen
  rw [h] at hd
  unfold evalCrc imageCrc
  rw [hd, show n + image.length - (n + 4) = image.length - 4 by omega]

theorem frameAt_of_window (himg : Accepted image) (h : window p n image.length = image)
    (hcrc : imageCrc image ≠ 0xFFFFFFFF) (hfit : n + image.length ≤ MAX_CFG_SIZE) :
    frameAt p n = .record image.length := by
  have hmin := himg.ge_min
  unfold sizeofConfigV0 at hmin
  have hs := sizeAt_of_window h (by omega)
  rw [frameAt_record_iff, crcAt_of_window h (by omega), himg.crc_eq, hs]
  refine ⟨hcrc, himg.not_torn, ?_, hfit⟩
  rw [recordSize, hs, ← recordSize, himg.size_eq]

theorem acceptRecord_of_window (himg : Accepted image) (h : window p n image.length = image) (a : Active) :
    acceptRecord p n image.length a = { a with cfgSize := image.length, config := some n } := by
  have hmin := himg.ge_min
  unfold sizeofConfigV0 at hmin
  rw [acceptRecord, crcAt_of_window h (by omega), evalCrc_of_window h (by omega), if_pos himg.crc_eq,
    if_pos (by unfold sizeofConfig; omega)]

/-- The scan selects a whole record and goes on behind it. -/
theorem scanStep_of_window (himg : Accepted image) (h : window p n image.length = image)
    (hcrc : imageCrc image ≠ 0xFFFFFFFF) (hfit : n + image.length ≤ MAX_CFG_SIZE) (a : Active) :
    scanStep p (n, a) = some (n + image.length, { a with cfgSize := image.length, config := some n }) := by
  have hf := frameAt_of_window himg h hcrc hfit
  refine scanStep_eq_some.2 ⟨?_, ?_⟩
  · rw [nextFrame, hf]
  · rw [frameActive_record hf, acceptRecord_of_window himg h]

end

/-! ## The log grows by the record -/

/-- The bytes before `n` are the old ones, whatever is programmed at `n` and whatever RAM lies behind. -/
theorem agree_program (F : Flash) (past past' : Ptr) {n : Nat} (hn : n ≤ MAX_CFG_SIZE) (data : List UInt8) (i : Nat)
    (hi : i < n) : mem F past i = mem (program F n data) past' i := by
  rw [NorFlash.mem_program_before F past' n data i hi hn, NorFlash.mem_of_lt F past (by omega),
    NorFlash.mem_of_lt F past' (by omega)]

/-- **Every run of the scan up to the append position survives what is written there.** -/
theorem scan_survives {F : Flash} {past : Ptr} {n : Nat} {a b : Active} (hrun : Reaches (scanStep (mem F past)) (0, a) (n, b))
    (hn : n < MAX_CFG_SIZE) (hff : ErasedFrom F n) (past' : Ptr) (data : List UInt8) :
    Reaches (scanStep (mem (program F n data) past')) (0, a) (n, b) := by
  have h4 : 4 ∣ n := reaches_dvd (Nat.dvd_zero 4) (frames_of_scan hrun)
  have hbyte : mem F past (n + 1) = 0xFF := by
    unfold MAX_CFG_SIZE at hn
    exact (NorFlash.erasedFrom_iff_mem F past n).1 hff _ (by omega) (by unfold MAX_CFG_SIZE; omega)
  exact reaches_local h4 hbyte (agree_program F past past' (Nat.le_of_lt hn) data) (Nat.dvd_zero 4) hrun (Nat.le_refl n)

/-- **An appended record is the last frame of the log**, and the selected one. -/
theorem scan_append {F : Flash} {past : Ptr} {n : Nat} {a b : Active} {image : List UInt8}
    (hrun : Reaches (scanStep (mem F past)) (0, a) (n, b)) (hff : ErasedFrom F n) (himg : Accepted image)
    (hcrc : imageCrc image ≠ 0xFFFFFFFF) (hfit : n + image.length ≤ MAX_CFG_SIZE) (past' : Ptr) :
    Reaches (scanStep (mem (program F n image) past')) (0, a)
      (n + image.length, { b with cfgSize := image.length, config := some n }) := by
  have hmin := himg.ge_min
  unfold sizeofConfigV0 at hmin
  have hw := NorFlash.window_program past' hfit (hff.on _)
  exact (scan_survives hrun (by omega) hff past' image).tail (scanStep_of_window himg hw hcrc hfit b)

end Mstd
