import Mstd.SetupLoad
/-!
# A power cut during an append

Only the first `k` bytes of the record reach the flash.  At the append position the scan then sees erased flash, a torn
header with erased flash behind it, or a record of the saved length with erased flash behind it (`cut_cases`); the log
before it is scanned as before (`scan_survives`).
-/
namespace Mstd

open ByteMem (Ptr window u16 u32 ofList)
open NorFlash (Cells mem program erased ErasedFrom)
open StateTransition (Reaches)
open Relation (ReflTransGen)

/-- The partition after a cut that lets the first `k` bytes through. -/
def cutAppend (F : Flash) (n : Nat) (image : List UInt8) (k : Nat) : Flash := program F n (image.take k)

section

variable {F : Flash} {past : Ptr} {n k : Nat} {image : List UInt8}

theorem cut_written (hff : ErasedFrom F n) (hfit : n + image.length ≤ MAX_CFG_SIZE) {i : Nat} (hi : i < image.length)
    (hk : i < k) : mem (cutAppend F n image k) past (n + i) = ofList image i := by
  have hlt : n + i < MAX_CFG_SIZE := by omega
  have htake : i < (image.take k).length := by rw [List.length_take]; omega
  rw [NorFlash.mem_of_lt _ past hlt, cutAppend,
    NorFlash.program_of_erased F n (image.take k) ⟨n + i, hlt⟩ i htake rfl (hff _ (Nat.le_add_right n i)),
    List.getElem_take, ByteMem.ofList_of_lt hi]

theorem cut_erased (hff : ErasedFrom F n) : ErasedFrom (cutAppend F n image k) (n + k) := by
  have h := hff.program (image.take k)
  have hle : n + (image.take k).length ≤ n + k := by rw [List.length_take]; omega
  exact h.mono hle

theorem mem_cut_erased (hff : ErasedFrom F n) {i : Nat} (hi : k ≤ i) (hfit : n + i < MAX_CFG_SIZE) :
    mem (cutAppend F n image k) past (n + i) = 0xFF :=
  (NorFlash.erasedFrom_iff_mem _ past _).1 (cut_erased hff) _ (by omega) hfit

/-- **What the scan sees where the power was cut.** -/
theorem cut_cases (past : Ptr) (hff : ErasedFrom F n) (himg : Accepted image) (hcrc : imageCrc image ≠ 0xFFFFFFFF)
    (hfit : n + image.length ≤ MAX_CFG_SIZE) (hk : k ≤ image.length) :
    (ErasedFrom (cutAppend F n image k) n ∧ k < 4) ∨
    (frameAt (mem (cutAppend F n image k) past) n = .torn ∧ ErasedFrom (cutAppend F n image k) (n + 8) ∧ k < 6) ∨
    frameAt (mem (cutAppend F n image k) past) n = .record image.length := by
  have hmin := himg.ge_min
  unfold sizeofConfigV0 at hmin
  have herased : ∀ i, k ≤ i → i < image.length → mem (cutAppend F n image k) past (n + i) = 0xFF :=
    fun i hi hlt => mem_cut_erased hff hi (by omega)
  have hwritten : ∀ i, i < k → mem (cutAppend F n image k) past (n + i) = ofList image i :=
    fun i hi => cut_written hff hfit (by omega) hi
  by_cases hones : crcAt (mem (cutAppend F n image k) past) n = 0xFFFFFFFF
  · -- the written part of the CRC field is all ones, so less than the field was written
    have hfield := (ByteMem.u32_eq_max_iff _ _).1 hones
    have hk4 : k < 4 := by
      by_contra hge
      refine hcrc (himg.crc_eq ▸ (ByteMem.u32_eq_max_iff _ _).2 (fun i hi hi4 => ?_))
      rw [← hwritten i (by omega)]
      exact hfield _ (by omega) (by omega)
    refine Or.inl ⟨(NorFlash.erasedFrom_iff_mem _ past n).2 (fun i hi hlt => ?_), hk4⟩
    by_cases h4 : i < n + 4
    · exact hfield i hi h4
    · obtain ⟨j, rfl⟩ := Nat.exists_eq_add_of_le hi
      exact mem_cut_erased hff (by omega) hlt
  have hhigh := ByteMem.u16_shiftRight (mem (cutAppend F n image k) past) (n + 4)
  by_cases hk6 : k < 6
  · have hff5 : mem (cutAppend F n image k) past (n + 4 + 1) = 0xFF := herased 5 (by omega) (by omega)
    rw [hff5] at hhigh
    refine Or.inr (Or.inl ⟨(frameAt_torn_iff _ _).2 ⟨by omega, hones, hhigh⟩, (cut_erased hff).mono (by omega), hk6⟩)
  · have hsize : sizeAt (mem (cutAppend F n image k) past) n = sizeAt (ofList image) 0 := by
      unfold sizeAt
      rw [ByteMem.u16_eq, ByteMem.u16_eq, hwritten 4 (by omega), Nat.add_assoc n 4 1, hwritten 5 (by omega)]
    have hrec : recordSize (mem (cutAppend F n image k) past) n = image.length := by
      rw [recordSize, hsize, ← recordSize, himg.size_eq]
    exact Or.inr (Or.inr ((frameAt_record_iff _ _ _).2 ⟨hones, hsize ▸ himg.not_torn, hrec.symm, hfit⟩))

/-- **The statics after the scan of a log cut at its end**: those before the record with an append position at or eight
bytes behind the old one, or those a record of the saved length leaves. -/
theorem cut_find {a b : Active} (hrun : Reaches (scanStep (mem F past)) (0, a) (n, b)) (h4 : 4 ∣ n)
    (hff : ErasedFrom F n) (himg : Accepted image) (hcrc : imageCrc image ≠ 0xFFFFFFFF)
    (hfit : n + image.length ≤ MAX_CFG_SIZE) (hk : k ≤ image.length) (past' : Ptr) :
    (∃ m : Nat, (m = n ∨ m = n + 8) ∧ ErasedFrom (cutAppend F n image k) m ∧ k < image.length ∧
      findFrom (mem (cutAppend F n image k) past') 0 a = { b with nextCfgShift := m }) ∨
    (ErasedFrom (cutAppend F n image k) (n + image.length) ∧
      findFrom (mem (cutAppend F n image k) past') 0 a =
        { acceptRecord (mem (cutAppend F n image k) past') n image.length b with
          nextCfgShift := if n + image.length < MAX_CFG_SIZE then ((n + image.length : Nat) : Int)
            else b.nextCfgShift }) := by
  have hmin := himg.ge_min
  unfold sizeofConfigV0 at hmin
  have hstart : findFrom (mem (cutAppend F n image k) past') 0 a = findFrom (mem (cutAppend F n image k) past') n b :=
    findFrom_reaches (scan_survives hrun (by omega) hff past' (image.take k))
  rw [hstart]
  obtain ⟨he, hk4⟩ | ⟨ht, he, hk6⟩ | hr := cut_cases past' hff himg hcrc hfit hk
  · exact Or.inl ⟨n, Or.inl rfl, he, by omega, findFrom_erased he (by omega)⟩
  · have hstep : scanStep (mem (cutAppend F n image k) past') (n, b) = some (n + 8, b) := by
      refine scanStep_eq_some.2 ⟨?_, ?_⟩
      · rw [nextFrame, ht, afterTorn_eq h4]
      · rw [frameActive_torn ht]
    refine Or.inl ⟨n + 8, Or.inr rfl, he, by omega, ?_⟩
    rw [findFrom_scanStep hstep, findFrom_erased he (by omega)]
  · have he : ErasedFrom (cutAppend F n image k) (n + image.length) := (cut_erased hff).mono (by omega)
    have hstep : scanStep (mem (cutAppend F n image k) past') (n, b) =
        some (n + image.length, acceptRecord (mem (cutAppend F n image k) past') n image.length b) := by
      refine scanStep_eq_some.2 ⟨?_, ?_⟩
      · rw [nextFrame, hr]
      · rw [frameActive_record hr]
    refine Or.inr ⟨he, ?_⟩
    rw [findFrom_scanStep hstep]
    by_cases hend : n + image.length < MAX_CFG_SIZE
    · have hroom : n + image.length + 4 ≤ MAX_CFG_SIZE := by
        have hdvd := himg.dvd
        unfold MAX_CFG_SIZE at *
        omega
      rw [findFrom_erased he hroom, if_pos hend]
    · rw [findFrom_finish (by omega), if_neg hend, ← nextCfgShift_acceptRecord _ n image.length b]

end

/-- The cut is a save whose write stops after `k` bytes. -/
theorem save_cut {d : Setup} {n k : Nat} {image : List UInt8} (hpat : d.cfgPat = true) (hshift : d.nextCfgShift = n)
    (himg : Accepted (savedImage image)) (hfit : n + (savedImage image).length ≤ MAX_CFG_SIZE) :
    (saveConfigImage ⟨true, some k⟩ d image).dev.flash = cutAppend d.flash n (savedImage image) k := by
  have hpos : ¬ (d.nextCfgShift < 0 ∨ d.nextCfgShift + (savedImage image).length > MAX_CFG_SIZE) := by
    rw [hshift]; omega
  rw [saveConfigImage_accepted hpat himg, storeImage, if_neg hpos]
  simp only [writeImage, hshift, Int.toNat_natCast]
  rfl

/-- The run behind a load that ends in the free-space branch. -/
theorem FreeAt.run {past : Ptr} {F : Flash} {n : Nat} (h : FreeAt past F n) (hshift : (reload past F).nextCfgShift = n) :
    ∃ b : Active, Reaches (scanStep (mem F past)) (0, (boot F).toActive) (n, b) ∧ b.Before n ∧ ErasedFrom F n ∧
      (reload past F).config = b.config ∧ (reload past F).cfgSize = b.cfgSize := by
  obtain ⟨b, hb⟩ := scan_of_frames h.1 (boot F).toActive
  have hfind := findFrom_reaches hb
  rw [findFrom_free h.2] at hfind
  obtain ⟨h1, h2, h3⟩ := reload_statics hfind
  refine ⟨b, hb, before_reaches hb (fun off hoff => by cases hoff), ?_, h1, h2⟩
  cases hc : checkForFreeBytes (mem F past) n MAX_CFG_SIZE with
  | true => exact erasedFrom_of_check hc
  | false =>
    rw [hc, hshift] at h3
    simp at h3

/-- A record before the append position reads the same, whatever is programmed behind it. -/
theorem configBytes_program (F : Flash) (past past' : Ptr) {n : Nat} (data : List UInt8) {b : Active} (hb : b.Before n)
    (hn : n ≤ MAX_CFG_SIZE) :
    b.config.map (fun off => window (mem (program F n data) past') off b.cfgSize) =
      b.config.map (fun off => window (mem F past) off b.cfgSize) := by
  cases hc : b.config with
  | none => rfl
  | some off =>
    have hle := hb off hc
    have hagree : ∀ i, off ≤ i → i < off + b.cfgSize → mem (program F n data) past' i = mem F past i :=
      fun i _ hi => (agree_program F past past' hn data i (by omega)).symm
    rw [Option.map_some, Option.map_some, ByteMem.window_congr hagree]

/-- **Power-cut safety of an append.**  Whatever prefix of an accepted image reaches the flash behind the log, the next
load selects the whole image, the config from before, or a torn record whose bytes satisfy its CRC field; and with room
left behind the image it finds an erased tail at the old position, eight bytes later, or behind the image. -/
theorem power_cut_safe (past past' : Ptr) (F : Flash) (n k : Nat) (image image' : List UInt8) (hfree : FreeAt past F n)
    (hshift : (reload past F).nextCfgShift = n) (haccept : checkImage image = .ok image')
    (hfit : n + image.length ≤ MAX_CFG_SIZE) (hcrc : imageCrc image ≠ 0xFFFFFFFF) (hk : k ≤ image.length) :
    let before := reload past F
    let F' := (saveConfigImage ⟨true, some k⟩ before image).dev.flash
    let after := reload past' F'
    (k = image.length →
      after.config = some n ∧ after.cfgSize = image.length ∧ after.configBytes past' = some image') ∧
    (k < image.length →
      (after.config = before.config ∧ after.cfgSize = before.cfgSize ∧
        after.configBytes past' = before.configBytes past) ∨
      (after.config = some n ∧ after.cfgSize = image.length ∧
        crcAt (mem F' past') n = evalCrc (mem F' past') (n + 4) (n + image.length))) ∧
    (n + image.length < MAX_CFG_SIZE →
      ∃ m : Nat, (m = n ∨ m = n + 8 ∨ m = n + image.length) ∧ after.nextCfgShift = m ∧ ErasedFrom F' m) := by
  intro before F' after
  obtain ⟨rfl, himg⟩ := checkImage_eq_ok.1 haccept
  have hlen := length_savedImage (four_le_of_accepted himg)
  rw [← hlen] at hfit hk ⊢
  rw [← imageCrc_savedImage] at hcrc
  obtain ⟨b, hb, hbefore, hff, hconf, hsize⟩ := hfree.run hshift
  have hF' : F' = cutAppend F n (savedImage image) k := save_cut rfl hshift himg hfit
  -- the config from before is selected when the scan leaves the statics before the record
  have hkept : after.config = b.config → after.cfgSize = b.cfgSize →
      after.config = before.config ∧ after.cfgSize = before.cfgSize ∧
        after.configBytes past' = before.configBytes past := by
    intro h1 h2
    refine ⟨h1.trans hconf.symm, h2.trans hsize.symm, ?_⟩
    have hsame := configBytes_program F past past' ((savedImage image).take k) hbefore (by omega)
    rw [← cutAppend, ← hF'] at hsame
    rw [configBytes_reload past', configBytes_reload past, hconf, hsize, ← hsame, ← h1, ← h2]
  obtain ⟨m, hm, he, hkL, hfind⟩ | ⟨he, hfind⟩ := cut_find hb (reaches_dvd (Nat.dvd_zero 4) hfree.1) hff himg hcrc hfit
    hk past'
  · rw [← hF'] at hfind he
    obtain ⟨h1, h2, h3⟩ := reload_statics hfind
    exact ⟨fun hkeq => absurd hkeq (by omega), fun _ => Or.inl (hkept h1 h2), fun _ => ⟨m, by omega, h3, he⟩⟩
  · rw [← hF'] at hfind he
    refine ⟨fun hkeq => ?_, fun _ => ?_, fun hroom => ⟨_, Or.inr (Or.inr rfl), ?_, he⟩⟩
    · -- nothing was cut: the record is there in full
      have hw := NorFlash.window_program past' hfit (hff.on (n + (savedImage image).length))
      have hcut : F' = program F n (savedImage image) := by rw [hF', cutAppend, hkeq, List.take_length]
      rw [← hcut] at hw
      rw [acceptRecord_of_window himg hw] at hfind
      obtain ⟨h1, h2, -⟩ := reload_statics hfind
      refine ⟨h1, h2, ?_⟩
      rw [configBytes_reload past', h1, h2, Option.map_some, hw]
    · obtain ⟨h1, h2, -⟩ := reload_statics hfind
      by_cases hmatch : crcAt (mem F' past') n = evalCrc (mem F' past') (n + 4) (n + (savedImage image).length)
      · have hmin := himg.ge_min
        unfold sizeofConfigV0 at hmin
        rw [acceptRecord, if_pos hmatch, if_pos (by unfold sizeofConfig; omega)] at h1 h2
        exact Or.inr ⟨h1, h2, hmatch⟩
      · rw [acceptRecord, if_neg hmatch] at h1 h2
        exact Or.inl (hkept h1 h2)
    · obtain ⟨-, -, h3⟩ := reload_statics hfind
      rwa [if_pos hroom] at h3

/-- A cut in the middle of the first record of a fresh partition. -/
theorem power_cut_safe_fresh :
    let F' := (saveConfigImage ⟨true, some 50⟩ (reload (fun _ => 0) erased) smallImage).dev.flash
    ∃ m : Nat, (m = 0 ∨ m = 0 + 8 ∨ m = 0 + smallImage.length) ∧ (reload (fun _ => 0) F').nextCfgShift = m ∧
      ErasedFrom F' m :=
  (power_cut_safe (fun _ => 0) (fun _ => 0) erased 0 50 smallImage (savedImage smallImage)
    ⟨ReflTransGen.refl, by decide⟩
    (by
      show (findFrom (mem erased (fun _ => 0)) 0 (boot erased).toActive).nextCfgShift = 0
      rw [findFrom_erased (NorFlash.erasedFrom_erased 0) (by decide)]
      rfl)
    (checkImage_eq_ok.2 ⟨rfl, (accepted_savedImage_iff smallImage).2 (by decide +kernel)⟩)
    (by decide) smallImage_crc (by decide)).2.2 (by decide)

end Mstd
