import Mstd.SetupAppend
/-!
# Durability of the config log

Every save on a working flash appends one record behind the last one, or erases and starts again at offset 0
(`landing` is where it goes and what it finds there).  A good store stays good, its writes hit erased cells only, and
after a reset the last saved image is the config (`saveMany_durable`).
-/
namespace Mstd

open ByteMem (Ptr window u16 u32 ofList)
open NorFlash (Cells mem program erased ErasedFrom)
open StateTransition (Reaches)
open Relation (ReflTransGen)

/-- **The append position is safe**: the next save erases, or finds erased flash from there to the end. -/
def TailErased (d : Setup) : Prop :=
  d.nextCfgShift = -1 ∨ ∃ n : Nat, d.nextCfgShift = n ∧ n ≤ MAX_CFG_SIZE ∧ ErasedFrom d.flash n

/-- **A good store**: the partition is known, and the append position is where the scan of the flash stops, with
erased flash behind it. -/
structure Good (past : Ptr) (d : Setup) : Prop where
  pat : d.cfgPat = true
  shift : d.nextCfgShift = -1 ∨ ∃ n : Nat, d.nextCfgShift = n ∧ n ≤ MAX_CFG_SIZE ∧ ErasedFrom d.flash n ∧
    Reaches (nextFrame (mem d.flash past)) 0 n

theorem Good.tailErased {past : Ptr} {d : Setup} (h : Good past d) : TailErased d :=
  h.shift.imp_right (fun ⟨n, hn, hle, hff, _⟩ => ⟨n, hn, hle, hff⟩)

/-! ## Where a record lands -/

/-- The flash a record of `len` bytes finds and the offset it goes to, when the erase before it works. -/
def landing (d : Setup) (len : Nat) : Flash × Nat :=
  if d.nextCfgShift < 0 ∨ d.nextCfgShift + len > MAX_CFG_SIZE then (erased, 0)
  else (d.flash, d.nextCfgShift.toNat)

/-- The driver calls before the write. -/
def landingOps (d : Setup) (len : Nat) : List FlashOp :=
  if d.nextCfgShift < 0 ∨ d.nextCfgShift + len > MAX_CFG_SIZE then [.erase] else []

theorem landing_cases (d : Setup) (len : Nat) :
    landing d len = (erased, 0) ∨
      ∃ n : Nat, d.nextCfgShift = n ∧ n + len ≤ MAX_CFG_SIZE ∧ landing d len = (d.flash, n) := by
  unfold landing
  split
  · exact Or.inl rfl
  · rename_i h
    obtain ⟨h0, h1⟩ := not_or.1 h
    obtain ⟨n, hn⟩ := Int.eq_ofNat_of_zero_le (Int.not_lt.1 h0)
    rw [hn] at h1
    refine Or.inr ⟨n, hn, by omega, ?_⟩
    rw [hn, Int.toNat_natCast]

theorem TailErased.landing {d : Setup} {len : Nat} (h : TailErased d) (hlen : len ≤ MAX_CFG_SIZE) :
    ErasedFrom (landing d len).1 (landing d len).2 ∧ (landing d len).2 + len ≤ MAX_CFG_SIZE := by
  obtain hl | ⟨n, hn, hfit, hl⟩ := landing_cases d len
  · rw [hl]; exact ⟨NorFlash.erasedFrom_erased 0, by simpa using hlen⟩
  · rw [hl]
    obtain hneg | ⟨m, hm, -, hff⟩ := h
    · omega
    · obtain rfl : n = m := by omega
      exact ⟨hff, hfit⟩

theorem Good.landing_reaches {past : Ptr} {d : Setup} (h : Good past d) (len : Nat) :
    Reaches (nextFrame (mem (landing d len).1 past)) 0 (landing d len).2 := by
  obtain hl | ⟨n, hn, -, hl⟩ := landing_cases d len
  · rw [hl]; exact ReflTransGen.refl
  · rw [hl]
    obtain hneg | ⟨m, hm, -, -, hr⟩ := h.shift
    · omega
    · obtain rfl : n = m := by omega
      exact hr

/-- **What a save on a working flash does.** -/
theorem storeImage_working (d : Setup) (image : List UInt8) :
    storeImage .working d image =
      { err := none
        image := image
        ops := landingOps d image.length ++ [.write (landing d image.length).1 (landing d image.length).2 image]
        dev := { d with
          flash := program (landing d image.length).1 (landing d image.length).2 image
          nextCfgShift := (landing d image.length).2 + image.length } } := by
  unfold storeImage landing landingOps
  split
  · rfl
  · rename_i h
    obtain ⟨n, hn⟩ := Int.eq_ofNat_of_zero_le (Int.not_lt.1 (not_or.1 h).1)
    unfold writeImage Fate.working
    simp only [hn, Int.toNat_natCast]

theorem landingOps_onErased (d : Setup) (len : Nat) : ∀ op ∈ landingOps d len, op.OnErased := by
  unfold landingOps
  intro op hop
  split at hop
  · obtain rfl := List.mem_singleton.1 hop; trivial
  · cases hop

theorem accepted_of_null {fate : Fate} {d : Setup} {image : List UInt8}
    (h : (saveConfigImage fate d image).err = none) :
    d.cfgPat = true ∧ Accepted (savedImage image) ∧
      saveConfigImage fate d image = storeImage fate d (savedImage image) := by
  unfold saveConfigImage at h ⊢
  cases hpat : d.cfgPat with
  | false => rw [hpat] at h; cases h
  | true =>
    rw [hpat] at h
    cases hc : checkImage image with
    | error e => rw [hc] at h; cases h
    | ok image' =>
      obtain ⟨rfl, hacc⟩ := checkImage_eq_ok.1 hc
      exact ⟨rfl, hacc, rfl⟩

theorem saveConfigImage_accepted {fate : Fate} {d : Setup} {image : List UInt8} (hpat : d.cfgPat = true)
    (hacc : Accepted (savedImage image)) : saveConfigImage fate d image = storeImage fate d (savedImage image) := by
  unfold saveConfigImage
  rw [hpat, checkImage_eq_ok.2 ⟨rfl, hacc⟩]
  rfl

/-- **The writes of a save from a safe position hit erased cells only.** -/
theorem TailErased.save_onErased {d : Setup} {image : List UInt8} (h : TailErased d)
    (hnull : (saveConfigImage .working d image).err = none) :
    ∀ op ∈ (saveConfigImage .working d image).ops, op.OnErased := by
  obtain ⟨-, hacc, heq⟩ := accepted_of_null hnull
  rw [heq, storeImage_working]
  intro op hop
  rcases List.mem_append.1 hop with hop | hop
  · exact landingOps_onErased d _ op hop
  · obtain rfl := List.mem_singleton.1 hop
    exact (h.landing hacc.le_max).1.on _

/-! ## After the append -/

/-- **A record at the end of the log**: it ends at the append position, the flash behind is erased, and a scan under
any RAM reaches it, selects it and goes on behind it. -/
structure AtEnd (d : Setup) (image : List UInt8) (n : Nat) : Prop where
  fit : n + image.length ≤ MAX_CFG_SIZE
  shift : d.nextCfgShift = n + image.length
  free : ErasedFrom d.flash (n + image.length)
  dvd : 4 ∣ n + image.length
  bytes : ∀ past, window (mem d.flash past) n image.length = image
  scan : ∀ past a, ∃ b : Active, Reaches (scanStep (mem d.flash past)) (0, a)
    (n + image.length, { b with cfgSize := image.length, config := some n }) ∧ b.nextCfgShift = a.nextCfgShift

/-- A record programmed where the scan stops is at the end of the log. -/
theorem atEnd_program {past : Ptr} {F : Flash} {n : Nat} {image : List UInt8} {d : Setup} (hff : ErasedFrom F n)
    (hr : Reaches (nextFrame (mem F past)) 0 n) (hacc : Accepted image) (hcrc : imageCrc image ≠ 0xFFFFFFFF)
    (hfit : n + image.length ≤ MAX_CFG_SIZE) (hflash : d.flash = program F n image)
    (hshift : d.nextCfgShift = n + image.length) : AtEnd d image n where
  fit := hfit
  shift := hshift
  free := by rw [hflash]; exact hff.program _
  dvd := Nat.dvd_add (reaches_dvd (Nat.dvd_zero 4) hr) hacc.dvd
  bytes := fun past' => by rw [hflash]; exact NorFlash.window_program past' hfit (hff.on _)
  scan := fun past' a => by
    obtain ⟨b, hb⟩ := scan_of_frames hr a
    rw [hflash]
    exact ⟨b, scan_append hb hff hacc hcrc hfit past', nextCfgShift_reaches hb⟩

/-- **The step**: a successful save on a good store puts its record at the end of the log. -/
theorem Good.save {past : Ptr} {d : Setup} {image : List UInt8} (h : Good past d)
    (hnull : (saveConfigImage .working d image).err = none) (hcrc : imageCrc image ≠ 0xFFFFFFFF) :
    (saveConfigImage .working d image).dev.cfgPat = true ∧
      ∃ n, AtEnd (saveConfigImage .working d image).dev (savedImage image) n := by
  obtain ⟨hpat, hacc, heq⟩ := accepted_of_null hnull
  rw [heq, storeImage_working]
  obtain ⟨hff, hfit⟩ := h.tailErased.landing hacc.le_max
  have hr := h.landing_reaches (savedImage image).length
  rw [← imageCrc_savedImage] at hcrc
  exact ⟨hpat, _, atEnd_program hff hr hacc hcrc hfit rfl rfl⟩

theorem AtEnd.good {d : Setup} {image : List UInt8} {n : Nat} (h : AtEnd d image n) (hpat : d.cfgPat = true)
    (past : Ptr) : Good past d := by
  obtain ⟨b, hb, -⟩ := h.scan past d.toActive
  refine ⟨hpat, Or.inr ⟨n + image.length, ?_, h.fit, h.free, frames_of_scan hb⟩⟩
  rw [h.shift]; rfl

theorem reload_statics {past : Ptr} {F : Flash} {a : Active} (h : findFrom (mem F past) 0 (boot F).toActive = a) :
    (reload past F).config = a.config ∧ (reload past F).cfgSize = a.cfgSize ∧
      (reload past F).nextCfgShift = a.nextCfgShift := by
  subst h
  exact ⟨rfl, rfl, rfl⟩

theorem configBytes_reload (past : Ptr) (F : Flash) :
    (reload past F).configBytes past =
      (reload past F).config.map (fun off => window (mem F past) off (reload past F).cfgSize) := rfl

/-- **After a reset the record at the end of the log is the config.** -/
theorem AtEnd.selected {d : Setup} {image : List UInt8} {n : Nat} (h : AtEnd d image n) (past : Ptr) :
    (reload past d.flash).configBytes past = some image ∧ (reload past d.flash).cfgSize = image.length := by
  obtain ⟨b, hb, -⟩ := h.scan past (boot d.flash).toActive
  have hsel : (reload past d.flash).config = some n ∧ (reload past d.flash).cfgSize = image.length := by
    have hfind := findFrom_reaches hb
    by_cases hend : MAX_CFG_SIZE ≤ n + image.length
    · rw [findFrom_finish hend] at hfind
      obtain ⟨h1, h2, -⟩ := reload_statics hfind
      exact ⟨h1, h2⟩
    · have hroom : n + image.length + 4 ≤ MAX_CFG_SIZE := by
        have h4 := h.dvd
        unfold MAX_CFG_SIZE at *
        omega
      rw [findFrom_erased h.free hroom] at hfind
      obtain ⟨h1, h2, -⟩ := reload_statics hfind
      exact ⟨h1, h2⟩
  rw [configBytes_reload, hsel.1, hsel.2, Option.map_some, h.bytes past]
  exact ⟨rfl, rfl⟩

/-! ## Sequences of saves -/

/-- The results of saving these images one after another. -/
def saveMany (d : Setup) : List (List UInt8) → List Saved
  | []            => []
  | image :: rest => saveConfigImage .working d image :: saveMany (saveConfigImage .working d image).dev rest

theorem saveMany_ne_nil {d : Setup} {images : List (List UInt8)} (h : images ≠ []) : saveMany d images ≠ [] := by
  cases images with
  | nil => exact absurd rfl h
  | cons image rest => exact List.cons_ne_nil _ _

/-- **Durability of the config log.**  From a good store, saves that all return `NULL` write to erased cells only and
keep the store good, and after a reset `config` is the last saved image, with its CRC filled in. -/
theorem saveMany_durable (past : Ptr) (d : Setup) (images : List (List UInt8)) (hne : images ≠ [])
    (hgood : Good past d) (hnull : ∀ r ∈ saveMany d images, r.err = none)
    (hcrc : ∀ image ∈ images, imageCrc image ≠ 0xFFFFFFFF) :
    (∀ r ∈ saveMany d images, (∀ op ∈ r.ops, op.OnErased) ∧ Good past r.dev) ∧
    ∀ past', let d' := reload past' ((saveMany d images).getLast (saveMany_ne_nil hne)).dev.flash
      d'.configBytes past' = some (savedImage (images.getLast hne)) ∧
        d'.cfgSize = (images.getLast hne).length := by
  induction images generalizing d with
  | nil => exact absurd rfl hne
  | cons image rest ih =>
    have hnull₁ : (saveConfigImage .working d image).err = none := hnull _ (List.mem_cons_self ..)
    obtain ⟨hpat, n, hend⟩ := hgood.save hnull₁ (hcrc image (List.mem_cons_self ..))
    have hgood₁ := hend.good hpat past
    have hops := hgood.tailErased.save_onErased hnull₁
    cases rest with
    | nil =>
      refine ⟨fun r hr => ?_, fun past' => ?_⟩
      · obtain rfl := List.mem_singleton.1 hr
        exact ⟨hops, hgood₁⟩
      · have hload := hend.selected past'
        obtain ⟨-, hacc, -⟩ := accepted_of_null hnull₁
        rw [length_savedImage (four_le_of_accepted hacc)] at hload
        exact hload
    | cons image' rest' =>
      obtain ⟨hall, hlast⟩ := ih _ (List.cons_ne_nil _ _) hgood₁
        (fun r hr => hnull r (List.mem_cons_of_mem _ hr)) (fun i hi => hcrc i (List.mem_cons_of_mem _ hi))
      refine ⟨fun r hr => ?_, hlast⟩
      rcases List.mem_cons.1 hr with rfl | hr
      · exact ⟨hops, hgood₁⟩
      · exact hall r hr

/-- A fresh store, and an image of the smallest size with its CRC field to fill. -/
def freshStore : Setup := { boot erased with cfgPat := true }

def smallImage : List UInt8 := [0xFF, 0xFF, 0xFF, 0xFF, 0x1A, 0x00, 0x01] ++ List.replicate 101 0x00

theorem freshStore_good (past : Ptr) : Good past freshStore :=
  ⟨rfl, Or.inr ⟨0, rfl, Nat.zero_le _, NorFlash.erasedFrom_erased 0, ReflTransGen.refl⟩⟩

theorem smallImage_crc : imageCrc smallImage ≠ 0xFFFFFFFF := by decide +kernel

theorem saveMany_durable_fresh :
    (reload (fun _ => 0) ((saveMany freshStore [smallImage, smallImage]).getLast (by simp [saveMany])).dev.flash).configBytes
      (fun _ => 0) = some (savedImage smallImage) :=
  ((saveMany_durable (fun _ => 0) freshStore [smallImage, smallImage] (by simp) (freshStore_good _)
    (by
      intro r hr
      simp only [saveMany, List.mem_cons, List.not_mem_nil, or_false] at hr
      rcases hr with rfl | rfl <;> decide +kernel)
    (by
      intro image hi
      simp only [List.mem_cons, List.not_mem_nil, or_false, or_self] at hi
      subst hi
      exact smallImage_crc)).2 (fun _ => 0)).1

end Mstd
