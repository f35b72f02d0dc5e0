import Mstd.SetupFull
/-!
# What a save leaves selected

`selected` is the config `load_config` would select from the flash.  A save that reaches the flash leaves the bytes it
wrote selected, when they are a record (`Selectable`), and otherwise what was selected before it, or nothing once the
partition is erased (`selected_run_iff`).
-/
namespace Mstd

open ByteMem (Ptr window u16 u32 ofList)
open NorFlash (Cells mem program erased ErasedFrom)
open StateTransition (Reaches)
open Relation (ReflTransGen)

/-- The bytes of the config that `load_config` would select from this partition content. -/
def selected (past : Ptr) (F : Flash) : Option (List UInt8) := (reload past F).configBytes past

/-- The bytes at the record's place after a write: those that did not get through are erased. -/
def Fate.written (fate : Fate) (image : List UInt8) : List UInt8 :=
  match fate.writeFail with
  | none   => image
  | some k => image.take k ++ List.replicate (image.length - k) 0xFF

/-- The scan takes these bytes for a record. -/
def Selectable (w : List UInt8) : Prop :=
  crcAt (ofList w) 0 ≠ 0xFFFFFFFF ∧ sizeAt (ofList w) 0 >>> 8 ≠ 0xFF ∧ crcAt (ofList w) 0 = imageCrc w

instance (w : List UInt8) : Decidable (Selectable w) := by unfold Selectable; infer_instance

theorem length_written (fate : Fate) (image : List UInt8) : (fate.written image).length = image.length := by
  unfold Fate.written
  split
  · rfl
  · rw [List.length_append, List.length_take, List.length_replicate]; omega

theorem program_written (fate : Fate) (F : Flash) (n : Nat) (image : List UInt8) :
    program F n (fate.written image) =
      match fate.writeFail with
      | none   => program F n image
      | some k => program F n (image.take k) := by
  unfold Fate.written
  cases fate.writeFail with
  | none => rfl
  | some k => exact NorFlash.program_append_ones F n (image.take k) _

/-- The header got through, or the second byte of its size field is erased. -/
theorem header_written (fate : Fate) (image : List UInt8) (hlen : 6 ≤ image.length) :
    (∃ k ≤ 5, fate.writeFail = some k ∧ ofList (fate.written image) 5 = 0xFF) ∨
      sizeAt (ofList (fate.written image)) 0 = sizeAt (ofList image) 0 := by
  unfold Fate.written
  cases hw : fate.writeFail with
  | none => exact Or.inr rfl
  | some k =>
    simp only
    by_cases hk : k ≤ 5
    · refine Or.inl ⟨k, hk, rfl, ?_⟩
      rw [ByteMem.ofList_of_lt (by simp; omega), List.getElem_append_right (by simp; omega), List.getElem_replicate]
    · refine Or.inr (ByteMem.u16_congr (fun i hi hi2 => ?_))
      rw [ByteMem.ofList_of_lt (by simp; omega), ByteMem.ofList_of_lt (by omega),
        List.getElem_append_left (by simp; omega), List.getElem_take]

section

variable {F : Flash} {past : Ptr} {n : Nat} {image : List UInt8} {fate : Fate}

/-- Behind a scan that has come to erased flash nothing more is selected. -/
theorem selected_of_reaches {a : Active} (hrun : Reaches (scanStep (mem F past)) (0, (boot F).toActive) (n, a))
    (h4 : 4 ∣ n) (hff : ErasedFrom F n) :
    selected past F = a.config.map (fun off => window (mem F past) off a.cfgSize) := by
  have hfind := findFrom_reaches hrun
  rw [selected, configBytes_reload]
  by_cases hend : MAX_CFG_SIZE ≤ n
  · rw [findFrom_finish hend] at hfind
    obtain ⟨h1, h2, -⟩ := reload_statics hfind
    rw [h1, h2]
  · have hroom : n + 4 ≤ MAX_CFG_SIZE := by unfold MAX_CFG_SIZE at *; omega
    rw [findFrom_erased hff hroom] at hfind
    obtain ⟨h1, h2, -⟩ := reload_statics hfind
    rw [h1, h2]

/-- The frame the scan finds where a record was written. -/
theorem frameAt_written {p : Ptr} (hw : window p n (fate.written image).length = fate.written image)
    (himg : Accepted image) (hfit : n + image.length ≤ MAX_CFG_SIZE) :
    frameAt p n =
      if crcAt (ofList (fate.written image)) 0 = 0xFFFFFFFF then .free
      else if sizeAt (ofList (fate.written image)) 0 >>> 8 = 0xFF then .torn else .record image.length := by
  have hlen := length_written fate image
  have hmin := himg.ge_min
  unfold sizeofConfigV0 at hmin
  have hn : n < MAX_CFG_SIZE := by omega
  have hcrc := crcAt_of_window hw (by omega)
  have hsize := sizeAt_of_window hw (by omega)
  by_cases hones : crcAt (ofList (fate.written image)) 0 = 0xFFFFFFFF
  · rw [if_pos hones]
    exact (frameAt_free_iff _ _).2 ⟨hn, hcrc.trans hones⟩
  rw [if_neg hones]
  by_cases htorn : sizeAt (ofList (fate.written image)) 0 >>> 8 = 0xFF
  · rw [if_pos htorn]
    exact (frameAt_torn_iff _ _).2 ⟨hn, by rwa [hcrc], by rwa [hsize]⟩
  rw [if_neg htorn]
  refine (frameAt_record_iff _ _ _).2 ⟨by rwa [hcrc], by rwa [hsize], ?_, hfit⟩
  obtain ⟨k, -, -, h5⟩ | hsame := header_written fate image (by omega)
  · refine absurd ?_ htorn
    rw [sizeAt, ByteMem.u16_shiftRight, h5]
    rfl
  · rw [recordSize, hsize, hsame, ← recordSize, himg.size_eq]

/-- **A record that does not get through leaves the old config selected.** -/
theorem selected_program (hreach : Reaches (nextFrame (mem F past)) 0 n) (hff : ErasedFrom F n)
    (himg : Accepted image) (hfit : n + image.length ≤ MAX_CFG_SIZE) :
    selected past (program F n (fate.written image)) =
      if Selectable (fate.written image) then some (fate.written image) else selected past F := by
  have hlen := length_written fate image
  have hmin := himg.ge_min
  unfold sizeofConfigV0 at hmin
  have h4 := reaches_dvd (Nat.dvd_zero 4) hreach
  have hw : window (mem (program F n (fate.written image)) past) n (fate.written image).length = fate.written image :=
    NorFlash.window_program past (by omega) (hff.on _)
  obtain ⟨b, hb⟩ := scan_of_frames hreach (boot F).toActive
  have hbefore : b.Before n := before_reaches hb (fun off hoff => by cases hoff)
  have hrun : Reaches (scanStep (mem (program F n (fate.written image)) past)) (0, (boot F).toActive) (n, b) :=
    scan_survives hb (by omega) hff past _
  have hold : b.config.map (fun off => window (mem (program F n (fate.written image)) past) off b.cfgSize) =
      selected past F := by
    rw [selected_of_reaches hb h4 hff, configBytes_program F past past _ hbefore (by omega)]
  have hframe := frameAt_written hw himg hfit
  by_cases hones : crcAt (ofList (fate.written image)) 0 = 0xFFFFFFFF
  · -- the header reads as free flash
    rw [if_pos hones] at hframe
    rw [if_neg (fun h => h.1 hones), ← hold]
    obtain ⟨h1, h2, -⟩ := reload_statics ((findFrom_reaches hrun).trans (findFrom_free hframe))
    rw [selected, configBytes_reload, h1, h2]
  rw [if_neg hones] at hframe
  by_cases htorn : sizeAt (ofList (fate.written image)) 0 >>> 8 = 0xFF
  · -- the scan skips the header and finds erased flash
    rw [if_pos htorn] at hframe
    rw [if_neg (fun h => h.2.1 htorn), ← hold]
    have hstep : scanStep (mem (program F n (fate.written image)) past) (n, b) = some (n + 8, b) :=
      scanStep_eq_some.2 ⟨by rw [nextFrame, hframe, afterTorn_eq h4], by rw [frameActive_torn hframe]⟩
    refine selected_of_reaches (hrun.tail hstep) (by omega) ?_
    obtain ⟨k, hk, hfail, -⟩ | hsame := header_written fate image (by omega)
    · rw [program_written, hfail]
      exact (hff.program _).mono (by rw [List.length_take]; omega)
    · exact absurd (hsame ▸ htorn) himg.not_torn
  rw [if_neg htorn] at hframe
  have hstep : scanStep (mem (program F n (fate.written image)) past) (n, b) =
      some (n + image.length, acceptRecord (mem (program F n (fate.written image)) past) n image.length b) :=
    scanStep_eq_some.2 ⟨by rw [nextFrame, hframe], by rw [frameActive_record hframe]⟩
  rw [selected_of_reaches (hrun.tail hstep) (Nat.dvd_add h4 himg.dvd) (by rw [← hlen]; exact hff.program _)]
  have hcrc := crcAt_of_window hw (by omega)
  have hsum := evalCrc_of_window hw (by omega)
  rw [hlen] at hsum hw
  unfold acceptRecord
  rw [hcrc, hsum]
  by_cases hmatch : crcAt (ofList (fate.written image)) 0 = imageCrc (fate.written image)
  · rw [if_pos hmatch, if_pos (by unfold sizeofConfig; omega), if_pos ⟨hones, htorn, hmatch⟩, Option.map_some, hw]
  · rw [if_neg hmatch, if_neg (fun h => hmatch h.2.2), hold]

end

theorem selected_erased (past : Ptr) : selected past erased = none :=
  selected_of_reaches ReflTransGen.refl (Nat.dvd_zero 4) (NorFlash.erasedFrom_erased 0)

theorem cfgSize_frameActive {p : Ptr} {x y : Nat} {a : Active} (h : nextFrame p x = some y)
    (ha : a.cfgSize ≤ MAX_CFG_SIZE) : (frameActive p x a).cfgSize ≤ MAX_CFG_SIZE := by
  obtain ⟨hf, -⟩ | ⟨hf, rfl, hle⟩ := nextFrame_cases h
  · rw [frameActive_torn hf]; exact ha
  · rw [frameActive_record hf]
    unfold acceptRecord
    split
    · split
      · show recordSize p x ≤ MAX_CFG_SIZE
        omega
      · exact ha
    · exact ha

theorem reload_fits (past : Ptr) (F : Flash) : (reload past F).cfgSize ≤ MAX_CFG_SIZE := by
  obtain ⟨y, b, hr, -, -, hsize⟩ := findFrom_selected (mem F past) 0 (boot F).toActive
  have hboot : (boot F).toActive.cfgSize = 0 := rfl
  have hb : b.cfgSize ≤ MAX_CFG_SIZE := by
    refine Runs.reaches_invariant (I := fun s : Nat × Active => s.2.cfgSize ≤ MAX_CFG_SIZE) (fun s t hs hst => ?_) hr
      (hboot ▸ Nat.zero_le _)
    obtain ⟨hn, h2⟩ := scanStep_eq_some.1 hst
    rw [h2]
    exact cfgSize_frameActive hn hs
  rwa [show (reload past F).cfgSize = b.cfgSize from hsize]

/-! ## The two writers -/

/-- The flash operations of a save: none, or the content of the partition may change. -/
theorem ops_saveConfigImage (fate : Fate) (d : Setup) (image : List UInt8) :
    (saveConfigImage fate d image).ops = [] ↔ d.cfgPat = false ∨ ∃ e, checkImage image = .error e := by
  unfold saveConfigImage
  cases d.cfgPat with
  | false => simp
  | true =>
    cases hc : checkImage image with
    | error e => simp
    | ok image' =>
      simp only [Bool.not_true, Bool.false_eq_true, if_false, false_or, reduceCtorEq, exists_false, iff_false]
      unfold storeImage writeImage
      split
      · split
        · split <;> exact List.cons_ne_nil _ _
        · exact List.cons_ne_nil _ _
      · split <;> exact List.cons_ne_nil _ _

theorem ops_saveConfigFull (fate : Fate) (d : Setup) (X : Flash) :
    (saveConfigFull fate d X).ops = [] ↔ d.cfgPat = false := by
  unfold saveConfigFull
  cases d.cfgPat with
  | false => simp
  | true =>
    simp only [Bool.not_true, Bool.false_eq_true, if_false, Bool.true_eq_false, iff_false]
    split
    · exact List.cons_ne_nil _ _
    · split <;> exact List.cons_ne_nil _ _

theorem dev_saveConfigImage {fate : Fate} {d : Setup} {image : List UInt8}
    (h : (saveConfigImage fate d image).ops = []) : (saveConfigImage fate d image).dev = d := by
  rcases (ops_saveConfigImage fate d image).1 h with hpat | ⟨e, he⟩
  · simp [saveConfigImage, hpat]
  · unfold saveConfigImage
    rw [he]
    split <;> rfl

theorem dev_saveConfigFull {fate : Fate} {d : Setup} {X : Flash} (h : (saveConfigFull fate d X).ops = []) :
    (saveConfigFull fate d X).dev = d := by
  simp [saveConfigFull, (ops_saveConfigFull fate d X).1 h]

theorem storeImage_flash {fate : Fate} {d : Setup} {image : List UInt8}
    (hok : (d.nextCfgShift < 0 ∨ d.nextCfgShift + image.length > MAX_CFG_SIZE) → fate.eraseOk = true) :
    (storeImage fate d image).dev.flash =
      program (landing d image.length).1 (landing d image.length).2 (fate.written image) := by
  rw [program_written]
  unfold storeImage landing writeImage
  by_cases hneed : d.nextCfgShift < 0 ∨ d.nextCfgShift + image.length > MAX_CFG_SIZE
  · rw [if_pos hneed, if_pos hneed, if_pos (hok hneed)]
    cases fate.writeFail <;> rfl
  · rw [if_neg hneed, if_neg hneed]
    cases fate.writeFail <;> rfl

/-- **The save leaves the config in RAM selected**: a record that goes behind the log of a good store is that config,
when it is a record at all, and so is what an erased partition gets. -/
def SaveCall.Keeps (past : Ptr) (fate : Fate) (d : Setup) : SaveCall → Prop
  | .image img => d.cfgPat = true → Accepted (savedImage img) →
      if d.nextCfgShift < 0 ∨ d.nextCfgShift + (savedImage img).length > MAX_CFG_SIZE then
        fate.eraseOk = true → (if Selectable (fate.written (savedImage img)) then some (fate.written (savedImage img))
          else none) = d.configBytes past
      else
        Good past d ∧ (Selectable (fate.written (savedImage img)) →
          some (fate.written (savedImage img)) = d.configBytes past)
  | .full X => d.cfgPat = true → fate.eraseOk = true →
      selected past (program erased 0 (fate.written (flashBytes X))) = d.configBytes past

theorem flash_full {fate : Fate} {d : Setup} {X : Flash} (hpat : d.cfgPat = true) (hok : fate.eraseOk = true) :
    (saveConfigFull fate d X).dev.flash = program erased 0 (fate.written (flashBytes X)) := by
  rw [program_written]
  unfold saveConfigFull
  simp only [hpat, hok, Bool.not_true, Bool.false_eq_true, if_false]
  cases fate.writeFail with
  | none => simp only
  | some k => simp only

/-- An accepted record: on an erased partition it is the only one, and behind the log of a good store the last one. -/
theorem selected_storeImage_iff {past : Ptr} {fate : Fate} {d : Setup} {image : List UInt8} (hacc : Accepted image)
    (hgood : ¬ (d.nextCfgShift < 0 ∨ d.nextCfgShift + image.length > MAX_CFG_SIZE) → Good past d)
    (hsel : selected past d.flash = d.configBytes past) :
    selected past (storeImage fate d image).dev.flash = d.configBytes past ↔
      if d.nextCfgShift < 0 ∨ d.nextCfgShift + image.length > MAX_CFG_SIZE then
        fate.eraseOk = true →
          (if Selectable (fate.written image) then some (fate.written image) else none) = d.configBytes past
      else Good past d ∧ (Selectable (fate.written image) → some (fate.written image) = d.configBytes past) := by
  by_cases hneed : d.nextCfgShift < 0 ∨ d.nextCfgShift + image.length > MAX_CFG_SIZE
  · rw [if_pos hneed]
    by_cases hok : fate.eraseOk = true
    · rw [storeImage_flash (fun _ => hok), landing, if_pos hneed, hok]
      rw [selected_program ReflTransGen.refl (NorFlash.erasedFrom_erased 0) hacc
        (by simpa using hacc.le_max), selected_erased]
      exact ⟨fun h _ => h, fun h => h rfl⟩
    · rw [storeImage, if_pos hneed, if_neg hok]
      exact ⟨fun _ h => absurd h hok, fun _ => hsel⟩
  · rw [if_neg hneed]
    have hg := hgood hneed
    have hfit := hg.tailErased.landing hacc.le_max
    have hreach := hg.landing_reaches image.length
    have hland : (landing d image.length).1 = d.flash := by rw [landing, if_neg hneed]
    rw [storeImage_flash (fun h => absurd h hneed), selected_program hreach hfit.1 hacc hfit.2, hland, hsel]
    by_cases hs : Selectable (fate.written image)
    · rw [if_pos hs]
      exact ⟨fun h => ⟨hg, fun _ => h⟩, fun h => h.2 hs⟩
    · rw [if_neg hs]
      exact ⟨fun _ => ⟨hg, fun h => absurd h hs⟩, fun _ => rfl⟩

/-- **When a save leaves the config in RAM selected.** -/
theorem selected_run_iff {past : Ptr} {fate : Fate} {d : Setup} {call : SaveCall}
    (hgood : call.Keeps past fate d ∨ Good past d) (hsel : selected past d.flash = d.configBytes past) :
    selected past (call.run fate d).dev.flash = d.configBytes past ↔ call.Keeps past fate d := by
  cases call with
  | image img =>
    show selected past (saveConfigImage fate d img).dev.flash = _ ↔ _
    unfold SaveCall.Keeps at hgood ⊢
    by_cases hpat : d.cfgPat = true
    case neg =>
      rw [dev_saveConfigImage ((ops_saveConfigImage fate d img).2 (Or.inl (Bool.not_eq_true _ ▸ hpat)))]
      exact ⟨fun _ h => absurd h hpat, fun _ => hsel⟩
    by_cases hacc : Accepted (savedImage img)
    case neg =>
      have hrefused : ∃ e, checkImage img = .error e := by
        cases hc : checkImage img with
        | error e => exact ⟨e, rfl⟩
        | ok image' => exact absurd (checkImage_eq_ok.1 hc).2 hacc
      rw [dev_saveConfigImage ((ops_saveConfigImage fate d img).2 (Or.inr hrefused))]
      exact ⟨fun _ _ h => absurd h hacc, fun _ => hsel⟩
    simp only [hpat, hacc, true_implies] at hgood ⊢
    rw [saveConfigImage_accepted hpat hacc]
    refine selected_storeImage_iff hacc (fun hneed => ?_) hsel
    rw [if_neg hneed] at hgood
    exact hgood.elim And.left id
  | full X =>
    show selected past (saveConfigFull fate d X).dev.flash = _ ↔ _
    unfold SaveCall.Keeps
    by_cases hpat : d.cfgPat = true
    case neg =>
      rw [dev_saveConfigFull ((ops_saveConfigFull fate d X).2 (Bool.not_eq_true _ ▸ hpat))]
      exact ⟨fun _ h => absurd h hpat, fun _ => hsel⟩
    by_cases hok : fate.eraseOk = true
    case neg =>
      have hdev : (saveConfigFull fate d X).dev.flash = d.flash := by
        simp [saveConfigFull, hpat, hok]
      rw [hdev]
      exact ⟨fun _ _ h => absurd h hok, fun _ => hsel⟩
    simp only [hpat, hok, true_implies, flash_full hpat hok]

end Mstd
