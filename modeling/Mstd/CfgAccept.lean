import Mstd.CfgImage
/-!
# What the tool accepts (`mstd.cfg.py`, `is_binary_accepted`)

`isBinaryAccepted_eq_ok` says which images the tool accepts, and with which warning.  A damage within four bytes in a
row does not get past it (`corruption_detected`).  It accepts what the device's scan takes for a record, but never
warns of bytes behind the record, and accepts images of another length than they declare (`tool_and_device_iff`).
-/
namespace Mstd.Cfg

open Py (Str)
open ByteMem (ofList)

/-- The version byte of an image. -/
def versionAt (val : List UInt8) : Nat := LittleEndian.decode ((val.drop 6).take 1)

namespace ConfigData

/-- There is a field `version` to look up. -/
def HasVersion (d : ConfigData) : Prop := (d.data.get? versionName).isSome = true

instance (d : ConfigData) : Decidable d.HasVersion := inferInstanceAs (Decidable (_ = true))

/-- What `is_binary_accepted` checks. -/
structure Accepts (d : ConfigData) (val : List UInt8) : Prop where
  header : 7 ≤ val.length
  size : recordSize (ofList val) 0 ≤ val.length
  crc : crcAt (ofList val) 0 = 0xFFFFFFFF ∨ crcAt (ofList val) 0 = evalCrc (val.drop 4)
  named : d.HasVersion
  lcVersion : d.cfg.lcVersion ≤ versionAt val
  version : versionAt val ≤ d.cfg.version

variable {d : ConfigData} {val : List UInt8}

theorem getTomlValue_version : (∃ v, d.getTomlValue "version".toList = .ok v) ↔ d.HasVersion := by
  unfold getTomlValue slot HasVersion versionName
  cases d.data.get? "version".toList with
  | none =>
    refine ⟨?_, fun h => by cases h⟩
    rintro ⟨v, hv⟩
    cases hv
  | some s => exact ⟨fun _ => rfl, fun _ => ⟨_, rfl⟩⟩

/-- **An image is accepted** when it passes the checks; the only warning is about a CRC left to the device. -/
theorem isBinaryAccepted_eq_ok {warn : Str} : d.isBinaryAccepted val = .ok warn ↔
    d.Accepts val ∧ warn = if crcAt (ofList val) 0 = 0xFFFFFFFF then autofilledWarning else [] := by
  have hraised : ∀ x : Error, (Except.error x : Except Error Str) ≠ .ok warn := fun x h => by cases h
  unfold isBinaryAccepted
  by_cases hlen : 7 ≤ val.length
  case neg =>
    rw [decodeHeader, if_pos (Nat.not_le.1 hlen)]
    exact iff_of_false (hraised _) (fun h => hlen h.1.header)
  rw [decodeHeader_eq hlen]
  simp only
  by_cases hsize : recordSize (ofList val) 0 ≤ val.length
  case neg =>
    rw [if_pos hsize]
    exact iff_of_false (hraised _) (fun h => hsize h.1.size)
  rw [if_neg (not_not_intro hsize), if_neg (Nat.not_lt.2 hsize)]
  by_cases hcrc : crcAt (ofList val) 0 = 0xFFFFFFFF ∨ crcAt (ofList val) 0 = evalCrc (val.drop 4)
  case neg =>
    rw [if_pos (not_or.1 hcrc)]
    exact iff_of_false (hraised _) (fun h => hcrc h.1.crc)
  rw [if_neg (fun h => hcrc.elim h.1 h.2), List.nil_append]
  by_cases hver : d.HasVersion
  case neg =>
    have hnone : ¬ ∃ v, d.getTomlValue "version".toList = .ok v := fun h => hver (getTomlValue_version.1 h)
    cases hv : d.getTomlValue "version".toList with
    | error x => exact iff_of_false (hraised _) (fun h => hver h.1.named)
    | ok v => exact absurd ⟨v, hv⟩ hnone
  obtain ⟨v, hv⟩ := getTomlValue_version.2 hver
  rw [hv, ← versionAt]
  simp only
  by_cases hrange : d.cfg.lcVersion ≤ versionAt val ∧ versionAt val ≤ d.cfg.version
  · rw [if_pos hrange, Except.ok.injEq]
    exact ⟨fun h => ⟨⟨hlen, hsize, hcrc, hver, hrange.1, hrange.2⟩, h.symm⟩, fun h => h.2.symm⟩
  · rw [if_neg hrange]
    exact iff_of_false (hraised _) (fun h => hrange ⟨h.1.lcVersion, h.1.version⟩)

end ConfigData

/-! ## Damaged images -/

/-- `b` is `a` with bytes changed within the `n` from offset `k` on. -/
structure ChangedWithin (k n : Nat) (a b : List UInt8) : Prop where
  length : b.length = a.length
  outside : ∀ i, i < k ∨ k + n ≤ i → b[i]? = a[i]?

section

variable {a b : List UInt8} {k n : Nat}

/-- The bytes before the change, those within it, and those behind. -/
theorem ChangedWithin.split (h : ChangedWithin k n a b) :
    a = a.take k ++ (a.drop k).take n ++ a.drop (k + n) ∧ b = a.take k ++ (b.drop k).take n ++ a.drop (k + n) := by
  have hbefore : b.take k = a.take k := List.ext_getElem? (fun i => by
    rw [List.getElem?_take, List.getElem?_take]
    split
    · exact h.outside i (Or.inl ‹_›)
    · rfl)
  have hbehind : b.drop (k + n) = a.drop (k + n) := List.ext_getElem? (fun i => by
    rw [List.getElem?_drop, List.getElem?_drop]
    exact h.outside _ (Or.inr (by omega)))
  have hparts : ∀ l : List UInt8, l = l.take k ++ (l.drop k).take n ++ l.drop (k + n) := fun l => by
    rw [← List.drop_drop, List.append_assoc, List.take_append_drop, List.take_append_drop]
  refine ⟨hparts a, ?_⟩
  conv => lhs; rw [hparts b, hbefore, hbehind]

/-- **A change within four bytes in a row changes the CRC.** -/
theorem evalCrc_changedWithin (h : ChangedWithin k 4 a b) (hne : a ≠ b) : evalCrc a ≠ evalCrc b := by
  obtain ⟨ha, hb⟩ := h.split
  have hlen : ((a.drop k).take 4).length = ((b.drop k).take 4).length := by
    rw [List.length_take, List.length_take, List.length_drop, List.length_drop, h.length]
  have hmid : (a.drop k).take 4 ≠ (b.drop k).take 4 := fun heq => hne (by rw [ha, heq]; exact hb.symm)
  rw [ha, hb]
  exact evalCrc_burst hlen (by rw [List.length_take]; omega) hmid _ _

theorem ChangedWithin.drop (h : ChangedWithin k n a b) {m : Nat} (hm : m ≤ k) :
    ChangedWithin (k - m) n (a.drop m) (b.drop m) := by
  refine ⟨by rw [List.length_drop, List.length_drop, h.length], fun i hi => ?_⟩
  rw [List.getElem?_drop, List.getElem?_drop]
  exact h.outside (m + i) (by omega)

end

/-- **Local damage is detected**: a change within four bytes in a row changes the CRC, and behind the CRC field makes the
tool reject an image that it accepted. -/
theorem corruption_detected :
    (∀ (k : Nat) (a b : List UInt8), ChangedWithin k 4 a b → a ≠ b → evalCrc a ≠ evalCrc b) ∧
    ∀ (d : ConfigData) (v v' : List UInt8) (warn : Str), d.isBinaryAccepted v = .ok warn →
      (∀ bh, decodeHeader v = .ok bh → bh.crc ≠ 0xFFFFFFFF) →
      ∀ k, 4 ≤ k → ChangedWithin k 4 v v' → v ≠ v' → ∃ x, d.isBinaryAccepted v' = .error x := by
  refine ⟨fun k a b h hne => evalCrc_changedWithin h hne, fun d v v' warn hok hset k hk h hne => ?_⟩
  obtain ⟨hacc, -⟩ := ConfigData.isBinaryAccepted_eq_ok.1 hok
  have hcrcne : crcAt (ofList v) 0 ≠ 0xFFFFFFFF := hset _ (decodeHeader_eq hacc.header)
  have hcrc := hacc.crc.resolve_left hcrcne
  have hsame : crcAt (ofList v') 0 = crcAt (ofList v) 0 := ByteMem.u32_congr (fun i _ hi => by
    rw [ofList, ofList, List.getD_eq_getElem?_getD, List.getD_eq_getElem?_getD, h.outside i (Or.inl (by omega))])
  have hdiff : evalCrc (v.drop 4) ≠ evalCrc (v'.drop 4) := by
    refine evalCrc_changedWithin (h.drop hk) (fun heq => hne ?_)
    -- the first four bytes are the same
    obtain ⟨hv, hv'⟩ := h.split
    have h4 : v.take 4 = v'.take 4 := List.ext_getElem? (fun i => by
      rw [List.getElem?_take, List.getElem?_take]
      split
      · exact (h.outside i (Or.inl (by omega))).symm
      · rfl)
    rw [← List.take_append_drop 4 v, ← List.take_append_drop 4 v', heq, h4]
  cases hres : d.isBinaryAccepted v' with
  | error x => exact ⟨x, rfl⟩
  | ok warn' =>
    obtain ⟨hacc', -⟩ := ConfigData.isBinaryAccepted_eq_ok.1 hres
    rcases hacc'.crc with h' | h'
    · exact absurd (hsame.symm.trans h') hcrcne
    · exact absurd (hcrc.symm.trans (hsame.symm.trans h')) hdiff

/-- An image of version 1 with zeros in its fields that declares `(size + 1) * 4` bytes. -/
def zeroImage (size : UInt8) (len : Nat) : List UInt8 :=
  let body := [size, 0, 1] ++ List.replicate (len - 7) 0
  LittleEndian.encode 4 (evalCrc body) ++ body

/-- A byte of a password. -/
theorem corruption_detected_byte :
    ∃ x, (ConfigData.new configV1).isBinaryAccepted ((zeroImage 26 108).set 60 7) = .error x := by
  have hok : (ConfigData.new configV1).isBinaryAccepted (zeroImage 26 108) = .ok [] := by
    refine ConfigData.isBinaryAccepted_eq_ok.2 ⟨⟨?_, ?_, ?_, ?_, ?_, ?_⟩, ?_⟩ <;> decide +kernel
  refine corruption_detected.2 _ (zeroImage 26 108) _ [] hok ?_ 60 (by decide) ⟨List.length_set, fun i hi => ?_⟩
    (by decide +kernel)
  · intro bh hbh
    rw [decodeHeader_eq (by decide +kernel)] at hbh
    rw [← Except.ok.inj hbh]
    show crcAt (ofList (zeroImage 26 108)) 0 ≠ 0xFFFFFFFF
    decide +kernel
  · rw [List.getElem?_set_ne (by omega)]

/-! ## The tool and the device -/

/-- A record as the device's scan accepts it: of the length it declares, with a right CRC that is not all ones. -/
structure Recorded (r : List UInt8) : Prop where
  size : recordSize (ofList r) 0 = r.length
  min : sizeofConfigV0 ≤ r.length
  crc : crcAt (ofList r) 0 = Mstd.evalCrc (ofList r) 4 r.length
  crc_ne : crcAt (ofList r) 0 ≠ 0xFFFFFFFF

/-- No error, and a warning exactly when bytes follow. -/
def WarnsOfExtra (result : Except Error Str) (t : List UInt8) : Prop :=
  ∃ warn, result = .ok warn ∧ (t = [] → warn = []) ∧ (t ≠ [] → warn ≠ [])

section

variable {d : ConfigData} {r t val : List UInt8}

theorem Recorded.accepts (h : Recorded r) (hver : d.HasVersion) (hlc : d.cfg.lcVersion ≤ versionAt r)
    (hle : versionAt r ≤ d.cfg.version) : d.Accepts r := by
  have hmin := h.min
  unfold sizeofConfigV0 at hmin
  have hcrc : crcAt (ofList r) 0 = evalCrc (r.drop 4) := by
    rw [h.crc, evalCrc_ofList r (by omega), evalCrc_eq]
    rfl
  exact ⟨by omega, Nat.le_of_eq h.size, Or.inr hcrc, hver, hlc, hle⟩

/-- The tool never warns of bytes behind a record. -/
theorem Recorded.warnsOfExtra_iff (h : Recorded r) (hlc : d.cfg.lcVersion ≤ versionAt r)
    (hle : versionAt r ≤ d.cfg.version) : WarnsOfExtra (d.isBinaryAccepted (r ++ t)) t ↔ t = [] ∧ d.HasVersion := by
  have hmin := h.min
  unfold sizeofConfigV0 at hmin
  have hcrc : crcAt (ofList (r ++ t)) 0 ≠ 0xFFFFFFFF := by
    have hsame : crcAt (ofList (r ++ t)) 0 = crcAt (ofList r) 0 := ByteMem.u32_congr (fun i _ hi => by
      rw [ofList, ofList, List.getD_eq_getElem?_getD, List.getD_eq_getElem?_getD, List.getElem?_append_left (by omega)])
    rw [hsame]
    exact h.crc_ne
  constructor
  · rintro ⟨warn, hok, -, hwarn⟩
    obtain ⟨hacc, hnone⟩ := ConfigData.isBinaryAccepted_eq_ok.1 hok
    rw [if_neg hcrc] at hnone
    exact ⟨by_contra (fun ht => hwarn ht hnone), hacc.named⟩
  · rintro ⟨rfl, hver⟩
    rw [List.append_nil] at hcrc ⊢
    have hok : d.isBinaryAccepted r = .ok [] :=
      ConfigData.isBinaryAccepted_eq_ok.2 ⟨h.accepts hver hlc hle, (if_neg hcrc).symm⟩
    exact ⟨[], hok, fun _ => rfl, fun ht => absurd rfl ht⟩

/-- The device takes an image that the tool accepts without a warning when it declares its whole length, and no reserved
bits that look like a torn header. -/
theorem device_takes_iff (h : d.isBinaryAccepted val = .ok []) (hmin : sizeofConfigV0 ≤ val.length)
    (hmax : val.length ≤ MAX_CFG_SIZE) (hdvd : 4 ∣ val.length) :
    (∀ dev : Setup, dev.cfgPat = true → (saveConfigImage .working dev val).err = none) ↔
      recordSize (ofList val) 0 = val.length ∧ sizeAt (ofList val) 0 >>> 8 ≠ 0xFF := by
  obtain ⟨hacc, -⟩ := ConfigData.isBinaryAccepted_eq_ok.1 h
  have hcrc : crcAt (ofList val) 0 = 0xFFFFFFFF ∨ crcAt (ofList val) 0 = imageCrc val :=
    hacc.crc.imp_right (fun h => by rw [h, evalCrc_eq]; rfl)
  constructor
  · intro hdev
    obtain ⟨-, hsaved, -⟩ := accepted_of_null (hdev freshStore rfl)
    obtain ⟨-, -, -, hsize, htorn, -⟩ := (accepted_savedImage_iff val).1 hsaved
    exact ⟨hsize, htorn⟩
  · rintro ⟨hsize, htorn⟩ dev hpat
    rw [saveConfigImage_accepted hpat ((accepted_savedImage_iff val).2 ⟨hmax, hmin, hdvd, hsize, htorn, hcrc⟩),
      storeImage_working]

end

/-- **When the tool and the device agree on a record**: the tool gives the right answer for a record alone, and the device
takes an image of the tool's that declares its whole length. -/
theorem tool_and_device_iff (d : ConfigData) :
    (∀ r t : List UInt8, Recorded r → d.cfg.lcVersion ≤ versionAt r → versionAt r ≤ d.cfg.version →
      (WarnsOfExtra (d.isBinaryAccepted (r ++ t)) t ↔ t = [] ∧ d.HasVersion)) ∧
    ∀ val : List UInt8, d.isBinaryAccepted val = .ok [] → 108 ≤ val.length → val.length ≤ 4096 → 4 ∣ val.length →
      ((∀ dev : Setup, dev.cfgPat = true → (saveConfigImage .working dev val).err = none) ↔
        recordSize (ofList val) 0 = val.length ∧ sizeAt (ofList val) 0 >>> 8 ≠ 0xFF) :=
  ⟨fun _ _ h hlc hle => h.warnsOfExtra_iff hlc hle, fun _ h hmin hmax hdvd => device_takes_iff h hmin hmax hdvd⟩

theorem zeroImage_recorded : Recorded (zeroImage 26 108) :=
  ⟨by decide +kernel, by decide +kernel, by decide +kernel, by decide +kernel⟩

theorem tool_and_device_alone :
    WarnsOfExtra ((ConfigData.new configV1).isBinaryAccepted (zeroImage 26 108 ++ [])) [] ∧
      (saveConfigImage .working freshStore (zeroImage 26 108)).err = none := by
  have hok : (ConfigData.new configV1).isBinaryAccepted (zeroImage 26 108) = .ok [] :=
    ConfigData.isBinaryAccepted_eq_ok.2
      ⟨zeroImage_recorded.accepts (by decide +kernel) (by decide +kernel) (by decide +kernel), by decide +kernel⟩
  exact ⟨((tool_and_device_iff (ConfigData.new configV1)).1 (zeroImage 26 108) [] zeroImage_recorded (by decide +kernel)
      (by decide +kernel)).2 ⟨rfl, by decide +kernel⟩,
    ((tool_and_device_iff (ConfigData.new configV1)).2 (zeroImage 26 108) hok (by decide +kernel) (by decide +kernel)
      (by decide +kernel)).2 ⟨by decide +kernel, by decide +kernel⟩ freshStore rfl⟩

/-- A record at the head of a dump is rejected, and an image longer than it declares is taken by the tool only. -/
theorem tool_not_device :
    Recorded (zeroImage 26 108) ∧
      ¬ WarnsOfExtra ((ConfigData.new configV1).isBinaryAccepted (zeroImage 26 108 ++ [0xFF, 0xFF, 0xFF, 0xFF]))
        [0xFF, 0xFF, 0xFF, 0xFF] ∧
      (ConfigData.new configV1).isBinaryAccepted (zeroImage 26 112) = .ok [] ∧
      (saveConfigImage .working freshStore (zeroImage 26 112)).err = some "Image size wrong" := by
  refine ⟨zeroImage_recorded, fun h => ?_, ?_, by decide +kernel⟩
  · exact absurd ((zeroImage_recorded.warnsOfExtra_iff (by decide +kernel) (by decide +kernel)).1 h).1 (by decide)
  · refine ConfigData.isBinaryAccepted_eq_ok.2 ⟨⟨?_, ?_, ?_, ?_, ?_, ?_⟩, ?_⟩ <;> decide +kernel

end Mstd.Cfg
