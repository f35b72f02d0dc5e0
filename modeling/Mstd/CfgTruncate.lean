import Mstd.CfgCharText
/-!
# Strings that do not fit (`mstd.cfg.py`, `set_toml_value` and `get_toml_value`)

A text of more than `n` bytes is cut behind `n - 1` of them, which may be in the middle of a character: it is then read
back with U+FFFD for its end.  `truncated_iff` says when the start of the text is read back.
-/
namespace Mstd.Cfg

open Py (Str Dict)

/-- What is read of a `char` field of `n` bytes that was set to `s`: `s`, or a start of it with room for a zero. -/
structure PrefixKept (n : Nat) (s t : Str) : Prop where
  whole : (Utf8.encode s).length ≤ n → t = s
  cut : n < (Utf8.encode s).length → t <+: s ∧ t ≠ s ∧ (Utf8.encode t).length ≤ n - 1
  mem : ∀ c ∈ t, c ∈ s

namespace ConfigData

theorem slot_store {d : ConfigData} {name : Str} {sl : DataSlot} (h : d.slot name = .ok sl) (v : Value) :
    (d.store name v).slot name = .ok { sl with value := some v } := by
  unfold slot at h
  cases hget : d.data.get? name with
  | none => rw [hget] at h; cases h
  | some sl' =>
    rw [hget] at h
    cases h
    rw [slot, store, Dict.get?_modify, if_pos rfl, hget]
    rfl

/-- What is set is read back as the text of its bytes. -/
theorem getTomlValue_set {d : ConfigData} {name : Str} {sl : DataSlot} {n : Nat} (hslot : d.slot name = .ok sl)
    (htype : sl.fld.type = .char n) (s : Str) :
    ∃ d', d.setTomlValue name (.str s) = .ok d' ∧ d'.getTomlValue name = .ok (.str (charText (charBytes n s))) := by
  refine ⟨d.store name (.bytes (charBytes n s)), ?_, ?_⟩
  · simp only [setTomlValue, hslot, fromToml, htype]
    rfl
  · rw [getTomlValue, slot_store hslot]
    rfl

theorem charText_of_nul_notMem {bytes : List UInt8} (h : '\x00' ∉ Utf8.decode bytes) : charText bytes = Utf8.decode bytes :=
  charText_of_decode (List.append_nil _).symm h (fun _ hc => absurd hc List.not_mem_nil)

end ConfigData

open ConfigData

theorem charText_charBytes {n : Nat} {s : Str} (hn : n ≠ 0) (hs : '\x00' ∉ s) : charText (charBytes n s) =
    if (Utf8.encode s).length ≤ n then s else Utf8.decode ((Utf8.encode s).take (n - 1)) := by
  unfold charBytes
  simp only
  by_cases hfit : (Utf8.encode s).length ≤ n
  · rw [if_pos hfit, if_neg (Nat.not_lt.2 hfit)]
    have hdec := Utf8.decode_encode s
    rw [charText_of_nul_notMem (by rwa [hdec]), hdec]
  · rw [if_neg hfit, if_pos (Nat.lt_of_not_le hfit), if_neg hn]
    apply charText_of_nul_notMem
    obtain ⟨s₀, c, s₁, j, rfl, -, -, hdec⟩ := Utf8.decode_take_encode (s := s) (k := n - 1) (by omega)
    rw [hdec, List.mem_append, not_or]
    refine ⟨fun hm => hs (List.mem_append_left _ hm), ?_⟩
    split
    · exact List.not_mem_nil
    · decide

/-- **Which strings are kept up to the cut**: those that fit, and those that are cut between two characters. -/
theorem prefixKept_iff {n : Nat} {s : Str} (hn : n ≠ 0) (hs : '\x00' ∉ s) :
    PrefixKept n s (charText (charBytes n s)) ↔ (Utf8.encode s).length ≤ n ∨ Utf8.Boundary s (n - 1) := by
  rw [charText_charBytes hn hs]
  by_cases hfit : (Utf8.encode s).length ≤ n
  · rw [if_pos hfit]
    exact iff_of_true ⟨fun _ => rfl, fun hlt => absurd hfit (Nat.not_le.2 hlt), fun _ hc => hc⟩ (.inl hfit)
  · rw [if_neg hfit, or_iff_right hfit, ← Utf8.decode_take_prefix_iff (by omega)]
    refine ⟨fun h => ?_, fun ⟨hpre, hlen⟩ => ?_⟩
    · obtain ⟨hpre, -, hlen⟩ := h.cut (Nat.lt_of_not_le hfit)
      exact ⟨hpre, hlen⟩
    · refine ⟨fun hle => absurd hle hfit, fun _ => ⟨hpre, fun heq => ?_, hlen⟩, fun c hc => hpre.subset hc⟩
      rw [heq] at hlen
      omega

/-- **A string that was set is read back as itself, or as a start of it that leaves room for a zero**, exactly when it
fits or is cut between two characters. -/
theorem truncated_iff {d : ConfigData} {name : Str} {sl : DataSlot} {n : Nat} {s : Str} (hslot : d.slot name = .ok sl)
    (htype : sl.fld.type = .char n) (hn : 2 ≤ n) (hs : '\x00' ∉ s) :
    ∃ d' t, d.setTomlValue name (.str s) = .ok d' ∧ d'.getTomlValue name = .ok (.str t) ∧
      (PrefixKept n s t ↔ (Utf8.encode s).length ≤ n ∨ Utf8.Boundary s (n - 1)) := by
  obtain ⟨d', hset, hget⟩ := getTomlValue_set hslot htype s
  exact ⟨d', _, hset, hget, prefixKept_iff (by omega) hs⟩

theorem slot_ssid : (ConfigData.new configV1).slot "ssid".toList = .ok ⟨none, "ssid".toList, 7, none, .char 33, []⟩ := rfl

/-- 34 bytes for the 33 of `ssid`, cut between two characters. -/
theorem truncated_iff_ssid :
    ∃ d' t, (ConfigData.new configV1).setTomlValue "ssid".toList (.str (List.replicate 17 'é')) = .ok d' ∧
      d'.getTomlValue "ssid".toList = .ok (.str t) ∧ PrefixKept 33 (List.replicate 17 'é') t := by
  obtain ⟨d', t, hset, hget, hiff⟩ := truncated_iff slot_ssid rfl (s := List.replicate 17 'é') (by decide) (by decide)
  exact ⟨d', t, hset, hget, hiff.2 (.inr (by decide +kernel))⟩

/-- 36 bytes, cut in the middle of a character: U+FFFD is read back. -/
theorem truncated_inside :
    ∃ d', (ConfigData.new configV1).setTomlValue "ssid".toList (.str (List.replicate 12 '€')) = .ok d' ∧
      d'.getTomlValue "ssid".toList = .ok (.str (List.replicate 10 '€' ++ [Utf8.replacement])) ∧
      ¬ PrefixKept 33 (List.replicate 12 '€') (List.replicate 10 '€' ++ [Utf8.replacement]) := by
  obtain ⟨d', hset, hget⟩ := getTomlValue_set slot_ssid rfl (List.replicate 12 '€')
  have htext : charText (charBytes 33 (List.replicate 12 '€')) = List.replicate 10 '€' ++ [Utf8.replacement] := by
    decide +kernel
  rw [htext] at hget
  exact ⟨d', hset, hget, fun h => absurd (h.mem Utf8.replacement (by decide)) (by decide)⟩

end Mstd.Cfg
