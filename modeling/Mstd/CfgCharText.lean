import Mstd.CfgText
/-!
# Strings read back (`mstd.cfg.py`, `char` fields)

The bytes of a `char` field become a text without the zeros at the end, and the text bytes again, cut to leave room for a
zero.  `charKept_iff` says which bytes are the same behind it, up to the first zero.
-/
namespace Mstd.Cfg

open Py (Str)
open ConfigData (charText charBytes)

/-- A string of the device: the bytes before the first zero, if there is one. -/
def upToNul (bytes : List UInt8) : List UInt8 := bytes.takeWhile (· != 0)

/-- The bytes of a quotable text and zeros, or what is left of a text that ends in U+FFFD, cut behind one byte of it. -/
def CharKept (bytes : List UInt8) : Prop :=
  ∃ s, Quotable s ∧ ((∃ k, bytes = Utf8.encode s ++ List.replicate k 0) ∨
    ∃ s₀, s = s₀ ++ [Utf8.replacement] ∧ bytes = Utf8.encode s₀ ++ [0xEF, 0])

theorem Quotable.nul {s : Str} (h : Quotable s) : '\x00' ∉ s := fun hm => absurd (h.2.1 _ hm (by decide)) (by decide)

/-! ## The text of the bytes -/

theorem charText_of_decode {bytes : List UInt8} {s y : Str} (h : Utf8.decode bytes = s ++ y) (hs : '\x00' ∉ s)
    (hy : ∀ c ∈ y, c = '\x00') : charText bytes = s := by
  have hrev := (Toml.run_append (p := (· == '\x00')) (s := y.reverse) (t := s.reverse)
    (fun c hc => by simp [hy c (List.mem_reverse.1 hc)])
    (fun c hc => by
      have hmem : c ∈ s := List.mem_reverse.1 (List.mem_of_mem_head? hc)
      simpa using fun h0 : c = '\x00' => hs (h0 ▸ hmem))).2
  rw [charText, h, List.rdropWhile, List.reverse_append, hrev, List.reverse_reverse]

theorem decode_eq_charText (bytes : List UInt8) :
    ∃ y : Str, Utf8.decode bytes = charText bytes ++ y ∧ ∀ c ∈ y, c = '\x00' :=
  ⟨(Utf8.decode bytes).rtakeWhile (· == '\x00'), List.rdropWhile_append_rtakeWhile.symm,
    fun _ hc => by simpa using List.mem_rtakeWhile_imp hc⟩

theorem decode_zeros : ∀ k : Nat, Utf8.decode (List.replicate k 0) = List.replicate k '\x00'
  | 0 => rfl
  | k + 1 => by rw [List.replicate_succ, List.replicate_succ, ← decode_zeros k]; rfl

theorem upToNul_append {p r : List UInt8} (hp : 0 ∉ p) (hr : r = [] ∨ r.head? = some 0) : upToNul (p ++ r) = p := by
  unfold upToNul
  rw [List.takeWhile_append_of_pos (fun b hb => by simpa using fun h0 : b = 0 => hp (h0 ▸ hb))]
  rcases hr with rfl | hr
  · exact List.append_nil p
  · cases r with
    | nil => cases hr
    | cons b r =>
      obtain rfl := Option.some.inj hr
      exact List.append_nil p

theorem upToNul_of_notMem {p : List UInt8} (hp : 0 ∉ p) : upToNul p = p := by
  have h := upToNul_append hp (.inl rfl)
  rwa [List.append_nil] at h

/-! ## The round trip -/

/-- The text is read back as the text of the bytes, and stored as the bytes up to the first zero. -/
def CharBack (bytes : List UInt8) : Prop :=
  ∃ s, readBack (.str (charText bytes)) = some (.str s) ∧ upToNul (charBytes bytes.length s) = upToNul bytes

theorem CharKept.back {bytes : List UInt8} (h : CharKept bytes) : CharBack bytes := by
  obtain ⟨s, hs, h⟩ := h
  have hnul := hs.nul
  have hzero := Utf8.zero_notMem_encode hnul
  rcases h with ⟨k, rfl⟩ | ⟨s₀, rfl, rfl⟩
  · have htext : charText (Utf8.encode s ++ List.replicate k 0) = s := by
      refine charText_of_decode (Utf8.decode_encode_append s _) hnul (fun c hc => ?_)
      rw [decode_zeros] at hc
      exact List.eq_of_mem_replicate hc
    refine ⟨s, by rw [htext, readBack_quotable hs], ?_⟩
    have hfit : ¬ (Utf8.encode s).length > (Utf8.encode s ++ List.replicate k 0).length := by simp
    have hr : List.replicate k (0 : UInt8) = [] ∨ (List.replicate k (0 : UInt8)).head? = some 0 := by
      cases k with
      | zero => exact .inl rfl
      | succ k => exact .inr rfl
    unfold charBytes
    simp only
    rw [if_neg hfit, upToNul_of_notMem hzero, upToNul_append hzero hr]
  · have htext : charText (Utf8.encode s₀ ++ [0xEF, 0]) = s₀ ++ [Utf8.replacement] := by
      refine charText_of_decode (y := ['\x00']) ?_ hnul (fun c hc => List.mem_singleton.1 hc)
      rw [Utf8.decode_encode_append, List.append_assoc]
      exact congrArg (s₀ ++ ·) (show Utf8.decode [0xEF, 0] = [Utf8.replacement, '\x00'] by decide +kernel)
    refine ⟨_, by rw [htext, readBack_quotable hs], ?_⟩
    have henc : Utf8.encode (s₀ ++ [Utf8.replacement]) = Utf8.encode s₀ ++ [0xEF, 0xBF, 0xBD] := by
      rw [Utf8.encode_append]
      exact congrArg (Utf8.encode s₀ ++ ·) (by decide +kernel)
    have hbytes : charBytes (Utf8.encode s₀ ++ [0xEF, 0]).length (s₀ ++ [Utf8.replacement]) = Utf8.encode s₀ ++ [0xEF] := by
      unfold charBytes
      simp only
      rw [if_pos (by rw [henc]; simp), if_neg (by simp), henc, List.length_append]
      simp [List.take_append]
    have hzero' : 0 ∉ Utf8.encode s₀ ++ [0xEF] := by
      rw [henc] at hzero
      simp only [List.mem_append, List.mem_cons, List.not_mem_nil, or_false, not_or] at hzero ⊢
      exact ⟨hzero.1, by decide⟩
    have hsplit : Utf8.encode s₀ ++ [0xEF, 0] = Utf8.encode s₀ ++ [0xEF] ++ [0] := by simp
    rw [hbytes, hsplit, upToNul_of_notMem hzero', upToNul_append hzero' (.inr rfl)]

theorem upToNul_split (bytes : List UInt8) :
    ∃ r, bytes = upToNul bytes ++ r ∧ (r = [] ∨ ∃ r', r = 0 :: r') := by
  refine ⟨bytes.dropWhile (· != 0), List.takeWhile_append_dropWhile.symm, ?_⟩
  cases hr : bytes.dropWhile (· != 0) with
  | nil => exact .inl rfl
  | cons b r =>
    have hb := List.head_dropWhile_not (p := (· != 0)) (l := bytes) (by rw [hr]; exact List.cons_ne_nil b r)
    simp only [hr, List.head_cons, bne_eq_false_iff_eq] at hb
    exact .inr ⟨r, by rw [hb]⟩

/-- Two texts without zeros, the one before zeros and the other before a zero or the end. -/
theorem eq_of_append_nul {s t x y : Str} (hs : '\x00' ∉ s) (ht : '\x00' ∉ t) (hx : ∀ c, x.head? = some c → c = '\x00')
    (hy : ∀ c ∈ y, c = '\x00') (h : s ++ x = t ++ y) : s = t ∧ x = y := by
  have hne {u : Str} (hu : '\x00' ∉ u) : ∀ c ∈ u, (c != '\x00') = true := fun c hc => by
    simpa using fun h0 : c = '\x00' => hu (h0 ▸ hc)
  have hst : s = t := by
    have h1 := (Toml.run_append (hne hs) (t := x) (fun c hc => by simp [hx c hc])).1
    have h2 := (Toml.run_append (hne ht) (t := y) (fun c hc => by simp [hy c (List.mem_of_mem_head? hc)])).1
    rw [← h1, ← h2, h]
  exact ⟨hst, List.append_cancel_left (hst ▸ h)⟩

/-- Nothing of the text is cut off. -/
theorem CharKept.of_whole {bytes r : List UInt8} {s : Str} (hs0 : '\x00' ∉ s) (hnul : '\x00' ∉ charText bytes)
    (hr : bytes = Utf8.encode s ++ r) (hr0 : r = [] ∨ ∃ r', r = 0 :: r')
    (hquot : s = charText bytes → Quotable (charText bytes)) : CharKept bytes := by
  obtain ⟨y, hy, hynul⟩ := decode_eq_charText bytes
  have hdec : Utf8.decode bytes = s ++ Utf8.decode r := by rw [hr, Utf8.decode_encode_append]
  rw [hdec] at hy
  have hhead : ∀ c, (Utf8.decode r).head? = some c → c = '\x00' := by
    rcases hr0 with rfl | ⟨r', rfl⟩
    · exact fun c hc => by cases hc
    · exact fun c hc => (Option.some.inj hc).symm
  obtain ⟨hst, hx⟩ := eq_of_append_nul hs0 hnul hhead hynul hy
  have hzero := Utf8.eq_zero_of_decode (hx ▸ hynul)
  exact ⟨s, hst ▸ hquot hst, .inl ⟨r.length, hr.trans (congrArg _ (List.eq_replicate_of_mem hzero))⟩⟩

/-- The bytes end behind the first `j` of a character `c`, and a zero: then `c` is U+FFFD, cut behind its first byte. -/
theorem CharKept.of_cut {bytes : List UInt8} {s₀ s₁ : Str} {c : Char} {j : Nat} (hs0 : '\x00' ∉ s₀)
    (hj : j < (String.utf8EncodeChar c).length) (hr : bytes = Utf8.encode s₀ ++ (String.utf8EncodeChar c).take j ++ [0])
    (hlong : bytes.length < (Utf8.encode (s₀ ++ c :: s₁)).length) (hsub : (s₀ ++ c :: s₁).Sublist (charText bytes))
    (hquot : s₀ ++ c :: s₁ = charText bytes → Quotable (charText bytes)) : CharKept bytes := by
  have hdec : Utf8.decode bytes = s₀ ++ Utf8.decode ((String.utf8EncodeChar c).take j ++ [0]) := by
    rw [hr, List.append_assoc, Utf8.decode_encode_append]
  by_cases hj0 : j = 0
  · subst hj0
    have htext : charText bytes = s₀ := charText_of_decode (y := ['\x00']) hdec hs0 (fun x hx => List.mem_singleton.1 hx)
    have hle := hsub.length_le
    rw [htext, List.length_append, List.length_cons] at hle
    omega
  · have hcut := Utf8.decodeFrom_take c (Nat.pos_of_ne_zero hj0) hj (x := 0) (by decide) []
    have hrepl : '\x00' ∉ s₀ ++ [Utf8.replacement] := by
      simp only [List.mem_append, List.mem_singleton, not_or]
      exact ⟨hs0, by decide⟩
    have htext : charText bytes = s₀ ++ [Utf8.replacement] := by
      refine charText_of_decode (y := ['\x00']) ?_ hrepl (fun x hx => List.mem_singleton.1 hx)
      rw [hdec, List.append_assoc]
      exact congrArg (s₀ ++ ·) hcut
    rw [htext] at hsub hquot
    have hle := hsub.length_le
    simp only [List.length_append, List.length_cons, List.length_nil] at hle
    have heq := hsub.eq_of_length (by simp only [List.length_append, List.length_cons, List.length_nil]; omega)
    obtain ⟨rfl, rfl⟩ := List.cons.inj (List.append_cancel_left heq)
    have henc : String.utf8EncodeChar Utf8.replacement = [0xEF, 0xBF, 0xBD] := by decide +kernel
    rw [Utf8.encode_append, hr] at hlong
    have hthree : (Utf8.encode [Utf8.replacement]).length = 3 := congrArg List.length henc
    simp only [List.length_append, List.length_take, List.length_singleton, hthree] at hlong
    obtain rfl : j = 1 := by omega
    refine ⟨_, hquot rfl, .inr ⟨s₀, rfl, ?_⟩⟩
    rw [hr, henc, List.append_assoc]
    rfl

/-- **Which bytes of a `char` field the round trip keeps.** -/
theorem charBack_iff (bytes : List UInt8) : CharBack bytes ↔ CharKept bytes := by
  refine ⟨fun ⟨s, hread, hbytes⟩ => ?_, CharKept.back⟩
  obtain ⟨_, hs, hsub, hclean, hnul, hquot⟩ := readBack_str hread
  cases hs
  have hs0 : '\x00' ∉ s := fun hm => hnul (hsub.subset hm)
  obtain ⟨r, hr, hr0⟩ := upToNul_split bytes
  by_cases hfit : (Utf8.encode s).length ≤ bytes.length
  · have hchar : charBytes bytes.length s = Utf8.encode s := if_neg (Nat.not_lt.2 hfit)
    rw [hchar, upToNul_of_notMem (Utf8.zero_notMem_encode hs0)] at hbytes
    rw [← hbytes] at hr
    exact CharKept.of_whole hs0 hnul hr hr0 hquot
  · -- the last character of the text is cut, or the text ends before it
    have hlen : 0 < bytes.length := by
      by_contra h0
      obtain rfl : bytes = [] := List.length_eq_zero_iff.1 (by omega)
      obtain rfl : s = [] := List.sublist_nil.1 hsub
      exact hfit (Nat.le_refl 0)
    have hchar : charBytes bytes.length s = (Utf8.encode s).take (bytes.length - 1) := by
      unfold charBytes
      simp only
      rw [if_pos (Nat.lt_of_not_le hfit), if_neg (Nat.ne_of_gt hlen)]
    have hzero : 0 ∉ (Utf8.encode s).take (bytes.length - 1) :=
      fun hm => Utf8.zero_notMem_encode hs0 (List.mem_of_mem_take hm)
    rw [hchar, upToNul_of_notMem hzero] at hbytes
    rw [← hbytes] at hr
    obtain ⟨s₀, c, s₁, j, rfl, hj, htake⟩ := Utf8.take_encode (s := s) (k := bytes.length - 1) (by omega)
    have hrlen := congrArg List.length hr
    rw [List.length_append, List.length_take, Nat.min_eq_left (by omega)] at hrlen
    obtain rfl : r = [0] := by
      rcases hr0 with rfl | ⟨r', rfl⟩
      · simp only [List.length_nil] at hrlen; omega
      · rw [List.length_cons] at hrlen
        rw [List.length_eq_zero_iff.1 (by omega : r'.length = 0)]
    rw [htake] at hr
    exact CharKept.of_cut (fun hm => hs0 (List.mem_append_left _ hm)) hj hr (Nat.lt_of_not_le hfit) hsub hquot

end Mstd.Cfg
