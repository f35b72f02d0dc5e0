import Mathlib.Logic.Function.Iterate
/-!
# Cyclic redundancy codes

The register of a reflected CRC of width `w` with polynomial `P`, one bit shifted out at a time.  A shift is linear
(`bitStep_xor`), so a byte goes through a table of its eight shifts (`byteStep_table`), and where the top bit of `P` is
set it loses nothing, so an error within `w` consecutive bits changes the register for good (`run_burst`).
-/
namespace Crc

variable {w : Nat}

/-- The lowest bit is shifted out. -/
def bitStep (P c : BitVec w) : BitVec w := if c.getLsbD 0 then (c >>> 1) ^^^ P else c >>> 1

/-- A byte goes into the low bits, and out by eight shifts. -/
def byteStep (P c : BitVec w) (b : UInt8) : BitVec w := (bitStep P)^[8] (c ^^^ b.toBitVec.setWidth w)

def run (P c : BitVec w) (data : List UInt8) : BitVec w := data.foldl (byteStep P) c

theorem run_append (P c : BitVec w) (data data' : List UInt8) : run P c (data ++ data') = run P (run P c data) data' :=
  List.foldl_append

/-! ## Linearity -/

section

variable (P : BitVec w)

theorem bitStep_xor (a b : BitVec w) : bitStep P (a ^^^ b) = bitStep P a ^^^ bitStep P b := by
  unfold bitStep
  rw [BitVec.getLsbD_xor, BitVec.ushiftRight_xor_distrib]
  cases a.getLsbD 0 <;> cases b.getLsbD 0
  · rfl
  · exact BitVec.xor_assoc ..
  · exact (BitVec.xor_assoc ..).trans ((congrArg _ (BitVec.xor_comm ..)).trans (BitVec.xor_assoc ..).symm)
  · show _ = a >>> 1 ^^^ P ^^^ (b >>> 1 ^^^ P)
    rw [BitVec.xor_comm (b >>> 1) P, ← BitVec.xor_assoc, BitVec.xor_assoc (a >>> 1) P P, BitVec.xor_self,
      BitVec.xor_zero]
    rfl

theorem bitSteps_xor (n : Nat) (a b : BitVec w) : (bitStep P)^[n] (a ^^^ b) = (bitStep P)^[n] a ^^^ (bitStep P)^[n] b := by
  induction n generalizing a b with
  | zero => rfl
  | succ n ih => rw [Function.iterate_succ_apply, Function.iterate_succ_apply, Function.iterate_succ_apply, bitStep_xor, ih]

/-- Zeros are just shifted out. -/
theorem bitSteps_of_clear {n : Nat} {c : BitVec w} (h : ∀ i < n, c.getLsbD i = false) : (bitStep P)^[n] c = c >>> n := by
  induction n generalizing c with
  | zero => exact (BitVec.ushiftRight_zero c).symm
  | succ n ih =>
    have hstep : bitStep P c = c >>> 1 := by
      rw [bitStep, h 0 (Nat.succ_pos n), if_neg Bool.false_ne_true]
    rw [Function.iterate_succ_apply, hstep, ih, ← BitVec.shiftRight_add, Nat.add_comm]
    intro i hi
    rw [BitVec.getLsbD_ushiftRight]
    exact h (1 + i) (by omega)

/-- The low byte of the register. -/
def lowByte (c : BitVec w) : BitVec w := (c.setWidth 8).setWidth w

theorem getLsbD_lowByte (c : BitVec w) (i : Nat) : (lowByte c).getLsbD i = (decide (i < 8) && c.getLsbD i) := by
  rw [lowByte, BitVec.getLsbD_setWidth, BitVec.getLsbD_setWidth]
  by_cases hi : i < w
  · rw [decide_eq_true hi, Bool.true_and]
  · rw [BitVec.getLsbD_of_ge c i (Nat.not_lt.1 hi), Bool.and_false, Bool.and_false]

/-- **A byte by way of the table**: the shifts of the low byte, and the rest moved down. -/
theorem byteStep_table (c : BitVec w) (b : UInt8) :
    byteStep P c b = (bitStep P)^[8] (lowByte (c ^^^ b.toBitVec.setWidth w)) ^^^ (c >>> 8) := by
  have hbyte : ∀ i, 8 ≤ i → (b.toBitVec.setWidth w).getLsbD i = false := fun i hi => by
    rw [BitVec.getLsbD_setWidth, BitVec.getLsbD_of_ge _ i hi, Bool.and_false]
  rw [byteStep]
  generalize b.toBitVec.setWidth w = x at hbyte ⊢
  have hrest : ∀ i < 8, (lowByte (c ^^^ x) ^^^ (c ^^^ x)).getLsbD i = false := fun i hi => by
    rw [BitVec.getLsbD_xor, getLsbD_lowByte, decide_eq_true hi, Bool.true_and, Bool.xor_self]
  have hsplit : c ^^^ x = lowByte (c ^^^ x) ^^^ (lowByte (c ^^^ x) ^^^ (c ^^^ x)) := by
    rw [← BitVec.xor_assoc, BitVec.xor_self, BitVec.zero_xor]
  have hshift : (lowByte (c ^^^ x) ^^^ (c ^^^ x)) >>> 8 = c >>> 8 := by
    refine BitVec.eq_of_getLsbD_eq (fun i _ => ?_)
    rw [BitVec.getLsbD_ushiftRight, BitVec.getLsbD_ushiftRight, BitVec.getLsbD_xor, getLsbD_lowByte,
      BitVec.getLsbD_xor, hbyte (8 + i) (by omega), Bool.xor_false, decide_eq_false (by omega), Bool.false_and,
      Bool.false_xor]
  conv => lhs; rw [hsplit]
  rw [bitSteps_xor, bitSteps_of_clear P hrest, hshift]

end

/-! ## Errors -/

/-- Bytes as the bits that go into the register, the first lowest. -/
def word : List UInt8 → BitVec w
  | []      => 0
  | b :: bs => b.toBitVec.setWidth w ^^^ (word bs <<< 8)

theorem getLsbD_word_of_ge {data : List UInt8} {i : Nat} (hi : 8 * data.length ≤ i) :
    (word data : BitVec w).getLsbD i = false := by
  induction data generalizing i with
  | nil => exact BitVec.getLsbD_zero
  | cons b bs ih =>
    rw [List.length_cons] at hi
    rw [word, BitVec.getLsbD_xor, BitVec.getLsbD_setWidth, BitVec.getLsbD_of_ge _ i (by omega), Bool.and_false,
      BitVec.getLsbD_shiftLeft, ih (by omega), Bool.and_false, Bool.xor_false]

theorem getLsbD_word_cons (b : UInt8) (bs : List UInt8) {i : Nat} (hi : i < w) :
    (word (b :: bs) : BitVec w).getLsbD i =
      if i < 8 then b.toBitVec.getLsbD i else (word bs : BitVec w).getLsbD (i - 8) := by
  rw [word, BitVec.getLsbD_xor, BitVec.getLsbD_setWidth, BitVec.getLsbD_shiftLeft, decide_eq_true hi, Bool.true_and,
    Bool.true_and]
  by_cases h8 : i < 8
  · rw [if_pos h8, decide_eq_true h8, Bool.not_true, Bool.false_and, Bool.xor_false]
  · rw [if_neg h8, decide_eq_false h8, Bool.not_false, Bool.true_and, BitVec.getLsbD_of_ge _ i (Nat.not_lt.1 h8),
      Bool.false_xor]

/-- Bytes that fit into the register. -/
theorem word_injective : ∀ {x y : List UInt8}, x.length = y.length → 8 * x.length ≤ w →
    (word x : BitVec w) = word y → x = y
  | [], [], _, _, _ => rfl
  | a :: x, b :: y, hlen, hfit, h => by
    rw [List.length_cons] at hfit
    have hbit : ∀ i < w, (word (a :: x) : BitVec w).getLsbD i = (word (b :: y) : BitVec w).getLsbD i := fun i _ => by rw [h]
    have hhead : a = b := by
      refine UInt8.toBitVec_inj.1 (BitVec.eq_of_getLsbD_eq (fun i hi => ?_))
      have hi' := hbit i (by omega)
      rwa [getLsbD_word_cons a x (by omega), getLsbD_word_cons b y (by omega), if_pos hi, if_pos hi] at hi'
    have hlen' : x.length = y.length := Nat.succ.inj hlen
    have htail : (word x : BitVec w) = word y := by
      refine BitVec.eq_of_getLsbD_eq (fun i hi => ?_)
      by_cases hin : i < 8 * x.length
      · have hi' := hbit (i + 8) (by omega)
        rwa [getLsbD_word_cons a x (by omega), getLsbD_word_cons b y (by omega), if_neg (by omega), if_neg (by omega),
          Nat.add_sub_cancel] at hi'
      · rw [getLsbD_word_of_ge (Nat.not_lt.1 hin), getLsbD_word_of_ge (by omega)]
    rw [hhead, word_injective hlen' (by omega) htail]

section

variable {P : BitVec w}

/-- **Bytes that fit into the register** go in at once and are shifted out together. -/
theorem run_word (c : BitVec w) {data : List UInt8} (h : 8 * data.length ≤ w) :
    run P c data = (bitStep P)^[8 * data.length] (c ^^^ word data) := by
  induction data generalizing c with
  | nil => exact (BitVec.xor_zero).symm
  | cons b bs ih =>
    rw [List.length_cons] at h
    have hclear : ∀ i < 8, (word bs <<< 8 : BitVec w).getLsbD i = false := fun i hi => by
      rw [BitVec.getLsbD_shiftLeft, decide_eq_true hi, Bool.not_true, Bool.and_false, Bool.false_and]
    have hback : (word bs <<< 8 : BitVec w) >>> 8 = word bs := by
      refine BitVec.eq_of_getLsbD_eq (fun i hi => ?_)
      rw [BitVec.getLsbD_ushiftRight, BitVec.getLsbD_shiftLeft, Nat.add_sub_cancel_left,
        decide_eq_false (by omega : ¬ 8 + i < 8), Bool.not_false, Bool.and_true]
      by_cases hin : 8 + i < w
      · rw [decide_eq_true hin, Bool.true_and]
      · rw [getLsbD_word_of_ge (by omega), Bool.and_false]
    show run P (byteStep P c b) bs = _
    rw [ih _ (by omega), List.length_cons, Nat.mul_succ, Function.iterate_add_apply, word, ← BitVec.xor_assoc,
      bitSteps_xor P 8, bitSteps_of_clear P hclear, hback, byteStep]

/-- **A shift loses nothing** when the top bit of the polynomial is set. -/
theorem bitStep_injective (hP : P.msb = true) : Function.Injective (bitStep P) := by
  intro a b h
  have hzero : bitStep P (a ^^^ b) = 0 := by rw [bitStep_xor, h, BitVec.xor_self]; rfl
  refine BitVec.xor_eq_zero_iff.1 (BitVec.eq_of_getLsbD_eq (fun i _ => ?_))
  generalize a ^^^ b = x at hzero
  unfold bitStep at hzero
  cases hlow : x.getLsbD 0 with
  | true =>
    -- the top bit of the result is the polynomial's
    rw [hlow, if_pos rfl] at hzero
    have hmsb := congrArg BitVec.msb hzero
    rw [BitVec.msb_xor, hP, BitVec.msb_ushiftRight, decide_eq_true Nat.one_pos] at hmsb
    exact absurd hmsb (by simp)
  | false =>
    rw [hlow, if_neg Bool.false_ne_true] at hzero
    cases i with
    | zero => rw [hlow]; exact BitVec.getLsbD_zero.symm
    | succ i =>
      have hbit := congrArg (fun y => y.getLsbD i) hzero
      simp only [BitVec.getLsbD_ushiftRight] at hbit
      rw [Nat.add_comm i 1, hbit]
      exact BitVec.getLsbD_zero.trans BitVec.getLsbD_zero.symm

theorem run_injective (hP : P.msb = true) (data : List UInt8) : Function.Injective (fun c => run P c data) := by
  induction data with
  | nil => exact Function.injective_id
  | cons b bs ih =>
    intro c c' h
    have hbyte : byteStep P c b = byteStep P c' b := ih h
    exact (BitVec.xor_left_inj _).1 ((bitStep_injective hP).iterate 8 hbyte)

/-- **An error within the width of the register is noticed**, whatever comes before and after it. -/
theorem run_burst (hP : P.msb = true) (c : BitVec w) {x y : List UInt8} (hlen : x.length = y.length)
    (hfit : 8 * x.length ≤ w) (hne : x ≠ y) (before after : List UInt8) :
    run P c (before ++ x ++ after) ≠ run P c (before ++ y ++ after) := by
  intro h
  rw [run_append, run_append, run_append, run_append] at h
  have hword : run P (run P c before) x = run P (run P c before) y := run_injective hP after h
  rw [run_word (run P c before) hfit, run_word (run P c before) (hlen ▸ hfit), ← hlen] at hword
  exact hne (word_injective hlen hfit ((BitVec.xor_right_inj _).1 ((bitStep_injective hP).iterate _ hword)))

end

end Crc
