import Mathlib.Tactic.Ring
import Mathlib.Tactic.Linarith
/-!
# Little-endian integers of a fixed width

A natural as `w` bytes, least significant first (`encode`), and back (`decode`); the two's complement reading of the
same bytes (`decodeInt`) and its inverse, which fails outside the range (`encodeInt`).  `encode_decode` and
`decode_encode` are the two round trips, `encodeInt_decodeInt` and `decodeInt_encodeInt` the signed ones.
-/
namespace LittleEndian

def decode : List UInt8 → Nat
  | [] => 0
  | b :: bs => b.toNat + 256 * decode bs

def encode : Nat → Nat → List UInt8
  | 0, _ => []
  | w + 1, n => UInt8.ofNat n :: encode w (n / 256)

@[simp] theorem length_encode : ∀ (w n : Nat), (encode w n).length = w
  | 0, _ => rfl
  | w + 1, n => by rw [encode, List.length_cons, length_encode w]

theorem decode_lt : ∀ (bs : List UInt8), decode bs < 256 ^ bs.length
  | [] => by simp [decode]
  | b :: bs => by
    have hb := b.toNat_lt
    have ih := decode_lt bs
    rw [decode, List.length_cons, pow_succ]
    omega

theorem decode_encode : ∀ (w n : Nat), n < 256 ^ w → decode (encode w n) = n
  | 0, n, h => by
    simp only [pow_zero, Nat.lt_one_iff] at h
    simp [encode, decode, h]
  | w + 1, n, h => by
    have hdiv : n / 256 < 256 ^ w := by
      rw [Nat.div_lt_iff_lt_mul (by decide)]
      rwa [pow_succ] at h
    rw [encode, decode, decode_encode w _ hdiv, UInt8.toNat_ofNat']
    omega

theorem encode_decode : ∀ (bs : List UInt8), encode bs.length (decode bs) = bs
  | [] => rfl
  | b :: bs => by
    have hb := b.toNat_lt
    have hdiv : (b.toNat + 256 * decode bs) / 256 = decode bs := by omega
    rw [decode, List.length_cons, encode, hdiv, encode_decode bs]
    congr 1
    apply UInt8.toNat_inj.1
    rw [UInt8.toNat_ofNat']
    omega

theorem decode_append : ∀ (as bs : List UInt8), decode (as ++ bs) = decode as + 256 ^ as.length * decode bs
  | [], bs => by simp [decode]
  | a :: as, bs => by
    rw [List.cons_append, decode, decode, decode_append as bs, List.length_cons, pow_succ]
    ring

theorem decode_zeros : ∀ (w : Nat), decode (List.replicate w 0) = 0
  | 0 => rfl
  | w + 1 => by rw [List.replicate_succ, decode, decode_zeros w]; rfl

/-! ## Two's complement -/

/-- The range of a `w`-byte integer. -/
def Fits (w : Nat) (signed : Bool) (v : Int) : Prop :=
  if signed then -(256 ^ w : Int) ≤ 2 * v ∧ 2 * v < 256 ^ w else 0 ≤ v ∧ v < 256 ^ w

instance (w : Nat) (signed : Bool) (v : Int) : Decidable (Fits w signed v) := by
  unfold Fits; infer_instance

def decodeInt (signed : Bool) (bs : List UInt8) : Int :=
  if signed ∧ 256 ^ bs.length ≤ 2 * decode bs then (decode bs : Int) - 256 ^ bs.length else decode bs

def encodeInt (w : Nat) (signed : Bool) (v : Int) : Option (List UInt8) :=
  if Fits w signed v then some (encode w (v % 256 ^ w).toNat) else none

theorem fits_decodeInt (signed : Bool) (bs : List UInt8) : Fits bs.length signed (decodeInt signed bs) := by
  have h := decode_lt bs
  have hc : ((decode bs : Nat) : Int) < (256 : Int) ^ bs.length := by exact_mod_cast h
  unfold Fits decodeInt
  cases signed with
  | false => simp only [Bool.false_eq_true, false_and, if_false]; omega
  | true =>
    simp only [if_true, true_and]
    split
    · rename_i hge
      have : (256 : Int) ^ bs.length ≤ 2 * (decode bs : Int) := by exact_mod_cast hge
      omega
    · rename_i hlt
      have : 2 * (decode bs : Int) < (256 : Int) ^ bs.length := by exact_mod_cast Nat.lt_of_not_le hlt
      omega

theorem decodeInt_emod (signed : Bool) (bs : List UInt8) :
    (decodeInt signed bs % 256 ^ bs.length).toNat = decode bs := by
  have h : ((decode bs : Nat) : Int) < (256 : Int) ^ bs.length := by exact_mod_cast decode_lt bs
  have hmod : (decode bs : Int) % 256 ^ bs.length = decode bs := Int.emod_eq_of_lt (by omega) h
  unfold decodeInt
  split
  · rw [Int.sub_emod_right, hmod]; rfl
  · rw [hmod]; rfl

/-- **Reading and writing back gives the same bytes, and never overflows.** -/
theorem encodeInt_decodeInt (signed : Bool) (bs : List UInt8) :
    encodeInt bs.length signed (decodeInt signed bs) = some bs := by
  rw [encodeInt, if_pos (fits_decodeInt signed bs), decodeInt_emod, encode_decode]

theorem length_of_encodeInt {w : Nat} {signed : Bool} {v : Int} {bs : List UInt8}
    (h : encodeInt w signed v = some bs) : bs.length = w := by
  unfold encodeInt at h
  split at h
  · cases h; exact length_encode _ _
  · cases h

/-- **Writing a value in range and reading it back gives the value.** -/
theorem decodeInt_encodeInt {w : Nat} {signed : Bool} {v : Int} {bs : List UInt8}
    (h : encodeInt w signed v = some bs) : decodeInt signed bs = v := by
  have hlen := length_of_encodeInt h
  unfold encodeInt at h
  split at h
  case isFalse => cases h
  case isTrue hfit =>
    have hpos : (0 : Int) < 256 ^ w := by positivity
    have hlt : (v % 256 ^ w).toNat < 256 ^ w := by
      have := Int.emod_lt_of_pos v hpos
      have h0 := Int.emod_nonneg v hpos.ne'
      zify
      rwa [Int.toNat_of_nonneg h0]
    cases h
    have hdec := decode_encode w _ hlt
    have hcast : (((v % 256 ^ w).toNat : Nat) : Int) = v % 256 ^ w :=
      Int.toNat_of_nonneg (Int.emod_nonneg v hpos.ne')
    unfold decodeInt
    rw [length_encode, hdec, hcast]
    unfold Fits at hfit
    cases signed with
    | false =>
      simp only [Bool.false_eq_true, if_false] at hfit
      simp only [Bool.false_eq_true, false_and, if_false]
      exact Int.emod_eq_of_lt hfit.1 hfit.2
    | true =>
      simp only [if_true] at hfit
      have hnn : ((256 ^ w : Nat) : Int) = (256 : Int) ^ w := by push_cast; rfl
      by_cases hneg : v < 0
      · have hm : v % 256 ^ w = v + 256 ^ w := by
          rw [← Int.add_emod_right]; exact Int.emod_eq_of_lt (by omega) (by omega)
        rw [if_pos ⟨rfl, by zify; rw [hcast, hm]; omega⟩, hm]; omega
      · have hm : v % 256 ^ w = v := Int.emod_eq_of_lt (by omega) (by omega)
        rw [if_neg (fun hc => by
          have := hc.2; zify at this; rw [hcast, hm] at this; omega), hm]

end LittleEndian
