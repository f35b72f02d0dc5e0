import Mstd.LittleEndian
/-!
# Memory seen through a byte pointer

A pointer is the function `i ↦ p[i]`.  `window p off len` is the bytes `p[off .. off + len)`, `u16` and `u32` the
little-endian loads at an offset.  Every load depends only on the bytes it covers (`window_congr`).
`Buffer N` is an array of `N` bytes; `Buffer.put` copies bytes into it and never past its end.
-/
namespace ByteMem

open LittleEndian (decode)

abbrev Ptr := Nat → UInt8

def window (p : Ptr) (off len : Nat) : List UInt8 := (List.range' off len).map p

def u16 (p : Ptr) (off : Nat) : Nat := decode (window p off 2)

def u32 (p : Ptr) (off : Nat) : Nat := decode (window p off 4)

/-- The memory that holds exactly `bs`; what lies behind it is never read by the code that gets its length too. -/
def ofList (bs : List UInt8) : Ptr := fun i => bs.getD i 0

@[simp] theorem length_window (p : Ptr) (off len : Nat) : (window p off len).length = len := by
  simp [window]

theorem getElem?_window (p : Ptr) (off len i : Nat) (h : i < len) : (window p off len)[i]? = some (p (off + i)) := by
  simp [window, h]

theorem window_congr {p q : Ptr} {off len : Nat} (h : ∀ i, off ≤ i → i < off + len → p i = q i) :
    window p off len = window q off len := by
  unfold window
  apply List.map_congr_left
  intro i hi
  rw [List.mem_range'_1] at hi
  exact h i hi.1 hi.2

theorem window_append (p : Ptr) (off a b : Nat) : window p off (a + b) = window p off a ++ window p (off + a) b := by
  unfold window
  rw [← List.map_append, List.range'_append_1]

theorem drop_window (p : Ptr) (off len k : Nat) (h : k ≤ len) :
    (window p off len).drop k = window p (off + k) (len - k) := by
  have hsplit := window_append p off k (len - k)
  rw [Nat.add_sub_cancel' h] at hsplit
  rw [hsplit, List.drop_left' (length_window p off k)]

theorem take_window (p : Ptr) (off len k : Nat) (h : k ≤ len) : (window p off len).take k = window p off k := by
  have hsplit := window_append p off k (len - k)
  rw [Nat.add_sub_cancel' h] at hsplit
  rw [hsplit, List.take_left' (length_window p off k)]

/-- A window is a list exactly when it has its length and its bytes. -/
theorem window_eq_iff (p : Ptr) (off : Nat) (bs : List UInt8) :
    window p off bs.length = bs ↔ ∀ i (h : i < bs.length), p (off + i) = bs[i] := by
  constructor
  · intro h i hi
    have hw := getElem?_window p off bs.length i hi
    rw [h, List.getElem?_eq_getElem hi] at hw
    exact (Option.some.inj hw).symm
  · intro h
    apply List.ext_getElem? fun i => ?_
    by_cases hi : i < bs.length
    · rw [getElem?_window p off _ i hi, List.getElem?_eq_getElem hi, h i hi]
    · rw [List.getElem?_eq_none (by simpa using hi), List.getElem?_eq_none (by simpa using hi)]

theorem ofList_of_lt {bs : List UInt8} {i : Nat} (h : i < bs.length) : ofList bs i = bs[i] := by
  simp [ofList, h]

theorem window_ofList (bs : List UInt8) : window (ofList bs) 0 bs.length = bs := by
  rw [window_eq_iff]
  intro i hi
  rw [Nat.zero_add, ofList_of_lt hi]

theorem window_ofList_drop (bs : List UInt8) (k : Nat) (h : k ≤ bs.length) :
    window (ofList bs) k (bs.length - k) = bs.drop k := by
  have hd := drop_window (ofList bs) 0 bs.length k h
  rw [window_ofList, Nat.zero_add] at hd
  exact hd.symm

theorem window_ofList_take (bs : List UInt8) (k : Nat) (h : k ≤ bs.length) :
    window (ofList bs) 0 k = bs.take k := by
  have ht := take_window (ofList bs) 0 bs.length k h
  rw [window_ofList] at ht
  exact ht.symm

theorem window_ofList_slice (bs : List UInt8) {off n : Nat} (h : off + n ≤ bs.length) :
    window (ofList bs) off n = (bs.drop off).take n := by
  rw [← window_ofList_drop bs off (by omega), take_window _ _ _ _ (by omega)]

/-! ## The loads -/

theorem u16_congr {p q : Ptr} {off : Nat} (h : ∀ i, off ≤ i → i < off + 2 → p i = q i) : u16 p off = u16 q off := by
  rw [u16, u16, window_congr h]

theorem u32_congr {p q : Ptr} {off : Nat} (h : ∀ i, off ≤ i → i < off + 4 → p i = q i) : u32 p off = u32 q off := by
  rw [u32, u32, window_congr h]

theorem u16_eq (p : Ptr) (off : Nat) : u16 p off = (p off).toNat + 256 * (p (off + 1)).toNat := by
  simp [u16, window, decode, List.range'_succ]

theorem u32_eq (p : Ptr) (off : Nat) : u32 p off = (p off).toNat + 256 * ((p (off + 1)).toNat +
    256 * ((p (off + 2)).toNat + 256 * (p (off + 3)).toNat)) := by
  simp [u32, window, decode, List.range'_succ]

theorem u16_shiftRight (p : Ptr) (off : Nat) : u16 p off >>> 8 = (p (off + 1)).toNat := by
  have h0 := (p off).toNat_lt
  rw [Nat.shiftRight_eq_div_pow, u16_eq]
  omega

theorem toNat_eq_255 (b : UInt8) : b.toNat = 255 ↔ b = 0xFF := by
  rw [← UInt8.toNat_inj]; rfl

theorem u32_eq_max_iff (p : Ptr) (off : Nat) :
    u32 p off = 0xFFFFFFFF ↔ ∀ i, off ≤ i → i < off + 4 → p i = 0xFF := by
  have h0 := (p off).toNat_lt
  have h1 := (p (off + 1)).toNat_lt
  have h2 := (p (off + 2)).toNat_lt
  have h3 := (p (off + 3)).toNat_lt
  constructor
  · intro h i hi hi4
    rw [u32_eq] at h
    rw [← toNat_eq_255]
    obtain rfl | rfl | rfl | rfl : i = off ∨ i = off + 1 ∨ i = off + 2 ∨ i = off + 3 := by omega
    all_goals omega
  · intro h
    rw [u32_eq, h off (by omega) (by omega), h (off + 1) (by omega) (by omega), h (off + 2) (by omega) (by omega),
      h (off + 3) (by omega) (by omega)]
    rfl

/-! ## Arrays -/

structure Buffer (N : Nat) where
  bytes : List UInt8
  size : bytes.length = N

def Buffer.fill (N : Nat) (b : UInt8) : Buffer N := ⟨List.replicate N b, List.length_replicate⟩

def Buffer.put {N : Nat} (b : Buffer N) (off : Nat) (data : List UInt8) : Buffer N where
  bytes := b.bytes.take off ++ data.take (N - off) ++ b.bytes.drop (off + (data.take (N - off)).length)
  size := by
    have h := b.size
    simp only [List.length_append, List.length_take, List.length_drop]
    omega

/-- A copy that fits replaces the bytes it covers and keeps the others. -/
theorem Buffer.bytes_put {N : Nat} (b : Buffer N) {off : Nat} {data : List UInt8} (h : off + data.length ≤ N) :
    (b.put off data).bytes = b.bytes.take off ++ data ++ b.bytes.drop (off + data.length) := by
  have ht : data.take (N - off) = data := List.take_of_length_le (by omega)
  simp only [Buffer.put, ht]

theorem Buffer.take_put {N : Nat} (b : Buffer N) {data : List UInt8} (h : data.length ≤ N) :
    (b.put 0 data).bytes.take data.length = data := by
  rw [b.bytes_put (by omega), List.take_zero, List.nil_append, List.take_left' rfl]

theorem Buffer.take_put_append {N : Nat} (b : Buffer N) {off : Nat} {data : List UInt8} (h : off + data.length ≤ N) :
    (b.put off data).bytes.take (off + data.length) = b.bytes.take off ++ data := by
  have hs := b.size
  rw [b.bytes_put h, List.take_left' (by simp only [List.length_append, List.length_take]; omega)]

end ByteMem
