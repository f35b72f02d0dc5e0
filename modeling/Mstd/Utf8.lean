import Mathlib.Data.List.Infix
/-!
# UTF-8 with replacement

`encode` is UTF-8; `decode` reads bytes and puts U+FFFD for what is no UTF-8: one for each longest start of a character
that does not go on, and one for each byte that starts none.  `decode_encode_append` is the round trip,
`decodeFrom_take` what a character cut off before an ASCII byte becomes, and `eq_zero_of_decode` says that only the byte
0 is decoded to the character 0.
-/
namespace Utf8

def encode (s : List Char) : List UInt8 := s.flatMap String.utf8EncodeChar

/-- U+FFFD. -/
def replacement : Char := Char.ofNat 0xFFFD

/-- Between characters, or with `n` bytes to come, the next from `lo` to `hi`, and `acc` the bits so far. -/
inductive State where
  | start
  | pending (n acc lo hi : Nat)
  deriving DecidableEq

/-- The first byte of a character. -/
def enter (b : Nat) : List Char × State :=
  if b < 0x80 then ([Char.ofNat b], .start)
  else if b < 0xC2 then ([replacement], .start)
  else if b < 0xE0 then ([], .pending 1 (b - 0xC0) 0x80 0xBF)
  else if b < 0xF0 then
    ([], .pending 2 (b - 0xE0) (if b = 0xE0 then 0xA0 else 0x80) (if b = 0xED then 0x9F else 0xBF))
  else if b < 0xF5 then
    ([], .pending 3 (b - 0xF0) (if b = 0xF0 then 0x90 else 0x80) (if b = 0xF4 then 0x8F else 0xBF))
  else ([replacement], .start)

def step : State → Nat → List Char × State
  | .start, b => enter b
  | .pending n acc lo hi, b =>
    if lo ≤ b ∧ b ≤ hi then
      if n ≤ 1 then ([Char.ofNat (acc * 64 + (b - 0x80))], .start)
      else ([], .pending (n - 1) (acc * 64 + (b - 0x80)) 0x80 0xBF)
    else (replacement :: (enter b).1, (enter b).2)

def decodeFrom (s : State) : List UInt8 → List Char
  | []      => if s = .start then [] else [replacement]
  | b :: bs => (step s b.toNat).1 ++ decodeFrom (step s b.toNat).2 bs

def decode (bytes : List UInt8) : List Char := decodeFrom .start bytes

theorem encode_cons (c : Char) (s : List Char) : encode (c :: s) = String.utf8EncodeChar c ++ encode s := rfl

theorem encode_append (s t : List Char) : encode (s ++ t) = encode s ++ encode t := List.flatMap_append

/-- Two ASCII, a two-byte and a cut three-byte character. -/
example : decode [0x61, 0xC3, 0xA9, 0xE2, 0x82, 0x62] = ['a', 'é', replacement, 'b'] := by decide +kernel

/-! ## One character -/

theorem toNat_bounds (c : Char) : c.toNat < 0x110000 ∧ (c.toNat < 0xD800 ∨ 0xDFFF < c.toNat) := by
  have h := c.valid
  simp only [UInt32.isValidChar, Nat.isValidChar] at h
  have hn : c.val.toNat = c.toNat := rfl
  omega

theorem toNat_ofNat {n : Nat} (h : n < 256) : (UInt8.ofNat n).toNat = n := by
  rw [UInt8.toNat_ofNat', Nat.mod_eq_of_lt h]

theorem enter_ascii {b : Nat} (h : b < 0x80) : enter b = ([Char.ofNat b], .start) := if_pos h

theorem enter_two {b : Nat} (h : 0xC2 ≤ b ∧ b < 0xE0) : enter b = ([], .pending 1 (b - 0xC0) 0x80 0xBF) := by
  rw [enter, if_neg (by omega), if_neg (by omega), if_pos (by omega)]

theorem enter_three {b : Nat} (h : 0xE0 ≤ b ∧ b < 0xF0) :
    enter b = ([], .pending 2 (b - 0xE0) (if b = 0xE0 then 0xA0 else 0x80) (if b = 0xED then 0x9F else 0xBF)) := by
  rw [enter, if_neg (by omega), if_neg (by omega), if_neg (by omega), if_pos (by omega)]

theorem enter_four {b : Nat} (h : 0xF0 ≤ b ∧ b < 0xF5) :
    enter b = ([], .pending 3 (b - 0xF0) (if b = 0xF0 then 0x90 else 0x80) (if b = 0xF4 then 0x8F else 0xBF)) := by
  rw [enter, if_neg (by omega), if_neg (by omega), if_neg (by omega), if_neg (by omega), if_pos (by omega)]

section

variable {acc lo hi : Nat} {b : UInt8} (bs : List UInt8)

theorem decodeFrom_ascii (h : b.toNat < 0x80) :
    decodeFrom .start (b :: bs) = Char.ofNat b.toNat :: decodeFrom .start bs := by
  rw [decodeFrom, step, enter_ascii h]
  rfl

theorem decodeFrom_two (h : 0xC2 ≤ b.toNat ∧ b.toNat < 0xE0) :
    decodeFrom .start (b :: bs) = decodeFrom (.pending 1 (b.toNat - 0xC0) 0x80 0xBF) bs := by
  rw [decodeFrom, step, enter_two h]
  rfl

theorem decodeFrom_three (h : 0xE0 ≤ b.toNat ∧ b.toNat < 0xF0) :
    decodeFrom .start (b :: bs) = decodeFrom (.pending 2 (b.toNat - 0xE0) (if b.toNat = 0xE0 then 0xA0 else 0x80)
      (if b.toNat = 0xED then 0x9F else 0xBF)) bs := by
  rw [decodeFrom, step, enter_three h]
  rfl

theorem decodeFrom_four (h : 0xF0 ≤ b.toNat ∧ b.toNat < 0xF5) :
    decodeFrom .start (b :: bs) = decodeFrom (.pending 3 (b.toNat - 0xF0) (if b.toNat = 0xF0 then 0x90 else 0x80)
      (if b.toNat = 0xF4 then 0x8F else 0xBF)) bs := by
  rw [decodeFrom, step, enter_four h]
  rfl

theorem decodeFrom_last (h : lo ≤ b.toNat ∧ b.toNat ≤ hi) :
    decodeFrom (.pending 1 acc lo hi) (b :: bs) = Char.ofNat (acc * 64 + (b.toNat - 0x80)) :: decodeFrom .start bs := by
  rw [decodeFrom, step, if_pos h, if_pos (Nat.le_refl 1)]
  rfl

theorem decodeFrom_more {n : Nat} (h : lo ≤ b.toNat ∧ b.toNat ≤ hi) :
    decodeFrom (.pending (n + 2) acc lo hi) (b :: bs) =
      decodeFrom (.pending (n + 1) (acc * 64 + (b.toNat - 0x80)) 0x80 0xBF) bs := by
  rw [decodeFrom, step, if_pos h, if_neg (by omega)]
  rfl

/-- A character that does not go on. -/
theorem decodeFrom_cut (n : Nat) (h : b.toNat < lo) :
    decodeFrom (.pending n acc lo hi) (b :: bs) = replacement :: decodeFrom .start (b :: bs) := by
  rw [decodeFrom, step, if_neg (by omega), decodeFrom, step]
  rfl

end

/-- The bytes of the character with this number: the range of each, and what the number is made of. -/
inductive Shape (v : Nat) : List UInt8 → Prop where
  | one {a : UInt8} : a.toNat < 0x80 → v = a.toNat → Shape v [a]
  | two {a b : UInt8} : 0xC2 ≤ a.toNat ∧ a.toNat < 0xE0 → 0x80 ≤ b.toNat ∧ b.toNat ≤ 0xBF →
    v = (a.toNat - 0xC0) * 64 + (b.toNat - 0x80) → Shape v [a, b]
  | three {a b c : UInt8} : 0xE0 ≤ a.toNat ∧ a.toNat < 0xF0 →
    (if a.toNat = 0xE0 then 0xA0 else 0x80) ≤ b.toNat ∧ b.toNat ≤ (if a.toNat = 0xED then 0x9F else 0xBF) →
    0x80 ≤ c.toNat ∧ c.toNat ≤ 0xBF →
    v = ((a.toNat - 0xE0) * 64 + (b.toNat - 0x80)) * 64 + (c.toNat - 0x80) → Shape v [a, b, c]
  | four {a b c d : UInt8} : 0xF0 ≤ a.toNat ∧ a.toNat < 0xF5 →
    (if a.toNat = 0xF0 then 0x90 else 0x80) ≤ b.toNat ∧ b.toNat ≤ (if a.toNat = 0xF4 then 0x8F else 0xBF) →
    0x80 ≤ c.toNat ∧ c.toNat ≤ 0xBF → 0x80 ≤ d.toNat ∧ d.toNat ≤ 0xBF →
    v = (((a.toNat - 0xF0) * 64 + (b.toNat - 0x80)) * 64 + (c.toNat - 0x80)) * 64 + (d.toNat - 0x80) →
    Shape v [a, b, c, d]

theorem shape (c : Char) : Shape c.toNat (String.utf8EncodeChar c) := by
  obtain ⟨hmax, hsur⟩ := toNat_bounds c
  have hv : c.val.toNat = c.toNat := rfl
  unfold String.utf8EncodeChar
  simp only [hv]
  generalize c.toNat = v at *
  have hlast := toNat_ofNat (show v % 0x40 + 0x80 < 256 by omega)
  by_cases h1 : v ≤ 0x7f
  · rw [if_pos h1]
    have ha := toNat_ofNat (show v < 256 by omega)
    exact .one (by omega) (by omega)
  by_cases h2 : v ≤ 0x7ff
  · rw [if_neg h1, if_pos h2]
    have ha := toNat_ofNat (show v / 64 % 0x20 + 0xc0 < 256 by omega)
    exact .two (by omega) (by omega) (by omega)
  have hmid := toNat_ofNat (show v / 64 % 0x40 + 0x80 < 256 by omega)
  by_cases h3 : v ≤ 0xffff
  · rw [if_neg h1, if_neg h2, if_pos h3]
    have ha := toNat_ofNat (show v / 4096 % 0x10 + 0xe0 < 256 by omega)
    refine .three (by omega) ?_ (by omega) (by omega)
    rw [ha, hmid]
    constructor <;> split <;> omega
  · rw [if_neg h1, if_neg h2, if_neg h3]
    have ha := toNat_ofNat (show v / 262144 % 0x08 + 0xf0 < 256 by omega)
    have hb := toNat_ofNat (show v / 4096 % 0x40 + 0x80 < 256 by omega)
    refine .four (by omega) ?_ (by omega) (by omega) (by omega)
    rw [ha, hb]
    constructor <;> split <;> omega

/-- **A character's bytes are decoded to the character.** -/
theorem decodeFrom_encodeChar (c : Char) (bs : List UInt8) :
    decodeFrom .start (String.utf8EncodeChar c ++ bs) = c :: decodeFrom .start bs := by
  have hs := shape c
  have hchar : Char.ofNat c.toNat = c := Char.ofNat_toNat c
  generalize String.utf8EncodeChar c = l at hs
  cases hs with
  | one ha hv => rw [List.singleton_append, decodeFrom_ascii _ ha, ← hv, hchar]
  | two ha hb hv =>
    rw [List.cons_append, List.singleton_append, decodeFrom_two _ ha, decodeFrom_last _ hb, ← hv, hchar]
  | three ha hb hc hv =>
    rw [List.cons_append, List.cons_append, List.singleton_append, decodeFrom_three _ ha, decodeFrom_more _ hb,
      decodeFrom_last _ hc, ← hv, hchar]
  | four ha hb hc hd hv =>
    rw [List.cons_append, List.cons_append, List.cons_append, List.singleton_append, decodeFrom_four _ ha,
      decodeFrom_more _ hb, decodeFrom_more _ hc, decodeFrom_last _ hd, ← hv, hchar]

/-- The first bytes of a character leave some to come, none of them ASCII. -/
theorem decodeFrom_take_pending (c : Char) {k : Nat} (hk : 0 < k) (hlt : k < (String.utf8EncodeChar c).length) :
    ∃ n acc lo hi, 0x80 ≤ lo ∧ ∀ bs, decodeFrom .start ((String.utf8EncodeChar c).take k ++ bs) =
      decodeFrom (.pending n acc lo hi) bs := by
  have hs := shape c
  have hlo (p : Prop) [Decidable p] (n : Nat) (hn : 0x80 ≤ n) : 0x80 ≤ if p then n else 0x80 := by split <;> omega
  generalize String.utf8EncodeChar c = l at hs hlt ⊢
  cases hs with
  | one ha hv => simp only [List.length_cons, List.length_nil] at hlt; omega
  | two ha hb hv =>
    obtain rfl : k = 1 := by simp only [List.length_cons, List.length_nil] at hlt; omega
    exact ⟨_, _, _, _, Nat.le_refl _, fun bs => decodeFrom_two bs ha⟩
  | three ha hb hc hv =>
    rw [List.length_cons, List.length_cons, List.length_cons, List.length_nil] at hlt
    obtain rfl | rfl : k = 1 ∨ k = 2 := by omega
    · exact ⟨_, _, _, _, hlo _ _ (by decide), fun bs => decodeFrom_three bs ha⟩
    · exact ⟨_, _, _, _, Nat.le_refl _, fun bs => (decodeFrom_three _ ha).trans (decodeFrom_more bs hb)⟩
  | four ha hb hc hd hv =>
    rw [List.length_cons, List.length_cons, List.length_cons, List.length_cons, List.length_nil] at hlt
    obtain rfl | rfl | rfl : k = 1 ∨ k = 2 ∨ k = 3 := by omega
    · exact ⟨_, _, _, _, hlo _ _ (by decide), fun bs => decodeFrom_four bs ha⟩
    · exact ⟨_, _, _, _, Nat.le_refl _, fun bs => (decodeFrom_four _ ha).trans (decodeFrom_more bs hb)⟩
    · exact ⟨_, _, _, _, Nat.le_refl _, fun bs =>
        ((decodeFrom_four _ ha).trans (decodeFrom_more _ hb)).trans (decodeFrom_more bs hc)⟩

/-- **A character cut off before an ASCII byte** is replaced. -/
theorem decodeFrom_take (c : Char) {k : Nat} (hk : 0 < k) (hlt : k < (String.utf8EncodeChar c).length) {x : UInt8}
    (hx : x.toNat < 0x80) (bs : List UInt8) :
    decodeFrom .start ((String.utf8EncodeChar c).take k ++ x :: bs) = replacement :: decodeFrom .start (x :: bs) := by
  obtain ⟨n, acc, lo, hi, hlo, hpending⟩ := decodeFrom_take_pending c hk hlt
  rw [hpending]
  exact decodeFrom_cut bs n (by omega)

/-- **A character cut off at the end** is replaced. -/
theorem decode_take (c : Char) {k : Nat} (hk : 0 < k) (hlt : k < (String.utf8EncodeChar c).length) :
    decode ((String.utf8EncodeChar c).take k) = [replacement] := by
  obtain ⟨n, acc, lo, hi, -, hpending⟩ := decodeFrom_take_pending c hk hlt
  have h := hpending []
  rw [List.append_nil] at h
  rw [decode, h]
  rfl

/-! ## Strings -/

/-- **What is encoded is decoded**, whatever follows. -/
theorem decode_encode_append (s : List Char) (bs : List UInt8) : decode (encode s ++ bs) = s ++ decode bs := by
  induction s with
  | nil => rfl
  | cons c s ih =>
    rw [encode_cons, List.append_assoc, decode, decodeFrom_encodeChar]
    exact congrArg (c :: ·) ih

theorem decode_encode (s : List Char) : decode (encode s) = s := by
  have h := decode_encode_append s []
  rwa [List.append_nil, show decode [] = [] from rfl, List.append_nil] at h

/-- The first bytes of a string end in the middle of a character, or between two. -/
theorem take_encode : ∀ {s : List Char} {k : Nat}, k < (encode s).length → ∃ s₀ c s₁ j, s = s₀ ++ c :: s₁ ∧
    j < (String.utf8EncodeChar c).length ∧ (encode s).take k = encode s₀ ++ (String.utf8EncodeChar c).take j
  | c :: s, k, h => by
    by_cases hk : k < (String.utf8EncodeChar c).length
    · exact ⟨[], c, s, k, rfl, hk, by rw [encode_cons, List.take_append_of_le_length (by omega)]; rfl⟩
    · rw [encode_cons, List.length_append] at h
      obtain ⟨s₀, c', s₁, j, rfl, hj, htake⟩ := take_encode (s := s) (k := k - (String.utf8EncodeChar c).length) (by omega)
      refine ⟨c :: s₀, c', s₁, j, rfl, hj, ?_⟩
      rw [encode_cons, encode_cons, List.take_append, List.take_of_length_le (by omega), htake, List.append_assoc]

/-! ## Cut strings -/

/-- The first `k` bytes of the string are those of whole characters. -/
def Boundary (s : List Char) (k : Nat) : Prop := ∃ t, t <+: s ∧ (encode t).length = k

instance (s : List Char) (k : Nat) : Decidable (Boundary s k) :=
  decidable_of_iff (∃ t ∈ s.inits, (encode t).length = k) (by simp only [List.mem_inits]; rfl)

theorem length_encode_le {s t : List Char} (h : t <+: s) : (encode t).length ≤ (encode s).length := by
  obtain ⟨r, rfl⟩ := h
  rw [encode_append, List.length_append]
  exact Nat.le_add_right _ _

theorem boundary_iff {s₀ s₁ : List Char} {c : Char} {j : Nat} (hj : j < (String.utf8EncodeChar c).length) :
    Boundary (s₀ ++ c :: s₁) ((encode s₀).length + j) ↔ j = 0 := by
  constructor
  · rintro ⟨t, ht, hlen⟩
    have hc : (encode (s₀ ++ [c])).length = (encode s₀).length + (String.utf8EncodeChar c).length := by
      rw [encode_append, List.length_append, encode_cons, show encode [] = [] from rfl, List.append_nil]
    have hpre : s₀ ++ [c] <+: s₀ ++ c :: s₁ := ⟨s₁, by simp⟩
    -- a prefix that is no longer than `s₀` with `c` is this or a prefix of `s₀`
    rcases List.prefix_or_prefix_of_prefix ht hpre with h | h
    · rcases List.prefix_concat_iff.1 h with rfl | h
      · omega
      · have := length_encode_le h
        omega
    · have := length_encode_le h
      omega
  · rintro rfl
    exact ⟨s₀, List.prefix_append _ _, rfl⟩

/-- **What the first bytes of a string are decoded to**: its first characters, and U+FFFD for one that is cut. -/
theorem decode_take_encode {s : List Char} {k : Nat} (hk : k < (encode s).length) : ∃ s₀ c s₁ j, s = s₀ ++ c :: s₁ ∧
    j < (String.utf8EncodeChar c).length ∧ k = (encode s₀).length + j ∧
    decode ((encode s).take k) = s₀ ++ if j = 0 then [] else [replacement] := by
  obtain ⟨s₀, c, s₁, j, hs, hj, htake⟩ := take_encode hk
  have hlen := congrArg List.length htake
  rw [List.length_take, List.length_append, List.length_take] at hlen
  refine ⟨s₀, c, s₁, j, hs, hj, by omega, ?_⟩
  rw [htake, decode_encode_append]
  by_cases hj0 : j = 0
  · rw [if_pos hj0, hj0]
    rfl
  · rw [if_neg hj0, decode_take c (Nat.pos_of_ne_zero hj0) hj]

/-- **Cut behind whole characters, and nowhere else**, a string is decoded to its start. -/
theorem decode_take_prefix_iff {s : List Char} {k : Nat} (hk : k < (encode s).length) :
    (decode ((encode s).take k) <+: s ∧ (encode (decode ((encode s).take k))).length ≤ k) ↔ Boundary s k := by
  obtain ⟨s₀, c, s₁, j, rfl, hj, rfl, hdec⟩ := decode_take_encode hk
  rw [hdec, boundary_iff hj]
  by_cases hj0 : j = 0
  · rw [if_pos hj0, List.append_nil]
    exact iff_of_true ⟨List.prefix_append _ _, Nat.le_add_right _ _⟩ hj0
  · rw [if_neg hj0]
    refine iff_of_false ?_ hj0
    rintro ⟨hpre, hlen⟩
    -- the character that is cut would be U+FFFD, and all its bytes would have to fit
    obtain ⟨rfl, -⟩ := List.cons_prefix_cons.1 ((List.prefix_append_right_inj s₀).1 hpre)
    have henc : encode [replacement] = String.utf8EncodeChar replacement := List.append_nil _
    rw [encode_append, List.length_append, henc] at hlen
    omega

/-! ## The byte 0 -/

theorem zero_notMem_encode {s : List Char} (h : '\x00' ∉ s) : 0 ∉ encode s := by
  intro hmem
  obtain ⟨c, hc, h0⟩ := List.mem_flatMap.1 hmem
  have hne : c.toNat ≠ 0 := fun hn => h (by rwa [← Char.ofNat_toNat c, hn] at hc)
  have hs := shape c
  generalize String.utf8EncodeChar c = l at hs h0
  have hz : (0 : UInt8).toNat = 0 := rfl
  cases hs with
  | one ha hv => simp only [List.mem_singleton] at h0; subst h0; omega
  | two ha hb hv => simp only [List.mem_cons, List.not_mem_nil, or_false] at h0; rcases h0 with rfl | rfl <;> omega
  | three ha hb hc hv =>
    simp only [List.mem_cons, List.not_mem_nil, or_false] at h0
    have := hb.1
    rcases h0 with rfl | rfl | rfl
    · omega
    · split at this <;> omega
    · omega
  | four ha hb hc hd hv =>
    simp only [List.mem_cons, List.not_mem_nil, or_false] at h0
    have := hb.1
    rcases h0 with rfl | rfl | rfl | rfl
    · omega
    · split at this <;> omega
    · omega
    · omega

/-- The bytes to come make no character 0 and no surrogate. -/
def Pending : Nat → Nat → Nat → Nat → Prop
  | 0,     _,   _,  _  => False
  | 1,     acc, lo, hi => ∀ b, lo ≤ b → b ≤ hi → (acc * 64 + (b - 0x80)).isValidChar ∧ acc * 64 + (b - 0x80) ≠ 0
  | n + 2, acc, lo, hi => ∀ b, lo ≤ b → b ≤ hi → Pending (n + 1) (acc * 64 + (b - 0x80)) 0x80 0xBF

theorem ofNat_ne_nul {n : Nat} (h : n.isValidChar) (h0 : n ≠ 0) : Char.ofNat n ≠ '\x00' := by
  intro hn
  rw [Char.ofNat, dif_pos h] at hn
  exact h0 (congrArg Char.toNat hn)

theorem decodeFrom_pending : ∀ (bs : List UInt8) {n acc lo hi : Nat}, Pending n acc lo hi →
    ∃ c l, decodeFrom (.pending n acc lo hi) bs = c :: l ∧ c ≠ '\x00'
  | [], _, _, _, _, _ => ⟨replacement, [], rfl, by decide⟩
  | b :: bs, n, acc, lo, hi, h => by
    by_cases hb : lo ≤ b.toNat ∧ b.toNat ≤ hi
    · match n, h with
      | 1, h => exact ⟨_, _, decodeFrom_last bs hb, ofNat_ne_nul (h _ hb.1 hb.2).1 (h _ hb.1 hb.2).2⟩
      | n + 2, h =>
        rw [decodeFrom_more bs hb]
        exact decodeFrom_pending bs (h _ hb.1 hb.2)
    · rw [decodeFrom, step, if_neg hb]
      exact ⟨replacement, _, rfl, by decide⟩

theorem decode_cons_ne {b : UInt8} (hb : b ≠ 0) (bs : List UInt8) : ∃ c l, decode (b :: bs) = c :: l ∧ c ≠ '\x00' := by
  have hne : b.toNat ≠ 0 := fun h => hb (UInt8.toNat_inj.1 h)
  rw [decode]
  by_cases h1 : b.toNat < 0x80
  · exact ⟨_, _, decodeFrom_ascii bs h1, ofNat_ne_nul (.inl (by omega)) hne⟩
  by_cases h2 : b.toNat < 0xC2
  · rw [decodeFrom, step, enter, if_neg h1, if_pos h2]
    exact ⟨replacement, _, rfl, by decide⟩
  by_cases h3 : b.toNat < 0xE0
  · rw [decodeFrom_two bs (by omega)]
    refine decodeFrom_pending bs (fun x hlo hhi => ?_)
    unfold Nat.isValidChar
    omega
  by_cases h4 : b.toNat < 0xF0
  · rw [decodeFrom_three bs (by omega)]
    refine decodeFrom_pending bs (fun x hlo hhi y hlo' hhi' => ?_)
    unfold Nat.isValidChar
    split at hlo <;> split at hhi <;> omega
  by_cases h5 : b.toNat < 0xF5
  · rw [decodeFrom_four bs (by omega)]
    refine decodeFrom_pending bs (fun x hlo hhi y hlo' hhi' z hlo'' hhi'' => ?_)
    unfold Nat.isValidChar
    split at hlo <;> split at hhi <;> omega
  · rw [decodeFrom, step, enter, if_neg h1, if_neg h2, if_neg h3, if_neg h4, if_neg h5]
    exact ⟨replacement, _, rfl, by decide⟩

/-- **Only zeros are decoded to zeros.** -/
theorem eq_zero_of_decode : ∀ {bs : List UInt8}, (∀ c ∈ decode bs, c = '\x00') → ∀ b ∈ bs, b = 0
  | b :: bs, h, x, hx => by
    by_cases hb : b = 0
    · subst hb
      rcases List.mem_cons.1 hx with rfl | hx
      · rfl
      · exact eq_zero_of_decode (fun c hc => h c (List.mem_cons_of_mem _ hc)) x hx
    · obtain ⟨c, l, hl, hc⟩ := decode_cons_ne hb bs
      rw [hl] at h
      exact absurd (h c (List.mem_cons_self ..)) hc

end Utf8
