import Mstd.ByteMem
/-!
# NOR flash

A partition of `N` cells.  Erasing sets every cell to `0xFF`; programming can only clear bits, so a byte programmed
over an old one leaves their bitwise and.  Programming erased cells therefore stores the data (`program_of_erased`),
and an erased tail stays erased behind the data (`ErasedFrom.program`).
-/
namespace NorFlash

open ByteMem (Ptr window)

abbrev Cells (N : Nat) := Fin N → UInt8

variable {N : Nat}

def erased : Cells N := fun _ => 0xFF

def program (c : Cells N) (off : Nat) (data : List UInt8) : Cells N := fun i =>
  if off ≤ i.val then
    match data[i.val - off]? with
    | none   => c i
    | some b => c i &&& b
  else c i

/-- The partition in memory, with `past` the memory behind it. -/
def mem (c : Cells N) (past : Ptr) : Ptr := fun i => if h : i < N then c ⟨i, h⟩ else past i

def ErasedOn (c : Cells N) (a b : Nat) : Prop := ∀ i : Fin N, a ≤ i.val → i.val < b → c i = 0xFF

def ErasedFrom (c : Cells N) (n : Nat) : Prop := ∀ i : Fin N, n ≤ i.val → c i = 0xFF

instance (c : Cells N) (n : Nat) : Decidable (ErasedFrom c n) := by unfold ErasedFrom; infer_instance

theorem mem_of_lt (c : Cells N) (past : Ptr) {i : Nat} (h : i < N) : mem c past i = c ⟨i, h⟩ := dif_pos h

theorem mem_of_ge (c : Cells N) (past : Ptr) {i : Nat} (h : N ≤ i) : mem c past i = past i :=
  dif_neg (Nat.not_lt.2 h)

theorem mem_fin (c : Cells N) (past : Ptr) (i : Fin N) : mem c past i.val = c i := mem_of_lt c past i.isLt

theorem erasedFrom_iff_mem (c : Cells N) (past : Ptr) (n : Nat) :
    ErasedFrom c n ↔ ∀ i, n ≤ i → i < N → mem c past i = 0xFF := by
  constructor
  · intro h i hn hN
    rw [mem_of_lt c past hN]; exact h ⟨i, hN⟩ hn
  · intro h i hn
    rw [← mem_fin c past i]; exact h i.val hn i.isLt

theorem ErasedFrom.mono {c : Cells N} {n m : Nat} (h : ErasedFrom c n) (hnm : n ≤ m) : ErasedFrom c m :=
  fun i hi => h i (Nat.le_trans hnm hi)

theorem ErasedFrom.on {c : Cells N} {n : Nat} (h : ErasedFrom c n) (b : Nat) : ErasedOn c n b :=
  fun i hi _ => h i hi

theorem erasedFrom_erased (n : Nat) : ErasedFrom (erased : Cells N) n := fun _ _ => rfl

/-! ## Programming -/

theorem program_before (c : Cells N) (off : Nat) (data : List UInt8) (i : Fin N) (h : i.val < off) :
    program c off data i = c i := if_neg (Nat.not_le.2 h)

theorem program_behind (c : Cells N) (off : Nat) (data : List UInt8) (i : Fin N) (h : off + data.length ≤ i.val) :
    program c off data i = c i := by
  have hle : off ≤ i.val := by omega
  have hnone : data[i.val - off]? = none := List.getElem?_eq_none (by omega)
  unfold program
  rw [if_pos hle, hnone]

theorem ones_and (b : UInt8) : 0xFF &&& b = b := by
  apply UInt8.toBitVec_inj.1
  rw [UInt8.toBitVec_and]
  exact BitVec.allOnes_and

theorem and_ones (b : UInt8) : b &&& 0xFF = b := by rw [UInt8.and_comm, ones_and]

theorem program_append_ones (c : Cells N) (off : Nat) (data : List UInt8) (m : Nat) :
    program c off (data ++ List.replicate m 0xFF) = program c off data := by
  funext i
  unfold program
  by_cases hlt : i.val - off < data.length
  · rw [List.getElem?_append_left hlt]
  · rw [List.getElem?_append_right (Nat.not_lt.1 hlt), List.getElem?_eq_none (Nat.not_lt.1 hlt), List.getElem?_replicate]
    by_cases hm : i.val - off - data.length < m
    · rw [if_pos hm]
      simp only [and_ones]
    · rw [if_neg hm]

theorem program_of_erased (c : Cells N) (off : Nat) (data : List UInt8) (i : Fin N) (j : Nat) (hj : j < data.length)
    (hi : i.val = off + j) (herased : c i = 0xFF) : program c off data i = data[j] := by
  have hle : off ≤ i.val := by omega
  have hsome : data[i.val - off]? = some data[j] := by
    rw [show i.val - off = j by omega, List.getElem?_eq_getElem hj]
  unfold program
  rw [if_pos hle, hsome, herased]
  exact ones_and _

theorem ErasedFrom.program {c : Cells N} {off : Nat} (h : ErasedFrom c off) (data : List UInt8) :
    ErasedFrom (program c off data) (off + data.length) := fun i hi => by
  rw [program_behind c off data i hi]
  exact h i (by omega)

theorem mem_program_before (c : Cells N) (past : Ptr) (off : Nat) (data : List UInt8) (i : Nat) (h : i < off)
    (hN : off ≤ N) : mem (program c off data) past i = mem c past i := by
  rw [mem_of_lt _ past (by omega), mem_of_lt _ past (by omega)]
  exact program_before c off data _ h

/-- **Programming erased cells stores the data.** -/
theorem window_program {c : Cells N} {off : Nat} {data : List UInt8} (past : Ptr) (hfit : off + data.length ≤ N)
    (h : ErasedOn c off (off + data.length)) : window (mem (program c off data) past) off data.length = data := by
  rw [ByteMem.window_eq_iff]
  intro j hj
  rw [mem_of_lt _ past (show off + j < N by omega)]
  exact program_of_erased c off data _ j hj rfl (h _ (Nat.le_add_right _ _) (by simpa using hj))

end NorFlash
