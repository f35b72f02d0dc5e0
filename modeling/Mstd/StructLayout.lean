import Mathlib.Data.Nat.Basic
/-!
# Layout of structs

Each member lies at the next multiple of its alignment, and the struct is padded to its largest one.  Members that follow
one another without padding (`Packed`) lie at the sums of the sizes before them (`offsets_of_packed`).
-/
namespace StructLayout

structure Member where
  size : Nat
  align : Nat
  deriving DecidableEq

/-- The next multiple of the alignment. -/
def alignUp (align n : Nat) : Nat := (n + align - 1) / align * align

/-- `offsetof` each member, where the first comes behind `n` bytes. -/
def offsets (n : Nat) : List Member → List Nat
  | []      => []
  | m :: ms => alignUp m.align n :: offsets (alignUp m.align n + m.size) ms

/-- The end of the last member. -/
def stop (n : Nat) : List Member → Nat
  | []      => n
  | m :: ms => stop (alignUp m.align n + m.size) ms

def maxAlign : List Member → Nat
  | []      => 1
  | m :: ms => max m.align (maxAlign ms)

def sizeof (ms : List Member) : Nat := alignUp (maxAlign ms) (stop 0 ms)

/-- The sums of the sizes before each member. -/
def starts (n : Nat) : List Member → List Nat
  | []      => []
  | m :: ms => n :: starts (n + m.size) ms

def total : List Member → Nat
  | []      => 0
  | m :: ms => m.size + total ms

/-- No member needs padding in front of it. -/
def Packed (n : Nat) : List Member → Prop
  | []      => True
  | m :: ms => m.align ∣ n ∧ Packed (n + m.size) ms

/-- The alignments are positive. -/
def Aligned (ms : List Member) : Prop := ∀ m ∈ ms, 0 < m.align

variable {ms : List Member} {n align : Nat}

theorem packed_append {ms' : List Member} : Packed n (ms ++ ms') ↔ Packed n ms ∧ Packed (n + total ms) ms' := by
  induction ms generalizing n with
  | nil => exact ⟨fun h => ⟨trivial, h⟩, fun h => h.2⟩
  | cons m ms ih => rw [List.cons_append, Packed, ih, Packed, total, and_assoc, Nat.add_assoc]

theorem alignUp_eq_self_iff (h : 0 < align) : alignUp align n = n ↔ align ∣ n := by
  constructor
  · intro heq
    exact ⟨(n + align - 1) / align, by rw [Nat.mul_comm]; exact heq.symm⟩
  · rintro ⟨k, rfl⟩
    have hdiv : (align * k + align - 1) / align = k := by
      rw [Nat.add_sub_assoc h, Nat.mul_add_div h, Nat.div_eq_of_lt (Nat.sub_lt h Nat.one_pos), Nat.add_zero]
    rw [alignUp, hdiv, Nat.mul_comm]

theorem maxAlign_pos : 0 < maxAlign ms := by
  induction ms with
  | nil => exact Nat.one_pos
  | cons m ms ih => exact Nat.lt_of_lt_of_le ih (Nat.le_max_right _ _)

theorem offsets_of_packed (ha : Aligned ms) (h : Packed n ms) :
    offsets n ms = starts n ms ∧ stop n ms = n + total ms := by
  induction ms generalizing n with
  | nil => exact ⟨rfl, rfl⟩
  | cons m ms ih =>
    have hm := (alignUp_eq_self_iff (ha m (List.mem_cons_self ..))).2 h.1
    obtain ⟨hoff, hstop⟩ := ih (fun x hx => ha x (List.mem_cons_of_mem m hx)) h.2
    refine ⟨?_, ?_⟩
    · rw [offsets, starts, hm, hoff]
    · rw [stop, hm, hstop, total, Nat.add_assoc]

/-- **Without padding between the members**, the struct has the size of its members exactly when its largest alignment
divides it. -/
theorem sizeof_of_packed (ha : Aligned ms) (h : Packed 0 ms) : sizeof ms = total ms ↔ maxAlign ms ∣ total ms := by
  rw [sizeof, (offsets_of_packed ha h).2, Nat.zero_add, alignUp_eq_self_iff maxAlign_pos]

end StructLayout
