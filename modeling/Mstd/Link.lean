import Mathlib.Data.List.Basic
/-!
# Two machines on a link

Two machines joined by a channel in each direction.  A channel hands its messages over in order and may lose any of
them, and a machine's wait for a message may run out at any moment.  What every move preserves holds after every run
(`run_preserves`).  `InFlight` is the invariant of a channel whose messages carry numbers that only grow.
On a network of datagrams a message may arrive late, out of order and more than once, too (`deliverAll_keeps`).
-/
namespace Link

/-- What a machine does with a message, or with `none` when its wait runs out, and what it sends then. -/
abbrev Machine (σ μ ν : Type) : Type := σ → Option μ → σ × List ν

structure Net (α β μ ν : Type) where
  left : α
  right : β
  toRight : List μ
  toLeft : List ν

inductive Action where
  | leftRecv
  | leftTimeout
  | rightRecv
  | rightTimeout
  | loseToRight (i : Nat)
  | loseToLeft (i : Nat)

variable {α β μ ν : Type}

def Net.stepLeft (L : Machine α ν μ) (n : Net α β μ ν) (e : Option ν) : Net α β μ ν :=
  { n with left := (L n.left e).1, toRight := n.toRight ++ (L n.left e).2 }

def Net.stepRight (R : Machine β μ ν) (n : Net α β μ ν) (e : Option μ) : Net α β μ ν :=
  { n with right := (R n.right e).1, toLeft := n.toLeft ++ (R n.right e).2 }

/-- A receive on an empty channel waits on. -/
def step (L : Machine α ν μ) (R : Machine β μ ν) (n : Net α β μ ν) : Action → Net α β μ ν
  | .leftRecv =>
    match n.toLeft with
    | []      => n
    | m :: ms => Net.stepLeft L { n with toLeft := ms } (some m)
  | .leftTimeout => n.stepLeft L none
  | .rightRecv =>
    match n.toRight with
    | []      => n
    | m :: ms => Net.stepRight R { n with toRight := ms } (some m)
  | .rightTimeout  => n.stepRight R none
  | .loseToRight i => { n with toRight := n.toRight.eraseIdx i }
  | .loseToLeft i  => { n with toLeft := n.toLeft.eraseIdx i }

def run (L : Machine α ν μ) (R : Machine β μ ν) (n : Net α β μ ν) (actions : List Action) : Net α β μ ν :=
  actions.foldl (step L R) n

/-! ## Invariants of a net -/

/-- What each machine's moves and the loss of messages preserve. -/
structure Preserves (L : Machine α ν μ) (R : Machine β μ ν) (I : Net α β μ ν → Prop) : Prop where
  leftTimeout : ∀ n, I n → I (n.stepLeft L none)
  leftRecv : ∀ n m ms, I n → n.toLeft = m :: ms → I (Net.stepLeft L { n with toLeft := ms } (some m))
  rightTimeout : ∀ n, I n → I (n.stepRight R none)
  rightRecv : ∀ n m ms, I n → n.toRight = m :: ms → I (Net.stepRight R { n with toRight := ms } (some m))
  lose : ∀ n toRight toLeft, I n → toRight.Sublist n.toRight → toLeft.Sublist n.toLeft →
    I { n with toRight := toRight, toLeft := toLeft }

section

variable {L : Machine α ν μ} {R : Machine β μ ν} {I : Net α β μ ν → Prop}

theorem step_preserves (hI : Preserves L R I) {n : Net α β μ ν} (h : I n) (a : Action) : I (step L R n a) := by
  cases a with
  | leftTimeout => exact hI.leftTimeout n h
  | rightTimeout => exact hI.rightTimeout n h
  | loseToRight i => exact hI.lose n _ _ h (List.eraseIdx_sublist _ i) (List.Sublist.refl _)
  | loseToLeft i => exact hI.lose n _ _ h (List.Sublist.refl _) (List.eraseIdx_sublist _ i)
  | leftRecv =>
    rw [step]
    cases hn : n.toLeft with
    | nil => exact h
    | cons m ms => exact hI.leftRecv n m ms h hn
  | rightRecv =>
    rw [step]
    cases hn : n.toRight with
    | nil => exact h
    | cons m ms => exact hI.rightRecv n m ms h hn

/-- **An invariant of the moves holds after every run.** -/
theorem run_preserves (hI : Preserves L R I) {n : Net α β μ ν} (h : I n) (actions : List Action) :
    I (run L R n actions) := by
  induction actions generalizing n with
  | nil => exact h
  | cons a as ih => exact ih (step_preserves hI h a)

end

/-- Every move of the run meets a condition on the move and the net before it. -/
def Along (P : Net α β μ ν → Action → Prop) (L : Machine α ν μ) (R : Machine β μ ν) (n : Net α β μ ν) :
    List Action → Prop
  | []      => True
  | a :: as => P n a ∧ Along P L R (step L R n a) as

/-- The right machine takes what is in flight to it. -/
def drain (L : Machine α ν μ) (R : Machine β μ ν) (n : Net α β μ ν) : Net α β μ ν :=
  run L R n (List.replicate n.toRight.length .rightRecv)

section

variable {L : Machine α ν μ} {R : Machine β μ ν} {I : Net α β μ ν → Prop} {P : Net α β μ ν → Action → Prop}

/-- **An invariant of the moves that meet a condition** holds after every run whose moves all do. -/
theorem run_along (hI : ∀ n a, I n → P n a → I (step L R n a)) :
    ∀ {n : Net α β μ ν} (actions : List Action), I n → Along P L R n actions → I (run L R n actions)
  | _, [], h, _ => h
  | n, a :: as, h, hP => run_along hI (n := step L R n a) as (hI n a h hP.1) hP.2

/-- What the right machine's receives preserve holds behind the drain, and nothing is in flight to it then. -/
theorem drain_preserves (hI : ∀ n, I n → I (step L R n .rightRecv)) {n : Net α β μ ν} (h : I n) :
    I (drain L R n) ∧ (drain L R n).toRight = [] ∧ (drain L R n).left = n.left := by
  unfold drain
  generalize hk : n.toRight.length = k
  induction k generalizing n with
  | zero => exact ⟨h, List.length_eq_zero_iff.1 hk, rfl⟩
  | succ k ih =>
    obtain ⟨m, ms, hn⟩ := List.exists_cons_of_length_eq_add_one hk
    have hstep : (step L R n .rightRecv).toRight = ms ∧ (step L R n .rightRecv).left = n.left := by
      simp only [step, hn]
      exact ⟨rfl, rfl⟩
    have hlen : (step L R n .rightRecv).toRight.length = k := by
      rw [hn, List.length_cons] at hk
      rw [hstep.1]
      exact Nat.succ.inj hk
    obtain ⟨h1, h2, h3⟩ := ih (hI n h) hlen
    exact ⟨h1, h2, h3.trans hstep.2⟩

end

/-! ## Datagrams -/

/-- What happens next on a network of datagrams: one of the messages sent so far arrives, or a wait runs out. -/
inductive Delivery where
  | left (i : Nat)
  | leftTimeout
  | right (i : Nat)
  | rightTimeout

/-- Everything sent stays around: it may arrive any number of times, in any order and at any later moment, or never. -/
def deliver (L : Machine α ν μ) (R : Machine β μ ν) (n : Net α β μ ν) : Delivery → Net α β μ ν
  | .left i =>
    match n.toLeft[i]? with
    | none   => n
    | some m => n.stepLeft L (some m)
  | .leftTimeout => n.stepLeft L none
  | .right i =>
    match n.toRight[i]? with
    | none   => n
    | some m => n.stepRight R (some m)
  | .rightTimeout => n.stepRight R none

def deliverAll (L : Machine α ν μ) (R : Machine β μ ν) (n : Net α β μ ν) (ds : List Delivery) : Net α β μ ν :=
  ds.foldl (deliver L R) n

/-- What each machine's moves preserve, on a message sent before or without one. -/
structure Keeps (L : Machine α ν μ) (R : Machine β μ ν) (I : Net α β μ ν → Prop) : Prop where
  left : ∀ n e, I n → (∀ m, e = some m → m ∈ n.toLeft) → I (n.stepLeft L e)
  right : ∀ n e, I n → (∀ m, e = some m → m ∈ n.toRight) → I (n.stepRight R e)

section

variable {L : Machine α ν μ} {R : Machine β μ ν} {I : Net α β μ ν → Prop}

theorem deliver_keeps (hI : Keeps L R I) {n : Net α β μ ν} (h : I n) (d : Delivery) : I (deliver L R n d) := by
  cases d with
  | leftTimeout => exact hI.left n none h (fun _ he => by cases he)
  | rightTimeout => exact hI.right n none h (fun _ he => by cases he)
  | left i =>
    rw [deliver]
    cases hm : n.toLeft[i]? with
    | none => exact h
    | some m => exact hI.left n (some m) h (fun m' he => by cases he; exact List.mem_of_getElem? hm)
  | right i =>
    rw [deliver]
    cases hm : n.toRight[i]? with
    | none => exact h
    | some m => exact hI.right n (some m) h (fun m' he => by cases he; exact List.mem_of_getElem? hm)

/-- **An invariant of the moves holds whatever the network does.** -/
theorem deliverAll_keeps (hI : Keeps L R I) {n : Net α β μ ν} (h : I n) :
    ∀ ds : List Delivery, I (deliverAll L R n ds) := by
  intro ds
  induction ds generalizing n with
  | nil => exact h
  | cons d ds ih => exact ih (deliver_keeps hI h d)

end

/-- What the left machine gets in a delivery. -/
def Delivery.leftEvent (n : Net α β μ ν) : Delivery → Option (Option ν)
  | .left i      => n.toLeft[i]?.map some
  | .leftTimeout => some none
  | _            => none

/-- Every move of the left machine in the run meets a condition on what it gets and its state before. -/
def LeftMoves (P : α → Option ν → Prop) (L : Machine α ν μ) (R : Machine β μ ν) (n : Net α β μ ν) : List Delivery → Prop
  | []      => True
  | d :: ds => (∀ e, d.leftEvent n = some e → P n.left e) ∧ LeftMoves P L R (deliver L R n d) ds

instance LeftMoves.decidable (P : α → Option ν → Prop) [∀ a e, Decidable (P a e)] (L : Machine α ν μ) (R : Machine β μ ν) :
    (n : Net α β μ ν) → (ds : List Delivery) → Decidable (LeftMoves P L R n ds)
  | _, []      => .isTrue trivial
  | n, d :: ds =>
    have := LeftMoves.decidable P L R (deliver L R n d) ds
    have : Decidable (∀ e, d.leftEvent n = some e → P n.left e) :=
      match d.leftEvent n with
      | none   => .isTrue (fun _ h => by cases h)
      | some e => decidable_of_iff (P n.left e) ⟨fun h _ he => by cases he; exact h, fun h => h e rfl⟩
    inferInstanceAs (Decidable (_ ∧ _))

/-- What each machine's moves preserve, the left one's under a condition. -/
structure KeepsUnder (P : α → Option ν → Prop) (L : Machine α ν μ) (R : Machine β μ ν) (I : Net α β μ ν → Prop) :
    Prop where
  left : ∀ n e, I n → P n.left e → I (n.stepLeft L e)
  right : ∀ n e, I n → (∀ m, e = some m → m ∈ n.toRight) → I (n.stepRight R e)

section

variable {L : Machine α ν μ} {R : Machine β μ ν} {I : Net α β μ ν → Prop} {P : α → Option ν → Prop}

theorem deliver_keepsUnder (hI : KeepsUnder P L R I) {n : Net α β μ ν} (h : I n) (d : Delivery)
    (hP : ∀ e, d.leftEvent n = some e → P n.left e) : I (deliver L R n d) := by
  cases d with
  | leftTimeout => exact hI.left n none h (hP none rfl)
  | rightTimeout => exact hI.right n none h (fun _ he => by cases he)
  | left i =>
    rw [deliver]
    cases hm : n.toLeft[i]? with
    | none => exact h
    | some m => exact hI.left n (some m) h (hP (some m) (by rw [Delivery.leftEvent, hm]; rfl))
  | right i =>
    rw [deliver]
    cases hm : n.toRight[i]? with
    | none => exact h
    | some m => exact hI.right n (some m) h (fun m' he => by cases he; exact List.mem_of_getElem? hm)

/-- **An invariant of the moves under a condition** holds after every run whose left moves meet it. -/
theorem deliverAll_keepsUnder (hI : KeepsUnder P L R I) :
    ∀ {n : Net α β μ ν} (ds : List Delivery), I n → LeftMoves P L R n ds → I (deliverAll L R n ds)
  | _, [], h, _ => h
  | n, d :: ds, h, hP =>
    deliverAll_keepsUnder hI (n := deliver L R n d) ds (deliver_keepsUnder hI h d hP.1) hP.2

end

section

variable {α' : Type} (f : α' → α) {L : Machine α ν μ} {L' : Machine α' ν μ} (R : Machine β μ ν)

/-- The net behind a map of its left machine's state. -/
def Net.mapLeft (n : Net α' β μ ν) : Net α β μ ν :=
  { left := f n.left, right := n.right, toRight := n.toRight, toLeft := n.toLeft }

/-- **A left machine with more state than another** runs like it. -/
theorem deliverAll_mapLeft (hL : ∀ a e, L (f a) e = (f (L' a e).1, (L' a e).2)) (n : Net α' β μ ν) (ds : List Delivery) :
    (deliverAll L' R n ds).mapLeft f = deliverAll L R (n.mapLeft f) ds := by
  induction ds generalizing n with
  | nil => rfl
  | cons d ds ih =>
    have hstep : ∀ e, (n.stepLeft L' e).mapLeft f = (n.mapLeft f).stepLeft L e := fun e => by
      simp only [Net.stepLeft, Net.mapLeft, hL]
    have hd : (deliver L' R n d).mapLeft f = deliver L R (n.mapLeft f) d := by
      cases d with
      | leftTimeout => exact hstep none
      | rightTimeout => rfl
      | left i =>
        simp only [deliver, Net.mapLeft]
        cases n.toLeft[i]? with
        | none => rfl
        | some m => exact hstep (some m)
      | right i =>
        simp only [deliver, Net.mapLeft]
        cases n.toRight[i]? <;> rfl
    exact (ih (deliver L' R n d)).trans (congrArg (fun n => deliverAll L R n ds) hd)

end

/-! ## Numbered messages -/

/-- The numbers of the messages in a channel: they do not fall, and stay from `lo` to `hi`. -/
def InFlight (lo hi : Nat) (ks : List Nat) : Prop := ks.Pairwise (· ≤ ·) ∧ ∀ k ∈ ks, lo ≤ k ∧ k ≤ hi

namespace InFlight

variable {lo hi k : Nat} {ks ks' : List Nat}

theorem sublist (h : InFlight lo hi ks) (hs : ks'.Sublist ks) : InFlight lo hi ks' :=
  ⟨h.1.sublist hs, fun k hk => h.2 k (hs.subset hk)⟩

/-- The newest number is sent again, or a newer one. -/
theorem send (h : InFlight lo hi ks) (hk : hi ≤ k) (hlo : lo ≤ k) : InFlight lo k (ks ++ [k]) := by
  refine ⟨List.pairwise_append.2 ⟨h.1, List.pairwise_singleton _ k, fun a ha b hb => ?_⟩, fun a ha => ?_⟩
  · rw [List.mem_singleton.1 hb]
    exact Nat.le_trans (h.2 a ha).2 hk
  · rcases List.mem_append.1 ha with ha | ha
    · exact ⟨(h.2 a ha).1, Nat.le_trans (h.2 a ha).2 hk⟩
    · rw [List.mem_singleton.1 ha]
      exact ⟨hlo, Nat.le_refl k⟩

/-- Behind the oldest message nothing is older than it. -/
theorem recv (h : InFlight lo hi (k :: ks)) {lo' : Nat} (hlo : lo' ≤ k) : InFlight lo' hi ks := by
  obtain ⟨hfirst, hrest⟩ := List.pairwise_cons.1 h.1
  exact ⟨hrest, fun a ha => ⟨Nat.le_trans hlo (hfirst a ha), (h.2 a (List.mem_cons_of_mem _ ha)).2⟩⟩

theorem head (h : InFlight lo hi (k :: ks)) : lo ≤ k ∧ k ≤ hi := h.2 k (List.mem_cons_self ..)

end InFlight

end Link
