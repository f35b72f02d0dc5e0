import Mathlib.Algebra.BigOperators.Group.List.Basic
import Mstd.DeviceLife
/-!
# How often the partition is erased

A save erases the partition only when its record does not fit behind the last one, so two erases have more than a
partition of written bytes on one of their sides.  Over a whole life, whatever is received and whatever fails, there is at
most one erase for every 2 KiB that were written, one for each reset and one for each flash error (`live_wear`).
-/
namespace Mstd

open ByteMem (Ptr)
open NorFlash (mem)

def FlashOp.isErase : FlashOp → Bool
  | .erase      => true
  | .write _ _ _ => false

/-- The bytes that `esp_partition_write` is to write. -/
def FlashOp.size : FlashOp → Nat
  | .erase          => 0
  | .write _ _ data => data.length

def erasesOf (ops : List FlashOp) : Nat := ops.countP FlashOp.isErase

def bytesOf (ops : List FlashOp) : Nat := (ops.map FlashOp.size).sum

instance (r : Saved) : Decidable r.FlashFailed := inferInstanceAs (Decidable (_ ∨ _))

def failuresOf (saved : List Saved) : Nat := saved.countP (fun r => decide r.FlashFailed)

/-- **What a store has spent towards its next erase**: the bytes of the log, or more than a partition when the next save
erases anyway. -/
def Setup.spent (d : Setup) : Nat := if d.nextCfgShift < 0 then 4097 else d.nextCfgShift.toNat

/-- **An erase is paid for** by what is spent, by twice the bytes that are written, or by a flash error. -/
def Saved.Paid (r : Saved) (d : Setup) : Prop :=
  4097 * erasesOf r.ops + r.dev.spent ≤ d.spent + 2 * bytesOf r.ops + if r.FlashFailed then 4097 else 0

section

variable {fate : Fate} {d : Setup} {image : List UInt8}

theorem Setup.spent_eq {n : Nat} (h : d.nextCfgShift = n) : d.spent = n := by
  rw [spent, h, if_neg (Int.not_lt.2 (Int.natCast_nonneg n)), Int.toNat_natCast]

theorem Setup.spent_neg (h : d.nextCfgShift < 0) : d.spent = 4097 := if_pos h

theorem erasesOf_append (ops ops' : List FlashOp) : erasesOf (ops ++ ops') = erasesOf ops + erasesOf ops' :=
  List.countP_append

theorem bytesOf_append (ops ops' : List FlashOp) : bytesOf (ops ++ ops') = bytesOf ops + bytesOf ops' := by
  rw [bytesOf, List.map_append, List.sum_append]
  rfl

/-- What `writeImage` leaves: its write, and the position behind the record or -1. -/
theorem writeImage_position (fate : Fate) {n : Nat} (hpos : d.nextCfgShift = n) (image : List UInt8) (ops : List FlashOp) :
    let r := writeImage fate d image ops
    r.ops = ops ++ [.write d.flash n image] ∧
      (r.dev.spent = n + image.length ∨ r.dev.spent = 4097 ∧ r.FlashFailed) := by
  unfold writeImage
  rw [hpos, Int.toNat_natCast]
  cases fate.writeFail with
  | none => exact ⟨rfl, .inl (Setup.spent_eq rfl)⟩
  | some k => exact ⟨rfl, .inr ⟨Setup.spent_neg (by decide : (-1 : Int) < 0), .inr rfl⟩⟩

theorem storeImage_paid (fate : Fate) (d : Setup) (image : List UInt8) : (storeImage fate d image).Paid d := by
  unfold Saved.Paid storeImage
  by_cases hneed : d.nextCfgShift < 0 ∨ d.nextCfgShift + image.length > MAX_CFG_SIZE
  · have hspent : 4097 ≤ d.spent + image.length := by
      unfold Setup.spent MAX_CFG_SIZE at *
      split <;> omega
    rw [if_pos hneed]
    cases fate.eraseOk with
    | false =>
      have hfail : Saved.FlashFailed { err := some "Can't erase partition", dev := { d with nextCfgShift := 0 },
                                       image := image, ops := [.erase] } := .inl rfl
      rw [if_neg Bool.false_ne_true, if_pos hfail, Setup.spent_eq (d := { d with nextCfgShift := 0 }) (n := 0) rfl]
      show 4097 * 1 + 0 ≤ d.spent + 2 * 0 + 4097
      omega
    | true =>
      obtain ⟨hops, hleft⟩ := writeImage_position fate (d := { d with nextCfgShift := 0, flash := NorFlash.erased })
        (n := 0) rfl image [.erase]
      rw [if_pos rfl, hops]
      show 4097 * 1 + _ ≤ d.spent + 2 * (0 + (image.length + 0)) + _
      obtain hleft | ⟨hleft, hfail⟩ := hleft
      · rw [hleft]
        omega
      · rw [hleft, if_pos hfail]
        omega
  · obtain ⟨n, hn⟩ := Int.eq_ofNat_of_zero_le (Int.not_lt.1 (fun h => hneed (.inl h)))
    obtain ⟨hops, hleft⟩ := writeImage_position fate hn image []
    rw [if_neg hneed, hops, Setup.spent_eq hn]
    show 4097 * 0 + _ ≤ n + 2 * (image.length + 0) + _
    obtain hleft | ⟨hleft, hfail⟩ := hleft
    · rw [hleft]
      omega
    · rw [hleft, if_pos hfail]
      omega

theorem paid_nothing {r : Saved} (hops : r.ops = []) (hdev : r.dev = d) : r.Paid d := by
  unfold Saved.Paid
  rw [hops, hdev]
  show 4097 * 0 + d.spent ≤ d.spent + 2 * 0 + _
  omega

theorem saveConfigImage_paid (fate : Fate) (d : Setup) (image : List UInt8) : (saveConfigImage fate d image).Paid d := by
  unfold saveConfigImage
  split
  · exact paid_nothing rfl rfl
  · split
    · exact paid_nothing rfl rfl
    · exact storeImage_paid fate d _

theorem saveConfigFull_paid (fate : Fate) (d : Setup) (X : Flash) : (saveConfigFull fate d X).Paid d := by
  unfold saveConfigFull
  simp only
  split
  · exact paid_nothing rfl rfl
  · split
    · have hfail : Saved.FlashFailed { err := some "Can't erase partition", dev := d, image := flashBytes X,
                                       ops := [.erase] } := .inl rfl
      unfold Saved.Paid
      rw [if_pos hfail]
      show 4097 * 1 + d.spent ≤ d.spent + 2 * 0 + 4097
      omega
    · have hlen := length_flashBytes X
      unfold MAX_CFG_SIZE at hlen
      cases fate.writeFail
      all_goals
        unfold Saved.Paid
        rw [Setup.spent_eq (n := 0) rfl]
        show 4097 * 1 + 0 ≤ d.spent + 2 * (0 + ((flashBytes X).length + 0)) + _
        omega

/-- **Every save is paid for**, in whatever state it finds the store and whatever the flash answers. -/
theorem save_paid (fate : Fate) (d : Setup) (call : SaveCall) : (call.run fate d).Paid d := by
  cases call with
  | image img => exact saveConfigImage_paid fate d img
  | full X => exact saveConfigFull_paid fate d X

end

/-! ## Over a life -/

/-- The erased header that a load finds is in the partition. -/
theorem spent_boot (load : LoadEnv) (past : Ptr) (F : Flash) : (loadConfig load past (boot F)).spent ≤ 4097 := by
  have hzero : (boot F).spent ≤ 4097 := Nat.zero_le _
  unfold loadConfig
  split
  · exact hzero
  · split
    · exact hzero
    · split
      · exact hzero
      · have hscan := findFrom_shift (mem F past) 0 (boot F).toActive
        unfold Setup.spent
        show (if (findFrom (mem F past) 0 (boot F).toActive).nextCfgShift < 0 then 4097
          else (findFrom (mem F past) 0 (boot F).toActive).nextCfgShift.toNat) ≤ 4097
        obtain ⟨n, -, hfree, hshift⟩ | ⟨-, hshift⟩ := hscan
        · have hlt := ((frameAt_free_iff _ _).1 hfree).1
          unfold MAX_CFG_SIZE at hlt
          rw [hshift]
          split <;> split <;> omega
        · rw [hshift]
          exact Nat.zero_le _

namespace Tftp

variable {φ : Type}

/-- **All erases are paid for**: `free` of them by themselves. -/
def Charged (free : Nat) (store : Setup × List Saved) : Prop :=
  4097 * erasesOf (store.2.flatMap Saved.ops) + store.1.spent ≤
    4097 * (free + failuresOf store.2) + 2 * bytesOf (store.2.flatMap Saved.ops)

theorem Charged.save {free : Nat} {d : Setup} {saved : List Saved} {r : Saved} (h : Charged free (d, saved))
    (hpaid : r.Paid d) : Charged free (r.dev, saved ++ [r]) := by
  unfold Charged at *
  unfold Saved.Paid at hpaid
  have hfailures : failuresOf (saved ++ [r]) = failuresOf saved + if r.FlashFailed then 1 else 0 := by
    simp [failuresOf, List.countP_append, List.countP_cons]
  simp only [List.flatMap_append, List.flatMap_singleton, erasesOf_append, bytesOf_append, hfailures]
  simp only at h
  split at hpaid
  · rw [if_pos ‹_›]
    omega
  · rw [if_neg ‹_›]
    omega

/-- The ends of sessions. -/
theorem Charged.outcomes {env : OtaEnv φ} {free : Nat} {sessions : List (Session (Ota φ))} {store store' : Setup × List Saved}
    (h : Charged free store) (hout : Outcomes env store sessions store') : Charged free store' := by
  induction sessions generalizing store with
  | nil =>
    cases (hout : store' = store)
    exact h
  | cons session rest ih =>
    obtain ⟨mid, hone, hrest⟩ := hout
    refine ih ?_ hrest
    cases hone with
    | config d saved _ r hjob hr => exact h.save (hr ▸ save_paid _ _ _)
    | firmware => exact h

/-- The resets among these events. -/
def resetsOf (events : List (DevEvent φ)) : Nat :=
  events.countP (fun | .reset _ => true | .recv _ => false)

theorem Charged.erases {free : Nat} {store : Setup × List Saved} (h : Charged free store) :
    4097 * erasesOf (store.2.flatMap Saved.ops) ≤
      4097 * (free + failuresOf store.2) + 2 * bytesOf (store.2.flatMap Saved.ops) :=
  Nat.le_trans (Nat.le_add_right _ _) h

/-- A reset costs an erase at most. -/
theorem charged_reset {free : Nat} {dev : Device φ}
    (h : 4097 * erasesOf (dev.saved.flatMap Saved.ops) ≤
      4097 * (free + failuresOf dev.saved) + 2 * bytesOf (dev.saved.flatMap Saved.ops)) (c : Chance φ) :
    Charged (free + 1) (dev.reset c).srv.app.store := by
  have hspent := spent_boot c.load c.past dev.flash
  have hshift := (wifiInit_store c.past (loadConfig c.load c.past (boot dev.flash))).2.2
  have hspent' : (wifiInit c.past (loadConfig c.load c.past (boot dev.flash))).setup.spent ≤ 4097 := by
    unfold Setup.spent at *
    rw [hshift]
    exact hspent
  show 4097 * erasesOf (dev.saved.flatMap Saved.ops) +
    (wifiInit c.past (loadConfig c.load c.past (boot dev.flash))).setup.spent ≤
      4097 * (free + 1 + failuresOf dev.saved) + 2 * bytesOf (dev.saved.flatMap Saved.ops)
  omega

/-- **How often the partition is erased.**  Whatever a device gets and whatever its flash answers: with the one of its
first boot, there is an erase at most for each reset, for each save that the flash failed, and for every 2 KiB and more
that were written. -/
theorem live_wear (api : OtaApi φ) (fate : Nat → Fate) (c : Chance φ) (dev : Device φ) (events : List (DevEvent φ))
    (hnew : dev.saved = []) :
    let dev' := live api fate (dev.reset c) events
    4097 * erasesOf dev'.srv.app.flashOps ≤
      4097 * (1 + resetsOf events + failuresOf dev'.saved) + 2 * bytesOf dev'.srv.app.flashOps := by
  have hlife : InUpdate ((live api fate (dev.reset c) events).env api fate) (live api fate (dev.reset c) events).srv ∧
      Charged (1 + resetsOf events) (live api fate (dev.reset c) events).srv.app.store := by
    induction events using List.reverseRecOn with
    | nil =>
      refine ⟨inUpdate_reset _ c dev, ?_⟩
      have hzero : 4097 * erasesOf (dev.saved.flatMap Saved.ops) ≤
          4097 * (0 + failuresOf dev.saved) + 2 * bytesOf (dev.saved.flatMap Saved.ops) := by
        rw [hnew]
        exact Nat.zero_le _
      exact charged_reset hzero c
    | append_singleton events event ih =>
      obtain ⟨hin, hcharged⟩ := ih
      rw [live, List.foldl_append]
      refine ⟨(step_since hin event).1, ?_⟩
      cases event with
      | recv e =>
        obtain ⟨sessions, -, hout, -⟩ := step_outcome hin e
        rw [show resetsOf (events ++ [.recv e]) = resetsOf events from List.countP_append]
        exact hcharged.outcomes hout
      | reset c =>
        rw [show resetsOf (events ++ [.reset c]) = resetsOf events + 1 from List.countP_append, ← Nat.add_assoc]
        exact charged_reset hcharged.erases c
  exact hlife.2.erases

theorem live_wear_upload :
    let dev := live noOta (fun _ => .working) (factoryDevice.reset goodReset) uploadThenReset
    4097 * erasesOf dev.srv.app.flashOps ≤
      4097 * (1 + resetsOf uploadThenReset + failuresOf dev.saved) + 2 * bytesOf dev.srv.app.flashOps :=
  live_wear noOta (fun _ => .working) goodReset factoryDevice uploadThenReset rfl

end Tftp

end Mstd
