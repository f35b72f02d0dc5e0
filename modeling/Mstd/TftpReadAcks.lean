import Mstd.TftpRetry
/-!
# What `read` acknowledges

`pkt_n` is the block to come, and the ACKs that answer a timeout or another block carry it, though the block has not
come.  So `read` acknowledges what it has exactly when only the blocks it waits for come and no wait behind the first
block runs out, and then the server never gets past a block that `read` lacks (`acks_taken_iff`).
-/
namespace Mstd.Tftp

variable {σ φ : Type}

/-! ## `read` with the blocks it has appended -/

/-- The DATA packet whose data a pass of the loop of `read` appends to `result`. -/
def appendedBy (c : Read) : Recv → List (Nat × List UInt8)
  | .timeout    => []
  | .packet _ d =>
    match getAnswer d with
    | some (.data n bytes) => if c.progress = .waiting ∧ n = c.pktN % 65536 then [(n, bytes)] else []
    | _                    => []

/-- `read` with a history variable, the DATA packets it has appended to `result`. -/
structure Tracked where
  client : Read
  blocks : List (Nat × List UInt8)

namespace Tracked

def start (fname : List UInt8) : Tracked := ⟨startRead fname, []⟩

def step (t : Tracked) (e : Recv) : Tracked :=
  { client := readStep t.client e, blocks := t.blocks ++ appendedBy t.client e }

def run (t : Tracked) (es : List Recv) : Tracked := es.foldl step t

/-- The numbers of the blocks in `result`. -/
def nums (t : Tracked) : List Nat := t.blocks.map Prod.fst

theorem run_client : ∀ (es : List Recv) (t : Tracked), (t.run es).client = es.foldl readStep t.client
  | [], _ => rfl
  | e :: es, t => run_client es (t.step e)

end Tracked

/-- What a pass of the loop sends. -/
def sentBy (c : Read) (e : Recv) : List Datagram := (readStep { c with out := [] } e).out

/-- **The ACKs of a pass carry the numbers of blocks that are in `result`.** -/
def AcksTaken (t : Tracked) (e : Recv) : Prop :=
  ∀ p ∈ sentBy t.client e, word16 p 0 = TFTP_CMD_ACK → word16 p 2 ∈ (t.step e).nums

instance AcksTaken.decidable (t : Tracked) (e : Recv) : Decidable (AcksTaken t e) :=
  inferInstanceAs (Decidable (∀ p ∈ sentBy t.client e, word16 p 0 = TFTP_CMD_ACK → word16 p 2 ∈ (t.step e).nums))

/-- What `read` waits for: no DATA packet but the block to come, and behind the first block no end of the wait, but the
one it gives up at. -/
def Awaited (c : Read) : Recv → Prop
  | .timeout    => c.pktN = 1 ∨ MAX_RETRY_COUNT ≤ c.retryCount + 1
  | .packet _ d => ∀ n bytes, getAnswer d = some (.data n bytes) → n = c.pktN % 65536

instance dataNumber.decidable (k : Nat) : (answer : Option Answer) →
    Decidable (∀ n bytes, answer = some (.data n bytes) → n = k)
  | some (.data n _)  => decidable_of_iff (n = k) ⟨fun h _ _ he => by cases he; exact h, fun h => h n _ rfl⟩
  | some (.ack _)     => .isTrue (fun _ _ he => by cases he)
  | some (.error _)   => .isTrue (fun _ _ he => by cases he)
  | none              => .isTrue (fun _ _ he => by cases he)

instance Awaited.decidable (c : Read) : (e : Recv) → Decidable (Awaited c e)
  | .timeout    => inferInstanceAs (Decidable (c.pktN = 1 ∨ MAX_RETRY_COUNT ≤ c.retryCount + 1))
  | .packet _ d => dataNumber.decidable (c.pktN % 65536) (getAnswer d)

/-- **Nothing is answered with the number of the block to come.**  A number of more than 16 bits raises. -/
def AnswersNoneAhead (c : Read) (e : Recv) : Prop := c.progress = .waiting → c.pktN < 65536 → Awaited c e

instance AnswersNoneAhead.decidable (c : Read) (e : Recv) : Decidable (AnswersNoneAhead c e) :=
  inferInstanceAs (Decidable (c.progress = .waiting → c.pktN < 65536 → Awaited c e))

/-! ## A pass of the loop -/

section

variable {c : Read} {src : Addr} {d : Datagram}

theorem sendAckPacket_fields (c : Read) :
    (sendAckPacket c).result = c.result ∧ (sendAckPacket c).pktN = c.pktN ∧
      (sendAckPacket c).out = c.out ++ (if c.pktN < 65536 then [ackPacket c.pktN] else []) ∧
      (sendAckPacket c).progress = if c.pktN < 65536 then c.progress else .raised := by
  unfold sendAckPacket
  by_cases h : c.pktN < 65536
  · simp only [h, if_true, and_self]
  · simp only [h, if_false, List.append_nil, and_self]

/-- **A timeout** while `read` waits. -/
theorem sentBy_timeout (hwait : c.progress = .waiting) :
    sentBy c .timeout =
      if c.retryCount + 1 < MAX_RETRY_COUNT then
        if c.pktN = 1 then [xrqPacket TFTP_CMD_RRQ c.fname] else if c.pktN < 65536 then [ackPacket c.pktN] else []
      else [] := by
  unfold sentBy readStep
  simp only [hwait, if_true, readTimeout]
  by_cases hretry : c.retryCount + 1 < MAX_RETRY_COUNT
  · rw [if_pos hretry, if_pos hretry]
    by_cases hfirst : c.pktN = 1
    · rw [if_pos hfirst, if_pos hfirst]
      rfl
    · rw [if_neg hfirst, if_neg hfirst, (sendAckPacket_fields _).2.2.1]
      rfl
  · rw [if_neg hretry, if_neg hretry]

/-- **A DATA packet** while `read` waits is answered with `pkt_n`, whatever its number is. -/
theorem sentBy_data (src : Addr) (hwait : c.progress = .waiting) {n : Nat} {bytes : List UInt8}
    (hd : getAnswer d = some (.data n bytes)) :
    sentBy c (.packet src d) = if c.pktN < 65536 then [ackPacket c.pktN] else [] := by
  unfold sentBy readStep
  simp only [hwait, if_true, hd, readData]
  by_cases hnum : n = c.pktN % 65536
  · have hack := (sendAckPacket_fields
      { c with progress := .waiting, out := [], result := c.result ++ bytes }).2.2.1
    rw [if_pos hnum]
    split
    · exact hack
    · split <;> exact hack
  · rw [if_neg hnum, (sendAckPacket_fields _).2.2.1]
    rfl

theorem sentBy_other (hd : ∀ n bytes, getAnswer d ≠ some (.data n bytes)) : sentBy c (.packet src d) = [] := by
  unfold sentBy readStep
  split
  · simp only
    split
    · rfl
    · rename_i n bytes h
      exact absurd h (hd n bytes)
    · rfl
  · rfl

theorem readStep_over (hwait : c.progress ≠ .waiting) (e : Recv) : readStep c e = c := by
  unfold readStep
  rw [if_neg hwait]

theorem sentBy_over (hwait : c.progress ≠ .waiting) (e : Recv) : sentBy c e = [] := by
  rw [sentBy, readStep_over (c := { c with out := [] }) hwait]

end

section

variable {c : Read} {src : Addr} {d : Datagram} {n : Nat} {bytes : List UInt8}

theorem appendedBy_data (src : Addr) (hwait : c.progress = .waiting) (hd : getAnswer d = some (.data n bytes)) :
    appendedBy c (.packet src d) = if n = c.pktN % 65536 then [(n, bytes)] else [] := by
  simp only [appendedBy, hd, hwait, true_and]

theorem appendedBy_other (hd : ∀ n bytes, getAnswer d ≠ some (.data n bytes)) : appendedBy c (.packet src d) = [] := by
  simp only [appendedBy]

theorem appendedBy_over (hwait : c.progress ≠ .waiting) (e : Recv) : appendedBy c e = [] := by
  cases e with
  | timeout => rfl
  | packet src d =>
    unfold appendedBy
    simp only [hwait, false_and, if_false]
    split <;> rfl

theorem readStep_data (hwait : c.progress = .waiting) (hd : getAnswer d = some (.data n bytes)) :
    readStep c (.packet src d) = readData c n bytes := by
  simp only [readStep, hwait, if_true, hd]

/-- A pass without a DATA packet leaves the counter, or raises. -/
theorem readStep_other (hwait : c.progress = .waiting) {e : Recv}
    (he : ∀ src d, e = .packet src d → ∀ n bytes, getAnswer d ≠ some (.data n bytes)) :
    (readStep c e).result = c.result ∧ (readStep c e).pktN = c.pktN := by
  cases e with
  | timeout =>
    simp only [readStep, hwait, if_true, readTimeout]
    split
    · split
      · exact ⟨rfl, rfl⟩
      · exact ⟨(sendAckPacket_fields _).1, (sendAckPacket_fields _).2.1⟩
    · exact ⟨rfl, rfl⟩
  | packet src d =>
    simp only [readStep, hwait, if_true]
    split
    · exact ⟨rfl, rfl⟩
    · rename_i n bytes h
      exact absurd h (he src d rfl n bytes)
    · exact ⟨rfl, rfl⟩

/-- **The block to come** is appended, and counted while `read` goes on. -/
theorem readData_awaited (hnum : n = c.pktN % 65536) :
    (readData c n bytes).result = c.result ++ bytes ∧
      ((readData c n bytes).progress = .waiting → (readData c n bytes).pktN = c.pktN + 1) := by
  obtain ⟨hresult, hpkt, -, -⟩ := sendAckPacket_fields { c with result := c.result ++ bytes }
  unfold readData
  rw [if_pos hnum]
  simp only
  split
  · rename_i hraised
    exact ⟨hresult, fun h => by rw [hraised] at h; cases h⟩
  · split
    · exact ⟨hresult, fun h => by cases h⟩
    · exact ⟨hresult, fun _ => congrArg (· + 1) hpkt⟩

theorem readData_unexpected (hnum : n ≠ c.pktN % 65536) :
    (readData c n bytes).result = c.result ∧ (readData c n bytes).pktN = c.pktN := by
  unfold readData
  rw [if_neg hnum]
  exact ⟨(sendAckPacket_fields c).1, (sendAckPacket_fields c).2.1⟩

end

/-! ## The blocks in `result` -/

theorem pass_cases (c : Read) (e : Recv) :
    c.progress ≠ .waiting ∨
    (∃ src d n bytes, c.progress = .waiting ∧ e = .packet src d ∧ getAnswer d = some (.data n bytes)) ∨
    (c.progress = .waiting ∧ ∀ src d, e = .packet src d → ∀ n bytes, getAnswer d ≠ some (.data n bytes)) := by
  by_cases hwait : c.progress = .waiting
  · refine Or.inr ?_
    by_cases hdata : ∃ src d n bytes, e = .packet src d ∧ getAnswer d = some (.data n bytes)
    · obtain ⟨src, d, n, bytes, he, hd⟩ := hdata
      exact Or.inl ⟨src, d, n, bytes, hwait, he, hd⟩
    · exact Or.inr ⟨hwait, fun src d he n bytes hd => hdata ⟨src, d, n, bytes, he, hd⟩⟩
  · exact Or.inl hwait

theorem appendedBy_none {c : Read} {e : Recv}
    (he : ∀ src d, e = .packet src d → ∀ n bytes, getAnswer d ≠ some (.data n bytes)) : appendedBy c e = [] := by
  cases e with
  | timeout => rfl
  | packet src d => exact appendedBy_other (he src d rfl)

/-- **`blocks` is what has been appended to `result`.** -/
theorem Tracked.step_result (t : Tracked) (e : Recv) :
    (t.step e).client.result = t.client.result ++ (appendedBy t.client e).flatMap Prod.snd := by
  obtain hwait | ⟨src, d, n, bytes, hwait, rfl, hd⟩ | ⟨hwait, he⟩ := pass_cases t.client e
  · rw [appendedBy_over hwait, Tracked.step, readStep_over hwait]
    exact (List.append_nil _).symm
  · rw [appendedBy_data src hwait hd, Tracked.step, readStep_data hwait hd]
    by_cases hnum : n = t.client.pktN % 65536
    · rw [if_pos hnum, (readData_awaited hnum).1, List.flatMap_singleton]
    · rw [if_neg hnum, (readData_unexpected hnum).1]
      exact (List.append_nil _).symm
  · rw [appendedBy_none he, Tracked.step, (readStep_other hwait he).1]
    exact (List.append_nil _).symm

theorem Tracked.run_result : ∀ (es : List Recv) {t : Tracked}, t.client.result = t.blocks.flatMap Prod.snd →
    (t.run es).client.result = (t.run es).blocks.flatMap Prod.snd
  | [], _, h => h
  | e :: es, t, h => by
    apply run_result es (t := t.step e)
    rw [t.step_result, h, Tracked.step, List.flatMap_append]

/-- **While `read` waits for a block it has those before it**, and no other. -/
def Tracked.Counts (t : Tracked) : Prop :=
  t.client.progress = .waiting → ∃ k, t.client.pktN = k + 1 ∧ t.nums = (List.range' 1 k).map (· % 65536)

theorem Tracked.start_counts (fname : List UInt8) : (start fname).Counts := fun _ => ⟨0, rfl, rfl⟩

theorem Tracked.Counts.step {t : Tracked} (h : t.Counts) (e : Recv) : (t.step e).Counts := by
  intro hstill
  obtain hwait | ⟨src, d, n, bytes, hwait, rfl, hd⟩ | ⟨hwait, he⟩ := pass_cases t.client e
  · rw [Tracked.step, readStep_over hwait] at hstill
    exact absurd hstill hwait
  · obtain ⟨k, hk, hnums⟩ := h hwait
    unfold Tracked.step at hstill ⊢
    simp only [Tracked.nums, List.map_append, readStep_data hwait hd, appendedBy_data src hwait hd] at hstill hnums ⊢
    by_cases hnum : n = t.client.pktN % 65536
    · refine ⟨k + 1, by rw [(readData_awaited hnum).2 hstill, hk], ?_⟩
      rw [if_pos hnum, hnums, List.range'_1_concat, List.map_append, hnum, hk, Nat.add_comm 1 k]
      rfl
    · refine ⟨k, by rw [(readData_unexpected hnum).2, hk], ?_⟩
      rw [if_neg hnum, hnums]
      exact List.append_nil _
  · obtain ⟨k, hk, hnums⟩ := h hwait
    unfold Tracked.step
    refine ⟨k, (readStep_other hwait he).2.trans hk, ?_⟩
    rw [Tracked.nums, appendedBy_none he, List.append_nil]
    exact hnums

theorem Tracked.Counts.run : ∀ (es : List Recv) {t : Tracked}, t.Counts → (t.run es).Counts
  | [], _, h => h
  | e :: es, _, h => Counts.run es (h.step e)

/-! ## What is acknowledged -/

theorem word16_ack (n : Nat) :
    word16 (ackPacket n) 0 = TFTP_CMD_ACK ∧ word16 (ackPacket n) 2 = n % 65536 := by
  have hcode := word16_ackPacket_code n []
  have hnum := word16_ackPacket_num n []
  rw [List.append_nil] at hcode hnum
  exact ⟨hcode, hnum⟩

theorem word16_xrq (fname : List UInt8) : word16 (xrqPacket TFTP_CMD_RRQ fname) 0 ≠ TFTP_CMD_ACK := by
  simp only [xrqPacket, List.cons_append, word16, List.getD_cons_zero, List.getD_cons_succ, TFTP_CMD_RRQ, TFTP_CMD_ACK]
  decide

section

variable {t : Tracked} {k : Nat}

theorem Tracked.mem_nums (hnums : t.nums = (List.range' 1 k).map (· % 65536)) (hk : k < 65536) {m : Nat} :
    m ∈ t.nums ↔ 1 ≤ m ∧ m ≤ k := by
  rw [hnums, List.mem_map]
  simp only [List.mem_range'_1]
  constructor
  · rintro ⟨j, hj, rfl⟩
    omega
  · rintro ⟨h1, hle⟩
    exact ⟨m, by omega, by omega⟩

/-- The ACK of the block to come, while it is not in `result`. -/
theorem not_acksTaken {e : Recv} (h : t.Counts) (hwait : t.client.progress = .waiting) (hlt : t.client.pktN < 65536)
    (hsent : sentBy t.client e = [ackPacket t.client.pktN]) (hnone : appendedBy t.client e = []) : ¬ AcksTaken t e := by
  obtain ⟨k, hk, hnums⟩ := h hwait
  intro htaken
  obtain ⟨hcode, hnum⟩ := word16_ack t.client.pktN
  have hmem := htaken (ackPacket t.client.pktN) (by rw [hsent]; exact List.mem_singleton_self _) hcode
  have hsame : (t.step e).nums = t.nums := by rw [Tracked.nums, Tracked.step, hnone, List.append_nil, Tracked.nums]
  rw [hsame, Tracked.mem_nums hnums (by omega), hnum] at hmem
  omega

theorem acksTaken_of_none {e : Recv} (h : ∀ p ∈ sentBy t.client e, word16 p 0 ≠ TFTP_CMD_ACK) : AcksTaken t e :=
  fun p hp hcode => absurd hcode (h p hp)

theorem acksTaken_of_nil {e : Recv} (h : sentBy t.client e = []) : AcksTaken t e :=
  acksTaken_of_none (fun p hp => by rw [h] at hp; cases hp)

/-- **A pass acknowledges what is in `result` exactly when it answers nothing ahead.** -/
theorem acksTaken_iff (h : t.Counts) (e : Recv) : AcksTaken t e ↔ AnswersNoneAhead t.client e := by
  obtain hwait | ⟨src, d, n, bytes, hwait, rfl, hd⟩ | ⟨hwait, he⟩ := pass_cases t.client e
  · exact ⟨fun _ hp => absurd hp hwait, fun _ => acksTaken_of_nil (sentBy_over hwait e)⟩
  · have hsent := sentBy_data src hwait hd
    have happ := appendedBy_data src hwait hd
    by_cases hlt : t.client.pktN < 65536
    · rw [if_pos hlt] at hsent
      by_cases hnum : n = t.client.pktN % 65536
      · -- the block to come is appended, then acknowledged
        rw [if_pos hnum] at happ
        refine ⟨fun _ _ _ n' bytes' hd' => ?_, fun _ p hp _ => ?_⟩
        · rw [hd] at hd'
          cases hd'
          exact hnum
        · rw [hsent, List.mem_singleton] at hp
          rw [hp, (word16_ack _).2, ← hnum, Tracked.nums, Tracked.step, happ, List.map_append]
          exact List.mem_append_right _ (List.mem_singleton_self n)
      · rw [if_neg hnum] at happ
        exact ⟨fun htaken => absurd htaken (not_acksTaken h hwait hlt hsent happ),
          fun hnone => absurd (hnone hwait hlt n bytes hd) hnum⟩
    · rw [if_neg hlt] at hsent
      exact ⟨fun _ _ hlt' => absurd hlt' hlt, fun _ => acksTaken_of_nil hsent⟩
  · cases e with
    | packet src d =>
      exact ⟨fun _ _ _ n bytes hd => absurd hd (he src d rfl n bytes),
        fun _ => acksTaken_of_nil (sentBy_other (he src d rfl))⟩
    | timeout =>
      have hsent := sentBy_timeout hwait
      by_cases hretry : t.client.retryCount + 1 < MAX_RETRY_COUNT
      · rw [if_pos hretry] at hsent
        by_cases hfirst : t.client.pktN = 1
        · rw [if_pos hfirst] at hsent
          refine ⟨fun _ _ _ => Or.inl hfirst, fun _ => acksTaken_of_none (fun p hp => ?_)⟩
          rw [hsent, List.mem_singleton] at hp
          rw [hp]
          exact word16_xrq _
        · rw [if_neg hfirst] at hsent
          by_cases hlt : t.client.pktN < 65536
          · rw [if_pos hlt] at hsent
            refine ⟨fun htaken => absurd htaken (not_acksTaken h hwait hlt hsent rfl), fun hnone => ?_⟩
            obtain hone | hlast := hnone hwait hlt
            · exact absurd hone hfirst
            · exact absurd hretry (Nat.not_lt.2 hlast)
          · rw [if_neg hlt] at hsent
            exact ⟨fun _ _ hlt' => absurd hlt' hlt, fun _ => acksTaken_of_nil hsent⟩
      · rw [if_neg hretry] at hsent
        exact ⟨fun _ _ _ => Or.inr (Nat.not_lt.1 hretry), fun _ => acksTaken_of_nil hsent⟩

end

/-! ## The network -/

/-- **What a wait for an ACK takes for it.** -/
theorem waitForAck_accepts {s : Srv σ} {n : Nat} {src : Addr} {d : Datagram}
    (h : (waitForAck s n (.packet src d)).2 = 0) : word16 d 0 = TFTP_CMD_ACK ∧ word16 d 2 = n % 65536 := by
  have hacked := (waitForAck_spec s n (.packet src d)).2.1.1 h
  simp only [acked, Bool.and_eq_true, beq_iff_eq] at hacked
  exact ⟨hacked.1.2, hacked.2⟩

/-- `read` with its history variable, on the network. -/
def trackedMachine (device : Addr) : Link.Machine Tracked Datagram Datagram := fun t e =>
  let t := Tracked.step { t with client := { t.client with out := [] } } (toRecv device e)
  (t, t.client.out)

/-- A download over a network of datagrams. -/
def trackedRun (H : Handler σ) (host device : Addr) (s : Srv σ) (fname : List UInt8) (ds : List Link.Delivery) :
    Link.Net Tracked (Srv σ) Datagram Datagram :=
  Link.deliverAll (trackedMachine device) (serverMachine H host)
    { left := Tracked.start fname, right := s, toRight := (startRead fname).out, toLeft := [] } ds

/-- Every pass of `read` in a download answers nothing ahead. -/
def RunAnswersNoneAhead (H : Handler σ) (host device : Addr) (s : Srv σ) (fname : List UInt8)
    (ds : List Link.Delivery) : Prop :=
  Link.LeftMoves (fun t e => AnswersNoneAhead t.client (toRecv device e)) (trackedMachine device) (serverMachine H host)
    { left := Tracked.start fname, right := s, toRight := (startRead fname).out, toLeft := [] } ds

instance RunAnswersNoneAhead.decidable (H : Handler σ) (host device : Addr) (s : Srv σ) (fname : List UInt8)
    (ds : List Link.Delivery) : Decidable (RunAnswersNoneAhead H host device s fname ds) :=
  Link.LeftMoves.decidable _ _ _ _ _

/-- **The server is not past a block that `read` lacks**, and none of the packets sent to it takes it there. -/
structure NeverAhead (host : Addr) (n : Link.Net Tracked (Srv σ) Datagram Datagram) : Prop where
  passed : ∀ k r, n.right.mode = .reading k r → ∀ j, 1 ≤ j → j < k → j % 65536 ∈ n.left.nums
  next : ∀ k r, n.right.mode = .reading k r → ∀ m ∈ n.toRight, (waitForAck n.right k (.packet host m)).2 = 0 →
    k % 65536 ∈ n.left.nums

/-- The history variable changes nothing. -/
theorem trackedRun_client (env : OtaEnv φ) (host device : Addr) (s : Srv (Ota φ)) (fname : List UInt8)
    (ds : List Link.Delivery) :
    (trackedRun (otaServer env) host device s fname ds).mapLeft Tracked.client =
      downloadRun env host device s fname ds :=
  Link.deliverAll_mapLeft Tracked.client _ (fun _ _ => rfl) _ ds

/-- The invariant of a download whose client answers nothing ahead: the ACKs sent so far are of blocks in `result`. -/
structure AcksBehind (n : Link.Net Tracked (Srv σ) Datagram Datagram) : Prop where
  client : n.left.Counts
  acks : ∀ m ∈ n.toRight, word16 m 0 = TFTP_CMD_ACK → word16 m 2 ∈ n.left.nums ∧ word16 m 2 ≠ 0
  server : ∀ k r, n.right.mode = .reading k r → k ≤ 65536 ∧ ∀ j, 1 ≤ j → j < k → j ∈ n.left.nums

/-- An ACK that the server takes is of a block in `result`. -/
theorem AcksBehind.taken {n : Link.Net Tracked (Srv σ) Datagram Datagram} (h : AcksBehind n) {k r : Nat}
    (hmode : n.right.mode = .reading k r) {m : Datagram} (hm : m ∈ n.toRight)
    (hack : word16 m 0 = TFTP_CMD_ACK ∧ word16 m 2 = k % 65536) : k < 65536 ∧ k ∈ n.left.nums := by
  obtain ⟨hcode, hnum⟩ := hack
  obtain ⟨hmem, hne⟩ := h.acks m hm hcode
  obtain ⟨hle, -⟩ := h.server k r hmode
  -- block 65536 would have number 0, which no ACK of `read` has
  have hlt : k < 65536 := by
    rw [hnum] at hne
    omega
  rw [hnum, Nat.mod_eq_of_lt hlt] at hmem
  exact ⟨hlt, hmem⟩

theorem AcksBehind.neverAhead {host : Addr} {n : Link.Net Tracked (Srv σ) Datagram Datagram} (h : AcksBehind n) :
    NeverAhead host n := by
  constructor
  · intro k r hmode j h1 hlt
    obtain ⟨hle, hpassed⟩ := h.server k r hmode
    rw [Nat.mod_eq_of_lt (by omega)]
    exact hpassed j h1 hlt
  · intro k r hmode m hm hack
    obtain ⟨hlt, hmem⟩ := h.taken hmode hm (waitForAck_accepts hack)
    rwa [Nat.mod_eq_of_lt hlt]

/-- **What a pass sends**: the request, or an ACK of the block to come. -/
theorem mem_sentBy {c : Read} {e : Recv} {p : Datagram} (hp : p ∈ sentBy c e) :
    p = xrqPacket TFTP_CMD_RRQ c.fname ∨ c.progress = .waiting ∧ c.pktN < 65536 ∧ p = ackPacket c.pktN := by
  obtain hwait | ⟨src, d, n, bytes, hwait, rfl, hd⟩ | ⟨hwait, he⟩ := pass_cases c e
  · rw [sentBy_over hwait] at hp
    cases hp
  · rw [sentBy_data src hwait hd] at hp
    split at hp
    · rename_i hlt
      exact Or.inr ⟨hwait, hlt, List.mem_singleton.1 hp⟩
    · cases hp
  · cases e with
    | packet src d =>
      rw [sentBy_other (he src d rfl)] at hp
      cases hp
    | timeout =>
      rw [sentBy_timeout hwait] at hp
      split at hp
      · split at hp
        · exact Or.inl (List.mem_singleton.1 hp)
        · split at hp
          · rename_i hlt
            exact Or.inr ⟨hwait, hlt, List.mem_singleton.1 hp⟩
          · cases hp
      · cases hp

theorem Tracked.Counts.sentBy_nonzero {t : Tracked} (h : t.Counts) {e : Recv} {p : Datagram}
    (hp : p ∈ sentBy t.client e) (hcode : word16 p 0 = TFTP_CMD_ACK) : word16 p 2 ≠ 0 := by
  obtain rfl | ⟨hwait, hlt, rfl⟩ := mem_sentBy hp
  · exact absurd hcode (word16_xrq _)
  · obtain ⟨k, hk, -⟩ := h hwait
    rw [(word16_ack _).2, hk, Nat.mod_eq_of_lt (by omega)]
    exact Nat.succ_ne_zero k

theorem Tracked.mem_nums_step {t : Tracked} {m : Nat} (h : m ∈ t.nums) (e : Recv) : m ∈ (t.step e).nums := by
  rw [Tracked.nums, Tracked.step, List.map_append]
  exact List.mem_append_left _ h

theorem acksBehind_keeps (H : Handler σ) (host device : Addr) :
    Link.KeepsUnder (fun t e => AnswersNoneAhead t.client (toRecv device e)) (trackedMachine device)
      (serverMachine H host) AcksBehind := by
  refine ⟨fun n e h hnone => ?_, fun n e h he => ?_⟩
  · -- a pass of `read`
    have hcounts : Tracked.Counts { n.left with client := { n.left.client with out := [] } } := h.client
    have htaken := (acksTaken_iff hcounts (toRecv device e)).2 hnone
    refine ⟨hcounts.step _, fun m hm hcode => ?_, fun k r hmode => ?_⟩
    · rcases List.mem_append.1 hm with hm | hm
      · obtain ⟨hmem, hne⟩ := h.acks m hm hcode
        exact ⟨Tracked.mem_nums_step hmem _, hne⟩
      · exact ⟨htaken m hm hcode, hcounts.sentBy_nonzero hm hcode⟩
    · obtain ⟨hle, hpassed⟩ := h.server k r hmode
      exact ⟨hle, fun j h1 hlt => Tracked.mem_nums_step (hpassed j h1 hlt) _⟩
  · -- a step of the server
    refine ⟨h.client, h.acks, fun k r hmode => ?_⟩
    obtain rfl | ⟨m, r', hfrom, hcase⟩ := step_reading_cases H hmode
    · exact ⟨by decide, fun j h1 hlt => absurd h1 (by omega)⟩
    · obtain ⟨hle, hpassed⟩ := h.server m r' hfrom
      obtain rfl | ⟨rfl, hack⟩ := hcase
      · exact ⟨hle, hpassed⟩
      · cases e with
        | none => cases hack
        | some d =>
          obtain ⟨hlt, hmem⟩ := h.taken hfrom (he d rfl) (waitForAck_accepts hack)
          refine ⟨hlt, fun j h1 hj => ?_⟩
          obtain hj | rfl := Nat.lt_or_eq_of_le (Nat.le_of_lt_succ hj)
          · exact hpassed j h1 hj
          · exact hmem

/-- **When `read` acknowledges only what it has**: exactly when it gets nothing but the block to come, and no wait behind
the first block runs out.  Then the server never gets past a block that `read` lacks. -/
theorem acks_taken_iff (H : Handler σ) (host device : Addr) (fname : List UInt8) :
    (∀ es : List Recv,
      (∀ pre e post, es = pre ++ e :: post → AcksTaken ((Tracked.start fname).run pre) e) ↔
        ∀ pre e post, es = pre ++ e :: post → AnswersNoneAhead (pre.foldl readStep (startRead fname)) e) ∧
    ∀ s : Srv σ, (∀ k r, s.mode ≠ .reading k r) → ∀ ds, RunAnswersNoneAhead H host device s fname ds →
      NeverAhead host (trackedRun H host device s fname ds) := by
  constructor
  · intro es
    have hone : ∀ pre e, AcksTaken ((Tracked.start fname).run pre) e ↔
        AnswersNoneAhead (pre.foldl readStep (startRead fname)) e := by
      intro pre e
      rw [acksTaken_iff (Tracked.Counts.run pre (Tracked.start_counts fname)), Tracked.run_client]
      rfl
    simp only [hone]
  · intro s hmode ds hnone
    refine AcksBehind.neverAhead (Link.deliverAll_keepsUnder (acksBehind_keeps H host device) ds ?_ hnone)
    refine ⟨Tracked.start_counts fname, fun m hm hcode => ?_, fun k r hr => absurd hr (hmode k r)⟩
    rw [List.mem_singleton.1 hm] at hcode
    exact absurd hcode (word16_xrq fname)

/-- The request arrives, the block and its ACK. -/
theorem acks_taken_download :
    NeverAhead 1 (trackedRun (otaServer stockEnv) 1 2 servedServer cfgName [.right 0, .left 0, .right 1]) :=
  (acks_taken_iff (otaServer stockEnv) 1 2 cfgName).2 servedServer (fun _ _ h => by cases h)
    [.right 0, .left 0, .right 1] (by decide +kernel)

/-- The download of the whole partition. -/
def slowRun : Link.Net Tracked (Srv (Ota Unit)) Datagram Datagram :=
  trackedRun (otaServer stockEnv) 1 2 servedServer (ascii "full.cfg") [.right 0, .left 0, .leftTimeout, .right 1, .right 2]

/-- Behind block 1 a timeout, or block 1 again, is answered with the ACK of block 2; the server takes it and goes on to
block 3. -/
theorem acks_ahead :
    ¬ AcksTaken ((Tracked.start cfgName).run [.packet 2 (dataBytes 1 (List.replicate 512 0))]) .timeout ∧
      ¬ AcksTaken ((Tracked.start cfgName).run [.packet 2 (dataBytes 1 (List.replicate 512 0))])
        (.packet 2 (dataBytes 1 (List.replicate 512 0))) ∧
      ¬ NeverAhead 1 slowRun := by
  have hmode : slowRun.right.mode = .reading 3 0 := by decide +kernel
  have hnums : slowRun.left.nums = [1] := by decide +kernel
  refine ⟨by decide +kernel, by decide +kernel, fun h => ?_⟩
  have hpassed := h.passed 3 0 hmode 2 (by decide) (by decide)
  rw [hnums] at hpassed
  exact absurd hpassed (by decide)

end Mstd.Tftp
