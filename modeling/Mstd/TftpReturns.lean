import Mstd.TftpBounds
/-!
# When `run` returns

`process_write` returns 1 for a packet that is not its own, so that the loop of `parse_rq` takes it as a request.  When
it is no request either, the result stays at 1 and the loop goes round for ever (`step_hung_iff`).  Otherwise silence
brings the server back to `run`, as long as no step leaves a buffer (`run_returns_iff`).
-/
namespace Mstd.Tftp

variable {σ φ : Type}

/-- **A packet that ends a write session and is no request**, with a close that comes back. -/
def Spins (H : Handler σ) (s : Srv σ) : Recv → Prop
  | .timeout         => False
  | .packet src data =>
    (∃ n, s.mode = .writing n) ∧ H.onClose s.app ≠ none ∧
      word16 (recvFrom s (.packet src data)).buffer.bytes 0 ≠ TFTP_CMD_DATA ∧
      word16 (recvFrom s (.packet src data)).buffer.bytes 0 ≠ TFTP_CMD_WRQ ∧
      word16 (recvFrom s (.packet src data)).buffer.bytes 0 ≠ TFTP_CMD_RRQ

/-- **A step that leaves a buffer**: a string that runs out of `m_buffer`, or a negative length that `on_write_data`
copies or hands to `esp_ota_write`. -/
def Leaves (env : OtaEnv φ) (s : Srv (Ota φ)) (e : Recv) : Prop :=
  (∃ i ∈ stepReads (otaServer env) s e, TFTP_DATA_SIZE ≤ i) ∨
    ∃ len ∈ stepLens s e, len < 0 ∧ (writeCopy len s.app ≠ [] ∨ s.app.job = .loadFW ∧ s.app.otaHandle ≠ 0)

/-- `run` has returned, or a firmware update has ended in a reboot. -/
def Mode.Returned (m : Mode) : Prop := m = .idle ∨ m = .stopped

/-- No `recvfrom` follows: the loop of `parse_rq` spins, or the behaviour is undefined. -/
def Mode.Stuck (m : Mode) : Prop := m = .hung ∨ m = .fault

/-- How many timeouts it takes to get back to `run`. -/
def Mode.patience : Mode → Nat
  | .writing _   => 1
  | .reading _ r => 1 + (2 - r)
  | _            => 0

/-! ## The loop of `parse_rq` -/

section

variable (H : Handler σ) (s : Srv σ)

/-- `parse_rq` spins on a packet that is no request, when it comes with result 1. -/
theorem parseRq_hung_iff (result : Int) :
    (parseRq H s result).mode = .hung ↔
      0 < result ∧ word16 s.buffer.bytes 0 ≠ TFTP_CMD_WRQ ∧ word16 s.buffer.bytes 0 ≠ TFTP_CMD_RRQ := by
  by_cases hwrq : word16 s.buffer.bytes 0 = TFTP_CMD_WRQ
  · refine ⟨fun h => ?_, fun h => absurd hwrq h.2.1⟩
    obtain hr | ⟨name, -, hr⟩ | ⟨name, packet, -, -, hr⟩ := parseRq_wrq (H := H) hwrq result <;> rw [hr] at h <;> cases h
  by_cases hrrq : word16 s.buffer.bytes 0 = TFTP_CMD_RRQ
  · refine ⟨fun h => ?_, fun h => absurd hrrq h.2.2⟩
    cases hstr : requestStrings s.buffer.bytes with
    | none =>
      rw [parseRq_rrq_fault H s hrrq hstr] at h
      cases h
    | some strings =>
      rw [parseRq_of_rrq hrrq result hstr] at h
      split at h
      · cases h
      · exact absurd h (afterRead_mode H _ (fun t ht => ⟨1, 0, processReadTop_mode H ht⟩)).not_hung
  · rw [parseRq_other hwrq hrrq]
    split
    · exact ⟨fun h => (by cases h), fun h => absurd h.1 (by omega)⟩
    · exact ⟨fun _ => ⟨by omega, hwrq, hrrq⟩, fun _ => rfl⟩

theorem afterWrite_hung_iff (result : Int) :
    (afterWrite H s result).mode = .hung ↔ H.onClose s.app ≠ none ∧ 0 < result ∧
      word16 s.buffer.bytes 0 ≠ TFTP_CMD_WRQ ∧ word16 s.buffer.bytes 0 ≠ TFTP_CMD_RRQ := by
  unfold afterWrite
  simp only
  cases H.onClose s.app with
  | none => exact ⟨fun h => (by cases h), fun h => absurd rfl h.1⟩
  | some app =>
    simp only
    by_cases hle : result ≤ 0
    · rw [if_pos hle]
      exact ⟨fun h => (by cases h), fun h => absurd h.2.1 (by omega)⟩
    · rw [if_neg hle, parseRq_hung_iff]
      exact ⟨fun h => ⟨Option.some_ne_none app, h⟩, fun h => h.2⟩

theorem Spins.writing {e : Recv} (h : Spins H s e) : ∃ n, s.mode = .writing n := by
  cases e with
  | timeout => exact h.elim
  | packet src data => exact h.1

theorem packet_hung_iff {n : Nat} (hmode : s.mode = .writing n) (src : Addr) (data : Datagram) :
    (step H s (.packet src data)).mode = .hung ↔ Spins H s (.packet src data) := by
  have hsize : 0 ≤ (recvFrom s (.packet src data)).dataSize := Int.natCast_nonneg _
  have hspins : Spins H s (.packet src data) ↔ H.onClose (recvFrom s (.packet src data)).app ≠ none ∧
      word16 (recvFrom s (.packet src data)).buffer.bytes 0 ≠ TFTP_CMD_DATA ∧
      word16 (recvFrom s (.packet src data)).buffer.bytes 0 ≠ TFTP_CMD_WRQ ∧
      word16 (recvFrom s (.packet src data)).buffer.bytes 0 ≠ TFTP_CMD_RRQ :=
    ⟨fun h => h.2, fun h => ⟨⟨n, hmode⟩, h⟩⟩
  rw [step_writing H _ hmode, hspins]
  generalize recvFrom s (.packet src data) = t at *
  by_cases hdata : word16 t.buffer.bytes 0 = TFTP_CMD_DATA
  · -- the session goes on, or is closed with result 0
    refine ⟨fun h => ?_, fun h => absurd hdata h.2.1⟩
    cases hb : processWriteBody H t n with
    | fault => rw [hb] at h; cases h
    | again u m => rw [hb] at h; cases h
    | finish u result =>
      rw [hb] at h
      have hpos := ((afterWrite_hung_iff H u result).1 h).2.1
      rw [body_data_finish H t hsize hdata hb] at hpos
      exact absurd hpos (by decide)
  · by_cases hfirst : word16 t.buffer.bytes 0 = TFTP_CMD_WRQ ∧ n = 1
    · rw [body_wrq H hsize hfirst.1, if_pos hfirst.2]
      exact ⟨fun h => (by cases h), fun h => absurd hfirst.1 h.2.2.1⟩
    · rw [body_foreign H hsize hdata hfirst]
      simp only [afterWrite_hung_iff]
      exact ⟨fun h => ⟨h.1, hdata, h.2.2⟩, fun h => ⟨h.1, by decide, h.2.2⟩⟩

/-- **When a step leaves the server spinning.** -/
theorem step_hung_iff (e : Recv) : (step H s e).mode = .hung ↔ s.mode = .hung ∨ Spins H s e := by
  have hnever : (∀ n, s.mode ≠ .writing n) → s.mode ≠ .hung → (step H s e).mode ≠ .hung →
      ((step H s e).mode = .hung ↔ s.mode = .hung ∨ Spins H s e) := by
    intro hw hh hstep
    refine ⟨fun h => absurd h hstep, fun h => ?_⟩
    rcases h with h | h
    · exact absurd h hh
    · obtain ⟨n, hn⟩ := h.writing
      exact absurd hn (hw n)
  cases hmode : s.mode with
  | idle =>
    rw [← hmode]
    refine hnever (fun n h => by cases hmode.symm.trans h) (fun h => by cases hmode.symm.trans h) (fun h => ?_)
    rw [step_idle H e hmode] at h
    split at h
    · cases e <;> cases hmode.symm.trans h
    · exact absurd ((parseRq_hung_iff H _ _).1 h).1 (by decide)
  | reading n r =>
    rw [← hmode]
    exact hnever (fun n h => by cases hmode.symm.trans h) (fun h => by cases hmode.symm.trans h)
      (reading_step_mode H s hmode e).not_hung
  | stopped | fault =>
    rw [← hmode]
    refine hnever (fun n h => by cases hmode.symm.trans h) (fun h => by cases hmode.symm.trans h) (fun h => ?_)
    rw [step, hmode] at h
    cases hmode.symm.trans h
  | hung =>
    refine ⟨fun _ => Or.inl rfl, fun _ => ?_⟩
    rw [step, hmode]
    exact hmode
  | writing n =>
    simp only [reduceCtorEq, false_or]
    cases e with
    | timeout =>
      rw [step_writing H _ hmode, body_timeout]
      exact ⟨fun h => absurd ((afterWrite_hung_iff H _ _).1 h).2.1 (by decide), False.elim⟩
    | packet src data => exact packet_hung_iff H s hmode src data

end

/-! ## Undefined behaviour -/

section

variable {H : Handler σ} {s : Srv σ}

theorem processReadTop_ne_fault (h : H.onReadData (TFTP_DATA_SIZE - 4 : Nat) s.app ≠ none) (n : Nat) :
    processReadTop H s n ≠ .fault := by
  obtain ⟨⟨ret, data, app⟩, hr⟩ := Option.ne_none_iff_exists'.1 h
  unfold processReadTop
  simp only [hr]
  split <;> exact fun h => by cases h

theorem afterRead_ne_fault {loop : ReadLoop σ} (hne : loop ≠ .fault)
    (hwait : ∀ t, loop = .wait t → ∃ n r, t.mode = .reading n r) : (afterRead H s loop).mode ≠ .fault := by
  cases loop with
  | fault => exact absurd rfl hne
  | wait t =>
    obtain ⟨n, r, hm⟩ := hwait t rfl
    exact fun h => by cases hm.symm.trans h
  | finish t result =>
    unfold afterRead
    simp only
    cases H.onClose t.app <;> exact fun h => by cases h

theorem readTop_ne_fault (h : H.onReadData (TFTP_DATA_SIZE - 4 : Nat) s.app ≠ none) (t : Srv σ) (n : Nat) :
    (afterRead H t (processReadTop H s n)).mode ≠ .fault :=
  afterRead_ne_fault (processReadTop_ne_fault h n) (fun _ ht => ⟨n, 0, processReadTop_mode H ht⟩)

/-- Strings without a terminator in `m_buffer` are read to its end and on. -/
theorem requestStrings_none_iff (s : Srv σ) :
    requestStrings s.buffer.bytes = none ↔ ∃ i ∈ stringReads s.buffer.bytes, TFTP_DATA_SIZE ≤ i := by
  have hin := stringReads_inside_iff (d := s.buffer.bytes) (r := []) (by rw [length_buffer]; decide)
  rw [List.append_nil, length_buffer] at hin
  rw [← not_iff_not, ← Ne, ← hin]
  simp only [not_exists, not_and, Nat.not_le]

/-- The option is compared up to a byte that decides it, when the handler takes the request. -/
theorem parseWrq_option_iff {filename : List UInt8} {ptr : Nat}
    (hstr : requestStrings s.buffer.bytes = some (filename, ptr)) :
    parseWrq H s = none ↔ (0 ≤ (H.onWrite filename s.app).1 ∧ (ptr : Int) < s.dataSize) ∧
      strEq (s.buffer.bytes.drop ptr) (ascii "blksize") = none := by
  unfold parseWrq
  simp only [hstr, Option.bind_some]
  by_cases hneg : (H.onWrite filename s.app).1 < 0
  · simp only [hneg, if_true, reduceCtorEq, false_iff]
    exact fun h => absurd h.1.1 (Int.not_le.2 hneg)
  · by_cases hlt : (ptr : Int) < s.dataSize
    · simp only [hneg, hlt, if_true, if_false, Option.map_eq_none_iff, and_true, true_and, Int.not_lt.1 hneg]
    · simp only [hneg, hlt, if_false, reduceCtorEq, and_false, false_and]

theorem optionReads_outside_iff {filename : List UInt8} {ptr : Nat}
    (hstr : requestStrings s.buffer.bytes = some (filename, ptr)) :
    (∃ i ∈ optionReads H s, TFTP_DATA_SIZE ≤ i) ↔ (0 ≤ (H.onWrite filename s.app).1 ∧ (ptr : Int) < s.dataSize) ∧
      strEq (s.buffer.bytes.drop ptr) (ascii "blksize") = none := by
  have hptr := (requestStrings_append (r := []) (by rw [length_buffer]; decide) hstr).2
  have hopt := strEqReads_inside_iff (d := s.buffer.bytes.drop ptr) (r := []) (ascii "blksize") ptr
  rw [List.append_nil, show ptr + (s.buffer.bytes.drop ptr).length = TFTP_DATA_SIZE by
    rw [List.length_drop, length_buffer] at *; omega] at hopt
  rw [optionReads, hstr]
  simp only
  by_cases hc : 0 ≤ (H.onWrite filename s.app).1 ∧ (ptr : Int) < s.dataSize
  · rw [if_pos hc, and_iff_right hc, ← not_iff_not, ← Ne, ← hopt]
    simp only [not_exists, not_and, Nat.not_le]
  · rw [if_neg hc]
    refine iff_of_false ?_ (fun h => hc h.1)
    rintro ⟨i, hi, -⟩
    cases hi

theorem parseWrq_none_iff :
    parseWrq H s = none ↔ ∃ i ∈ stringReads s.buffer.bytes ++ optionReads H s, TFTP_DATA_SIZE ≤ i := by
  cases hstr : requestStrings s.buffer.bytes with
  | none =>
    obtain ⟨i, hi, hle⟩ := (requestStrings_none_iff s).1 hstr
    refine ⟨fun _ => ⟨i, List.mem_append_left _ hi, hle⟩, fun _ => ?_⟩
    rw [parseWrq, hstr]
    rfl
  | some strings =>
    obtain ⟨filename, ptr⟩ := strings
    have hinside : ∀ i ∈ stringReads s.buffer.bytes, ¬ TFTP_DATA_SIZE ≤ i := fun i hi hle => by
      rw [(requestStrings_none_iff s).2 ⟨i, hi, hle⟩] at hstr
      cases hstr
    rw [parseWrq_option_iff hstr, ← optionReads_outside_iff hstr]
    constructor
    · rintro ⟨i, hi, hle⟩
      exact ⟨i, List.mem_append_right _ hi, hle⟩
    · rintro ⟨i, hi, hle⟩
      exact ⟨i, (List.mem_append.1 hi).resolve_left (fun h => hinside i h hle), hle⟩

theorem opcode_inside (reads : List Nat) :
    (∃ i ∈ [0, 1] ++ reads, TFTP_DATA_SIZE ≤ i) ↔ ∃ i ∈ reads, TFTP_DATA_SIZE ≤ i := by
  have hhead : ∀ i ∈ [0, 1], ¬ TFTP_DATA_SIZE ≤ i := by decide
  constructor
  · rintro ⟨i, hi, hle⟩
    exact ⟨i, (List.mem_append.1 hi).resolve_left (fun h => hhead i h hle), hle⟩
  · rintro ⟨i, hi, hle⟩
    exact ⟨i, List.mem_append_right _ hi, hle⟩

theorem none_outside : ¬ ∃ i ∈ ([] : List Nat), TFTP_DATA_SIZE ≤ i := by
  rintro ⟨i, hi, -⟩
  cases hi

/-- **When `parse_rq` leaves `m_buffer`.** -/
theorem parseRq_fault_iff {P : σ → Prop} (hK : H.Keeps P)
    (hread : ∀ app, P app → H.onReadData (TFTP_DATA_SIZE - 4 : Nat) app ≠ none) (happ : P s.app) (result : Int) :
    (parseRq H s result).mode = .fault ↔ ∃ i ∈ requestReads H s, TFTP_DATA_SIZE ≤ i := by
  unfold requestReads
  simp only [opcode_inside]
  by_cases hwrq : word16 s.buffer.bytes 0 = TFTP_CMD_WRQ
  · rw [if_pos hwrq, ← parseWrq_none_iff]
    unfold parseRq
    simp only [hwrq, if_true]
    cases hp : parseWrq H s with
    | none => exact ⟨fun _ => rfl, fun _ => rfl⟩
    | some r =>
      simp only [reduceCtorEq, iff_false]
      split <;> exact fun h => by cases h
  · rw [if_neg hwrq]
    by_cases hrrq : word16 s.buffer.bytes 0 = TFTP_CMD_RRQ
    · rw [if_pos hrrq, ← requestStrings_none_iff]
      cases hstr : requestStrings s.buffer.bytes with
      | none =>
        rw [parseRq_rrq_fault H s hrrq hstr]
        exact ⟨fun _ => rfl, fun _ => rfl⟩
      | some strings =>
        rw [parseRq_of_rrq hrrq result hstr]
        simp only [reduceCtorEq, iff_false]
        split
        · exact fun h => by cases h
        · exact readTop_ne_fault (s := { s with app := (H.onRead strings.1 s.app).2 })
            (hread _ (hK.onRead strings.1 s.app happ)) _ 1
    · rw [if_neg hrrq, parseRq_other hwrq hrrq]
      refine ⟨fun h => ?_, fun h => absurd h none_outside⟩
      split at h <;> cases h

theorem afterWrite_fault_iff {P : σ → Prop} (hK : H.Keeps P)
    (hread : ∀ app, P app → H.onReadData (TFTP_DATA_SIZE - 4 : Nat) app ≠ none) (happ : P s.app) (result : Int) :
    (afterWrite H s result).mode = .fault ↔ 0 < result ∧
      ∃ app, H.onClose s.app = some app ∧ ∃ i ∈ requestReads H { s with app := app }, TFTP_DATA_SIZE ≤ i := by
  unfold afterWrite
  simp only
  cases hclose : H.onClose s.app with
  | none =>
    simp only [reduceCtorEq, false_and, exists_false, and_false]
  | some app =>
    have hrequest := parseRq_fault_iff (s := { s with hist := recordResult result s.hist, app := app }) hK hread
      (hK.onClose s.app app happ hclose) result
    simp only [Option.some.injEq, exists_eq_left']
    by_cases hle : result ≤ 0
    · rw [if_pos hle]
      exact ⟨fun h => (by cases h), fun h => absurd h.1 (by omega)⟩
    · rw [if_neg hle]
      exact ⟨fun h => ⟨by omega, hrequest.1 h⟩, fun h => hrequest.2 h.2⟩

theorem body_fault_iff {n : Nat} :
    processWriteBody H s n = .fault ↔ ∃ len ∈ writeLens s n, H.onWriteData (s.buffer.bytes.drop 4) len s.app = none := by
  have hend : ∀ (t : Srv σ) (m : Nat), endOfBlock t m ≠ .fault := by
    intro t m
    unfold endOfBlock
    split <;> exact fun h => by cases h
  unfold writeLens
  by_cases hneg : s.dataSize < 0
  · rw [if_neg (fun h => absurd h.1 (Int.not_le.2 hneg))]
    rw [processWriteBody, if_pos hneg]
    simp only [reduceCtorEq, List.not_mem_nil, false_and, exists_false]
  have hsize : 0 ≤ s.dataSize := Int.not_lt.1 hneg
  by_cases hdata : word16 s.buffer.bytes 0 = TFTP_CMD_DATA
  · by_cases hdup : word16 s.buffer.bytes 2 < n
    · rw [if_neg (fun h => absurd h.2.2 (Nat.not_le.2 hdup)), body_dup H hsize hdata hdup]
      simp only [hend, List.not_mem_nil, false_and, exists_false]
    · rw [if_pos ⟨hsize, hdata, Nat.not_lt.1 hdup⟩, body_block H hsize hdata (Nat.not_lt.1 hdup)]
      simp only [List.mem_singleton, exists_eq_left]
      cases H.onWriteData (s.buffer.bytes.drop 4) (s.dataSize - 4) s.app with
      | none => exact ⟨fun _ => rfl, fun _ => rfl⟩
      | some r => exact ⟨fun h => absurd h (hend _ _), fun h => by cases h⟩
  · rw [if_neg (fun h => hdata h.2.1)]
    simp only [List.not_mem_nil, false_and, exists_false, iff_false]
    intro h
    by_cases hwrq : word16 s.buffer.bytes 0 = TFTP_CMD_WRQ
    · rw [body_wrq H hsize hwrq] at h
      split at h <;> cases h
    · rw [body_other H hsize hdata hwrq] at h
      cases h

theorem reading_ne_fault (happ : H.onReadData (TFTP_DATA_SIZE - 4 : Nat) s.app ≠ none) {n r : Nat}
    (hmode : s.mode = .reading n r) (e : Recv) : (step H s e).mode ≠ .fault := by
  rw [step_reading H e hmode]
  have hwait : H.onReadData (TFTP_DATA_SIZE - 4 : Nat) (waitForAck s n e).1.app ≠ none := by rwa [waitForAck_app]
  unfold processReadAck
  rcases hw : waitForAck s n e with ⟨t, ret⟩
  rw [hw] at hwait
  simp only
  split
  · split
    · exact afterRead_ne_fault (fun h => by cases h) (fun _ h => by cases h)
    · exact readTop_ne_fault hwait s (n + 1)
  · split
    · exact afterRead_ne_fault (fun h => by cases h) (fun u h => by cases h; exact ⟨n, r + 1, rfl⟩)
    · exact afterRead_ne_fault (fun h => by cases h) (fun _ h => by cases h)

theorem afterWrite_closed_ne_fault {result : Int} (hle : result ≤ 0) : (afterWrite H s result).mode ≠ .fault := by
  intro h
  rcases (afterWrite_closed H s hle).1 with hm | hm <;> cases hm.symm.trans h

theorem dataReads_inside (hle : s.dataSize ≤ TFTP_DATA_SIZE) (n : Nat) :
    ¬ ∃ i ∈ [0, 1, 2, 3] ++ (if word16 s.buffer.bytes 2 < n then [] else List.range' 4 (s.dataSize - 4).toNat),
      TFTP_DATA_SIZE ≤ i := by
  rintro ⟨i, hi, hge⟩
  unfold TFTP_DATA_SIZE at hle hge
  rcases List.mem_append.1 hi with hi | hi
  · simp only [List.mem_cons, List.not_mem_nil, or_false] at hi
    omega
  · split at hi
    · cases hi
    · rw [List.mem_range'_1] at hi
      omega

theorem packet_fault_iff {P : σ → Prop} (hK : H.Keeps P)
    (hread : ∀ app, P app → H.onReadData (TFTP_DATA_SIZE - 4 : Nat) app ≠ none) (happ : P s.app) {n : Nat}
    (hmode : s.mode = .writing n) (src : Addr) (data : Datagram) :
    (step H s (.packet src data)).mode = .fault ↔
      (∃ i ∈ writeReads H (recvFrom s (.packet src data)) n, TFTP_DATA_SIZE ≤ i) ∨
        processWriteBody H (recvFrom s (.packet src data)) n = .fault := by
  have hsize : 0 ≤ (recvFrom s (.packet src data)).dataSize := Int.natCast_nonneg _
  have hle : (recvFrom s (.packet src data)).dataSize ≤ TFTP_DATA_SIZE := Int.ofNat_le.2 (Nat.min_le_right _ _)
  have hpos : ¬ (recvFrom s (.packet src data)).dataSize < 0 := Int.not_lt.2 hsize
  have happ' : P (recvFrom s (.packet src data)).app := happ
  rw [step_writing H _ hmode]
  generalize recvFrom s (.packet src data) = t at *
  unfold writeReads
  simp only [hpos, if_false]
  by_cases hdata : word16 t.buffer.bytes 0 = TFTP_CMD_DATA
  · -- it ends a session with result 0
    rw [if_pos hdata]
    simp only [dataReads_inside hle, false_or]
    cases hb : processWriteBody H t n with
    | fault => exact ⟨fun _ => rfl, fun _ => rfl⟩
    | again u m => exact ⟨fun h => (by cases h), fun h => by cases h⟩
    | finish u result =>
      refine ⟨fun h => absurd h (afterWrite_closed_ne_fault ?_), fun h => by cases h⟩
      exact Int.le_of_eq (body_data_finish H t hsize hdata hb)
  · rw [if_neg hdata]
    by_cases hfirst : word16 t.buffer.bytes 0 = TFTP_CMD_WRQ ∧ n = 1
    · rw [if_pos hfirst, body_wrq H hsize hfirst.1, if_pos hfirst.2]
      have hopcode := opcode_inside []
      rw [List.append_nil] at hopcode
      simp only [hopcode, none_outside, reduceCtorEq, or_self]
    · rw [if_neg hfirst, body_foreign H hsize hdata hfirst]
      simp only [afterWrite_fault_iff hK hread happ', reduceCtorEq, or_false, opcode_inside]
      cases H.onClose t.app with
      | none => simp only [reduceCtorEq, false_and, exists_false, and_false, none_outside]
      | some app =>
        refine ⟨fun h => ?_, fun hi => ⟨by decide, app, rfl, hi⟩⟩
        obtain ⟨-, app', happ', hi⟩ := h
        cases happ'
        exact hi

/-- **When a step leaves a buffer.** -/
theorem step_fault_iff {P : σ → Prop} (hK : H.Keeps P)
    (hread : ∀ app, P app → H.onReadData (TFTP_DATA_SIZE - 4 : Nat) app ≠ none) (happ : P s.app) (e : Recv) :
    (step H s e).mode = .fault ↔ s.mode = .fault ∨ (∃ i ∈ stepReads H s e, TFTP_DATA_SIZE ≤ i) ∨
      ∃ len ∈ stepLens s e, H.onWriteData ((recvFrom s e).buffer.bytes.drop 4) len s.app = none := by
  have hrecv : (recvFrom s e).app = s.app := (recvFrom_fields s e).2.2.2
  unfold stepReads stepLens
  cases hmode : s.mode with
  | idle =>
    rw [step_idle H e hmode]
    simp only [reduceCtorEq, false_or, List.not_mem_nil, false_and, exists_false, or_false]
    split
    · refine ⟨fun h => ?_, fun h => absurd h none_outside⟩
      cases e <;> cases hmode.symm.trans h
    · exact parseRq_fault_iff hK hread (hrecv ▸ happ) (-1)
  | reading n r =>
    simp only [reduceCtorEq, List.not_mem_nil, false_and, exists_false, or_false, iff_false]
    exact reading_ne_fault (hread _ happ) hmode e
  | hung | stopped =>
    simp only [reduceCtorEq, List.not_mem_nil, false_and, exists_false, or_false, iff_false]
    rw [step, hmode]
    exact fun h => by cases hmode.symm.trans h
  | fault =>
    refine ⟨fun _ => Or.inl rfl, fun _ => ?_⟩
    rw [step, hmode]
    exact hmode
  | writing n =>
    simp only [reduceCtorEq, false_or]
    rw [← hrecv, ← body_fault_iff]
    cases e with
    | timeout =>
      rw [step_writing H _ hmode, body_timeout, writeReads,
        if_pos (show (recvFrom s .timeout).dataSize < 0 from Int.negSucc_lt_zero 0)]
      simp only [none_outside, reduceCtorEq, or_self, iff_false]
      exact afterWrite_closed_ne_fault (by decide)
    | packet src data => exact packet_fault_iff hK hread happ hmode src data

end

/-! ## Silence -/

section

variable {H : Handler σ} {s : Srv σ}

theorem Mode.patience_le (m : Mode) : m.patience ≤ 3 := by
  cases m <;> simp only [Mode.patience] <;> omega

theorem Mode.returned_of_patience {m : Mode} (hm : ¬ m.Stuck) (h : m.patience = 0) : m.Returned := by
  cases m with
  | idle => exact Or.inl rfl
  | stopped => exact Or.inr rfl
  | hung => exact absurd (Or.inl rfl) hm
  | fault => exact absurd (Or.inr rfl) hm
  | writing n => cases h
  | reading n r =>
    simp only [Mode.patience] at h
    omega

theorem Mode.Returned.not_stuck {m : Mode} (h : m.Returned) : ¬ m.Stuck := by
  rintro (rfl | rfl) <;> rcases h with h | h <;> cases h

/-- **Every timeout uses up patience.** -/
theorem step_timeout (H : Handler σ) (hm : ¬ s.mode.Stuck) :
    ¬ (step H s .timeout).mode.Stuck ∧ (step H s .timeout).mode.patience ≤ s.mode.patience - 1 := by
  have hreturned : ∀ {m : Mode}, m.Returned → ¬ m.Stuck ∧ m.patience ≤ s.mode.patience - 1 := by
    intro m h
    refine ⟨h.not_stuck, ?_⟩
    rcases h with rfl | rfl <;> exact Nat.zero_le _
  cases hmode : s.mode with
  | idle =>
    rw [← hmode]
    refine hreturned (Or.inl ?_)
    rw [step_idle H _ hmode, if_pos (show (recvFrom s .timeout).dataSize < 0 from Int.negSucc_lt_zero 0)]
    exact hmode
  | stopped =>
    rw [← hmode]
    refine hreturned (Or.inr ?_)
    rw [step, hmode]
    exact hmode
  | hung => exact absurd (Or.inl hmode) hm
  | fault => exact absurd (Or.inr hmode) hm
  | writing n =>
    rw [← hmode]
    refine hreturned ?_
    rw [step_writing H _ hmode, body_timeout]
    exact (afterWrite_closed H (recvFrom s .timeout) (by decide)).1
  | reading n r =>
    rw [step_reading H _ hmode, show processReadAck H s n r .timeout =
      if r + 1 < 3 then .wait (sendBlock (sendError s ERR_NOT_DEFINED "incorrect ack") n (r + 1))
      else .finish (sendError s ERR_NOT_DEFINED "incorrect ack") (-1) from rfl]
    by_cases hretry : r + 1 < 3
    · rw [if_pos hretry]
      refine ⟨fun h => (by rcases h with h | h <;> cases h), ?_⟩
      show 1 + (2 - (r + 1)) ≤ 1 + (2 - r) - 1
      omega
    · rw [if_neg hretry, ← hmode]
      refine hreturned ?_
      unfold afterRead
      simp only
      cases H.onClose (sendError s ERR_NOT_DEFINED "incorrect ack").app with
      | none => exact Or.inr rfl
      | some app => exact Or.inl rfl

/-- **Silence brings the server back to `run`.** -/
theorem run_silence (H : Handler σ) (hm : ¬ s.mode.Stuck) {k : Nat} (hk : s.mode.patience ≤ k) :
    (run H s (List.replicate k .timeout)).mode.Returned := by
  induction k generalizing s with
  | zero => exact Mode.returned_of_patience hm (Nat.le_zero.1 hk)
  | succ k ih =>
    obtain ⟨hm', hk'⟩ := step_timeout H hm
    exact ih hm' (by omega)

/-- Nothing leads out of an endless loop. -/
theorem run_stuck (H : Handler σ) (hm : s.mode.Stuck) (es : List Recv) : run H s es = s := by
  induction es with
  | nil => rfl
  | cons e es ih =>
    have hstep : step H s e = s := by
      rcases hm with hm | hm <;> rw [step, hm]
    rw [run_cons, hstep, ih]

end

/-! ## Runs -/

theorem onWriteData_none_iff (env : OtaEnv φ) (buffer : List UInt8) (len : Int) (s : Ota φ) :
    onWriteData env buffer len s = none ↔
      len < 0 ∧ (writeCopy len s ≠ [] ∨ s.job = .loadFW ∧ s.otaHandle ≠ 0) := by
  have hpos : ¬ len < 0 → onWriteData env buffer len s ≠ none := fun h =>
    onWriteData_ne_none env buffer len s (Int.not_lt.1 h)
  by_cases hneg : len < 0
  · simp only [hneg, true_and]
    cases hjob : s.job with
    | loadCfg | loadFCfg =>
      rw [onWriteData, writeCopy, hjob]
      simp only [writeCfg, hneg, if_true, reduceCtorEq, false_and, or_false]
      by_cases hfit : (toSizeT len + s.curPtr) % SIZE_T ≤ MAX_CFG_SIZE
      · rw [if_pos hfit, if_pos hfit]
        exact ⟨fun _ => List.cons_ne_nil _ _, fun _ => rfl⟩
      · rw [if_neg hfit, if_neg hfit]
        exact ⟨fun h => (by cases h), fun h => absurd rfl h⟩
    | loadFW =>
      rw [onWriteData, writeCopy, hjob]
      simp only [writeFirmware, hneg, if_true, ne_eq, not_true_eq_false, false_or, true_and]
      by_cases hzero : s.otaHandle = 0
      · rw [if_pos hzero]
        exact ⟨fun h => (by cases h), fun h => absurd hzero h⟩
      · rw [if_neg hzero]
        exact ⟨fun _ => hzero, fun _ => rfl⟩
    | none | sendCfg | sendFCfg =>
      rw [onWriteData, writeCopy, hjob]
      refine ⟨fun h => (by cases h), fun h => ?_⟩
      rcases h with h | ⟨h, -⟩
      · exact absurd rfl h
      · cases h
  · exact ⟨fun h => absurd h (hpos hneg), fun h => absurd h.1 hneg⟩

/-- **A step ends in an endless loop** when it spins, or leaves a buffer. -/
theorem step_stuck_iff (env : OtaEnv φ) {s : Srv (Ota φ)} (h : Bounded s.app) (hm : ¬ s.mode.Stuck) (e : Recv) :
    (step (otaServer env) s e).mode.Stuck ↔ Spins (otaServer env) s e ∨ Leaves env s e := by
  have hread : ∀ app, Bounded app → (otaServer env).onReadData (TFTP_DATA_SIZE - 4 : Nat) app ≠ none := by
    intro app happ
    obtain ⟨ret, data, app', hr, -⟩ := happ.readData env
    exact Option.ne_none_iff_exists'.2 ⟨_, hr⟩
  have hhung := step_hung_iff (otaServer env) s e
  have hfault := step_fault_iff (bounded_keeps env) hread h e
  have hleaves : Leaves env s e ↔ (∃ i ∈ stepReads (otaServer env) s e, TFTP_DATA_SIZE ≤ i) ∨
      ∃ len ∈ stepLens s e, (otaServer env).onWriteData ((recvFrom s e).buffer.bytes.drop 4) len s.app = none := by
    refine or_congr_right (exists_congr (fun len => and_congr_right (fun _ => ?_)))
    exact (onWriteData_none_iff env _ len s.app).symm
  obtain ⟨hm1, hm2⟩ := not_or.1 hm
  rw [Mode.Stuck, hhung, hfault, ← hleaves]
  exact or_congr ⟨fun h => h.resolve_left hm1, Or.inr⟩ ⟨fun h => h.resolve_left hm2, Or.inr⟩

theorem run_stuck_iff (env : OtaEnv φ) {s : Srv (Ota φ)} (h : Bounded s.app) (hm : ¬ s.mode.Stuck) (es : List Recv) :
    (run (otaServer env) s es).mode.Stuck ↔
      ¬ Throughout (fun s e => ¬ Spins (otaServer env) s e ∧ ¬ Leaves env s e) (otaServer env) s es := by
  induction es generalizing s with
  | nil => exact ⟨fun hs => absurd hs hm, fun hn => absurd trivial hn⟩
  | cons e es ih =>
    have hiff := step_stuck_iff env h hm e
    rw [run_cons, Throughout, ← not_or, ← hiff]
    by_cases hstuck : (step (otaServer env) s e).mode.Stuck
    · rw [run_stuck _ hstuck]
      exact ⟨fun _ ht => ht.1 hstuck, fun _ => hstuck⟩
    · rw [ih ((bounded_keeps env).step h e) hstuck]
      exact ⟨fun hn ht => hn ht.2, fun hn ht => hn ⟨hstuck, ht⟩⟩

/-- **When `run` returns**: behind any datagrams, silence brings the server back to `run` exactly when no packet ended
a write session that is no request, and no step left a buffer. -/
theorem run_returns_iff (env : OtaEnv φ) (F : Flash) (s : Srv (Ota φ)) (es : List Recv) (k : Nat) :
    (run (otaServer env) (started env.past F s) (es ++ List.replicate (k + 3) .timeout)).mode.Returned ↔
      Throughout (fun s e => ¬ Spins (otaServer env) s e ∧ ¬ Leaves env s e) (otaServer env) (started env.past F s) es := by
  have hstart : ¬ (started env.past F s).mode.Stuck := fun h => by rcases h with h | h <;> cases h
  have hiff := run_stuck_iff env (started_bounded env.past F s) hstart es
  rw [run_append]
  constructor
  · intro hreturned
    by_contra hnot
    have hstuck := hiff.2 hnot
    rw [run_stuck _ hstuck] at hreturned
    exact hreturned.not_stuck hstuck
  · intro hall
    refine run_silence _ (fun hstuck => hiff.1 hstuck hall) ?_
    exact Nat.le_trans (Mode.patience_le _) (Nat.le_add_left 3 k)

/-- An ACK behind a WRQ is never left. -/
theorem ack_spins :
    ¬ ∀ (env : OtaEnv Unit) (F : Flash) (s : Srv (Ota Unit)) (es : List Recv) (k : Nat),
      (run (otaServer env) (started env.past F s) (es ++ List.replicate (k + 3) .timeout)).mode.Returned := by
  intro h
  have hreturned := h stockEnv NorFlash.erased (stockServer loadedStore [])
    [.packet 1 (xrqPacket TFTP_CMD_WRQ cfgName), .packet 1 (ackPacket 1)] 0
  have hhung : (run (otaServer stockEnv) (started stockEnv.past NorFlash.erased (stockServer loadedStore []))
      [.packet 1 (xrqPacket TFTP_CMD_WRQ cfgName), .packet 1 (ackPacket 1)]).mode = .hung := by
    decide +kernel
  rw [run_append, run_stuck _ (Or.inl hhung)] at hreturned
  exact hreturned.not_stuck (Or.inl hhung)

end Mstd.Tftp
