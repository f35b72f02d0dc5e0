import Mathlib.Data.List.Basic
/-!
# Loading the FPGA (`test-hw/main/hardware.cpp`, `load_fpga`)

The calls of `load_fpga` in order, against a driver that answers each transfer with an error code and a CDONE pin that has a
level at each sample.  The bitstream goes out in blocks of 64 bytes; the wait for CDONE behind it gives up at the first
sample that is low (`loadFpga_iff`).
-/
namespace Mstd.Fpga

/-! ## The calls -/

inductive Pin where
  | CRESET
  | SPI_SS
  | CDONE
  deriving DecidableEq

/-- `spi_transaction_t`: `length` in bits, `SPI_TRANS_USE_TXDATA` in `flags`, and the bytes behind `tx_buffer` (`tx_data`
with the flag). -/
structure Transaction where
  length : Nat
  useTxdata : Bool
  tx : List UInt8
  deriving DecidableEq

inductive Event where
  | setLevel (pin : Pin) (level : Bool)
  | delay (ms : Nat)
  | getLevel (pin : Pin) (level : Bool)
  | transmit (t : Transaction) (err : Int)
  | msg (text : String)
  deriving DecidableEq

/-- What was called so far, and how many of the calls were transfers and samples of CDONE. -/
structure Board where
  log : List Event
  transmits : Nat
  samples : Nat

def Board.call (b : Board) (e : Event) : Board := { b with log := b.log ++ [e] }

/-- The text of the macro `ERROR_CHECK`. -/
def errorText (m : String) (val : Int) : String := "ERR: " ++ m ++ " " ++ toString val

/-- `SETUP_ZERO_BYTE`. -/
def zeroByte : Transaction := { length := 8, useTxdata := true, tx := [0, 0, 0, 0] }

/-- `SEND_BUF`, with the bytes that `buf` points to. -/
def bufTransaction (buf : List UInt8) (size : Nat) : Transaction := { length := size, useTxdata := false, tx := buf }

section

/- The error code of each transfer and the level of CDONE at each sample. -/
variable (spi : Nat → Int) (cdone : Nat → Bool)

/-- `spi_device_polling_transmit`. -/
def transmit (t : Transaction) (b : Board) : Int × Board :=
  (spi b.transmits, { b.call (.transmit t (spi b.transmits)) with transmits := b.transmits + 1 })

/-- `gpio_get_level(PIN_CDONE)`. -/
def getCdone (b : Board) : Bool × Board :=
  (cdone b.samples, { b.call (.getLevel .CDONE (cdone b.samples)) with samples := b.samples + 1 })

/-- `SEND`, with `.error` for the `return` in it.  The macro has its argument twice: a transfer that fails is made again for
the text. -/
def send (name : String) (t : Transaction) (b : Board) : Except Board Board :=
  let (err, b) := transmit spi t b
  if err ≠ 0 then
    let (val, b) := transmit spi t b
    .error (b.call (.msg (errorText name val)))
  else .ok b

/-- Up to the bitstream. -/
def startLoad (b : Board) : Except Board Board :=
  let b := b.call (.setLevel .CRESET false)
  let b := b.call (.setLevel .SPI_SS false)
  let b := b.call (.delay 1)
  let b := b.call (.setLevel .CRESET true)
  let b := b.call (.delay 2)
  let (level, b) := getCdone cdone b
  if level then .error (b.call (.msg "Tr0: CDONE stack"))
  else
    match send spi "Tr6" zeroByte (b.call (.setLevel .SPI_SS true)) with
    | .error b => .error b
    | .ok b    => .ok (b.call (.setLevel .SPI_SS false))

/-- The loop over the bitstream, with the bytes from `p` on. -/
def sendData : List UInt8 → Board → Except Board Board
  | [], b     => .ok b
  | c :: p, b =>
    let len := min 64 (c :: p).length
    match send spi "Tr8" (bufTransaction ((c :: p).take len) (len * 8)) b with
    | .error b => .error b
    | .ok b    => sendData ((c :: p).drop len) b
termination_by p => p.length
decreasing_by
  rw [List.length_drop, List.length_cons]
  omega

/-- The loop that waits for CDONE, up to `fuel` turns of it.  `++cnt` stands in the macro twice as well. -/
def waitCdone : Nat → Nat → Board → Option (Except Board Board)
  | 0, _, _          => none
  | fuel + 1, cnt, b =>
    let (level, b) := getCdone cdone b
    if level then some (.ok b)
    else if cnt + 1 < 13 then some (.error (b.call (.msg (errorText "CDONE" (if cnt + 2 < 13 then 1 else 0)))))
    else
      match send spi "Tr10" zeroByte b with
      | .error b => some (.error b)
      | .ok b    => waitCdone fuel (cnt + 1) b

/-- The 49 clocks and the text behind them. -/
def finishLoad (b : Board) : Board :=
  match send spi "Tr11" (bufTransaction [0, 0, 0, 0, 0, 0, 0, 0] 49) b with
  | .error b => b
  | .ok b    => b.call (.msg "FPGA Load done")

def Board.new : Board := { log := [], transmits := 0, samples := 0 }

def loadFpga (fuel : Nat) (bitstream : List UInt8) : Option Board :=
  match startLoad spi cdone .new with
  | .error b => some b
  | .ok b    =>
    match sendData spi bitstream b with
    | .error b => some b
    | .ok b    =>
      match waitCdone spi cdone fuel 0 (b.call (.setLevel .SPI_SS true)) with
      | none            => none
      | some (.error b) => some b
      | some (.ok b)    => some (finishLoad spi b)

end

/-! ## What the FPGA and the user see -/

/-- The transfers made while SPI_SS is low, with their error codes; the clocks since SPI_SS was set; whether a transfer
failed; and the text on the screen. -/
structure View where
  ss : Bool
  data : List (List UInt8 × Int)
  clocks : Nat
  failed : Bool
  text : Option String

def View.step (v : View) : Event → View
  | .setLevel .SPI_SS level => { v with ss := level, clocks := 0 }
  | .transmit t err         =>
    { v with data := if v.ss then v.data else v.data ++ [(t.tx.take (t.length / 8), err)],
             clocks := v.clocks + t.length, failed := v.failed || err != 0 }
  | .msg text               => { v with text := some text }
  | _                       => v

def Board.view (b : Board) : View :=
  b.log.foldl View.step { ss := false, data := [], clocks := 0, failed := false, text := none }

@[simp] theorem view_call (b : Board) (e : Event) : (b.call e).view = b.view.step e := by
  simp [Board.view, Board.call, List.foldl_append]

@[simp] theorem transmits_call (b : Board) (e : Event) : (b.call e).transmits = b.transmits := rfl

@[simp] theorem samples_call (b : Board) (e : Event) : (b.call e).samples = b.samples := rfl

section

variable (spi : Nat → Int) (cdone : Nat → Bool) (t : Transaction) (b : Board)

@[simp] theorem view_transmit : (transmit spi t b).2.view = b.view.step (.transmit t (spi b.transmits)) :=
  view_call b _

@[simp] theorem transmits_transmit : (transmit spi t b).2.transmits = b.transmits + 1 := rfl

@[simp] theorem samples_transmit : (transmit spi t b).2.samples = b.samples := rfl

@[simp] theorem view_getCdone : (getCdone cdone b).2.view = b.view := view_call b _

@[simp] theorem transmits_getCdone : (getCdone cdone b).2.transmits = b.transmits := rfl

@[simp] theorem samples_getCdone : (getCdone cdone b).2.samples = b.samples + 1 := rfl

end

/-- What the procedure of `pins.txt` promises of a load with CDONE low at its first sample: the whole bitstream, once and in
order, in blocks of up to 64 bytes; and when no transfer fails, success exactly when one of the samples before, between and
behind 12 zero bytes is high. -/
structure Procedure (cdone : Nat → Bool) (bitstream : List UInt8) (v : View) : Prop where
  data : v.data.flatMap Prod.fst = bitstream
  blocks : ∀ c ∈ v.data, c.1.length ≤ 64 ∧ c.2 = 0
  success : v.failed = false → (v.text = some "FPGA Load done" ↔ ∃ k ≤ 12, cdone (k + 1) = true)
  clocks : v.failed = false → v.text = some "FPGA Load done" →
    ∃ k ≤ 12, cdone (k + 1) = true ∧ (∀ j < k, cdone (j + 1) = false) ∧ v.clocks = 8 * k + 49
  timeout : v.failed = false → (∀ k ≤ 12, cdone (k + 1) = false) →
    v.clocks ≤ 8 * 12 ∧ ∃ val, v.text = some (errorText "CDONE" val)

/-! ## One transfer -/

section

variable {spi : Nat → Int} {cdone : Nat → Bool} {b : Board}

theorem send_ok (name : String) (t : Transaction) (h : spi b.transmits = 0) :
    ∃ b', send spi name t b = .ok b' ∧ b'.view = b.view.step (.transmit t 0) ∧ b'.transmits = b.transmits + 1 ∧
      b'.samples = b.samples := by
  refine ⟨(transmit spi t b).2, ?_, ?_, rfl, rfl⟩
  · have hfst : (transmit spi t b).1 = 0 := h
    simp only [send, hfst, ne_eq, not_true_eq_false, if_false]
  · rw [view_transmit, h]

/-- A transfer that fails is made twice, and `load_fpga` returns. -/
theorem send_fails (name : String) (t : Transaction) (h : spi b.transmits ≠ 0) :
    ∃ b' val, send spi name t b = .error b' ∧
      b'.view = ((b.view.step (.transmit t (spi b.transmits))).step (.transmit t val)).step (.msg (errorText name val)) := by
  have hboth : ((transmit spi t (transmit spi t b).2).2.call (.msg (errorText name (spi (b.transmits + 1))))).view =
      ((b.view.step (.transmit t (spi b.transmits))).step (.transmit t (spi (b.transmits + 1)))).step
        (.msg (errorText name (spi (b.transmits + 1)))) := by
    rw [view_call, view_transmit, view_transmit]
    rfl
  exact ⟨_, _, if_pos h, hboth⟩

/-- A transfer that fails while SPI_SS is low is seen. -/
theorem send_fails_data (name : String) (t : Transaction) (h : spi b.transmits ≠ 0) (hss : b.view.ss = false) :
    ∃ b', send spi name t b = .error b' ∧ ∃ c ∈ b'.view.data, c.2 ≠ 0 := by
  obtain ⟨b', val, hsend, hview⟩ := send_fails name t h
  refine ⟨b', hsend, (t.tx.take (t.length / 8), spi b.transmits), ?_, h⟩
  simp [hview, View.step, hss]

/-! ## The bitstream -/

/-- What `load_fpga` has done between `b` and `b'` is to send `blocks`. -/
structure Sent (b b' : Board) (blocks : List (List UInt8 × Int)) : Prop where
  samples : b'.samples = b.samples
  transmits : b'.transmits = b.transmits + blocks.length
  ss : b'.view.ss = b.view.ss
  data : b'.view.data = b.view.data ++ blocks
  failed : b'.view.failed = b.view.failed
  text : b'.view.text = b.view.text

theorem Sent.trans {b b' b'' : Board} {blocks more : List (List UInt8 × Int)} (h : Sent b b' blocks)
    (h' : Sent b' b'' more) : Sent b b'' (blocks ++ more) := by
  constructor
  · rw [h'.samples, h.samples]
  · rw [h'.transmits, h.transmits, List.length_append, Nat.add_assoc]
  · rw [h'.ss, h.ss]
  · rw [h'.data, h.data, List.append_assoc]
  · rw [h'.failed, h.failed]
  · rw [h'.text, h.text]

/-- The number of blocks of a bitstream. -/
def blockCount (length : Nat) : Nat := (length + 63) / 64

theorem blockCount_cons (c : UInt8) (p : List UInt8) :
    blockCount (c :: p).length = blockCount ((c :: p).drop (min 64 (c :: p).length)).length + 1 := by
  unfold blockCount
  rw [List.length_drop, List.length_cons]
  omega

theorem send_block (p : List UInt8) (h : spi b.transmits = 0) (hss : b.view.ss = false) :
    ∃ b', send spi "Tr8" (bufTransaction (p.take (min 64 p.length)) (min 64 p.length * 8)) b = .ok b' ∧
      Sent b b' [(p.take (min 64 p.length), 0)] := by
  obtain ⟨b', hsend, hview, htransmits, hsamples⟩ :=
    send_ok "Tr8" (bufTransaction (p.take (min 64 p.length)) (min 64 p.length * 8)) h
  refine ⟨b', hsend, hsamples, htransmits, ?_, ?_, ?_, ?_⟩
  · rw [hview]
    rfl
  · simp [hview, View.step, hss, bufTransaction, List.take_take]
  · simp [hview, View.step]
  · rw [hview]
    rfl

theorem sendData_ok : ∀ (p : List UInt8) (b : Board), b.view.ss = false →
    (∀ n < blockCount p.length, spi (b.transmits + n) = 0) →
    ∃ b' blocks, sendData spi p b = .ok b' ∧ Sent b b' blocks ∧ blocks.length = blockCount p.length ∧
      blocks.flatMap Prod.fst = p ∧ ∀ c ∈ blocks, c.1.length ≤ 64 ∧ c.2 = 0
  | [], b, _, _ => ⟨b, [], by rw [sendData], ⟨rfl, rfl, rfl, (List.append_nil _).symm, rfl, rfl⟩, rfl, rfl, by simp⟩
  | c :: p, b, hss, hspi => by
    have hcount := blockCount_cons c p
    obtain ⟨b₁, hsend, hsent⟩ := send_block (c :: p) (hspi 0 (by omega)) hss
    obtain ⟨b₂, blocks, hdata, hmore, hlen, hbytes, hblocks⟩ :=
      sendData_ok ((c :: p).drop (min 64 (c :: p).length)) b₁ (hsent.ss.trans hss) (fun n hn => by
        rw [hsent.transmits, Nat.add_assoc]
        exact hspi _ (by simp only [List.length_singleton]; omega))
    refine ⟨b₂, _, ?_, hsent.trans hmore, ?_, ?_, ?_⟩
    · rw [sendData]
      simp only [hsend]
      exact hdata
    · rw [List.length_append, hlen, hcount, Nat.add_comm]
      rfl
    · rw [List.flatMap_append, hbytes, List.flatMap_singleton, List.take_append_drop]
    · intro d hd
      rcases List.mem_append.1 hd with hd | hd
      · rw [List.mem_singleton.1 hd]
        exact ⟨Nat.le_trans (List.length_take_le _ _) (Nat.min_le_left _ _), rfl⟩
      · exact hblocks d hd
termination_by p => p.length
decreasing_by
  rw [List.length_drop, List.length_cons]
  omega

/-- One transfer that fails ends the load, and is among the transfers of the bitstream. -/
theorem sendData_fails : ∀ (p : List UInt8) (b : Board) (n : Nat), b.view.ss = false → n < blockCount p.length →
    spi (b.transmits + n) ≠ 0 → ∃ b', sendData spi p b = .error b' ∧ ∃ c ∈ b'.view.data, c.2 ≠ 0
  | [], b, n, _, hn, _ => absurd hn (Nat.not_lt_zero n)
  | c :: p, b, n, hss, hn, hspi => by
    have hcount := blockCount_cons c p
    by_cases h : spi b.transmits = 0
    · obtain ⟨b₁, hsend, hsent⟩ := send_block (c :: p) h hss
      have hpos : n ≠ 0 := fun h0 => hspi (by rw [h0]; exact h)
      obtain ⟨b', hdata, hfail⟩ :=
        sendData_fails ((c :: p).drop (min 64 (c :: p).length)) b₁ (n - 1) (hsent.ss.trans hss) (by omega) (by
          rw [hsent.transmits, List.length_singleton, Nat.add_assoc, Nat.add_sub_cancel' (Nat.pos_of_ne_zero hpos)]
          exact hspi)
      refine ⟨b', ?_, hfail⟩
      rw [sendData]
      simp only [hsend]
      exact hdata
    · obtain ⟨b', hsend, hfail⟩ := send_fails_data "Tr8"
        (bufTransaction ((c :: p).take (min 64 (c :: p).length)) (min 64 (c :: p).length * 8)) h hss
      refine ⟨b', ?_, hfail⟩
      rw [sendData]
      simp only [hsend]
termination_by p => p.length
decreasing_by
  rw [List.length_drop, List.length_cons]
  omega

/-! ## Before and behind the bitstream -/

theorem startLoad_eq (hstart : cdone 0 = false) : ∃ b, b.transmits = 0 ∧ b.samples = 1 ∧
    b.view = { ss := true, data := [], clocks := 0, failed := false, text := none } ∧
    startLoad spi cdone .new =
      match send spi "Tr6" zeroByte b with
      | .error b => .error b
      | .ok b    => .ok (b.call (.setLevel .SPI_SS false)) := by
  let b : Board := (getCdone cdone (((((Board.new.call (.setLevel .CRESET false)).call (.setLevel .SPI_SS false)).call
    (.delay 1)).call (.setLevel .CRESET true)).call (.delay 2))).2
  refine ⟨b.call (.setLevel .SPI_SS true), rfl, rfl, ?_, ?_⟩
  · rw [view_call, view_getCdone]
    rfl
  · have hlevel : ¬ cdone 0 = true := by simp [hstart]
    exact if_neg hlevel

theorem startLoad_ok (hstart : cdone 0 = false) (h : spi 0 = 0) :
    ∃ b, startLoad spi cdone .new = .ok b ∧ b.transmits = 1 ∧ b.samples = 1 ∧
      b.view = { ss := false, data := [], clocks := 0, failed := false, text := none } := by
  obtain ⟨b, htransmits, hsamples, hview, hload⟩ := @startLoad_eq spi cdone hstart
  obtain ⟨b', hsend, hview', htransmits', hsamples'⟩ := send_ok (b := b) "Tr6" zeroByte (htransmits ▸ h)
  refine ⟨b'.call (.setLevel .SPI_SS false), by rw [hload, hsend], ?_, ?_, ?_⟩
  · rw [transmits_call, htransmits', htransmits]
  · rw [samples_call, hsamples', hsamples]
  · rw [view_call, hview', hview]
    rfl

theorem startLoad_fails (hstart : cdone 0 = false) (h : spi 0 ≠ 0) :
    ∃ b, startLoad spi cdone .new = .error b ∧ b.view.data = [] ∧ b.view.failed = true := by
  obtain ⟨b, htransmits, -, hview, hload⟩ := @startLoad_eq spi cdone hstart
  obtain ⟨b', val, hsend, hview'⟩ := send_fails (b := b) "Tr6" zeroByte (htransmits ▸ h)
  refine ⟨b', by rw [hload, hsend], ?_, ?_⟩
  · rw [hview', hview]
    rfl
  · simp [hview', hview, htransmits, View.step, h]

/-- **The wait for CDONE takes one sample**: a low one is taken for a timeout. -/
theorem waitCdone_zero (fuel : Nat) :
    waitCdone spi cdone (fuel + 1) 0 b = some (if cdone b.samples then .ok (getCdone cdone b).2
      else .error ((getCdone cdone b).2.call (.msg (errorText "CDONE" 1)))) := by
  cases h : cdone b.samples with
  | true => simp [waitCdone, getCdone, h]
  | false => simp [waitCdone, getCdone, h]

theorem finishLoad_view (hss : b.view.ss = true) (hclocks : b.view.clocks = 0) :
    (finishLoad spi b).view.data = b.view.data ∧
      ((finishLoad spi b).view.failed = false →
        (finishLoad spi b).view.clocks = 49 ∧ (finishLoad spi b).view.text = some "FPGA Load done") := by
  by_cases h : spi b.transmits = 0
  · obtain ⟨b', hsend, hview, -, -⟩ := send_ok "Tr11" (bufTransaction [0, 0, 0, 0, 0, 0, 0, 0] 49) h
    rw [finishLoad, hsend]
    simp only [view_call, hview]
    refine ⟨?_, fun _ => ⟨?_, rfl⟩⟩
    · simp [View.step, hss]
    · simp [View.step, hclocks, bufTransaction]
  · obtain ⟨b', val, hsend, hview⟩ := send_fails "Tr11" (bufTransaction [0, 0, 0, 0, 0, 0, 0, 0] 49) h
    rw [finishLoad, hsend]
    simp only [hview]
    refine ⟨?_, fun hok => ?_⟩
    · simp [View.step, hss]
    · simp [View.step, h] at hok

/-- What is seen of a load whose transfers succeed up to the end of the bitstream: the rest depends on one sample. -/
structure Through (cdone : Nat → Bool) (bitstream : List UInt8) (v : View) : Prop where
  data : v.data.flatMap Prod.fst = bitstream
  blocks : ∀ c ∈ v.data, c.1.length ≤ 64 ∧ c.2 = 0
  low : cdone 1 = false → v.failed = false ∧ v.clocks = 0 ∧ v.text = some (errorText "CDONE" 1)
  high : cdone 1 = true → v.failed = false → v.clocks = 49 ∧ v.text = some "FPGA Load done"

/-- **Behind a bitstream whose transfers succeed** the whole of it was sent. -/
theorem loadFpga_sent (hstart : cdone 0 = false) (bitstream : List UInt8)
    (hspi : ∀ n ≤ blockCount bitstream.length, spi n = 0) :
    ∃ v, Through cdone bitstream v ∧ ∀ fuel, ∃ b, loadFpga spi cdone (fuel + 1) bitstream = some b ∧ b.view = v := by
  obtain ⟨b, hload, htransmits, hsamples, hview⟩ := startLoad_ok hstart (hspi 0 (Nat.zero_le _))
  obtain ⟨b', blocks, hdata, hsent, hlen, hbytes, hblocks⟩ := sendData_ok bitstream b (by rw [hview]) (fun n hn => by
    rw [htransmits, Nat.add_comm]
    exact hspi _ hn)
  have hblocks' : b'.view.data = blocks := by
    rw [hsent.data, hview]
    exact List.nil_append blocks
  have hfailed' : b'.view.failed = false := by
    rw [hsent.failed, hview]
  have hsample : (b'.call (.setLevel .SPI_SS true)).samples = 1 := by
    rw [samples_call, hsent.samples, hsamples]
  have hrun : ∀ fuel, loadFpga spi cdone (fuel + 1) bitstream =
      some (if cdone 1 then finishLoad spi (getCdone cdone (b'.call (.setLevel .SPI_SS true))).2
        else (getCdone cdone (b'.call (.setLevel .SPI_SS true))).2.call (.msg (errorText "CDONE" 1))) := by
    intro fuel
    simp only [loadFpga, hload, hdata, waitCdone_zero, hsample]
    cases cdone 1 with
    | true => rfl
    | false => rfl
  cases hc : cdone 1 with
  | false =>
    simp only [hc, Bool.false_eq_true, if_false] at hrun
    refine ⟨_, ⟨?_, ?_, fun _ => ?_, fun h => absurd (hc.symm.trans h) Bool.false_ne_true⟩,
      fun fuel => ⟨_, hrun fuel, rfl⟩⟩
    · simp only [view_call, view_getCdone, View.step, hblocks']
      exact hbytes
    · simp only [view_call, view_getCdone, View.step, hblocks']
      exact hblocks
    · simp [View.step, hfailed']
  | true =>
    simp only [hc, if_true] at hrun
    obtain ⟨hfinish, hdone⟩ := @finishLoad_view spi (getCdone cdone (b'.call (.setLevel .SPI_SS true))).2
      (by simp [View.step]) (by simp [View.step])
    have hsame : (finishLoad spi (getCdone cdone (b'.call (.setLevel .SPI_SS true))).2).view.data = blocks := by
      rw [hfinish]
      simp only [view_call, view_getCdone, View.step, hblocks']
    exact ⟨_, ⟨by rw [hsame, hbytes], by rw [hsame]; exact hblocks, fun h => absurd (hc.symm.trans h) Bool.false_ne_true.symm,
      fun _ hok => hdone hok⟩, fun fuel => ⟨_, hrun fuel, rfl⟩⟩

/-- **A transfer that fails before the bitstream is through** ends the load, and shows where it has a block. -/
theorem loadFpga_fails (hstart : cdone 0 = false) {bitstream : List UInt8} {n : Nat}
    (hn : n ≤ blockCount bitstream.length) (hspi : spi n ≠ 0) :
    ∃ b, (∀ fuel, loadFpga spi cdone fuel bitstream = some b) ∧
      ((spi 0 ≠ 0 ∧ b.view.data = [] ∧ b.view.failed = true) ∨
        bitstream ≠ [] ∧ spi 0 = 0 ∧ ∃ c ∈ b.view.data, c.2 ≠ 0) := by
  by_cases h0 : spi 0 = 0
  · obtain ⟨b, hload, htransmits, -, hview⟩ := startLoad_ok hstart h0
    have hpos : n ≠ 0 := fun h => hspi (h ▸ h0)
    obtain ⟨b', hdata, hfail⟩ := sendData_fails bitstream b (n - 1) (by rw [hview]) (by omega) (by
      rw [htransmits, Nat.add_sub_cancel' (Nat.pos_of_ne_zero hpos)]
      exact hspi)
    refine ⟨b', fun fuel => by simp only [loadFpga, hload, hdata], .inr ⟨fun hnil => ?_, h0, hfail⟩⟩
    rw [hnil] at hn
    exact hpos (Nat.le_zero.1 hn)
  · obtain ⟨b, hload, hdata, hfailed⟩ := startLoad_fails hstart h0
    exact ⟨b, fun fuel => by simp only [loadFpga, hload], .inl ⟨h0, hdata, hfailed⟩⟩

theorem errorText_ne : "FPGA Load done" ≠ errorText "CDONE" 1 := by decide

section

variable {bitstream : List UInt8} {v : View}

/-- The error of the first low sample, where success was due. -/
theorem Through.not_procedure (h : Through cdone bitstream v) (hlow : cdone 1 = false) {k : Nat} (hk : k ≤ 12)
    (hhigh : cdone (k + 1) = true) : ¬ Procedure cdone bitstream v := by
  intro hp
  obtain ⟨hok, -, htext⟩ := h.low hlow
  have hdone := (hp.success hok).2 ⟨k, hk, hhigh⟩
  rw [htext] at hdone
  exact errorText_ne (Option.some.inj hdone).symm

theorem Through.procedure_high (h : Through cdone bitstream v) (hhigh : cdone 1 = true) : Procedure cdone bitstream v := by
  refine ⟨h.data, h.blocks, fun hok => ?_, fun hok _ => ?_, fun _ hall => ?_⟩
  · exact iff_of_true (h.high hhigh hok).2 ⟨0, Nat.zero_le 12, hhigh⟩
  · exact ⟨0, Nat.zero_le 12, hhigh, fun j hj => absurd hj (Nat.not_lt_zero j), (h.high hhigh hok).1⟩
  · exact absurd hhigh (Bool.eq_false_iff.1 (hall 0 (Nat.zero_le 12)))

theorem Through.procedure_low (h : Through cdone bitstream v) (hall : ∀ k ≤ 12, cdone (k + 1) = false) :
    Procedure cdone bitstream v := by
  obtain ⟨hok, hclocks, htext⟩ := h.low (hall 0 (Nat.zero_le 12))
  have hfail : v.text ≠ some "FPGA Load done" := fun hdone => by
    rw [htext] at hdone
    exact errorText_ne (Option.some.inj hdone).symm
  refine ⟨h.data, h.blocks, fun _ => ?_, fun _ hdone => absurd hdone hfail, fun _ _ => ⟨by omega, 1, htext⟩⟩
  exact iff_of_false hfail (fun ⟨k, hk, hhigh⟩ => Bool.eq_false_iff.1 (hall k hk) hhigh)

theorem Through.procedure_iff (h : Through cdone bitstream v) :
    Procedure cdone bitstream v ↔ cdone 1 = true ∨ ∀ k ≤ 12, cdone (k + 1) = false := by
  refine ⟨fun hp => ?_, fun hc => hc.elim h.procedure_high h.procedure_low⟩
  cases hc : cdone 1 with
  | true => exact .inl rfl
  | false => exact .inr (fun k hk => Bool.eq_false_iff.2 (fun hhigh => h.not_procedure hc hk hhigh hp))

end

/-- **When `load_fpga` keeps to the procedure**: no transfer fails up to the end of the bitstream, and the first sample of
CDONE behind it is high or all thirteen are low.  A failed first transfer leaves nothing to see when there is no bitstream. -/
theorem loadFpga_iff (bitstream : List UInt8) (hstart : cdone 0 = false) :
    ∃ v, (∀ fuel, ∃ b, loadFpga spi cdone (fuel + 1) bitstream = some b ∧ b.view = v) ∧
      (Procedure cdone bitstream v ↔
        (bitstream = [] ∧ spi 0 ≠ 0) ∨
          ((∀ n ≤ (bitstream.length + 63) / 64, spi n = 0) ∧
            (cdone 1 = true ∨ ∀ k ≤ 12, cdone (k + 1) = false))) := by
  by_cases hspi : ∀ n ≤ blockCount bitstream.length, spi n = 0
  · obtain ⟨v, hthrough, hrun⟩ := loadFpga_sent hstart bitstream hspi
    refine ⟨v, hrun, hthrough.procedure_iff.trans ⟨fun h => .inr ⟨hspi, h⟩, ?_⟩⟩
    rintro (⟨-, h⟩ | ⟨-, h⟩)
    · exact absurd (hspi 0 (Nat.zero_le _)) h
    · exact h
  · obtain ⟨n, hn⟩ := not_forall.1 hspi
    obtain ⟨hn, hne⟩ := Classical.not_imp.1 hn
    obtain ⟨b, hrun, hcases⟩ := loadFpga_fails hstart hn hne
    refine ⟨b.view, fun fuel => ⟨b, hrun _, rfl⟩, ?_⟩
    rcases hcases with ⟨h0, hdata, hfailed⟩ | ⟨hnil, h0, c, hc, hc2⟩
    · constructor
      · intro h
        refine .inl ⟨?_, h0⟩
        rw [← h.data, hdata]
        rfl
      · rintro (⟨rfl, -⟩ | ⟨hall, -⟩)
        · refine ⟨by rw [hdata]; rfl, by simp [hdata], ?_, ?_, ?_⟩ <;> simp [hfailed]
        · exact absurd hall hspi
    · constructor
      · intro h
        exact absurd (h.blocks c hc).2 hc2
      · rintro (⟨rfl, -⟩ | ⟨hall, -⟩)
        · exact absurd rfl hnil
        · exact absurd hall hspi

/-- CDONE high at once behind 100 bytes. -/
theorem loadFpga_iff_high : ∃ v, (∀ fuel, ∃ b, loadFpga (fun _ => 0) (fun n => decide (n = 1)) (fuel + 1)
    (List.replicate 100 0xA5) = some b ∧ b.view = v) ∧ Procedure (fun n => decide (n = 1)) (List.replicate 100 0xA5) v := by
  obtain ⟨v, hrun, hiff⟩ := @loadFpga_iff (fun _ => 0) (fun n => decide (n = 1)) (List.replicate 100 0xA5) rfl
  exact ⟨v, hrun, hiff.2 (.inr ⟨fun _ _ => rfl, .inl rfl⟩)⟩

/-- CDONE high behind one zero byte: the load has failed by then. -/
theorem loadFpga_slow : ∃ v, (∀ fuel, ∃ b, loadFpga (fun _ => 0) (fun n => decide (n = 2)) (fuel + 1) [0x7E] = some b ∧
    b.view = v) ∧ v.text = some "ERR: CDONE 1" ∧ ¬ Procedure (fun n => decide (n = 2)) [0x7E] v := by
  obtain ⟨v, hthrough, hrun⟩ := @loadFpga_sent (fun _ => 0) (fun n => decide (n = 2)) rfl [0x7E] (fun _ _ => rfl)
  exact ⟨v, hrun, (hthrough.low rfl).2.2, hthrough.not_procedure (k := 1) rfl (by decide) rfl⟩

end

end Mstd.Fpga
