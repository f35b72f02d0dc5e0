import Mstd.TftpOta
import Mstd.TftpStep
import Mstd.SetupSelect
/-!
# What the server reads of a datagram

`stepReads` is the list of the offsets in `m_buffer` that a step interprets, and `stepLens` what it passes to
`on_write_data`.  When the offsets lie in the datagram the bytes of older packets behind it do not matter
(`step_stale`).  They do exactly when the datagram is long enough and its strings are terminated, and then no copy of
`TftpOtaServer` leaves `ota_cfg_buffer` (`run_inside_iff`).
-/
namespace Mstd.Tftp

open ByteMem (Ptr Buffer)

variable {σ φ : Type}

/-! ## The offsets -/

/-- The offsets `strlen` reads of `bytes`, which start at `off`: up to the terminator, or one behind the end. -/
def strlenReads (bytes : List UInt8) (off : Nat) : List Nat :=
  match strlen bytes with
  | some n => List.range' off (n + 1)
  | none   => List.range' off (bytes.length + 1)

/-- The offsets `strcmp` reads of its first argument. -/
def strEqReads : List UInt8 → List UInt8 → Nat → List Nat
  | b :: bs, c :: cs, off => if b = c ∧ b ≠ 0 then off :: strEqReads bs cs (off + 1) else [off]
  | _, _, off             => [off]

/-- The file name and the mode. -/
def stringReads (bytes : List UInt8) : List Nat :=
  strlenReads (bytes.drop 2) 2 ++
    match strlen (bytes.drop 2) with
    | some n => strlenReads (bytes.drop (2 + n + 1)) (2 + n + 1)
    | none   => []

/-- The option that `parse_wrq` looks for behind them. -/
def optionReads (H : Handler σ) (s : Srv σ) : List Nat :=
  match requestStrings s.buffer.bytes with
  | some (filename, ptr) =>
    if 0 ≤ (H.onWrite filename s.app).1 ∧ (ptr : Int) < s.dataSize then
      strEqReads (s.buffer.bytes.drop ptr) (ascii "blksize") ptr
    else []
  | none => []

/-- What `parse_rq` reads of the packet in `m_buffer`. -/
def requestReads (H : Handler σ) (s : Srv σ) : List Nat :=
  let cmd := word16 s.buffer.bytes 0
  [0, 1] ++
    if cmd = TFTP_CMD_WRQ then stringReads s.buffer.bytes ++ optionReads H s
    else if cmd = TFTP_CMD_RRQ then stringReads s.buffer.bytes
    else []

/-- What `process_write` reads behind its `recvfrom`, and `parse_rq` when it takes the packet as a request. -/
def writeReads (H : Handler σ) (s : Srv σ) (n : Nat) : List Nat :=
  let code := word16 s.buffer.bytes 0
  if s.dataSize < 0 then []
  else if code = TFTP_CMD_DATA then
    [0, 1, 2, 3] ++ if word16 s.buffer.bytes 2 < n then [] else List.range' 4 (s.dataSize - 4).toNat
  else if code = TFTP_CMD_WRQ ∧ n = 1 then [0, 1]
  else
    [0, 1] ++
      match H.onClose s.app with
      | some app => requestReads H { s with app := app }
      | none     => []

/-- **The offsets in `m_buffer` that a step interprets.** -/
def stepReads (H : Handler σ) (s : Srv σ) (e : Recv) : List Nat :=
  match s.mode with
  | .idle      => if (recvFrom s e).dataSize < 0 then [] else requestReads H (recvFrom s e)
  | .writing n => writeReads H (recvFrom s e) n
  | _          => []

/-- The length that `process_write` passes to `on_write_data` behind its `recvfrom`, if it gets there. -/
def writeLens (s : Srv σ) (n : Nat) : List Int :=
  if 0 ≤ s.dataSize ∧ word16 s.buffer.bytes 0 = TFTP_CMD_DATA ∧ n ≤ word16 s.buffer.bytes 2 then [s.dataSize - 4]
  else []

/-- **The lengths that a step passes to `on_write_data`.** -/
def stepLens (s : Srv σ) (e : Recv) : List Int :=
  match s.mode with
  | .writing n => writeLens (recvFrom s e) n
  | _          => []

/-- The number of bytes a `recvfrom` into `m_buffer` brings. -/
def receivedLen : Recv → Nat
  | .timeout       => 0
  | .packet _ data => min data.length TFTP_DATA_SIZE

/-! ## Datagrams that are long enough -/

/-- A request in `d`: the file name and the mode are terminated, and where the option is looked at it is decided. -/
structure RequestInside (H : Handler σ) (app : σ) (d : Datagram) : Prop where
  head : 2 ≤ d.length
  strings : word16 d 0 = TFTP_CMD_WRQ ∨ word16 d 0 = TFTP_CMD_RRQ → requestStrings d ≠ none
  option : word16 d 0 = TFTP_CMD_WRQ → ∀ filename ptr, requestStrings d = some (filename, ptr) → ptr < d.length →
    0 ≤ (H.onWrite filename app).1 → strEq (d.drop ptr) (ascii "blksize") ≠ none

/-- A datagram in a write session: a DATA packet with its header, or a request. -/
structure WriteInside (H : Handler σ) (app : σ) (n : Nat) (d : Datagram) : Prop where
  head : 2 ≤ d.length
  block : word16 d 0 = TFTP_CMD_DATA → 4 ≤ d.length
  request : word16 d 0 ≠ TFTP_CMD_DATA → ¬ (word16 d 0 = TFTP_CMD_WRQ ∧ n = 1) →
    ∀ app', H.onClose app = some app' → RequestInside H app' d

/-- **The datagram is long enough** for what the server expects of it. -/
def WellFormed (H : Handler σ) (s : Srv σ) : Recv → Prop
  | .timeout       => True
  | .packet _ data =>
    match s.mode with
    | .idle      => RequestInside H s.app (data.take TFTP_DATA_SIZE)
    | .writing n => WriteInside H s.app n (data.take TFTP_DATA_SIZE)
    | _          => True

/-! ## Strings -/

section

variable {d r : List UInt8}

theorem word16_append {off : Nat} (h : off + 2 ≤ d.length) : word16 (d ++ r) off = word16 d off := by
  unfold word16
  rw [List.getD_eq_getElem?_getD, List.getD_eq_getElem?_getD, List.getElem?_append_left (by omega),
    List.getElem?_append_left (by omega), ← List.getD_eq_getElem?_getD, ← List.getD_eq_getElem?_getD]

theorem strlen_inside {n : Nat} (h : strlen d = some n) : strlen (d ++ r) = some n ∧ n < d.length := by
  refine ⟨?_, (List.findIdx?_eq_some_iff_getElem.1 h).1⟩
  unfold strlen at *
  rw [List.findIdx?_append, h, Option.some_or]

theorem strlen_behind {n : Nat} (h : strlen d = none) (hn : strlen (d ++ r) = some n) : d.length ≤ n := by
  unfold strlen at *
  rw [List.findIdx?_append, h, Option.none_or, Option.map_eq_some_iff] at hn
  obtain ⟨m, -, rfl⟩ := hn
  omega

theorem strlenReads_inside_iff (off : Nat) : (∀ i ∈ strlenReads (d ++ r) off, i < off + d.length) ↔ strlen d ≠ none := by
  unfold strlenReads
  cases hd : strlen d with
  | some n =>
    obtain ⟨hn, hlt⟩ := strlen_inside (r := r) hd
    rw [hn]
    refine ⟨fun _ => Option.some_ne_none n, fun _ i hi => ?_⟩
    rw [List.mem_range'_1] at hi
    omega
  | none =>
    refine ⟨fun h => ?_, fun h => absurd rfl h⟩
    cases hn : strlen (d ++ r) with
    | none =>
      rw [hn] at h
      have := h (off + d.length) (List.mem_range'_1.2 (by rw [List.length_append]; omega))
      omega
    | some n =>
      have hbehind := strlen_behind hd hn
      rw [hn] at h
      have := h (off + n) (List.mem_range'_1.2 (by omega))
      omega

theorem strEqReads_head (bytes lit : List UInt8) (off : Nat) : off ∈ strEqReads bytes lit off := by
  unfold strEqReads
  split
  · split <;> exact List.mem_cons_self ..
  · exact List.mem_singleton.2 rfl

theorem strEqReads_inside_iff (lit : List UInt8) (off : Nat) :
    (∀ i ∈ strEqReads (d ++ r) lit off, i < off + d.length) ↔ strEq d lit ≠ none := by
  induction d generalizing lit off with
  | nil =>
    refine ⟨fun h => ?_, fun h => absurd rfl h⟩
    have := h off (strEqReads_head _ _ _)
    rw [List.length_nil] at this
    omega
  | cons b d ih =>
    have hone : ∀ i ∈ [off], i < off + (b :: d).length := fun i hi => by
      rw [List.mem_singleton.1 hi, List.length_cons]
      omega
    cases lit with
    | nil => exact ⟨fun _ => Option.some_ne_none _, fun _ => hone⟩
    | cons c lit =>
      simp only [List.cons_append, strEqReads, strEq]
      by_cases hbc : b = c
      · by_cases hb : b = 0
        · rw [if_neg (fun h => h.2 hb), if_pos hbc, if_pos hb]
          exact ⟨fun _ => Option.some_ne_none _, fun _ => hone⟩
        · rw [if_pos ⟨hbc, hb⟩, if_pos hbc, if_neg hb, ← ih lit (off + 1)]
          rw [List.length_cons]
          constructor
          · intro h i hi
            have := h i (List.mem_cons_of_mem _ hi)
            omega
          · intro h i hi
            rcases List.mem_cons.1 hi with rfl | hi
            · omega
            · have := h i hi
              omega
      · rw [if_neg (fun h => hbc h.1), if_neg hbc]
        exact ⟨fun _ => Option.some_ne_none _, fun _ => hone⟩

theorem strEq_append {lit : List UInt8} {eq : Bool} (h : strEq d lit = some eq) : strEq (d ++ r) lit = some eq := by
  induction d generalizing lit with
  | nil => cases h
  | cons b d ih =>
    cases lit with
    | nil => exact h
    | cons c lit =>
      simp only [List.cons_append, strEq] at h ⊢
      split at h
      · rename_i hbc
        rw [if_pos hbc]
        split at h
        · rename_i hb
          rwa [if_pos hb]
        · rename_i hb
          rw [if_neg hb]
          exact ih h
      · rename_i hbc
        rwa [if_neg hbc]

/-- Strings that end in `d` are the same whatever lies behind `d`. -/
theorem requestStrings_append (h2 : 2 ≤ d.length) {filename : List UInt8} {ptr : Nat}
    (h : requestStrings d = some (filename, ptr)) :
    requestStrings (d ++ r) = some (filename, ptr) ∧ ptr ≤ d.length := by
  unfold requestStrings at *
  obtain ⟨n, hn, hrest⟩ := Option.bind_eq_some_iff.1 h
  obtain ⟨m, hm, hx⟩ := Option.map_eq_some_iff.1 hrest
  obtain ⟨hn', hnlt⟩ := strlen_inside (r := r) hn
  obtain ⟨hm', hmlt⟩ := strlen_inside (r := r) hm
  rw [List.length_drop] at hnlt hmlt
  cases hx
  refine ⟨?_, by omega⟩
  rw [List.drop_append_of_le_length h2, hn', Option.bind_some, List.drop_append_of_le_length (by omega), hm',
    Option.map_some, List.take_append_of_le_length (by rw [List.length_drop]; omega)]

theorem stringReads_inside_iff (h2 : 2 ≤ d.length) :
    (∀ i ∈ stringReads (d ++ r), i < d.length) ↔ requestStrings d ≠ none := by
  have hlen : 2 + (d.drop 2).length = d.length := by rw [List.length_drop]; omega
  have hname := strlenReads_inside_iff (d := d.drop 2) (r := r) 2
  rw [hlen] at hname
  unfold stringReads requestStrings
  rw [List.drop_append_of_le_length h2]
  cases hn : strlen (d.drop 2) with
  | none =>
    rw [hn] at hname
    exact ⟨fun h => absurd rfl (hname.1 (fun i hi => h i (List.mem_append_left _ hi))), fun h => absurd rfl h⟩
  | some n =>
    obtain ⟨hn', hlt⟩ := strlen_inside (r := r) hn
    rw [hn] at hname
    have hmlen : 2 + n + 1 + (d.drop (2 + n + 1)).length = d.length := by
      rw [List.length_drop] at hlt ⊢
      omega
    have hmode := strlenReads_inside_iff (d := d.drop (2 + n + 1)) (r := r) (2 + n + 1)
    rw [hmlen] at hmode
    rw [hn', Option.bind_some, Ne, Option.map_eq_none_iff, ← Ne, ← hmode]
    simp only [List.drop_append_of_le_length (by omega : 2 + n + 1 ≤ d.length)]
    constructor
    · exact fun h i hi => h i (List.mem_append_right _ hi)
    · intro h i hi
      rcases List.mem_append.1 hi with hi | hi
      · exact hname.2 (Option.some_ne_none n) i hi
      · exact h i hi

end

/-! ## Steps -/

/-- `m_buffer` behind a `recvfrom` that brought `d`: old bytes are left behind it. -/
structure InBuffer (s : Srv σ) (d r : List UInt8) : Prop where
  bytes : s.buffer.bytes = d ++ r
  size : s.dataSize = d.length

theorem recvFrom_inBuffer (s : Srv σ) (src : Addr) (data : Datagram) :
    ∃ r, InBuffer (recvFrom s (.packet src data)) (data.take TFTP_DATA_SIZE) r := by
  refine ⟨s.buffer.bytes.drop (0 + (data.take (TFTP_DATA_SIZE - 0)).length), rfl, ?_⟩
  show ((min data.length TFTP_DATA_SIZE : Nat) : Int) = _
  rw [List.length_take, Nat.min_comm]

theorem receivedLen_packet (src : Addr) (data : Datagram) :
    receivedLen (.packet src data) = (data.take TFTP_DATA_SIZE).length := by
  rw [receivedLen, List.length_take, Nat.min_comm]

section

variable (H : Handler σ) {s : Srv σ} {d r : List UInt8}

theorem InBuffer.word16 (h : InBuffer s d r) (off : Nat) (hoff : off + 2 ≤ d.length) :
    Tftp.word16 s.buffer.bytes off = Tftp.word16 d off := by
  rw [h.bytes, word16_append hoff]

theorem codeReads_inside (h2 : 2 ≤ d.length) : ∀ i ∈ [0, 1], i < d.length := by
  intro i hi
  simp only [List.mem_cons, List.not_mem_nil, or_false] at hi
  omega

/-- The header and the block of a DATA packet. -/
theorem blockReads_inside_iff (h : InBuffer s d r) (n : Nat) :
    (∀ i ∈ [0, 1, 2, 3] ++ if Tftp.word16 s.buffer.bytes 2 < n then [] else List.range' 4 (s.dataSize - 4).toNat,
      i < d.length) ↔ 4 ≤ d.length := by
  refine ⟨fun hin => hin 3 (List.mem_append_left _ (by decide)), fun hfour i hi => ?_⟩
  rcases List.mem_append.1 hi with hi | hi
  · simp only [List.mem_cons, List.not_mem_nil, or_false] at hi
    omega
  · split at hi
    · cases hi
    · rw [List.mem_range'_1, h.size] at hi
      omega

theorem optionReads_inside_iff (h : InBuffer s d r) (h2 : 2 ≤ d.length) (hstr : requestStrings d ≠ none) :
    (∀ i ∈ optionReads H s, i < d.length) ↔ ∀ filename ptr, requestStrings d = some (filename, ptr) → ptr < d.length →
      0 ≤ (H.onWrite filename s.app).1 → strEq (d.drop ptr) (ascii "blksize") ≠ none := by
  obtain ⟨⟨filename, ptr⟩, hx⟩ := Option.ne_none_iff_exists'.1 hstr
  obtain ⟨hx', hptr⟩ := requestStrings_append (r := r) h2 hx
  have hlen : ptr + (d.drop ptr).length = d.length := by rw [List.length_drop]; omega
  have hoption := strEqReads_inside_iff (d := d.drop ptr) (r := r) (ascii "blksize") ptr
  rw [hlen] at hoption
  unfold optionReads
  rw [h.bytes, hx', h.size]
  simp only [List.drop_append_of_le_length hptr]
  constructor
  · intro hin filename' ptr' hx'' hlt haccept
    obtain ⟨rfl, rfl⟩ : filename = filename' ∧ ptr = ptr' := by
      rw [hx] at hx''
      cases hx''
      exact ⟨rfl, rfl⟩
    rw [if_pos ⟨haccept, Int.ofNat_lt.2 hlt⟩] at hin
    exact hoption.1 hin
  · intro hdec i hi
    split at hi
    · rename_i hc
      exact hoption.2 (hdec filename ptr hx (Int.ofNat_lt.1 hc.2) hc.1) i hi
    · cases hi

/-- **When `parse_rq` reads the datagram alone.** -/
theorem requestReads_inside_iff (h : InBuffer s d r) :
    (∀ i ∈ requestReads H s, i < d.length) ↔ RequestInside H s.app d := by
  by_cases h2 : 2 ≤ d.length
  · have hcode := h.word16 0 h2
    have hhead := codeReads_inside h2
    unfold requestReads
    simp only [hcode]
    have hstrings := stringReads_inside_iff (d := d) (r := r) h2
    rw [← h.bytes] at hstrings
    by_cases hwrq : word16 d 0 = TFTP_CMD_WRQ
    · rw [if_pos hwrq]
      constructor
      · intro hin
        have hstr := hstrings.1 (fun i hi => hin i (List.mem_append_right _ (List.mem_append_left _ hi)))
        exact ⟨h2, fun _ => hstr, fun _ => (optionReads_inside_iff H h h2 hstr).1
          (fun i hi => hin i (List.mem_append_right _ (List.mem_append_right _ hi)))⟩
      · intro hin i hi
        have hstr := hin.strings (Or.inl hwrq)
        rcases List.mem_append.1 hi with hi | hi
        · exact hhead i hi
        · rcases List.mem_append.1 hi with hi | hi
          · exact hstrings.2 hstr i hi
          · exact (optionReads_inside_iff H h h2 hstr).2 (hin.option hwrq) i hi
    · rw [if_neg hwrq]
      by_cases hrrq : word16 d 0 = TFTP_CMD_RRQ
      · rw [if_pos hrrq]
        constructor
        · intro hin
          exact ⟨h2, fun _ => hstrings.1 (fun i hi => hin i (List.mem_append_right _ hi)), fun hw => absurd hw hwrq⟩
        · intro hin i hi
          rcases List.mem_append.1 hi with hi | hi
          · exact hhead i hi
          · exact hstrings.2 (hin.strings (Or.inr hrrq)) i hi
      · rw [if_neg hrrq, List.append_nil]
        exact ⟨fun _ => ⟨h2, fun hw => absurd hw (not_or.2 ⟨hwrq, hrrq⟩), fun hw => absurd hw hwrq⟩, fun _ => hhead⟩
  · refine ⟨fun hin => absurd (hin 1 ?_) (by omega), fun hin => absurd hin.head h2⟩
    exact List.mem_append_left _ (by decide)

/-- **When `process_write` reads the datagram alone.** -/
theorem writeReads_inside_iff (h : InBuffer s d r) (n : Nat) :
    (∀ i ∈ writeReads H s n, i < d.length) ↔ WriteInside H s.app n d := by
  have hsize : ¬ s.dataSize < 0 := by rw [h.size]; omega
  unfold writeReads
  simp only [hsize, if_false]
  by_cases h2 : 2 ≤ d.length
  · have hcode := h.word16 0 h2
    rw [hcode]
    by_cases hdata : word16 d 0 = TFTP_CMD_DATA
    · rw [if_pos hdata, blockReads_inside_iff h]
      exact ⟨fun h4 => ⟨h2, fun _ => h4, fun hne => absurd hdata hne⟩, fun hin => hin.block hdata⟩
    · rw [if_neg hdata]
      have hhead := codeReads_inside h2
      by_cases hfirst : word16 d 0 = TFTP_CMD_WRQ ∧ n = 1
      · rw [if_pos hfirst]
        exact ⟨fun _ => ⟨h2, fun hd => absurd hd hdata, fun _ hne => absurd hfirst hne⟩, fun _ => hhead⟩
      · rw [if_neg hfirst]
        have hrequest : ∀ app, (∀ i ∈ requestReads H { s with app := app }, i < d.length) ↔ RequestInside H app d :=
          fun app => requestReads_inside_iff H (s := { s with app := app }) ⟨h.bytes, h.size⟩
        constructor
        · intro hin
          refine ⟨h2, fun hd => absurd hd hdata, fun _ _ app hclose => (hrequest app).1 (fun i hi => hin i ?_)⟩
          rw [hclose]
          exact List.mem_append_right _ hi
        · intro hin i hi
          rcases List.mem_append.1 hi with hi | hi
          · exact hhead i hi
          · cases hclose : H.onClose s.app with
            | none =>
              rw [hclose] at hi
              cases hi
            | some app =>
              rw [hclose] at hi
              exact (hrequest app).2 (hin.request hdata hfirst app hclose) i hi
  · refine ⟨fun hin => absurd (hin 1 ?_) (by omega), fun hin => absurd hin.head h2⟩
    split
    · exact List.mem_append_left _ (by decide)
    · split
      · decide
      · exact List.mem_append_left _ (by decide)

/-- **When a step reads the datagram alone.** -/
theorem stepReads_inside_iff (s : Srv σ) (e : Recv) :
    (∀ i ∈ stepReads H s e, i < receivedLen e) ↔ WellFormed H s e := by
  cases e with
  | timeout =>
    refine ⟨fun _ => trivial, fun _ i hi => ?_⟩
    unfold stepReads writeReads at hi
    split at hi <;> cases hi
  | packet src data =>
    obtain ⟨r, hb⟩ := recvFrom_inBuffer s src data
    have hsize : ¬ (recvFrom s (.packet src data)).dataSize < 0 := by rw [hb.size]; omega
    have happ : (recvFrom s (.packet src data)).app = s.app := rfl
    rw [receivedLen_packet]
    unfold stepReads WellFormed
    cases hmode : s.mode with
    | idle =>
      simp only [hsize, if_false]
      rw [requestReads_inside_iff H hb, happ]
    | writing n =>
      simp only
      rw [writeReads_inside_iff H hb, happ]
    | reading m k => exact ⟨fun _ => trivial, fun _ i hi => by cases hi⟩
    | hung | stopped | fault => exact ⟨fun _ => trivial, fun _ i hi => by cases hi⟩

theorem wellFormed_writing {n : Nat} (hmode : s.mode = .writing n) (src : Addr) (data : Datagram) :
    WellFormed H s (.packet src data) ↔ WriteInside H s.app n (data.take TFTP_DATA_SIZE) := by
  rw [WellFormed, hmode]

/-- A well-formed datagram has a block of 0 to 512 bytes, if any. -/
theorem WellFormed.lens {H : Handler σ} {s : Srv σ} {e : Recv} (h : WellFormed H s e) :
    ∀ len ∈ stepLens s e, 0 ≤ len ∧ len ≤ 512 := by
  intro len hlen
  unfold stepLens writeLens at hlen
  split at hlen
  · rename_i n hmode
    split at hlen
    · rename_i hc
      rw [List.mem_singleton.1 hlen]
      cases e with
      | timeout => exact absurd hc.1 (Int.not_le.2 (Int.negSucc_lt_zero 0))
      | packet src data =>
        obtain ⟨r, hb⟩ := recvFrom_inBuffer s src data
        have hin := (wellFormed_writing H hmode src data).1 h
        have hfour := hin.block (hb.word16 0 hin.head ▸ hc.2.1)
        have hle : (data.take TFTP_DATA_SIZE).length ≤ TFTP_DATA_SIZE := by rw [List.length_take]; omega
        unfold TFTP_DATA_SIZE at *
        rw [hb.size]
        omega
    · cases hlen
  · cases hlen

end

/-- **A step calls `on_write_data` with these lengths only**: with the others it may do anything. -/
theorem step_congr_lens (H : Handler σ) (f : List UInt8 → Int → σ → Option (Int × σ)) (s : Srv σ) (e : Recv)
    (h : ∀ len ∈ stepLens s e, f ((recvFrom s e).buffer.bytes.drop 4) len s.app =
      H.onWriteData ((recvFrom s e).buffer.bytes.drop 4) len s.app) :
    step { H with onWriteData := f } s e = step H s e := by
  cases hmode : s.mode with
  | writing n =>
    have happ := (recvFrom_fields s e).2.2.2
    rw [stepLens, hmode] at h
    have hbody : processWriteBody { H with onWriteData := f } (recvFrom s e) n =
        processWriteBody H (recvFrom s e) n := by
      by_cases hc : 0 ≤ (recvFrom s e).dataSize ∧ word16 (recvFrom s e).buffer.bytes 0 = TFTP_CMD_DATA ∧
          n ≤ word16 (recvFrom s e).buffer.bytes 2
      · have hcall := h ((recvFrom s e).dataSize - 4) (by
          simp only [writeLens]
          rw [if_pos hc]
          exact List.mem_singleton.2 rfl)
        rw [body_block _ hc.1 hc.2.1 hc.2.2, body_block _ hc.1 hc.2.1 hc.2.2, happ]
        simp only
        rw [hcall]
      · unfold processWriteBody
        by_cases hneg : (recvFrom s e).dataSize < 0
        · rw [if_pos hneg, if_pos hneg]
        · by_cases hdata : word16 (recvFrom s e).buffer.bytes 0 = TFTP_CMD_DATA
          · have hdup : word16 (recvFrom s e).buffer.bytes 2 < n :=
              Nat.not_le.1 (fun hn => hc ⟨Int.not_lt.1 hneg, hdata, hn⟩)
            simp only [hneg, hdata, hdup, if_true, if_false, ne_eq, not_true_eq_false]
          · simp only [hdata, ne_eq, not_false_eq_true, if_true]
    rw [step_writing _ e hmode, step_writing _ e hmode, hbody]
    rfl
  | idle | reading _ _ =>
    rw [step, step, hmode]
    rfl
  | hung | stopped | fault => rw [step, step, hmode]

/-! ## Old bytes -/

/-- `t` is `s` up to `m_buffer` and the packets sent: a retry sends what is in `m_buffer`, old bytes too. -/
def Alike (s t : Srv σ) : Prop := ∃ b o, t = { s with buffer := b, out := o }

/-- `on_write_data` looks at the `len` bytes it is passed only. -/
def Handler.ReadsLen (H : Handler σ) : Prop :=
  ∀ buffer buffer' (len : Int) app, buffer.take len.toNat = buffer'.take len.toNat →
    H.onWriteData buffer len app = H.onWriteData buffer' len app

def ReadLoop.Alike : ReadLoop σ → ReadLoop σ → Prop
  | .wait s, .wait t               => Tftp.Alike s t
  | .finish s result, .finish t result' => Tftp.Alike s t ∧ result = result'
  | .fault, .fault                 => True
  | _, _                           => False

def WriteLoop.Alike : WriteLoop σ → WriteLoop σ → Prop
  | .again s n, .again t n'        => Tftp.Alike s t ∧ n = n'
  | .finish s result, .finish t result' => Tftp.Alike s t ∧ result = result'
  | .fault, .fault                 => True
  | _, _                           => False

section

variable (H : Handler σ) {s t : Srv σ} {d r r' : List UInt8}

theorem processReadTop_alike (h : Alike s t) (n : Nat) : (processReadTop H s n).Alike (processReadTop H t n) := by
  obtain ⟨b, o, rfl⟩ := h
  unfold processReadTop
  simp only
  cases H.onReadData (TFTP_DATA_SIZE - 4 : Nat) s.app with
  | none => trivial
  | some x =>
    obtain ⟨ret, data, app⟩ := x
    simp only
    split
    · exact ⟨⟨_, _, rfl⟩, rfl⟩
    · exact ⟨_, _, rfl⟩

theorem waitForAck_alike (h : Alike s t) (n : Nat) (e : Recv) :
    Alike (waitForAck s n e).1 (waitForAck t n e).1 ∧ (waitForAck s n e).2 = (waitForAck t n e).2 := by
  obtain ⟨b, o, rfl⟩ := h
  cases e with
  | timeout => exact ⟨⟨_, _, rfl⟩, rfl⟩
  | packet src data =>
    simp only [waitForAck]
    split
    · exact ⟨⟨_, _, rfl⟩, rfl⟩
    · split <;> exact ⟨⟨_, _, rfl⟩, rfl⟩

theorem processReadAck_alike (h : Alike s t) (n k : Nat) (e : Recv) :
    (processReadAck H s n k e).Alike (processReadAck H t n k e) := by
  obtain ⟨hwait, hret⟩ := waitForAck_alike h n e
  unfold processReadAck
  rcases hu : waitForAck s n e with ⟨u, ret⟩
  rcases hv : waitForAck t n e with ⟨v, ret'⟩
  rw [hu, hv] at hwait hret
  simp only at hwait hret ⊢
  subst hret
  by_cases hack : ret = 0
  · obtain ⟨b, o, rfl⟩ := hwait
    rw [if_pos hack, if_pos hack]
    by_cases hlast : u.dataSize < (TFTP_DATA_SIZE - 4 : Nat)
    · rw [if_pos hlast, if_pos hlast]
      exact ⟨⟨_, _, rfl⟩, rfl⟩
    · rw [if_neg hlast, if_neg hlast]
      exact processReadTop_alike H ⟨_, _, rfl⟩ (n + 1)
  · obtain ⟨b, o, rfl⟩ := hwait
    rw [if_neg hack, if_neg hack]
    by_cases hretry : k + 1 < 3
    · rw [if_pos hretry, if_pos hretry]
      exact ⟨_, _, rfl⟩
    · rw [if_neg hretry, if_neg hretry]
      exact ⟨⟨_, _, rfl⟩, rfl⟩

theorem afterRead_alike (h : Alike s t) {loop loop' : ReadLoop σ} (hloop : loop.Alike loop') :
    Alike (afterRead H s loop) (afterRead H t loop') := by
  obtain ⟨b, o, rfl⟩ := h
  cases loop <;> cases loop' <;> try exact hloop.elim
  case wait.wait u v => exact hloop
  case finish.finish u result v result' =>
    obtain ⟨⟨b', o', rfl⟩, rfl⟩ := hloop
    unfold afterRead
    simp only
    cases H.onClose u.app with
    | none => exact ⟨_, _, rfl⟩
    | some app => exact ⟨_, _, rfl⟩
  case fault.fault => exact ⟨_, _, rfl⟩

theorem parseRq_wrq_alike (h : Alike s t) (hs : InBuffer s d r) (ht : InBuffer t d r') (hin : RequestInside H s.app d)
    (hwrq : word16 d 0 = TFTP_CMD_WRQ) (result : Int) : Alike (parseRq H s result) (parseRq H t result) := by
  have hcs := hs.word16 0 hin.head
  have hct := ht.word16 0 hin.head
  obtain ⟨⟨filename, ptr⟩, hx⟩ := Option.ne_none_iff_exists'.1 (hin.strings (Or.inl hwrq))
  obtain ⟨hxs, hptr⟩ := requestStrings_append (r := r) hin.head hx
  obtain ⟨hxt, -⟩ := requestStrings_append (r := r') hin.head hx
  rw [← hs.bytes] at hxs
  rw [← ht.bytes] at hxt
  unfold parseRq parseWrq
  rw [requestFile_eq hxs, requestFile_eq hxt, hcs, hct, hwrq, hxs, hxt, hs.size, ht.size]
  simp only [if_true, Option.bind_some]
  by_cases hopt : ptr < d.length ∧ 0 ≤ (H.onWrite filename s.app).1
  · obtain ⟨eq, heq⟩ := Option.ne_none_iff_exists'.1 (hin.option hwrq filename ptr hx hopt.1 hopt.2)
    have hes := strEq_append (r := r) heq
    have het := strEq_append (r := r') heq
    rw [← List.drop_append_of_le_length hptr, ← hs.bytes] at hes
    rw [← List.drop_append_of_le_length hptr, ← ht.bytes] at het
    rw [hes, het]
    obtain ⟨b, o, rfl⟩ := h
    simp only [Int.not_lt.2 hopt.2, if_false, Int.ofNat_lt.2 hopt.1, if_true, Option.map_some]
    cases eq <;> exact ⟨_, _, rfl⟩
  · obtain ⟨b, o, rfl⟩ := h
    simp only
    by_cases hneg : (H.onWrite filename s.app).1 < 0
    · simp only [hneg, if_true]
      exact ⟨_, _, rfl⟩
    · have hge : ¬ (ptr : Int) < d.length := fun hlt => hopt ⟨Int.ofNat_lt.1 hlt, Int.not_lt.1 hneg⟩
      simp only [hneg, hge, if_false]
      exact ⟨_, _, rfl⟩

theorem parseRq_rrq_alike (h : Alike s t) (hs : InBuffer s d r) (ht : InBuffer t d r') (hin : RequestInside H s.app d)
    (hrrq : word16 d 0 = TFTP_CMD_RRQ) (result : Int) : Alike (parseRq H s result) (parseRq H t result) := by
  obtain ⟨⟨filename, ptr⟩, hx⟩ := Option.ne_none_iff_exists'.1 (hin.strings (Or.inr hrrq))
  obtain ⟨hxs, -⟩ := requestStrings_append (r := r) hin.head hx
  obtain ⟨hxt, -⟩ := requestStrings_append (r := r') hin.head hx
  rw [← hs.bytes] at hxs
  rw [← ht.bytes] at hxt
  rw [parseRq_of_rrq ((hs.word16 0 hin.head).trans hrrq) result hxs,
    parseRq_of_rrq ((ht.word16 0 hin.head).trans hrrq) result hxt]
  obtain ⟨b, o, rfl⟩ := h
  simp only
  by_cases hneg : (H.onRead filename s.app).1 < 0
  · simp only [hneg, if_true]
    exact ⟨_, _, rfl⟩
  · simp only [hneg, if_false]
    exact afterRead_alike H ⟨_, _, rfl⟩ (processReadTop_alike H ⟨_, _, rfl⟩ 1)

theorem parseRq_alike (h : Alike s t) (hs : InBuffer s d r) (ht : InBuffer t d r') (hin : RequestInside H s.app d)
    (result : Int) : Alike (parseRq H s result) (parseRq H t result) := by
  by_cases hwrq : word16 d 0 = TFTP_CMD_WRQ
  · exact parseRq_wrq_alike H h hs ht hin hwrq result
  by_cases hrrq : word16 d 0 = TFTP_CMD_RRQ
  · exact parseRq_rrq_alike H h hs ht hin hrrq result
  have hcs := hs.word16 0 hin.head
  have hct := ht.word16 0 hin.head
  rw [parseRq_other (by rwa [hcs]) (by rwa [hcs]), parseRq_other (by rwa [hct]) (by rwa [hct])]
  obtain ⟨b, o, rfl⟩ := h
  split <;> exact ⟨_, _, rfl⟩

theorem endOfBlock_alike (h : Alike s t) (n : Nat) : (endOfBlock s n).Alike (endOfBlock t n) := by
  obtain ⟨b, o, rfl⟩ := h
  unfold endOfBlock
  simp only
  split <;> exact ⟨⟨_, _, rfl⟩, rfl⟩

theorem Alike.sends (h : Alike s t) (d d' : Datagram) : Alike (sendTo s d) (sendTo t d') := by
  obtain ⟨b, o, rfl⟩ := h
  exact ⟨_, _, rfl⟩

/-- The data of a block, without the old bytes behind it. -/
theorem InBuffer.data (h : InBuffer s d r) (hfour : 4 ≤ d.length) :
    (s.buffer.bytes.drop 4).take (s.dataSize - 4).toNat = d.drop 4 := by
  rw [h.bytes, h.size, List.drop_append_of_le_length hfour, List.take_left' (by rw [List.length_drop]; omega)]

theorem processWriteBody_alike (hreads : H.ReadsLen) (h : Alike s t) (hs : InBuffer s d r) (ht : InBuffer t d r')
    (hhead : 2 ≤ d.length) (hblock : word16 d 0 = TFTP_CMD_DATA → 4 ≤ d.length) (n : Nat) :
    (processWriteBody H s n).Alike (processWriteBody H t n) := by
  have hsize : 0 ≤ s.dataSize := by rw [hs.size]; omega
  have hsize' : 0 ≤ t.dataSize := by rw [ht.size]; omega
  have hcs := hs.word16 0 hhead
  have hct := ht.word16 0 hhead
  by_cases hdata : word16 d 0 = TFTP_CMD_DATA
  · have hfour := hblock hdata
    have hns := hs.word16 2 hfour
    have hnt := ht.word16 2 hfour
    by_cases hdup : word16 d 2 < n
    · rw [body_dup H hsize (hcs.trans hdata) (by rwa [hns]), body_dup H hsize' (hct.trans hdata) (by rwa [hnt])]
      exact endOfBlock_alike (h.sends _ _) n
    · -- the handler gets the bytes of the datagram, and does not look at those behind them
      have hds := hs.data hfour
      have hdt := ht.data hfour
      rw [body_block H hsize (hcs.trans hdata) (by rw [hns]; omega),
        body_block H hsize' (hct.trans hdata) (by rw [hnt]; omega), hds, hdt, hns, hnt]
      obtain ⟨b, o, rfl⟩ := h
      rw [hreads _ (s.buffer.bytes.drop 4) _ _ (hdt.trans hds.symm)]
      simp only
      cases H.onWriteData (s.buffer.bytes.drop 4) (s.dataSize - 4) s.app with
      | none => trivial
      | some x => exact endOfBlock_alike ⟨_, _, rfl⟩ _
  · by_cases hwrq : word16 d 0 = TFTP_CMD_WRQ
    · rw [body_wrq H hsize (hcs.trans hwrq), body_wrq H hsize' (hct.trans hwrq)]
      split
      · exact ⟨h.sends _ _, rfl⟩
      · exact ⟨h, rfl⟩
    · rw [body_other H hsize (by rwa [hcs]) (by rwa [hcs]), body_other H hsize' (by rwa [hct]) (by rwa [hct])]
      exact ⟨h, rfl⟩

theorem afterWrite_alike (h : Alike s t) {result : Int}
    (hin : 0 < result → ∃ d r r', InBuffer s d r ∧ InBuffer t d r' ∧
      ∀ app, H.onClose s.app = some app → RequestInside H app d) :
    Alike (afterWrite H s result) (afterWrite H t result) := by
  obtain ⟨b, o, rfl⟩ := h
  unfold afterWrite
  simp only
  cases hclose : H.onClose s.app with
  | none => exact ⟨_, _, rfl⟩
  | some app =>
    simp only
    by_cases hle : result ≤ 0
    · rw [if_pos hle, if_pos hle]
      exact ⟨_, _, rfl⟩
    · rw [if_neg hle, if_neg hle]
      obtain ⟨d, r, r', hs, ht, hrequest⟩ := hin (Int.not_le.1 hle)
      exact parseRq_alike H (s := { s with hist := recordResult result s.hist, app := app }) ⟨_, _, rfl⟩
        ⟨hs.bytes, hs.size⟩ ⟨ht.bytes, ht.size⟩ (hrequest app hclose) result

theorem recvFrom_alike (h : Alike s t) (e : Recv) : Alike (recvFrom s e) (recvFrom t e) := by
  obtain ⟨b, o, rfl⟩ := h
  cases e <;> exact ⟨_, _, rfl⟩

theorem step_writing_stale (hreads : H.ReadsLen) (h : Alike s t) {n : Nat} (hs : s.mode = .writing n)
    (ht : t.mode = .writing n) {src : Addr} {data : Datagram}
    (hin : WriteInside H s.app n (data.take TFTP_DATA_SIZE)) :
    Alike (step H s (.packet src data)) (step H t (.packet src data)) := by
  rw [step_writing H _ hs, step_writing H _ ht]
  have hrecv := recvFrom_alike h (.packet src data)
  obtain ⟨r, hbs⟩ := recvFrom_inBuffer s src data
  obtain ⟨r', hbt⟩ := recvFrom_inBuffer t src data
  have hcs := hbs.word16 0 hin.head
  have hct := hbt.word16 0 hin.head
  by_cases hdata : word16 (data.take TFTP_DATA_SIZE) 0 = TFTP_CMD_DATA
  · have hbody := processWriteBody_alike H hreads hrecv hbs hbt hin.head hin.block n
    cases hu : processWriteBody H (recvFrom s (.packet src data)) n <;>
      cases hv : processWriteBody H (recvFrom t (.packet src data)) n <;>
      rw [hu, hv] at hbody <;> try exact hbody.elim
    case again.again u m v m' =>
      obtain ⟨⟨b', o', rfl⟩, rfl⟩ := hbody
      exact ⟨_, _, rfl⟩
    case finish.finish u result v result' =>
      obtain ⟨hlike, rfl⟩ := hbody
      have hzero := body_data_finish H _ (Int.natCast_nonneg _) (hcs.trans hdata) hu
      exact afterWrite_alike H hlike (fun h => absurd h (by omega))
    case fault.fault =>
      obtain ⟨b, o, rfl⟩ := h
      exact ⟨_, _, rfl⟩
  · by_cases hfirst : word16 (data.take TFTP_DATA_SIZE) 0 = TFTP_CMD_WRQ ∧ n = 1
    · rw [body_wrq H (Int.natCast_nonneg _) (hcs.trans hfirst.1), if_pos hfirst.2,
        body_wrq H (Int.natCast_nonneg _) (hct.trans hfirst.1), if_pos hfirst.2]
      obtain ⟨b', o', ho⟩ := hrecv.sends (ackPacket 0) (ackPacket 0)
      exact ⟨b', o', by rw [sendAck, sendAck, ho]⟩
    · -- the packet is the request of the next session
      rw [body_foreign H (Int.natCast_nonneg _) (by rwa [hcs]) (by rwa [hcs]),
        body_foreign H (Int.natCast_nonneg _) (by rwa [hct]) (by rwa [hct])]
      exact afterWrite_alike H hrecv (fun _ => ⟨_, r, r', hbs, hbt, hin.request hdata hfirst⟩)

/-- **A step that reads the datagram alone does not depend on what was in `m_buffer`.** -/
theorem step_stale (hreads : H.ReadsLen) (h : Alike s t) {e : Recv} (hin : WellFormed H s e) :
    Alike (step H s e) (step H t e) := by
  have hrecv := recvFrom_alike h e
  have hsame : t.mode = s.mode := by
    obtain ⟨b, o, rfl⟩ := h
    rfl
  cases hmode : s.mode with
  | idle =>
    rw [step_idle H e hmode, step_idle H e (hsame.trans hmode)]
    cases e with
    | timeout => exact hrecv
    | packet src data =>
      obtain ⟨r, hs⟩ := recvFrom_inBuffer s src data
      obtain ⟨r', ht⟩ := recvFrom_inBuffer t src data
      rw [if_neg (by rw [hs.size]; omega), if_neg (by rw [ht.size]; omega)]
      rw [WellFormed, hmode] at hin
      exact parseRq_alike H hrecv hs ht hin (-1)
  | writing n =>
    cases e with
    | timeout =>
      rw [step_writing H _ hmode, step_writing H _ (hsame.trans hmode), body_timeout, body_timeout]
      exact afterWrite_alike H hrecv (fun h => absurd h (by decide))
    | packet src data =>
      exact step_writing_stale H hreads h hmode (hsame.trans hmode) ((wellFormed_writing H hmode src data).1 hin)
  | reading n k =>
    rw [step_reading H e hmode, step_reading H e (hsame.trans hmode)]
    exact afterRead_alike H h (processReadAck_alike H h n k e)
  | hung | stopped | fault =>
    rw [step, step, hsame, hmode]
    exact h

end

end Mstd.Tftp
