import Mstd.ByteMem
/-!
# The TFTP server (`tftp_server.cpp`)

The class `TFTP` with its virtual methods as a `Handler` over the derived class's state.  The server is a machine whose
control state (`Mode`) is the `recvfrom` it is blocked in, and `step` runs the code from one `recvfrom` to the next.
`out` collects what `sendto` was given; `hist` is a history variable, the write sessions with the blocks they passed to
`on_write_data`, newest first.  A read outside `m_buffer` ends in `fault`.
-/
namespace Mstd.Tftp

open ByteMem (Buffer)

/-- Max supported TFTP packet size, `512 + 4`. -/
def TFTP_DATA_SIZE : Nat := 516

def TFTP_CMD_RRQ : Nat := 1
def TFTP_CMD_WRQ : Nat := 2
def TFTP_CMD_DATA : Nat := 3
def TFTP_CMD_ACK : Nat := 4
def TFTP_CMD_ERROR : Nat := 5

def ERR_NOT_DEFINED : Nat := 0
def ERR_FILE_NOT_FOUND : Nat := 1
def ERR_ACCESS_VIOLATION : Nat := 2
def ERR_ILLEGAL_OPERATION : Nat := 4

abbrev Addr := Nat
abbrev Datagram := List UInt8

/-- The bytes of a string literal. -/
def ascii (s : String) : List UInt8 := s.toList.map (fun c => UInt8.ofNat c.toNat)

/-- `htons`. -/
def be16 (n : Nat) : List UInt8 := [UInt8.ofNat (n / 256), UInt8.ofNat n]

/-- `ntohs(*(uint16_t*)(&bytes[off]))`. -/
def word16 (bytes : List UInt8) (off : Nat) : Nat := (bytes.getD off 0).toNat * 256 + (bytes.getD (off + 1) 0).toNat

/-- What a `recvfrom` returns: `-1`, or a datagram with its sender. -/
inductive Recv where
  | timeout
  | packet (src : Addr) (data : Datagram)

/-- The virtual methods of `TFTP`.  `none` is undefined behaviour in `onWriteData` and `onReadData` (a copy outside the
arrays), and an `on_close` that restarts the device: it never returns, and `onRestart` is what it has done by then. -/
structure Handler (σ : Type) where
  onWrite : List UInt8 → σ → Int × σ
  onRead : List UInt8 → σ → Int × σ
  onWriteData : List UInt8 → Int → σ → Option (Int × σ)
  onReadData : Int → σ → Option (Int × List UInt8 × σ)
  onClose : σ → Option σ
  onRestart : σ → σ := id

/-- A block passed to `on_write_data`: its sender, its number, its bytes, the length passed and what came back. -/
structure Block where
  src : Addr
  num : Nat
  data : List UInt8
  len : Int
  ret : Int

/-- A write session: who opened it, for which file, the handler's state before its `on_write`, its blocks in order, and
what `process_write` returned. -/
structure Session (σ : Type) where
  peer : Addr
  file : List UInt8
  asked : σ
  blocks : List Block
  result : Option Int

variable {σ : Type}

def Session.start (peer : Addr) (file : List UInt8) (asked : σ) : Session σ :=
  { peer := peer, file := file, asked := asked, blocks := [], result := none }

def Session.payload (s : Session σ) : List UInt8 := s.blocks.flatMap Block.data

/-- The `recvfrom` the server is blocked in, or why there is none. -/
inductive Mode where
  | idle
  | writing (nextBlockNum : Nat)
  | reading (blockNum : Nat) (r : Nat)
  | hung
  | stopped
  | fault
  deriving DecidableEq

structure Srv (σ : Type) where
  mode : Mode
  buffer : Buffer TFTP_DATA_SIZE
  dataSize : Int
  client : Addr
  app : σ
  out : List (Addr × Datagram)
  hist : List (Session σ)

/-! ## Sockets -/

/-- `recvfrom(m_sock, m_buffer, TFTP_DATA_SIZE, ...)`: a longer datagram is cut, a shorter one leaves old bytes behind. -/
def recvFrom (s : Srv σ) : Recv → Srv σ
  | .timeout         => { s with dataSize := -1 }
  | .packet src data =>
    { s with buffer := s.buffer.put 0 data, dataSize := (min data.length TFTP_DATA_SIZE : Nat), client := src }

def sendTo (s : Srv σ) (data : Datagram) : Srv σ := { s with out := s.out ++ [(s.client, data)] }

def dataBytes (blockNum : Nat) (data : List UInt8) : Datagram := be16 TFTP_CMD_DATA ++ be16 blockNum ++ data

def ackPacket (blockNum : Nat) : Datagram := be16 TFTP_CMD_ACK ++ be16 blockNum

def sendAck (s : Srv σ) (blockNum : Nat) : Srv σ := sendTo s (ackPacket blockNum)

/-- The error packet is built in `m_buffer`. -/
def sendError (s : Srv σ) (code : Nat) (message : String) : Srv σ :=
  let packet := be16 TFTP_CMD_ERROR ++ be16 code ++ ascii message ++ [0]
  sendTo { s with buffer := s.buffer.put 0 packet } packet

/-! ## Receiving a file -/

/-- Whether the loop of `process_write` goes on. -/
inductive WriteLoop (σ : Type) where
  | again (s : Srv σ) (nextBlockNum : Nat)
  | finish (s : Srv σ) (result : Int)
  | fault

/-- Appends a block to the running session. -/
def recordBlock (b : Block) : List (Session σ) → List (Session σ)
  | []        => []
  | s :: rest => { s with blocks := s.blocks ++ [b] } :: rest

/-- A short packet is the last one. -/
def endOfBlock (s : Srv σ) (nextBlockNum : Nat) : WriteLoop σ :=
  if s.dataSize < TFTP_DATA_SIZE then .finish s 0 else .again s nextBlockNum

/-- The loop body of `process_write`, behind its `recvfrom`. -/
def processWriteBody (H : Handler σ) (s : Srv σ) (nextBlockNum : Nat) : WriteLoop σ :=
  if s.dataSize < 0 then .finish s (-1)
  else
    let code := word16 s.buffer.bytes 0
    if code ≠ TFTP_CMD_DATA then
      if code = TFTP_CMD_WRQ ∧ nextBlockNum = 1 then .again (sendAck s 0) nextBlockNum
      else .finish s 1
    else
      let blockNum := word16 s.buffer.bytes 2
      let dataSize := s.dataSize - 4
      let s := sendAck s blockNum
      if blockNum < nextBlockNum then endOfBlock s nextBlockNum
      else
        let data := s.buffer.bytes.drop 4
        match H.onWriteData data dataSize s.app with
        | none => .fault
        | some (ret, app) =>
          let block : Block :=
            { src := s.client, num := blockNum, data := data.take dataSize.toNat, len := dataSize, ret := ret }
          endOfBlock { s with app := app, hist := recordBlock block s.hist } (nextBlockNum + 1)

/-- `process_write` on the `recvfrom` results it gets: the state and result when it returns, and the results left. -/
def processWrite (H : Handler σ) (s : Srv σ) (nextBlockNum : Nat) : List Recv → Option (Srv σ × Int × List Recv)
  | []      => none
  | r :: rs =>
    match processWriteBody H (recvFrom s r) nextBlockNum with
    | .again s' nextBlockNum' => processWrite H { s' with mode := .writing nextBlockNum' } nextBlockNum' rs
    | .finish s' result       => some (s', result, rs)
    | .fault                  => none

/-! ## Sending a file -/

/-- `sendto` of the packet in `m_buffer`, then the wait for its ACK. -/
def sendBlock (s : Srv σ) (blockNum r : Nat) : Srv σ :=
  { sendTo s (s.buffer.bytes.take (s.dataSize + 4).toNat) with mode := .reading blockNum r }

/-- Whether the loop of `process_read` waits for an ACK or is over. -/
inductive ReadLoop (σ : Type) where
  | wait (s : Srv σ)
  | finish (s : Srv σ) (result : Int)
  | fault

/-- The top of the loop of `process_read`. -/
def processReadTop (H : Handler σ) (s : Srv σ) (blockNum : Nat) : ReadLoop σ :=
  let s := { s with buffer := (s.buffer.put 0 (be16 TFTP_CMD_DATA)).put 2 (be16 blockNum) }
  match H.onReadData (TFTP_DATA_SIZE - 4 : Nat) s.app with
  | none => .fault
  | some (ret, data, app) =>
    let s := { s with buffer := s.buffer.put 4 data, dataSize := ret, app := app }
    if ret < 0 then .finish (sendError s ERR_ILLEGAL_OPERATION "failed to read file") (-1)
    else .wait (sendBlock s blockNum 0)

/-- `wait_for_ack`, behind its `recvfrom` into a buffer of four bytes. -/
def waitForAck (s : Srv σ) (blockNum : Nat) : Recv → Srv σ × Int
  | .timeout => (sendError s ERR_NOT_DEFINED "incorrect ack", -1)
  | .packet src data =>
    let s := { s with client := src }
    let data := data.take 4
    if data.length ≠ 4 ∨ word16 data 0 ≠ TFTP_CMD_ACK then (sendError s ERR_NOT_DEFINED "incorrect ack", -1)
    else if word16 data 2 ≠ blockNum % 65536 then (s, 1)
    else (s, 0)

/-- The loop of `process_read`, behind the wait for the ACK of try `r`. -/
def processReadAck (H : Handler σ) (s : Srv σ) (blockNum r : Nat) (e : Recv) : ReadLoop σ :=
  match waitForAck s blockNum e with
  | (s, ret) =>
    if ret = 0 then
      if s.dataSize < (TFTP_DATA_SIZE - 4 : Nat) then .finish s 0 else processReadTop H s (blockNum + 1)
    else if r + 1 < 3 then .wait (sendBlock s blockNum (r + 1))
    else .finish s (-1)

/-! ## Requests -/

/-- `strlen` of the string at the start of `bytes`; there may be no terminator before their end. -/
def strlen (bytes : List UInt8) : Option Nat := bytes.findIdx? (· == 0)

/-- `!strcmp(bytes, s)`: decided at the first byte that differs, or at the terminator. -/
def strEq : List UInt8 → List UInt8 → Option Bool
  | [],      _       => none
  | b :: _,  []      => some (b == 0)
  | b :: bs, c :: cs => if b = c then (if b = 0 then some false else strEq bs cs) else some false

/-- The two strings of a request: the file name and the offset behind the mode. -/
def requestStrings (bytes : List UInt8) : Option (List UInt8 × Nat) :=
  (strlen (bytes.drop 2)).bind (fun n =>
    (strlen (bytes.drop (2 + n + 1))).map (fun m => ((bytes.drop 2).take n, 2 + n + 1 + (m + 1))))

/-- The file that a request names. -/
def requestFile (bytes : List UInt8) : List UInt8 := (requestStrings bytes).elim [] Prod.fst

theorem requestFile_eq {bytes filename : List UInt8} {ptr : Nat} (h : requestStrings bytes = some (filename, ptr)) :
    requestFile bytes = filename := by
  rw [requestFile, h]
  rfl

def oackPacket : Datagram := [0, 6] ++ ascii "blksize" ++ [0] ++ ascii "512" ++ [0]

def parseWrq (H : Handler σ) (s : Srv σ) : Option (Srv σ × Int) :=
  (requestStrings s.buffer.bytes).bind (fun (filename, ptr) =>
    match H.onWrite filename s.app with
    | (ret, app) =>
      let s := { s with app := app }
      if ret < 0 then some (sendError s ERR_ACCESS_VIOLATION "cannot open file", -1)
      else if (ptr : Int) < s.dataSize then
        (strEq (s.buffer.bytes.drop ptr) (ascii "blksize")).map (fun eq =>
          (if eq then sendTo s oackPacket else sendAck s 0, 0))
      else some (sendAck s 0, 0))

def parseRrq (H : Handler σ) (s : Srv σ) : Option (Srv σ × Int) :=
  (requestStrings s.buffer.bytes).map (fun (filename, _) =>
    match H.onRead filename s.app with
    | (ret, app) =>
      let s := { s with app := app }
      if ret < 0 then (sendError s ERR_FILE_NOT_FOUND "cannot open file", -1) else (s, 0))

/-- What `process_read` does before it waits again: it waits, or `parse_rq` closes the transfer and returns. -/
def afterRead (H : Handler σ) (s : Srv σ) : ReadLoop σ → Srv σ
  | .wait s'     => s'
  | .fault       => { s with mode := .fault }
  | .finish s' _ =>
    -- `process_read` returns 0 or -1, so `parse_rq` leaves its loop
    match H.onClose s'.app with
    | none     => { s' with app := H.onRestart s'.app, mode := .stopped }
    | some app => { s' with app := app, mode := .idle }

/-- The loop of `parse_rq` on the packet in `m_buffer`, entered with `result`: it gets to a `recvfrom`, returns, or, with
`result` at 1 and no request in the buffer, goes round for ever. -/
def parseRq (H : Handler σ) (s : Srv σ) (result : Int) : Srv σ :=
  let cmd := word16 s.buffer.bytes 0
  if cmd = TFTP_CMD_WRQ then
    match parseWrq H s with
    | none => { s with mode := .fault }
    | some (s', ret) =>
      if ret = 0 then
        { s' with mode := .writing 1, hist := .start s'.client (requestFile s.buffer.bytes) s.app :: s'.hist }
      else { s' with mode := .idle }
  else if cmd = TFTP_CMD_RRQ then
    match parseRrq H s with
    | none => { s with mode := .fault }
    | some (s', ret) => if ret = 0 then afterRead H s' (processReadTop H s' 1) else { s' with mode := .idle }
  else if result ≤ 0 then { s with mode := .idle }
  else { s with mode := .hung }

def recordResult (result : Int) : List (Session σ) → List (Session σ)
  | []        => []
  | s :: rest => { s with result := some result } :: rest

/-- `parse_rq` behind `process_write`. -/
def afterWrite (H : Handler σ) (s : Srv σ) (result : Int) : Srv σ :=
  let s := { s with hist := recordResult result s.hist }
  match H.onClose s.app with
  | none     => { s with app := H.onRestart s.app, mode := .stopped }
  | some app =>
    let s := { s with app := app }
    if result ≤ 0 then { s with mode := .idle } else parseRq H s result

/-- The server between two `recvfrom` calls. -/
def step (H : Handler σ) (s : Srv σ) (e : Recv) : Srv σ :=
  match s.mode with
  | .idle =>
    let s' := recvFrom s e
    if s'.dataSize < 0 then s' else parseRq H s' (-1)
  | .writing nextBlockNum =>
    match processWriteBody H (recvFrom s e) nextBlockNum with
    | .again s' nextBlockNum' => { s' with mode := .writing nextBlockNum' }
    | .finish s' result       => afterWrite H s' result
    | .fault                  => { s with mode := .fault }
  | .reading blockNum r => afterRead H s (processReadAck H s blockNum r e)
  | .hung | .stopped | .fault => s

/-- `app_main` calls `run` for ever. -/
def run (H : Handler σ) (s : Srv σ) (es : List Recv) : Srv σ := es.foldl (step H) s

theorem run_cons (H : Handler σ) (s : Srv σ) (e : Recv) (es : List Recv) : run H s (e :: es) = run H (step H s e) es := rfl

theorem step_idle (H : Handler σ) {s : Srv σ} (e : Recv) (hmode : s.mode = .idle) :
    step H s e = if (recvFrom s e).dataSize < 0 then recvFrom s e else parseRq H (recvFrom s e) (-1) := by
  rw [step, hmode]

theorem step_idle_packet (H : Handler σ) {s : Srv σ} (hidle : s.mode = .idle) (src : Addr) (data : Datagram) :
    step H s (.packet src data) = parseRq H (recvFrom s (.packet src data)) (-1) := by
  rw [step_idle H _ hidle, if_neg]
  exact Int.not_lt.2 (Int.natCast_nonneg _)

theorem step_writing (H : Handler σ) {s : Srv σ} {n : Nat} (e : Recv) (hmode : s.mode = .writing n) :
    step H s e =
      match processWriteBody H (recvFrom s e) n with
      | .again s' n'      => { s' with mode := .writing n' }
      | .finish s' result => afterWrite H s' result
      | .fault            => { s with mode := .fault } := by
  rw [step, hmode]

theorem step_reading (H : Handler σ) {s : Srv σ} {n r : Nat} (e : Recv) (hmode : s.mode = .reading n r) :
    step H s e = afterRead H s (processReadAck H s n r e) := by
  rw [step, hmode]

theorem run_append (H : Handler σ) (s : Srv σ) (es es' : List Recv) : run H s (es ++ es') = run H (run H s es) es' :=
  List.foldl_append

/-! ## Sessions -/

theorem length_buffer (s : Srv σ) : s.buffer.bytes.length = TFTP_DATA_SIZE := s.buffer.size

/-- The blocks of the newest session. -/
def Srv.blocks (s : Srv σ) : List Block :=
  match s.hist with
  | []           => []
  | session :: _ => session.blocks

section

variable (H : Handler σ) {s : Srv σ} {n : Nat}

theorem body_timeout (s : Srv σ) (n : Nat) :
    processWriteBody H (recvFrom s .timeout) n = .finish (recvFrom s .timeout) (-1) := rfl

theorem body_wrq (hsize : 0 ≤ s.dataSize) (hcode : word16 s.buffer.bytes 0 = TFTP_CMD_WRQ) :
    processWriteBody H s n = if n = 1 then .again (sendAck s 0) n else .finish s 1 := by
  simp [processWriteBody, Int.not_lt.2 hsize, hcode, TFTP_CMD_WRQ, TFTP_CMD_DATA]

theorem body_other (hsize : 0 ≤ s.dataSize) (hdata : word16 s.buffer.bytes 0 ≠ TFTP_CMD_DATA)
    (hwrq : word16 s.buffer.bytes 0 ≠ TFTP_CMD_WRQ) : processWriteBody H s n = .finish s 1 := by
  simp [processWriteBody, Int.not_lt.2 hsize, hdata, hwrq]

/-- A packet that is neither a DATA packet nor the request again ends a session with result 1. -/
theorem body_foreign (hsize : 0 ≤ s.dataSize) (hdata : word16 s.buffer.bytes 0 ≠ TFTP_CMD_DATA)
    (hfirst : ¬ (word16 s.buffer.bytes 0 = TFTP_CMD_WRQ ∧ n = 1)) : processWriteBody H s n = .finish s 1 := by
  by_cases hwrq : word16 s.buffer.bytes 0 = TFTP_CMD_WRQ
  · rw [body_wrq H hsize hwrq, if_neg (fun h => hfirst ⟨hwrq, h⟩)]
  · exact body_other H hsize hdata hwrq

theorem body_dup (hsize : 0 ≤ s.dataSize) (hdata : word16 s.buffer.bytes 0 = TFTP_CMD_DATA)
    (hdup : word16 s.buffer.bytes 2 < n) :
    processWriteBody H s n = endOfBlock (sendAck s (word16 s.buffer.bytes 2)) n := by
  simp [processWriteBody, Int.not_lt.2 hsize, hdata, hdup]

theorem body_block (hsize : 0 ≤ s.dataSize) (hdata : word16 s.buffer.bytes 0 = TFTP_CMD_DATA)
    (hnew : n ≤ word16 s.buffer.bytes 2) :
    processWriteBody H s n =
      match H.onWriteData (s.buffer.bytes.drop 4) (s.dataSize - 4) s.app with
      | none => .fault
      | some (ret, app) =>
        endOfBlock
          { sendAck s (word16 s.buffer.bytes 2) with
            app := app
            hist := recordBlock
              { src := s.client, num := word16 s.buffer.bytes 2,
                data := (s.buffer.bytes.drop 4).take (s.dataSize - 4).toNat, len := s.dataSize - 4, ret := ret } s.hist }
          (n + 1) := by
  simp only [processWriteBody, Int.not_lt.2 hsize, hdata, Nat.not_lt.2 hnew, if_false, ne_eq, not_true_eq_false]
  rfl

end

/-- **The loop of `process_write` is the machine in its `writing` modes**, up to the close of the session. -/
theorem run_processWrite {H : Handler σ} {es rest : List Recv} {s s' : Srv σ} {n : Nat} {result : Int}
    (hmode : s.mode = .writing n) (h : processWrite H s n es = some (s', result, rest)) :
    run H s es = run H (afterWrite H s' result) rest := by
  induction es generalizing s n with
  | nil => cases h
  | cons e es ih =>
    rw [run_cons, step_writing H e hmode]
    unfold processWrite at h
    cases hb : processWriteBody H (recvFrom s e) n with
    | again t m =>
      rw [hb] at h
      exact ih rfl h
    | finish t r =>
      rw [hb] at h
      cases h
      rfl
    | fault => rw [hb] at h; cases h

section

variable {H : Handler σ} {s s' : Srv σ} {filename : List UInt8} {ptr : Nat}

theorem parseRq_of_wrq (hcmd : word16 s.buffer.bytes 0 = TFTP_CMD_WRQ) (h : parseWrq H s = some (s', 0)) (result : Int) :
    parseRq H s result =
      { s' with mode := .writing 1, hist := .start s'.client (requestFile s.buffer.bytes) s.app :: s'.hist } := by
  simp only [parseRq, hcmd, h, if_true]

theorem parseWrq_accept (hstr : requestStrings s.buffer.bytes = some (filename, ptr)) (hptr : s.dataSize ≤ ptr)
    (haccept : 0 ≤ (H.onWrite filename s.app).1) :
    parseWrq H s = some (sendAck { s with app := (H.onWrite filename s.app).2 } 0, 0) := by
  simp only [parseWrq, hstr, Option.bind_some, Int.not_lt.2 haccept, Int.not_lt.2 hptr, if_false]

theorem afterRead_finish {t : Srv σ} {app : σ} {result : Int} (hclose : H.onClose t.app = some app) :
    afterRead H s (.finish t result) = { t with app := app, mode := .idle } := by
  rw [afterRead, hclose]

theorem parseRq_other (hwrq : word16 s.buffer.bytes 0 ≠ TFTP_CMD_WRQ) (hrrq : word16 s.buffer.bytes 0 ≠ TFTP_CMD_RRQ)
    (result : Int) : parseRq H s result = if result ≤ 0 then { s with mode := .idle } else { s with mode := .hung } := by
  simp only [parseRq, hwrq, hrrq, if_false]

theorem afterWrite_idle {app : σ} {result : Int} (hclose : H.onClose s.app = some app) (hresult : result ≤ 0) :
    afterWrite H s result = { s with hist := recordResult result s.hist, app := app, mode := .idle } := by
  simp only [afterWrite, hclose, hresult, if_true]

theorem parseRq_of_rrq (hcmd : word16 s.buffer.bytes 0 = TFTP_CMD_RRQ) (result : Int)
    (hstr : requestStrings s.buffer.bytes = some (filename, ptr)) :
    parseRq H s result =
      if (H.onRead filename s.app).1 < 0 then
        { sendError { s with app := (H.onRead filename s.app).2 } ERR_FILE_NOT_FOUND "cannot open file" with mode := .idle }
      else
        afterRead H { s with app := (H.onRead filename s.app).2 }
          (processReadTop H { s with app := (H.onRead filename s.app).2 } 1) := by
  have hne : ¬ TFTP_CMD_RRQ = TFTP_CMD_WRQ := by decide
  simp only [parseRq, hcmd, hne, if_false, if_true, parseRrq, hstr, Option.map_some]
  by_cases hneg : (H.onRead filename s.app).1 < 0
  · simp only [hneg, if_true, show ¬ (-1 : Int) = 0 by decide, if_false]
  · simp only [hneg, if_false, if_true]

end

theorem processReadTop_wait {H : Handler σ} {s : Srv σ} {ret : Int} {data : List UInt8} {app : σ} (n : Nat)
    (h : H.onReadData (TFTP_DATA_SIZE - 4 : Nat) s.app = some (ret, data, app)) (hret : 0 ≤ ret) :
    processReadTop H s n = .wait (sendBlock
      { s with
        buffer := ((s.buffer.put 0 (be16 TFTP_CMD_DATA)).put 2 (be16 n)).put 4 data, dataSize := ret, app := app }
      n 0) := by
  simp only [processReadTop, h, Int.not_lt.2 hret, if_false]

/-- **The ACK the server waits for** ends the transfer behind a short block and starts the next block otherwise. -/
theorem processReadAck_ack (H : Handler σ) (s : Srv σ) (n r : Nat) (c : Addr) :
    processReadAck H s n r (.packet c (ackPacket n)) =
      if s.dataSize < (TFTP_DATA_SIZE - 4 : Nat) then .finish { s with client := c } 0
      else processReadTop H { s with client := c } (n + 1) := by
  have hcode : word16 (ackPacket n) 0 = TFTP_CMD_ACK := by
    simp [ackPacket, be16, word16, TFTP_CMD_ACK]
  have hnum : word16 (ackPacket n) 2 = n % 65536 := by
    simp only [ackPacket, be16, word16, List.cons_append, List.nil_append, List.getD_cons_succ, List.getD_cons_zero,
      UInt8.toNat_ofNat']
    omega
  have hack : waitForAck s n (.packet c (ackPacket n)) = ({ s with client := c }, 0) := by
    unfold waitForAck
    simp only [show (ackPacket n).take 4 = ackPacket n from rfl, show (ackPacket n).length = 4 from rfl,
      hcode, hnum, ne_eq, not_true_eq_false, or_self, if_false]
  unfold processReadAck
  rw [hack]
  rfl

/-- **What `parse_rq` does on a write request**: it reads outside the buffer, refuses, or opens a session. -/
theorem parseRq_wrq {H : Handler σ} {s : Srv σ} (hcmd : word16 s.buffer.bytes 0 = TFTP_CMD_WRQ) (result : Int) :
    parseRq H s result = { s with mode := .fault } ∨
    (∃ filename, (H.onWrite filename s.app).1 < 0 ∧ parseRq H s result =
      { sendError { s with app := (H.onWrite filename s.app).2 } ERR_ACCESS_VIOLATION "cannot open file" with
        mode := .idle }) ∨
    (∃ filename packet, 0 ≤ (H.onWrite filename s.app).1 ∧ (packet = ackPacket 0 ∨ packet = oackPacket) ∧
      parseRq H s result =
        { s with
          mode := .writing 1
          app := (H.onWrite filename s.app).2
          out := s.out ++ [(s.client, packet)]
          hist := .start s.client filename s.app :: s.hist }) := by
  unfold parseRq
  simp only [hcmd, if_true]
  unfold parseWrq requestFile
  cases hstr : requestStrings s.buffer.bytes with
  | none => exact Or.inl rfl
  | some strings =>
    obtain ⟨filename, ptr⟩ := strings
    simp only [Option.bind_some, Option.elim_some]
    by_cases hneg : (H.onWrite filename s.app).1 < 0
    · refine Or.inr (Or.inl ⟨filename, hneg, ?_⟩)
      simp only [hneg, if_true]
      rfl
    · have hpos : 0 ≤ (H.onWrite filename s.app).1 := Int.not_lt.1 hneg
      simp only [hneg, if_false]
      by_cases hopt : (ptr : Int) < s.dataSize
      · simp only [hopt, if_true]
        cases heq : strEq (s.buffer.bytes.drop ptr) (ascii "blksize") with
        | none => exact Or.inl rfl
        | some eq =>
          cases eq with
          | true => exact Or.inr (Or.inr ⟨filename, oackPacket, hpos, Or.inr rfl, rfl⟩)
          | false => exact Or.inr (Or.inr ⟨filename, ackPacket 0, hpos, Or.inl rfl, rfl⟩)
      · simp only [hopt, if_false]
        exact Or.inr (Or.inr ⟨filename, ackPacket 0, hpos, Or.inl rfl, rfl⟩)

theorem processReadTop_cases (H : Handler σ) (s : Srv σ) (blockNum : Nat) :
    processReadTop H s blockNum = .fault ∨ (∃ s', processReadTop H s blockNum = .finish s' (-1)) ∨
      ∃ s', processReadTop H s blockNum = .wait (sendBlock s' blockNum 0) := by
  unfold processReadTop
  simp only
  split
  · exact Or.inl rfl
  · split
    · exact Or.inr (Or.inl ⟨_, rfl⟩)
    · exact Or.inr (Or.inr ⟨_, rfl⟩)

theorem wrq_of_writing {H : Handler σ} {s : Srv σ} {result : Int} {n : Nat}
    (h : (parseRq H s result).mode = .writing n) : word16 s.buffer.bytes 0 = TFTP_CMD_WRQ := by
  by_contra hcmd
  unfold parseRq at h
  simp only [hcmd, if_false] at h
  split at h
  · split at h
    · cases h
    · split at h
      · rename_i t _ _ _
        obtain hr | ⟨t', hr⟩ | ⟨t', hr⟩ := processReadTop_cases H t 1
        · rw [hr] at h; cases h
        · rw [hr, afterRead] at h
          split at h <;> cases h
        · rw [hr] at h; cases h
      · cases h
  · split at h <;> cases h

end Mstd.Tftp
