import Mstd.Tftp
/-!
# The tool's TFTP client (`mstd.cfg.py`, class `TFTPClient`)

`send` and `read` as machines from one `get_answer` to the next.  `out` collects what they send; `remote_addr` is left
to the network between client and server.
-/
namespace Mstd.Tftp

/-- `DATA_SIZE`. -/
def DATA_SIZE : Nat := 512

/-- `BLK_SIZE`. -/
def BLK_SIZE : Nat := DATA_SIZE + 4

def MAX_RETRY_COUNT : Nat := 10

/-! ## Packets -/

def xrqPacket (mode : Nat) (fileName : List UInt8) : Datagram :=
  [0, UInt8.ofNat mode] ++ fileName ++ [0] ++ ascii "octet" ++ [0]

/-- `pkt_n.to_bytes(2)` raises on a number of more than 16 bits. -/
def dataPacket (pktN : Nat) (data : List UInt8) : Option Datagram :=
  if pktN < 65536 then some (dataBytes pktN data) else none

inductive Answer where
  | ack (pktN : Nat)
  | data (pktN : Nat) (bytes : List UInt8)
  | error (code : Nat)

def decodePacket (data : List UInt8) : Option Answer :=
  if data.length < 4 then none
  else if word16 data 0 = TFTP_CMD_ACK then some (.ack (word16 data 2))
  else if word16 data 0 = TFTP_CMD_DATA then some (.data (word16 data 2) (data.drop 4))
  else if word16 data 0 = TFTP_CMD_ERROR then some (.error (word16 data 2))
  else none

/-- `get_answer` raises on an unknown packet and on an error. -/
def getAnswer (data : Datagram) : Option Answer :=
  match decodePacket (data.take BLK_SIZE) with
  | some (.error _) => none
  | answer          => answer

/-! ## `send` -/

inductive Progress where
  | waiting
  | returned
  | raised
  deriving DecidableEq

structure Send where
  fname : List UInt8
  data : List UInt8
  pktN : Nat
  start : Nat
  retryCount : Nat
  buffer : Option (List UInt8)
  progress : Progress
  out : List Datagram

def startSend (fname data : List UInt8) : Send :=
  { fname := fname, data := data, pktN := 0, start := 0, retryCount := 0, buffer := none, progress := .waiting,
    out := [xrqPacket TFTP_CMD_WRQ fname] }

def sendDataPacket (c : Send) (buffer : List UInt8) : Send :=
  match dataPacket c.pktN buffer with
  | some packet => { c with out := c.out ++ [packet] }
  | none        => { c with progress := .raised }

/-- The ACK of the current block: the next one is sent, and the loop ends behind a short one. -/
def sendNext (c : Send) : Send :=
  let buffer := (c.data.drop c.start).take DATA_SIZE
  let c := sendDataPacket { c with buffer := some buffer, pktN := c.pktN + 1, start := c.start + DATA_SIZE,
                                   retryCount := 0 } buffer
  if c.progress = .waiting ∧ buffer.length < DATA_SIZE then { c with progress := .returned } else c

def sendTimeout (c : Send) : Send :=
  let c := { c with retryCount := c.retryCount + 1 }
  if c.retryCount < MAX_RETRY_COUNT then
    match c.buffer with
    | some (b :: bs) => sendDataPacket c (b :: bs)
    | _              => { c with out := c.out ++ [xrqPacket TFTP_CMD_WRQ c.fname] }
  else { c with progress := .raised }

/-- One pass of the loop of `send`. -/
def sendStep (c : Send) (e : Recv) : Send :=
  if c.progress = .waiting then
    match e with
    | .timeout       => sendTimeout c
    | .packet _ data =>
      match getAnswer data with
      | none          => { c with progress := .raised }
      | some (.ack n) => if n = c.pktN % 65536 then sendNext c else c
      | some _        => c
  else c

/-! ## `read` -/

structure Read where
  fname : List UInt8
  result : List UInt8
  pktN : Nat
  retryCount : Nat
  progress : Progress
  out : List Datagram

def startRead (fname : List UInt8) : Read :=
  { fname := fname, result := [], pktN := 1, retryCount := 0, progress := .waiting,
    out := [xrqPacket TFTP_CMD_RRQ fname] }

/-- `send_ack_packet(pkt_n)`, which raises on a number of more than 16 bits. -/
def sendAckPacket (c : Read) : Read :=
  if c.pktN < 65536 then { c with out := c.out ++ [ackPacket c.pktN] } else { c with progress := .raised }

/-- A DATA packet: the current block is taken, and a short one is the last.  Any other is answered with the number of
the block to come. -/
def readData (c : Read) (inPktN : Nat) (data : List UInt8) : Read :=
  if inPktN = c.pktN % 65536 then
    let c := sendAckPacket { c with result := c.result ++ data }
    if c.progress = .raised then c
    else if data.length < DATA_SIZE then { c with progress := .returned }
    else { c with pktN := c.pktN + 1, retryCount := 0 }
  else sendAckPacket c

def readTimeout (c : Read) : Read :=
  let c := { c with retryCount := c.retryCount + 1 }
  if c.retryCount < MAX_RETRY_COUNT then
    if c.pktN = 1 then { c with out := c.out ++ [xrqPacket TFTP_CMD_RRQ c.fname] } else sendAckPacket c
  else { c with progress := .raised }

/-- One pass of the loop of `read`. -/
def readStep (c : Read) (e : Recv) : Read :=
  if c.progress = .waiting then
    match e with
    | .timeout       => readTimeout c
    | .packet _ data =>
      match getAnswer data with
      | none                  => { c with progress := .raised }
      | some (.data n bytes)  => readData c n bytes
      | some _                => c
  else c

/-! ## Packets as the other side reads them -/

theorem word16_be16 (n : Nat) (bytes : List UInt8) : word16 (be16 n ++ bytes) 0 = n % 65536 := by
  simp only [word16, be16, List.cons_append, List.nil_append, List.getD_cons_zero, List.getD_cons_succ, Nat.zero_add,
    UInt8.toNat_ofNat']
  omega

theorem word16_drop (bytes : List UInt8) (off : Nat) : word16 (bytes.drop off) 0 = word16 bytes off := by
  simp only [word16, List.getD_eq_getElem?_getD, List.getElem?_drop, Nat.add_zero]

theorem word16_take {d : List UInt8} {k : Nat} (hk : 2 ≤ k) : word16 (d.take k) 0 = word16 d 0 := by
  unfold word16
  simp only [List.getD_eq_getElem?_getD, List.getElem?_take]
  rw [if_pos (by omega), if_pos (by omega)]

section

variable (n : Nat) (data rest : List UInt8)

theorem word16_dataBytes_code : word16 (dataBytes n data ++ rest) 0 = TFTP_CMD_DATA := by
  rw [dataBytes, List.append_assoc, List.append_assoc, word16_be16]
  rfl

theorem word16_dataBytes_num : word16 (dataBytes n data ++ rest) 2 = n % 65536 := by
  rw [← word16_drop]
  exact word16_be16 n (data ++ rest)

theorem drop_dataBytes : (dataBytes n data ++ rest).drop 4 = data ++ rest := rfl

theorem length_dataBytes : (dataBytes n data).length = data.length + 4 := rfl

theorem word16_ackPacket_code : word16 (ackPacket n ++ rest) 0 = TFTP_CMD_ACK := by
  rw [ackPacket, List.append_assoc, word16_be16]
  rfl

theorem word16_ackPacket_num : word16 (ackPacket n ++ rest) 2 = n % 65536 := by
  rw [← word16_drop]
  exact word16_be16 n rest

end

theorem getAnswer_dataBytes (n : Nat) {data : List UInt8} (h : data.length ≤ DATA_SIZE) :
    getAnswer (dataBytes n data) = some (.data (n % 65536) data) := by
  have hlen := length_dataBytes n data
  have htake : (dataBytes n data).take BLK_SIZE = dataBytes n data :=
    List.take_of_length_le (by unfold BLK_SIZE; omega)
  have hcode := word16_dataBytes_code n data []
  have hnum := word16_dataBytes_num n data []
  have hdrop := drop_dataBytes n data []
  rw [List.append_nil] at hcode hnum hdrop
  have hdec : decodePacket (dataBytes n data) = some (.data (n % 65536) data) := by
    unfold decodePacket
    rw [if_neg (by omega), hcode, if_neg (by decide), if_pos rfl, hnum, hdrop, List.append_nil]
  rw [getAnswer, htake, hdec]

theorem getAnswer_ackPacket (n : Nat) : getAnswer (ackPacket n) = some (.ack (n % 65536)) := by
  have hcode := word16_ackPacket_code n []
  have hnum := word16_ackPacket_num n []
  rw [List.append_nil] at hcode hnum
  have hdec : decodePacket (ackPacket n) = some (.ack (n % 65536)) := by
    unfold decodePacket
    rw [if_neg (show ¬ (ackPacket n).length < 4 from Nat.lt_irrefl 4), hcode, if_pos rfl, hnum]
  rw [getAnswer, show (ackPacket n).take BLK_SIZE = ackPacket n from rfl, hdec]

/-- What the server finds in `m_buffer` behind the arrival of a DATA packet, with old bytes behind the block. -/
theorem recv_dataBytes {σ : Type} (s : Srv σ) (c : Addr) (n : Nat) {data : List UInt8} (h : data.length ≤ DATA_SIZE) :
    word16 (recvFrom s (.packet c (dataBytes n data))).buffer.bytes 0 = TFTP_CMD_DATA ∧
      word16 (recvFrom s (.packet c (dataBytes n data))).buffer.bytes 2 = n % 65536 ∧
      (∃ rest, (recvFrom s (.packet c (dataBytes n data))).buffer.bytes.drop 4 = data ++ rest) ∧
      (recvFrom s (.packet c (dataBytes n data))).dataSize = (data.length + 4 : Nat) := by
  have hlen := length_dataBytes n data
  unfold DATA_SIZE at h
  have hbytes : (recvFrom s (.packet c (dataBytes n data))).buffer.bytes =
      dataBytes n data ++ s.buffer.bytes.drop (0 + (dataBytes n data).length) := by
    show (s.buffer.put 0 (dataBytes n data)).bytes = _
    rw [s.buffer.bytes_put (by rw [hlen]; unfold TFTP_DATA_SIZE; omega), List.take_zero, List.nil_append]
  rw [hbytes, word16_dataBytes_code, word16_dataBytes_num, drop_dataBytes]
  refine ⟨rfl, rfl, ⟨_, rfl⟩, ?_⟩
  show ((min (dataBytes n data).length TFTP_DATA_SIZE : Nat) : Int) = _
  rw [hlen, Nat.min_eq_left (by unfold TFTP_DATA_SIZE; omega)]

end Mstd.Tftp
