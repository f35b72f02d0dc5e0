import Mstd.Link
import Mstd.TftpCommit
import Mstd.TftpStep
/-!
# Uploads over a lossy link

`send` and the server as the two machines of a `Link`.  What is in flight to the server are packets of the upload in
order, at most one block ahead of the blocks the server has taken (`Upload.InFlight`), so a session never gets a block
it misses the bytes before, whatever is lost and whoever gives up waiting (`upload_safe`).
-/
namespace Mstd.Tftp

open ByteMem (Buffer)

variable {σ : Type}

/-! ## The two machines -/

def toRecv (src : Addr) : Option Datagram → Recv
  | none      => .timeout
  | some data => .packet src data

def clientMachine (device : Addr) : Link.Machine Send Datagram Datagram := fun c e =>
  let c := sendStep { c with out := [] } (toRecv device e)
  (c, c.out)

/-- The server and its socket: what it sends to another address than the client's does not come here. -/
def serverMachine (H : Handler σ) (host : Addr) : Link.Machine (Srv σ) Datagram Datagram := fun s e =>
  let s := step H { s with out := [] } (toRecv host e)
  (s, (s.out.filter (fun packet => packet.1 == host)).map Prod.snd)

/-- `send` has sent its request to a server that waits for one. -/
def uploadStart (s : Srv σ) (fname data : List UInt8) : Link.Net Send (Srv σ) Datagram Datagram where
  left := startSend fname data
  right := { s with mode := .idle, hist := [] }
  toRight := (startSend fname data).out
  toLeft := []

def uploadRun (H : Handler σ) (host device : Addr) (s : Srv σ) (fname data : List UInt8) (actions : List Link.Action) :
    Link.Net Send (Srv σ) Datagram Datagram :=
  Link.run (clientMachine device) (serverMachine H host) (uploadStart s fname data) actions

/-- **What a write session may have passed on**: a prefix of the file, and all of it if `process_write` returned 0. -/
structure Session.Safe (data : List UInt8) (session : Session σ) : Prop where
  isPrefix : session.payload <+: data
  whole : session.result = some 0 → session.payload = data
  len : ∀ b ∈ session.blocks, b.len = b.data.length

/-! ## The client -/

/-- Block `k + 1` of the file. -/
def chunk (data : List UInt8) (k : Nat) : List UInt8 := (data.drop (DATA_SIZE * k)).take DATA_SIZE

/-- What `send` sends with `pkt_n` at `k`. -/
def uploadPacket (fname data : List UInt8) : Nat → Datagram
  | 0     => xrqPacket TFTP_CMD_WRQ fname
  | k + 1 => dataBytes (k + 1) (chunk data k)

theorem length_chunk (data : List UInt8) (k : Nat) : (chunk data k).length = min 512 (data.length - 512 * k) := by
  simp only [chunk, List.length_take, List.length_drop, DATA_SIZE]

theorem take_append_chunk (data : List UInt8) (k : Nat) :
    data.take (512 * k) ++ chunk data k = data.take (512 * (k + 1)) := by
  rw [Nat.mul_succ, List.take_add]
  rfl

/-- The block that `send` has in `buffer`. -/
def sentBlock (data : List UInt8) : Nat → Option (List UInt8)
  | 0     => none
  | k + 1 => some (chunk data k)

/-- `send` between two receives.  While it goes on, every block up to now was a full one. -/
structure Sending (fname data : List UInt8) (c : Send) : Prop where
  name : c.fname = fname
  file : c.data = data
  start : c.start = DATA_SIZE * c.pktN
  le : c.pktN ≤ 65535
  buffer : c.buffer = sentBlock data c.pktN
  full : c.progress = .waiting → 512 * c.pktN ≤ data.length

section

variable {fname data : List UInt8} {c : Send}

theorem sendDataPacket_eq {c : Send} (h : c.pktN ≤ 65535) (buffer : List UInt8) :
    sendDataPacket c buffer = { c with out := c.out ++ [dataBytes c.pktN buffer] } := by
  rw [sendDataPacket, dataPacket, if_pos (by omega)]

theorem sendTimeout_request (hretry : c.retryCount + 1 < MAX_RETRY_COUNT) (hbuf : c.buffer = none) :
    sendTimeout c =
      { c with retryCount := c.retryCount + 1, out := c.out ++ [xrqPacket TFTP_CMD_WRQ c.fname] } := by
  simp only [sendTimeout, hretry, if_true, hbuf]

theorem sendTimeout_block (hretry : c.retryCount + 1 < MAX_RETRY_COUNT) {b : UInt8} {bs : List UInt8}
    (hbuf : c.buffer = some (b :: bs)) (hle : c.pktN ≤ 65535) :
    sendTimeout c = { c with retryCount := c.retryCount + 1, out := c.out ++ [dataBytes c.pktN (b :: bs)] } := by
  simp only [sendTimeout, hretry, if_true, hbuf]
  exact sendDataPacket_eq (by exact hle) _

theorem sendTimeout_giveUp (hretry : ¬ c.retryCount + 1 < MAX_RETRY_COUNT) :
    sendTimeout c = { c with retryCount := c.retryCount + 1, progress := .raised } := by
  simp only [sendTimeout, hretry, if_false]

/-- **A timeout** sends the last packet again, or gives up. -/
theorem Sending.timeout (h : Sending fname data c) (hwait : c.progress = .waiting) :
    Sending fname data (sendTimeout c) ∧ (sendTimeout c).pktN = c.pktN ∧
      ((sendTimeout c).out = c.out ∨ (sendTimeout c).out = c.out ++ [uploadPacket fname data c.pktN]) := by
  have hfull := h.full hwait
  by_cases hretry : c.retryCount + 1 < MAX_RETRY_COUNT
  · rcases Nat.eq_zero_or_eq_succ_pred c.pktN with hk | hk
    · have hpacket : uploadPacket fname data c.pktN = xrqPacket TFTP_CMD_WRQ c.fname := by rw [hk, h.name]; rfl
      rw [sendTimeout_request hretry (by rw [h.buffer, hk]; rfl), hpacket]
      exact ⟨⟨h.name, h.file, h.start, h.le, h.buffer, h.full⟩, rfl, Or.inr rfl⟩
    · obtain ⟨b, bs, hchunk⟩ : ∃ b bs, chunk data c.pktN.pred = b :: bs :=
        List.exists_cons_of_length_pos (by rw [length_chunk]; omega)
      have hpacket : uploadPacket fname data c.pktN = dataBytes c.pktN (b :: bs) := by rw [hk, ← hchunk]; rfl
      rw [sendTimeout_block hretry (by rw [h.buffer, hk, sentBlock, hchunk]) h.le, hpacket]
      exact ⟨⟨h.name, h.file, h.start, h.le, h.buffer, h.full⟩, rfl, Or.inr rfl⟩
  · rw [sendTimeout_giveUp hretry]
    exact ⟨⟨h.name, h.file, h.start, h.le, h.buffer, fun hp => by cases hp⟩, rfl, Or.inl rfl⟩

/-- What the ACK of the current block does, while the numbers last. -/
theorem sendNext_eq (hfile : c.data = data) (hstart : c.start = DATA_SIZE * c.pktN) (hwait : c.progress = .waiting)
    (hle : c.pktN + 1 ≤ 65535) :
    sendNext c =
      { c with buffer := some (chunk data c.pktN), pktN := c.pktN + 1, start := DATA_SIZE * (c.pktN + 1), retryCount := 0,
               out := c.out ++ [dataBytes (c.pktN + 1) (chunk data c.pktN)],
               progress := if (chunk data c.pktN).length < DATA_SIZE then .returned else .waiting } := by
  have hblock : (c.data.drop c.start).take DATA_SIZE = chunk data c.pktN := by rw [hfile, hstart]; rfl
  have hnext : c.start + DATA_SIZE = DATA_SIZE * (c.pktN + 1) := by rw [hstart, Nat.mul_succ]
  unfold sendNext
  simp only [hblock, hnext]
  rw [sendDataPacket_eq (show c.pktN + 1 ≤ 65535 from hle)]
  by_cases hshort : (chunk data c.pktN).length < DATA_SIZE
  · rw [if_pos ⟨hwait, hshort⟩, if_pos hshort]
  · rw [if_neg (fun hs => hshort hs.2), if_neg hshort, hwait]

/-- `send` returns behind a short block. -/
theorem Sending.progress_next (h : Sending fname data c) (hlen : data.length < 65535 * 512) (hwait : c.progress = .waiting) :
    (sendNext c).progress = if (chunk data c.pktN).length < DATA_SIZE then .returned else .waiting := by
  have hfull := h.full hwait
  rw [sendNext_eq h.file h.start hwait (by omega)]

/-- **The ACK of the current block** sends the next one. -/
theorem Sending.next (h : Sending fname data c) (hlen : data.length < 65535 * 512) (hwait : c.progress = .waiting) :
    Sending fname data (sendNext c) ∧ (sendNext c).pktN = c.pktN + 1 ∧
      (sendNext c).out = c.out ++ [uploadPacket fname data (c.pktN + 1)] := by
  have hfull := h.full hwait
  have hle : c.pktN + 1 ≤ 65535 := by omega
  have hchunk := length_chunk data c.pktN
  rw [sendNext_eq h.file h.start hwait hle]
  refine ⟨⟨h.name, h.file, rfl, hle, rfl, fun hp => ?_⟩, rfl, rfl⟩
  by_cases hshort : (chunk data c.pktN).length < DATA_SIZE
  · rw [if_pos hshort] at hp
    cases hp
  · show 512 * (c.pktN + 1) ≤ data.length
    unfold DATA_SIZE at hshort
    omega

/-- **A pass of the loop of `send`**, when no ACK comes for more than `r` blocks: it sends its last packet again, or the
next one if that is not more than one ahead of the ACKs. -/
theorem Sending.step (h : Sending fname data c) (hlen : data.length < 65535 * 512) (hout : c.out = []) {r : Nat}
    (hr : c.pktN ≤ r + 1) {e : Recv} (hack : ∀ src d n, e = .packet src d → getAnswer d = some (.ack n) → n ≤ r) :
    Sending fname data (sendStep c e) ∧ c.pktN ≤ (sendStep c e).pktN ∧ (sendStep c e).pktN ≤ r + 1 ∧
      ((sendStep c e).out = [] ∧ (sendStep c e).pktN = c.pktN ∨
        (sendStep c e).out = [uploadPacket fname data (sendStep c e).pktN]) := by
  have hstay : Sending fname data c ∧ c.pktN ≤ c.pktN ∧ c.pktN ≤ r + 1 ∧
      (c.out = [] ∧ c.pktN = c.pktN ∨ c.out = [uploadPacket fname data c.pktN]) :=
    ⟨h, Nat.le_refl _, hr, Or.inl ⟨hout, rfl⟩⟩
  unfold sendStep
  by_cases hwait : c.progress = .waiting
  · rw [if_pos hwait]
    cases e with
    | timeout =>
      obtain ⟨hs, hn, ho⟩ := h.timeout hwait
      rw [hout, List.nil_append] at ho
      show Sending fname data (sendTimeout c) ∧ c.pktN ≤ (sendTimeout c).pktN ∧ (sendTimeout c).pktN ≤ r + 1 ∧ _
      rw [hn]
      exact ⟨hs, Nat.le_refl _, hr, ho.imp (fun ho => ⟨ho, rfl⟩) id⟩
    | packet src d =>
      simp only
      cases hd : getAnswer d with
      | none =>
        exact ⟨⟨h.name, h.file, h.start, h.le, h.buffer, fun hp => by cases hp⟩, Nat.le_refl _, hr, Or.inl ⟨hout, rfl⟩⟩
      | some answer =>
        cases answer with
        | data n bytes => exact hstay
        | error code => exact hstay
        | ack n =>
          simp only
          have hn := hack src d n rfl hd
          have hle := h.le
          by_cases hcur : n = c.pktN % 65536
          · obtain ⟨hs, hn', ho⟩ := h.next hlen hwait
            rw [if_pos hcur, hn', ho, hout, List.nil_append]
            exact ⟨hs, by omega, by omega, Or.inr rfl⟩
          · rw [if_neg hcur]
            exact hstay
  · rw [if_neg hwait]
    exact hstay

end

/-! ## The server -/

/-- The open session has the first `r` blocks, each of them full. -/
structure Took (data : List UInt8) (r : Nat) (hist : List (Session σ)) : Prop where
  full : 512 * r ≤ data.length
  session : ∃ cur rest, hist = cur :: rest ∧ cur.payload = data.take (512 * r) ∧ cur.result = none

/-- The server between two receives, of which `r` is the number of the next one's predecessor. -/
structure Serves (data : List UInt8) (r : Nat) (s : Srv σ) : Prop where
  safe : ∀ session ∈ s.hist, session.Safe data
  noRead : ∀ n k, s.mode ≠ .reading n k
  took : ∀ n, s.mode = .writing n → n = r + 1 ∧ Took data r s.hist

theorem word16_put (buf : Buffer TFTP_DATA_SIZE) (data : List UInt8) (h : 2 ≤ data.length) :
    word16 (buf.put 0 data).bytes 0 = word16 data 0 := by
  obtain ⟨a, b, rest, rfl⟩ : ∃ a b rest, data = a :: b :: rest := by
    match data, h with
    | a :: b :: rest, _ => exact ⟨a, b, rest, rfl⟩
  rfl

section

variable {H : Handler σ} {s : Srv σ} {data : List UInt8} {r : Nat}

theorem Serves.of_closed (hsafe : ∀ session ∈ s.hist, session.Safe data)
    (hmode : s.mode = .idle ∨ s.mode = .stopped ∨ s.mode = .fault) : Serves data r s := by
  refine ⟨hsafe, fun n k h => ?_, fun n h => ?_⟩
  · rcases hmode with hm | hm | hm <;> rw [hm] at h <;> cases h
  · rcases hmode with hm | hm | hm <;> rw [hm] at h <;> cases h

theorem Serves.of_writing (hsafe : ∀ session ∈ s.hist, session.Safe data) (hmode : s.mode = .writing (r + 1))
    (htook : Took data r s.hist) : Serves data r s := by
  refine ⟨hsafe, fun n k h => ?_, fun n h => ?_⟩
  · rw [hmode] at h
    cases h
  · rw [hmode] at h
    cases h
    exact ⟨rfl, htook⟩

theorem Session.Safe.record {session : Session σ} (h : session.Safe data) {result : Int}
    (hresult : result = 0 → session.payload = data) : Session.Safe data { session with result := some result } :=
  ⟨h.isPrefix, fun h0 => hresult (Option.some.inj h0), h.len⟩

/-- A session that ends is safe if it ends well with the whole file only. -/
theorem safe_recordResult {hist : List (Session σ)} (hsafe : ∀ session ∈ hist, session.Safe data) {result : Int}
    (hresult : result = 0 → ∀ cur rest, hist = cur :: rest → cur.payload = data) :
    ∀ session ∈ recordResult result hist, session.Safe data := by
  cases hist with
  | nil => exact hsafe
  | cons cur rest =>
    intro session hs
    rcases List.mem_cons.1 hs with rfl | hs
    · exact (hsafe cur (List.mem_cons_self ..)).record (fun h0 => hresult h0 cur rest rfl)
    · exact hsafe session (List.mem_cons_of_mem _ hs)

/-- The ACKs among these packets are for at most `r` blocks. -/
def AcksUpTo (r : Nat) (out : List (Addr × Datagram)) : Prop :=
  ∀ packet ∈ out, ∀ n, getAnswer packet.2 = some (.ack n) → n ≤ r

theorem acksUpTo_nil (r : Nat) : AcksUpTo r [] := fun _ h => by cases h

theorem acksUpTo_ack (c : Addr) (n : Nat) : AcksUpTo n [(c, ackPacket n)] := by
  intro packet hp m hm
  rw [List.mem_singleton.1 hp, getAnswer_ackPacket] at hm
  cases hm
  exact Nat.mod_le n 65536

theorem acksUpTo_first {out : List (Addr × Datagram)} (hout : out = []) {packet : Addr × Datagram}
    (h : AcksUpTo r [packet]) : AcksUpTo r (out ++ [packet]) := by
  rw [hout]
  exact h

theorem acksUpTo_raise (r : Nat) (c : Addr) {packet : Datagram} (h : getAnswer packet = none) :
    AcksUpTo r [(c, packet)] := by
  intro p hp n hn
  rw [List.mem_singleton.1 hp, h] at hn
  cases hn

/-- **A session that ends well, or with a timeout**, leaves a server that is in no session. -/
theorem Serves.of_finish (hsafe : ∀ session ∈ s.hist, session.Safe data) {result : Int} (hle : result ≤ 0)
    (hresult : result = 0 → ∀ cur rest, s.hist = cur :: rest → cur.payload = data) (hacks : AcksUpTo r s.out) :
    Serves data r (afterWrite H s result) ∧ AcksUpTo r (afterWrite H s result).out := by
  obtain ⟨hclosed, hhist, hout⟩ := afterWrite_closed H s hle
  rw [hout]
  refine ⟨.of_closed ?_ (hclosed.imp id Or.inl), hacks⟩
  rw [hhist]
  exact safe_recordResult hsafe hresult

theorem Serves.timeout (h : Serves data r s) (hout : s.out = []) :
    Serves data r (step H s .timeout) ∧ AcksUpTo r (step H s .timeout).out := by
  have hstay : AcksUpTo r s.out := by rw [hout]; exact acksUpTo_nil r
  cases hmode : s.mode with
  | idle =>
    have hneg : (recvFrom s .timeout).dataSize < 0 := Int.negSucc_lt_zero 0
    rw [step_idle H _ hmode, if_pos hneg]
    exact ⟨.of_closed h.safe (Or.inl hmode), hstay⟩
  | writing n =>
    rw [step_writing H _ hmode, body_timeout]
    exact Serves.of_finish (s := recvFrom s .timeout) h.safe (by decide) (fun h0 => by cases h0) hstay
  | reading n k => exact absurd hmode (h.noRead n k)
  | hung | stopped | fault =>
    rw [step, hmode]
    exact ⟨h, hstay⟩

theorem word16_request (s : Srv σ) (c : Addr) (fname : List UInt8) :
    word16 (recvFrom s (.packet c (xrqPacket TFTP_CMD_WRQ fname))).buffer.bytes 0 = TFTP_CMD_WRQ := by
  have h := word16_put s.buffer (xrqPacket TFTP_CMD_WRQ fname) (by simp [xrqPacket])
  have hcode : word16 (xrqPacket TFTP_CMD_WRQ fname) 0 = TFTP_CMD_WRQ := by
    simp [xrqPacket, word16, TFTP_CMD_WRQ]
  exact h.trans hcode

theorem dataSize_nonneg (s : Srv σ) (c : Addr) (d : Datagram) : 0 ≤ (recvFrom s (.packet c d)).dataSize :=
  Int.natCast_nonneg _

/-- **The request**, when no block has been taken: it opens a session, or is acknowledged again. -/
theorem Serves.request (h : Serves data 0 s) (hout : s.out = []) (c : Addr) (fname : List UInt8) :
    Serves data 0 (step H s (.packet c (xrqPacket TFTP_CMD_WRQ fname))) ∧
      AcksUpTo 0 (step H s (.packet c (xrqPacket TFTP_CMD_WRQ fname))).out := by
  have hcode := word16_request s c fname
  cases hmode : s.mode with
  | idle =>
    rw [step_idle_packet H hmode]
    obtain hr | ⟨filename, -, hr⟩ | ⟨filename, packet, -, hpacket, hr⟩ := parseRq_wrq (H := H) hcode (-1)
    · rw [hr]
      exact ⟨.of_closed h.safe (Or.inr (Or.inr rfl)), by show AcksUpTo 0 s.out; rw [hout]; exact acksUpTo_nil 0⟩
    · rw [hr]
      exact ⟨.of_closed h.safe (Or.inl rfl),
        acksUpTo_first hout (acksUpTo_raise 0 c (Option.isNone_iff_eq_none.1 (by decide)))⟩
    · rw [hr]
      refine ⟨.of_writing (fun session hs => ?_) rfl ⟨Nat.zero_le _, _, _, rfl, rfl, rfl⟩, acksUpTo_first hout ?_⟩
      · rcases List.mem_cons.1 hs with rfl | hs
        · exact ⟨List.nil_prefix, fun h0 => (by cases h0), fun b hb => (by cases hb)⟩
        · exact h.safe session hs
      · rcases hpacket with rfl | rfl
        · exact acksUpTo_ack c 0
        · exact acksUpTo_raise 0 c (Option.isNone_iff_eq_none.1 (by decide))
  | writing n =>
    obtain ⟨rfl, htook⟩ := h.took n hmode
    rw [step_writing H _ hmode, body_wrq H (dataSize_nonneg s c _) hcode, if_pos (Nat.zero_add 1)]
    exact ⟨.of_writing h.safe rfl htook, acksUpTo_first hout (acksUpTo_ack c 0)⟩
  | reading n k => exact absurd hmode (h.noRead n k)
  | hung | stopped | fault =>
    rw [step, hmode]
    exact ⟨h, by show AcksUpTo 0 s.out; rw [hout]; exact acksUpTo_nil 0⟩

/-- The next block of the file goes behind the blocks of the open session. -/
theorem Took.recordBlock {hist : List (Session σ)} (ht : Took data r hist) (hsafe : ∀ session ∈ hist, session.Safe data)
    {b : Block} (hb : b.data = chunk data r) (hlen : b.len = b.data.length) :
    (∀ session ∈ recordBlock b hist, session.Safe data) ∧
      ∃ cur rest, recordBlock b hist = cur :: rest ∧ cur.payload = data.take (512 * (r + 1)) ∧ cur.result = none := by
  obtain ⟨cur, rest, rfl, hpay, hres⟩ := ht.session
  have hcur := hsafe cur (List.mem_cons_self ..)
  have hpay' : Session.payload { cur with blocks := cur.blocks ++ [b] } = data.take (512 * (r + 1)) := by
    rw [← take_append_chunk, ← hpay, ← hb]
    simp only [Session.payload, List.flatMap_append, List.flatMap_cons, List.flatMap_nil, List.append_nil]
  refine ⟨fun session hs => ?_, _, rest, rfl, hpay', hres⟩
  rcases List.mem_cons.1 hs with rfl | hs
  · refine ⟨hpay' ▸ List.take_prefix _ _, fun h0 => ?_, fun b' hb' => ?_⟩
    · rw [show cur.result = some 0 from h0] at hres
      cases hres
    · rcases List.mem_append.1 hb' with hb' | hb'
      · exact hcur.len b' hb'
      · rw [List.mem_singleton.1 hb']
        exact hlen
  · exact hsafe session (List.mem_cons_of_mem _ hs)

/-- Behind the short block, which is the last one. -/
theorem Serves.behind_last {k : Nat} (hsafe : ∀ session ∈ s.hist, session.Safe data)
    (hsession : ∃ cur rest, s.hist = cur :: rest ∧ cur.payload = data.take (512 * (k + 1)) ∧ cur.result = none)
    (hsize : s.dataSize = ((chunk data k).length + 4 : Nat)) (hshort : s.dataSize < (TFTP_DATA_SIZE : Int))
    (hacks : AcksUpTo (k + 1) s.out) :
    Serves data (k + 1) (afterWrite H s 0) ∧ AcksUpTo (k + 1) (afterWrite H s 0).out := by
  have hchunk := length_chunk data k
  obtain ⟨cur, rest, hcur, hpay, -⟩ := hsession
  refine Serves.of_finish hsafe (Int.le_refl 0) (fun _ cur' rest' hcur' => ?_) hacks
  obtain ⟨rfl, -⟩ := List.cons.inj (hcur.symm.trans hcur')
  rw [hpay, List.take_of_length_le]
  rw [hsize] at hshort
  unfold TFTP_DATA_SIZE at hshort
  omega

/-- Behind a full block the session goes on. -/
theorem Serves.behind_full {k : Nat} (hsafe : ∀ session ∈ s.hist, session.Safe data)
    (hsession : ∃ cur rest, s.hist = cur :: rest ∧ cur.payload = data.take (512 * (k + 1)) ∧ cur.result = none)
    (hsize : s.dataSize = ((chunk data k).length + 4 : Nat)) (hfull : ¬ s.dataSize < (TFTP_DATA_SIZE : Int))
    (hacks : AcksUpTo (k + 1) s.out) :
    Serves data (k + 1) { s with mode := .writing (k + 1 + 1) } ∧ AcksUpTo (k + 1) s.out := by
  have hchunk := length_chunk data k
  rw [hsize] at hfull
  unfold TFTP_DATA_SIZE at hfull
  exact ⟨.of_writing hsafe rfl ⟨by omega, hsession⟩, hacks⟩

/-- A block taken before is a full one, so the session goes on behind it. -/
theorem Serves.behind_again {k : Nat} (hsafe : ∀ session ∈ s.hist, session.Safe data) (htook : Took data (k + 1) s.hist)
    (hsize : s.dataSize = ((chunk data k).length + 4 : Nat)) (hacks : AcksUpTo (k + 1) s.out) :
    ¬ s.dataSize < (TFTP_DATA_SIZE : Int) ∧ Serves data (k + 1) { s with mode := .writing (k + 1 + 1) } ∧
      AcksUpTo (k + 1) s.out := by
  have hchunk := length_chunk data k
  have hfull := htook.full
  refine ⟨?_, .of_writing hsafe rfl htook, hacks⟩
  rw [hsize]
  unfold TFTP_DATA_SIZE
  omega

/-- **A DATA packet of the file**, the last block taken or the next one: it is acknowledged again, or taken. -/
theorem Serves.block (h : Serves data r s) (hout : s.out = []) (c : Addr) {k : Nat} (hk : k ≤ r) (hr : r ≤ k + 1)
    (hmax : k + 1 ≤ 65535) :
    ∃ r', r ≤ r' ∧ r' ≤ k + 1 ∧ Serves data r' (step H s (.packet c (dataBytes (k + 1) (chunk data k)))) ∧
      AcksUpTo r' (step H s (.packet c (dataBytes (k + 1) (chunk data k)))).out := by
  have hchunk := length_chunk data k
  obtain ⟨hcode, hnum, ⟨rest, hdrop⟩, hsize⟩ := recv_dataBytes s c (k + 1)
    (show (chunk data k).length ≤ DATA_SIZE by unfold DATA_SIZE; omega)
  rw [Nat.mod_eq_of_lt (by omega)] at hnum
  have hstay : AcksUpTo r s.out := by rw [hout]; exact acksUpTo_nil r
  have hnonneg := dataSize_nonneg s c (dataBytes (k + 1) (chunk data k))
  have hhist : (recvFrom s (.packet c (dataBytes (k + 1) (chunk data k)))).hist = s.hist := rfl
  have hout' : (recvFrom s (.packet c (dataBytes (k + 1) (chunk data k)))).out = [] := hout
  cases hmode : s.mode with
  | idle =>
    rw [step_idle_packet H hmode, parseRq_other (by rw [hcode]; decide) (by rw [hcode]; decide), if_pos (by decide)]
    exact ⟨r, Nat.le_refl r, hr, .of_closed h.safe (Or.inl rfl), hstay⟩
  | writing n =>
    obtain ⟨rfl, htook⟩ := h.took n hmode
    rw [step_writing H _ hmode]
    generalize recvFrom s (.packet c (dataBytes (k + 1) (chunk data k))) = t at *
    have hacks : AcksUpTo (k + 1) (sendAck t (k + 1)).out := acksUpTo_first hout' (acksUpTo_ack _ _)
    by_cases hdup : k + 1 < r + 1
    · obtain rfl : r = k + 1 := by omega
      obtain ⟨hlong, hserves⟩ := Serves.behind_again (s := sendAck t (k + 1))
        (show ∀ session ∈ t.hist, _ by rw [hhist]; exact h.safe) (show Took data _ t.hist by rw [hhist]; exact htook) hsize
        hacks
      rw [body_dup H hnonneg hcode (by rwa [hnum]), hnum, endOfBlock, if_neg hlong]
      exact ⟨k + 1, Nat.le_refl _, Nat.le_refl _, hserves⟩
    · obtain rfl : k = r := by omega
      have hlen : t.dataSize - 4 = ((chunk data k).length : Int) := by rw [hsize]; omega
      rw [body_block H hnonneg hcode (by rw [hnum]), hnum, hlen, hdrop, Int.toNat_natCast, List.take_left' rfl]
      cases H.onWriteData (chunk data k ++ rest) (chunk data k).length t.app with
      | none => exact ⟨k, Nat.le_refl k, hr, .of_closed h.safe (Or.inr (Or.inr rfl)), hstay⟩
      | some r =>
        obtain ⟨ret, app⟩ := r
        obtain ⟨hsafe, cur, old, hcur, hpay, hres⟩ := htook.recordBlock h.safe
          (b := ⟨t.client, k + 1, chunk data k, (chunk data k).length, ret⟩) rfl rfl
        refine ⟨k + 1, Nat.le_succ k, Nat.le_refl _, ?_⟩
        simp only [endOfBlock, hhist]
        by_cases hshort : (sendAck t (k + 1)).dataSize < (TFTP_DATA_SIZE : Int)
        · rw [if_pos hshort]
          exact Serves.behind_last hsafe ⟨cur, old, hcur, hpay, hres⟩ hsize hshort hacks
        · rw [if_neg hshort]
          exact Serves.behind_full hsafe ⟨cur, old, hcur, hpay, hres⟩ hsize hshort hacks
  | reading n k => exact absurd hmode (h.noRead n k)
  | hung | stopped | fault =>
    rw [step, hmode]
    exact ⟨r, Nat.le_refl r, hr, h, hstay⟩

end

/-! ## The link -/

/-- **An upload under way**: the server has taken `r` blocks, `send` is at most one ahead of it, and between them are
packets of the upload, in order, and no ACK for a block that was not taken. -/
structure Upload (fname data : List UInt8) (r : Nat) (n : Link.Net Send (Srv σ) Datagram Datagram) : Prop where
  client : Sending fname data n.left
  server : Serves data r n.right
  ahead : n.left.pktN ≤ r + 1
  toServer : ∃ ks, n.toRight = ks.map (uploadPacket fname data) ∧ Link.InFlight r n.left.pktN ks
  behind : r ≤ n.left.pktN
  toClient : ∀ d ∈ n.toLeft, ∀ m, getAnswer d = some (.ack m) → m ≤ r

section

variable {H : Handler σ} {device : Addr} {fname data : List UInt8} {r : Nat}
  {n : Link.Net Send (Srv σ) Datagram Datagram}

theorem uploadStart_upload (s : Srv σ) (fname data : List UInt8) : Upload fname data 0 (uploadStart s fname data) where
  client := ⟨rfl, rfl, rfl, Nat.zero_le _, rfl, fun _ => Nat.zero_le _⟩
  server := .of_closed (fun _ h => by cases h) (Or.inl rfl)
  ahead := Nat.zero_le _
  toServer := ⟨[0], rfl, List.pairwise_singleton _ 0, fun k hk => by
    rw [List.mem_singleton.1 hk]
    exact ⟨Nat.le_refl 0, Nat.le_refl 0⟩⟩
  behind := Nat.le_refl 0
  toClient := fun _ h => by cases h

theorem Upload.lose (h : Upload fname data r n) {toRight toLeft : List Datagram} (hr : toRight.Sublist n.toRight)
    (hl : toLeft.Sublist n.toLeft) : Upload fname data r { n with toRight := toRight, toLeft := toLeft } := by
  obtain ⟨ks, hks, hflight⟩ := h.toServer
  rw [hks] at hr
  obtain ⟨ks', hsub, rfl⟩ := List.sublist_map_iff.1 hr
  exact ⟨h.client, h.server, h.ahead, ⟨ks', rfl, hflight.sublist hsub⟩, h.behind, fun d hd => h.toClient d (hl.subset hd)⟩

theorem Upload.stepLeft (h : Upload fname data r n) (hlen : data.length < 65535 * 512) {e : Option Datagram}
    (he : ∀ d m, e = some d → getAnswer d = some (.ack m) → m ≤ r) :
    Upload fname data r (n.stepLeft (clientMachine device) e) := by
  have hc : Sending fname data { n.left with out := [] } :=
    ⟨h.client.name, h.client.file, h.client.start, h.client.le, h.client.buffer, h.client.full⟩
  have hack : ∀ src d m, toRecv device e = .packet src d → getAnswer d = some (.ack m) → m ≤ r := by
    intro src d m hd hm
    cases e with
    | none => cases hd
    | some d' => cases hd; exact he _ m rfl hm
  obtain ⟨hs, hle, hahead, hout⟩ := hc.step hlen rfl h.ahead hack
  obtain ⟨ks, hks, hflight⟩ := h.toServer
  refine ⟨hs, h.server, hahead, ?_, Nat.le_trans h.behind hle, h.toClient⟩
  show ∃ ks', n.toRight ++ (sendStep { n.left with out := [] } (toRecv device e)).out = _ ∧
    Link.InFlight r (sendStep { n.left with out := [] } (toRecv device e)).pktN ks'
  rw [hks]
  rcases hout with ⟨hout, hp⟩ | hout
  · rw [hout, hp, List.append_nil]
    exact ⟨ks, rfl, hflight⟩
  · rw [hout]
    exact ⟨ks ++ [_], by rw [List.map_append]; rfl, hflight.send hle (Nat.le_trans h.behind hle)⟩

/-- **What the server does with a packet of the upload, or without one.** -/
theorem Upload.stepRight (host : Addr) (h : Upload fname data r n) {r' : Nat} {ks : List Nat} {e : Option Datagram}
    (hstep : Serves data r' (step H { n.right with out := [] } (toRecv host e)) ∧
      AcksUpTo r' (step H { n.right with out := [] } (toRecv host e)).out) (hr : r ≤ r')
    (hr' : r' ≤ n.left.pktN) (hks : Link.InFlight r' n.left.pktN ks) :
    Upload fname data r' (Link.Net.stepRight (serverMachine H host)
      { n with toRight := ks.map (uploadPacket fname data) } e) := by
  refine ⟨h.client, hstep.1, by have := h.ahead; show n.left.pktN ≤ r' + 1; omega, ⟨ks, rfl, hks⟩, hr', ?_⟩
  intro d hd m hm
  rcases List.mem_append.1 hd with hd | hd
  · exact Nat.le_trans (h.toClient d hd m hm) hr
  · obtain ⟨packet, hp, rfl⟩ := List.mem_map.1 hd
    exact hstep.2 packet (List.mem_filter.1 hp).1 m hm

theorem upload_preserves (H : Handler σ) (host device : Addr) (fname : List UInt8) (hlen : data.length < 65535 * 512) :
    Link.Preserves (clientMachine device) (serverMachine H host) (fun n => ∃ r, Upload fname data r n) := by
  refine ⟨fun n ⟨r, h⟩ => ⟨r, h.stepLeft hlen (fun _ _ hd => by cases hd)⟩, ?_, ?_, ?_, ?_⟩
  · intro n m ms ⟨r, h⟩ hn
    have hm : Upload fname data r { n with toLeft := ms } :=
      h.lose (List.Sublist.refl _) (hn ▸ List.sublist_cons_self m ms)
    refine ⟨r, hm.stepLeft hlen (fun d m' hd => ?_)⟩
    cases hd
    exact h.toClient m (hn ▸ List.mem_cons_self ..) m'
  · intro n ⟨r, h⟩
    obtain ⟨ks, hks, hflight⟩ := h.toServer
    have hs : Serves data r { n.right with out := [] } := ⟨h.server.safe, h.server.noRead, h.server.took⟩
    have hstep := h.stepRight host (H := H) (e := none) (hs.timeout rfl) (Nat.le_refl r) h.behind hflight
    rw [← hks] at hstep
    exact ⟨r, hstep⟩
  · intro n m ms ⟨r, h⟩ hn
    obtain ⟨ks, hks, hflight⟩ := h.toServer
    have hs : Serves data r { n.right with out := [] } := ⟨h.server.safe, h.server.noRead, h.server.took⟩
    obtain ⟨k, ks, rfl, rfl, rfl⟩ := List.map_eq_cons_iff.1 (hks.symm.trans hn)
    obtain ⟨hr, hk⟩ := hflight.head
    cases k with
    | zero =>
      obtain rfl := Nat.le_zero.1 hr
      exact ⟨0, h.stepRight host (hs.request rfl host fname) (Nat.le_refl 0) hk (hflight.recv (Nat.le_refl 0))⟩
    | succ k =>
      have hmax := h.client.le
      have hahead := h.ahead
      obtain ⟨r', hrr, hrk, hstep⟩ := hs.block rfl host (k := k) (H := H) (by omega) hr (by omega)
      exact ⟨r', h.stepRight host hstep hrr (Nat.le_trans hrk hk) (hflight.recv hrk)⟩
  · intro n toRight toLeft ⟨r, h⟩ hr hl
    exact ⟨r, h.lose hr hl⟩

/-- **Every session of an upload over a lossy link gets a prefix of the file**, and the whole file if `process_write`
returns 0. -/
theorem upload_safe (H : Handler σ) (host device : Addr) (s : Srv σ) (fname data : List UInt8)
    (hlen : data.length < 65535 * 512) (actions : List Link.Action) :
    ∀ session ∈ (uploadRun H host device s fname data actions).right.hist, session.Safe data := by
  obtain ⟨r, h⟩ := Link.run_preserves (upload_preserves H host device fname hlen) ⟨0, uploadStart_upload s fname data⟩
    actions
  exact h.server.safe

end

/-- A session that timed out, a request sent again, a lost ACK, and the block. -/
theorem upload_safe_reopened :
    let hist := (uploadRun (otaServer stockEnv) 1 2 (stockServer loadedStore []) (ascii "cfg.cfg") [7, 8, 9]
      [.rightRecv, .rightTimeout, .leftTimeout, .rightRecv, .loseToLeft 1, .leftRecv, .rightRecv]).right.hist
    hist.map (fun session => (session.payload, session.result)) = [([7, 8, 9], some 0), ([], some (-1))] ∧
      ∀ session ∈ hist, session.Safe [7, 8, 9] :=
  ⟨by decide +kernel, upload_safe (otaServer stockEnv) 1 2 (stockServer loadedStore []) (ascii "cfg.cfg") [7, 8, 9]
    (by decide) _⟩

end Mstd.Tftp
