import Mstd.TftpUpload
/-!
# When a reported upload has arrived

`send` returns behind the short last block, without a wait for its ACK.  As long as that one packet is not lost, and the
server waits for it while it is on its way, a session of the server takes the whole file (`upload_arrives`).
-/
namespace Mstd.Tftp

variable {σ φ : Type}

/-- The number of the short block that ends the file. -/
def lastBlock (data : List UInt8) : Nat := data.length / DATA_SIZE + 1

def lastPacket (fname data : List UInt8) : Datagram := uploadPacket fname data (lastBlock data)

/-- **A session took the file**, and `process_write` returned 0. -/
def Received (data : List UInt8) (s : Srv σ) : Prop :=
  ∃ session ∈ s.hist, session.payload = data ∧ session.result = some 0

instance (data : List UInt8) (s : Srv σ) : Decidable (Received data s) := by unfold Received; infer_instance

/-- The last block is on its way, or the ACK that makes `send` send it. -/
def LastOnWay (fname data : List UInt8) (n : Link.Net Send (Srv σ) Datagram Datagram) : Prop :=
  lastPacket fname data ∈ n.toRight ∨ ∃ d ∈ n.toLeft, getAnswer d = some (.ack (data.length / DATA_SIZE))

/-- **The last block gets through**: it is not lost, and the wait for it does not run out while it is on its way. -/
def LastArrives (fname data : List UInt8) (n : Link.Net Send (Srv σ) Datagram Datagram) : Link.Action → Prop
  | .loseToRight i => n.toRight[i]? ≠ some (lastPacket fname data)
  | .rightTimeout  => n.right.mode = .writing (lastBlock data) → ¬ LastOnWay fname data n
  | _              => True

/-! ## The client -/

section

variable {fname data : List UInt8} {c : Send}

theorem chunk_short_iff {k : Nat} (hk : 512 * k ≤ data.length) :
    (chunk data k).length < DATA_SIZE ↔ k = data.length / DATA_SIZE := by
  rw [length_chunk]
  unfold DATA_SIZE
  omega

theorem sendTimeout_progress (c : Send) : (sendTimeout c).progress = c.progress ∨ (sendTimeout c).progress = .raised := by
  have hsend : ∀ (c : Send) (b : List UInt8), (sendDataPacket c b).progress = c.progress ∨
      (sendDataPacket c b).progress = .raised := by
    intro c b
    unfold sendDataPacket
    cases dataPacket c.pktN b <;> simp
  unfold sendTimeout
  simp only
  split
  · split
    · exact hsend _ _
    · exact Or.inl rfl
  · exact Or.inr rfl

/-- **What makes `send` return**: the ACK of the block before the last one, and it sends the last one then. -/
theorem Sending.step_returned (h : Sending fname data c) (hlen : data.length < 65535 * 512) (hout : c.out = [])
    (hbefore : c.progress ≠ .returned) {e : Recv} (hret : (sendStep c e).progress = .returned) :
    (sendStep c e).out = [lastPacket fname data] ∧
      ∃ src d, e = .packet src d ∧ getAnswer d = some (.ack (data.length / DATA_SIZE)) := by
  unfold sendStep at hret ⊢
  by_cases hwait : c.progress = .waiting
  case neg =>
    rw [if_neg hwait] at hret
    exact absurd hret hbefore
  rw [if_pos hwait] at hret ⊢
  cases e with
  | timeout =>
    obtain hp | hp := sendTimeout_progress c <;> rw [hp] at hret
    · exact absurd hret hbefore
    · cases hret
  | packet src d =>
    simp only at hret ⊢
    cases hd : getAnswer d with
    | none => rw [hd] at hret; cases hret
    | some answer =>
      rw [hd] at hret
      cases answer with
      | data n bytes => exact absurd hret hbefore
      | error code => exact absurd hret hbefore
      | ack n =>
        simp only at hret ⊢
        by_cases hcur : n = c.pktN % 65536
        case neg =>
          rw [if_neg hcur] at hret
          exact absurd hret hbefore
        rw [if_pos hcur] at hret ⊢
        have hfull := h.full hwait
        obtain ⟨hs, hn, ho⟩ := h.next hlen hwait
        -- a full block leaves `send` waiting
        have hshort : (chunk data c.pktN).length < DATA_SIZE := by
          by_contra hlong
          rw [h.progress_next hlen hwait, if_neg hlong] at hret
          cases hret
        have hlast := (chunk_short_iff hfull).1 hshort
        refine ⟨?_, src, d, rfl, ?_⟩
        · rw [ho, hout, List.nil_append, hlast]
          rfl
        · rw [hd, hcur, hlast, Nat.mod_eq_of_lt (by unfold DATA_SIZE; omega)]

theorem sendNext_raised (hmax : ¬ c.pktN + 1 ≤ 65535) :
    sendNext c =
      { c with buffer := some ((c.data.drop c.start).take DATA_SIZE), pktN := c.pktN + 1, start := c.start + DATA_SIZE,
               retryCount := 0, progress := .raised } := by
  have hbits : ¬ c.pktN + 1 < 65536 := fun h => hmax (Nat.le_of_lt_succ h)
  simp [sendNext, sendDataPacket, dataPacket, hbits]

/-- **A file that is too long never gets to its last block**: `to_bytes` raises before. -/
structure TooLong (data : List UInt8) (c : Send) : Prop where
  file : c.data = data
  start : c.start = DATA_SIZE * c.pktN
  le : c.progress = .waiting → c.pktN ≤ 65535
  progress : c.progress ≠ .returned

theorem TooLong.sendData (h : TooLong data c) (buffer : List UInt8) : TooLong data (sendDataPacket c buffer) := by
  unfold sendDataPacket
  cases dataPacket c.pktN buffer with
  | none => exact ⟨h.file, h.start, fun hp => (by cases hp), fun hp => by cases hp⟩
  | some packet => exact ⟨h.file, h.start, h.le, h.progress⟩

theorem TooLong.step (hlen : 65535 * 512 ≤ data.length) (h : TooLong data c) (e : Recv) : TooLong data (sendStep c e) := by
  have hraised : TooLong data { c with progress := .raised } :=
    ⟨h.file, h.start, fun hp => (by cases hp), fun hp => by cases hp⟩
  unfold sendStep
  by_cases hwait : c.progress = .waiting
  case neg => rw [if_neg hwait]; exact h
  rw [if_pos hwait]
  cases e with
  | timeout =>
    have hretry : TooLong data { c with retryCount := c.retryCount + 1 } := ⟨h.file, h.start, h.le, h.progress⟩
    simp only [sendTimeout]
    split
    · split
      · exact hretry.sendData _
      · exact ⟨h.file, h.start, h.le, h.progress⟩
    · exact ⟨h.file, h.start, fun hp => (by cases hp), fun hp => by cases hp⟩
  | packet src d =>
    simp only
    split
    · exact hraised
    · split
      · have hchunk := length_chunk data c.pktN
        by_cases hmax : c.pktN + 1 ≤ 65535
        · rw [sendNext_eq h.file h.start hwait hmax]
          have hfull : ¬ (chunk data c.pktN).length < DATA_SIZE := by
            unfold DATA_SIZE
            omega
          exact ⟨h.file, rfl, fun _ => hmax, by simp [hfull]⟩
        · have hstart : c.start + DATA_SIZE = DATA_SIZE * (c.pktN + 1) := by rw [h.start, Nat.mul_succ]
          rw [sendNext_raised hmax]
          exact ⟨h.file, hstart, fun hp => (by cases hp), fun hp => by cases hp⟩
      · exact h
    · exact h

end

/-! ## The server -/

section

variable {H : Handler σ} {s : Srv σ} {n : Nat}

/-- A DATA packet in a write session: a full block goes on with it, a short one ends it well. -/
theorem data_step (hfault : ∀ buffer len app, 0 ≤ len → H.onWriteData buffer len app ≠ none) (hmode : s.mode = .writing n)
    (hopen : OpenHead s.hist) (c : Addr) (k : Nat) {block : List UInt8} (hlen : block.length ≤ DATA_SIZE) :
    if block.length < DATA_SIZE then
      ∃ session ∈ (step H s (.packet c (dataBytes k block))).hist, session.result = some 0
    else ∃ m, (step H s (.packet c (dataBytes k block))).mode = .writing m := by
  obtain ⟨hcode, -, -, hsize⟩ := recv_dataBytes s c k hlen
  have hnonneg := dataSize_nonneg s c (dataBytes k block)
  -- both kinds of block leave the loop by its last lines
  obtain ⟨-, hnone⟩ | ⟨t, m, hbody, hts, hpass⟩ := body_data H (recvFrom s (.packet c (dataBytes k block))) (n := n)
    hnonneg hcode
  · exact absurd hnone (hfault _ _ _ (by rw [hsize]; omega))
  have hto : OpenHead t.hist := (hpass.keeps hopen).1
  rw [hsize] at hts
  rw [step_writing H _ hmode, hbody, endOfBlock, hts]
  unfold DATA_SIZE TFTP_DATA_SIZE
  by_cases hshort : block.length < 512
  · rw [if_pos hshort, if_pos (by omega)]
    obtain ⟨cur, old, hcur, -⟩ := hto
    have hrec : { cur with result := some 0 } ∈ recordResult 0 t.hist := by
      rw [hcur]
      exact List.mem_cons_self ..
    show ∃ session ∈ (afterWrite H t 0).hist, session.result = some 0
    obtain ⟨hp, -⟩ | ⟨⟨file, asked, hp⟩, -⟩ := (afterWrite_sends H t 0).2.2
    · exact ⟨_, hp ▸ hrec, rfl⟩
    · exact ⟨_, hp ▸ List.mem_cons_of_mem _ hrec, rfl⟩
  · rw [if_neg hshort, if_neg (by omega)]
    exact ⟨m, rfl⟩

/-- None of these packets is an ACK. -/
def NoAck (out : List (Addr × Datagram)) : Prop := ∀ p ∈ out, ∀ m, getAnswer p.2 ≠ some (.ack m)

theorem noAck_nil : NoAck [] := fun _ h => by cases h

/-- **A server that is in no write session** opens one or sends no ACK, when a packet of an upload arrives or its wait
runs out. -/
theorem closed_step (hclosed : ∀ n, s.mode ≠ .writing n) (hnoread : ∀ n k, s.mode ≠ .reading n k) (hout : s.out = [])
    (host : Addr) {fname data : List UInt8} {e : Option Datagram}
    (he : ∀ d, e = some d → ∃ k, d = uploadPacket fname data k) :
    (∃ m, (step H s (toRecv host e)).mode = .writing m) ∨ NoAck (step H s (toRecv host e)).out := by
  have hstay : NoAck s.out := by rw [hout]; exact noAck_nil
  cases hmode : s.mode with
  | writing n => exact absurd hmode (hclosed n)
  | reading n k => exact absurd hmode (hnoread n k)
  | hung | stopped | fault =>
    rw [step, hmode]
    exact Or.inr hstay
  | idle =>
    cases e with
    | none =>
      rw [toRecv, step_idle H _ hmode, if_pos (show (recvFrom s .timeout).dataSize < 0 from Int.negSucc_lt_zero 0)]
      exact Or.inr hstay
    | some d =>
      obtain ⟨k, rfl⟩ := he d rfl
      rw [toRecv, step_idle_packet H hmode]
      cases k with
      | zero =>
        obtain hr | ⟨name, -, hr⟩ | ⟨name, packet, -, -, hr⟩ := parseRq_wrq (H := H) (word16_request s host fname) (-1)
        · exact Or.inr (by rw [uploadPacket, hr]; exact hstay)
        · refine Or.inr ?_
          rw [uploadPacket, hr]
          show NoAck (s.out ++ [(host, _)])
          rw [hout]
          intro p hp m hm
          have herror : getAnswer (be16 TFTP_CMD_ERROR ++ be16 ERR_ACCESS_VIOLATION ++ ascii "cannot open file" ++ [0]) =
              none := Option.isNone_iff_eq_none.1 (by decide)
          rw [List.mem_singleton.1 hp, herror] at hm
          cases hm
        · exact Or.inl ⟨1, by rw [uploadPacket, hr]⟩
      | succ k =>
        have hlen : (chunk data k).length ≤ DATA_SIZE := by rw [length_chunk]; exact Nat.min_le_left _ _
        obtain ⟨hcode, -⟩ := recv_dataBytes s host (k + 1) hlen
        rw [uploadPacket, parseRq_other (by rw [hcode]; decide) (by rw [hcode]; decide), if_pos (by decide)]
        exact Or.inr hstay

end

/-! ## The link -/

/-- **Where an upload is**: the server is in no session and no ACK on its way makes `send` return; or a session runs, and
behind a return the last block is on its way to it; or a session has ended well. -/
inductive Phase (fname data : List UInt8) (n : Link.Net Send (Srv σ) Datagram Datagram) : Prop where
  | closed (mode : ∀ m, n.right.mode ≠ .writing m) (progress : n.left.progress ≠ .returned)
      (acks : ∀ d ∈ n.toLeft, getAnswer d ≠ some (.ack (data.length / DATA_SIZE)))
  | opened (mode : ∃ m, n.right.mode = .writing m)
      (last : n.left.progress = .returned → lastPacket fname data ∈ n.toRight)
  | done (session : ∃ session ∈ n.right.hist, session.result = some 0)

section

variable {H : Handler σ} {host device : Addr} {fname data : List UInt8} {r : Nat}
  {n : Link.Net Send (Srv σ) Datagram Datagram}

theorem Upload.openHead (h : Upload fname data r n) {m : Nat} (hmode : n.right.mode = .writing m) :
    OpenHead n.right.hist := by
  obtain ⟨cur, rest, hcur, -, hres⟩ := (h.server.took m hmode).2.session
  exact ⟨cur, rest, hcur, hres⟩

theorem code_uploadPacket (fname data : List UInt8) (k : Nat) :
    word16 (uploadPacket fname data k) 0 = if k = 0 then TFTP_CMD_WRQ else TFTP_CMD_DATA := by
  cases k with
  | zero => simp [uploadPacket, xrqPacket, word16, TFTP_CMD_WRQ]
  | succ k =>
    have hdata := word16_dataBytes_code (k + 1) (chunk data k) []
    rw [List.append_nil] at hdata
    rw [uploadPacket, hdata, if_neg (Nat.succ_ne_zero k)]

theorem eq_zero_of_request {k : Nat} (h : uploadPacket fname data k = uploadPacket fname data 0) : k = 0 := by
  have hcode := congrArg (fun d => word16 d 0) h
  simp only [code_uploadPacket, if_true] at hcode
  by_contra hk
  rw [if_neg hk] at hcode
  exact absurd hcode (by decide)

theorem short_of_lastPacket {k : Nat} (h : uploadPacket fname data k = lastPacket fname data) :
    ∃ j, k = j + 1 ∧ (chunk data j).length < DATA_SIZE := by
  cases k with
  | zero => exact absurd (eq_zero_of_request h.symm) (Nat.succ_ne_zero _)
  | succ j =>
    have hlen := congrArg List.length h
    rw [uploadPacket, length_dataBytes, lastPacket, lastBlock, uploadPacket, length_dataBytes] at hlen
    have hlast : (chunk data (data.length / DATA_SIZE)).length < DATA_SIZE :=
      (chunk_short_iff (by unfold DATA_SIZE; omega)).2 rfl
    exact ⟨j, rfl, by omega⟩

theorem lastBlock_le_of_mem (h : Upload fname data r n) (hlast : lastPacket fname data ∈ n.toRight) :
    lastBlock data ≤ n.left.pktN := by
  obtain ⟨ks, hks, hflight⟩ := h.toServer
  rw [hks] at hlast
  obtain ⟨k, hk, hpacket⟩ := List.mem_map.1 hlast
  have hle := (hflight.2 k hk).2
  obtain ⟨j, rfl, hshort⟩ := short_of_lastPacket hpacket
  rw [length_chunk] at hshort
  unfold lastBlock
  unfold DATA_SIZE at *
  omega

/-- **A pass of `send`.** -/
theorem Phase.stepLeft (hn : Phase fname data n) (h : Upload fname data r n) (hlen : data.length < 65535 * 512)
    {toLeft : List Datagram} (hsub : ∀ d ∈ toLeft, d ∈ n.toLeft) {e : Option Datagram}
    (he : ∀ d, e = some d → d ∈ n.toLeft) :
    Phase fname data (Link.Net.stepLeft (clientMachine device) { n with toLeft := toLeft } e) := by
  have hc : Sending fname data { n.left with out := [] } :=
    ⟨h.client.name, h.client.file, h.client.start, h.client.le, h.client.buffer, h.client.full⟩
  have hreturn := hc.step_returned (e := toRecv device e) hlen rfl
  cases hn with
  | closed hmode hret hacks =>
    refine .closed hmode (fun hret' => ?_) (fun d hd => hacks d (hsub d hd))
    obtain ⟨-, src, d, hd, hack⟩ := hreturn hret hret'
    cases e with
    | none => cases hd
    | some d' =>
      cases hd
      exact hacks _ (he _ rfl) hack
  | opened hmode hlast =>
    refine .opened hmode (fun hret' => List.mem_append.2 ?_)
    by_cases hret : n.left.progress = .returned
    · exact Or.inl (hlast hret)
    · refine Or.inr ?_
      show lastPacket fname data ∈ (sendStep { n.left with out := [] } (toRecv device e)).out
      rw [(hreturn hret hret').1]
      exact List.mem_singleton_self _
  | done hs => exact .done hs

theorem mem_stepRight {e : Option Datagram} {d : Datagram}
    (hd : d ∈ (n.stepRight (serverMachine H host) e).toLeft) :
    d ∈ n.toLeft ∨ ∃ p ∈ (step H { n.right with out := [] } (toRecv host e)).out, p.2 = d := by
  rcases List.mem_append.1 hd with hd | hd
  · exact Or.inl hd
  · obtain ⟨p, hp, hpd⟩ := List.mem_map.1 hd
    exact Or.inr ⟨p, (List.mem_filter.1 hp).1, hpd⟩

theorem done_stepRight (h : Upload fname data r n) (e : Option Datagram)
    (hs : ∃ session ∈ n.right.hist, session.result = some 0) :
    ∃ session ∈ (n.stepRight (serverMachine H host) e).right.hist, session.result = some 0 := by
  obtain ⟨session, hs, hres⟩ := hs
  exact ⟨session, step_keeps_ended H (s := { n.right with out := [] }) (fun m hm => h.openHead hm) _ hs
    (by rw [hres]; exact Option.some_ne_none 0), hres⟩

/-- **A server in no session**, when a packet of the upload arrives or its wait runs out. -/
theorem Phase.closed_stepRight (h : Upload fname data r n) (hmode : ∀ m, n.right.mode ≠ .writing m)
    (hret : n.left.progress ≠ .returned)
    (hacks : ∀ d ∈ n.toLeft, getAnswer d ≠ some (.ack (data.length / DATA_SIZE))) {e : Option Datagram}
    (he : ∀ d, e = some d → ∃ k, d = uploadPacket fname data k) :
    Phase fname data (n.stepRight (serverMachine H host) e) := by
  by_cases hopen : ∃ m, (step H { n.right with out := [] } (toRecv host e)).mode = .writing m
  · exact .opened hopen (fun hret' => absurd hret' hret)
  · obtain hw | hno := closed_step (H := H) (s := { n.right with out := [] }) hmode h.server.noRead rfl host he
    · exact absurd hw hopen
    · refine .closed (fun m hm => hopen ⟨m, hm⟩) hret (fun d hd => ?_)
      obtain hd | ⟨p, hp, rfl⟩ := mem_stepRight hd
      · exact hacks d hd
      · exact hno p hp _

/-- **A session of the server**, when a packet of the upload arrives. -/
theorem Phase.opened_stepRight (hfault : ∀ buffer len app, 0 ≤ len → H.onWriteData buffer len app ≠ none)
    {toRight : List Datagram} {k : Nat} (hn : n.toRight = uploadPacket fname data k :: toRight)
    (h : Upload fname data r n) {m : Nat} (hmode : n.right.mode = .writing m)
    (hlast : n.left.progress = .returned → lastPacket fname data ∈ n.toRight) :
    Phase fname data
      (Link.Net.stepRight (serverMachine H host) { n with toRight := toRight } (some (uploadPacket fname data k))) := by
  have hrest : uploadPacket fname data k ≠ lastPacket fname data → n.left.progress = .returned →
      lastPacket fname data ∈ toRight := by
    intro hne hret
    have hmem := hlast hret
    rw [hn] at hmem
    rcases List.mem_cons.1 hmem with heq | hmem
    · exact absurd heq.symm hne
    · exact hmem
  cases k with
  | zero =>
    -- the request again, so no block has been taken
    obtain ⟨ks, hks, hflight⟩ := h.toServer
    obtain ⟨k, ks, rfl, hk, -⟩ := List.map_eq_cons_iff.1 (hks.symm.trans hn)
    obtain rfl := eq_zero_of_request hk
    obtain rfl : m = 1 := by rw [(h.server.took m hmode).1, Nat.le_zero.1 hflight.head.1]
    refine .opened ⟨1, ?_⟩ (hrest (fun heq => ?_))
    · show (step H { n.right with out := [] } (.packet host (xrqPacket TFTP_CMD_WRQ fname))).mode = _
      rw [step_writing H _ (show ({ n.right with out := [] } : Srv σ).mode = .writing 1 from hmode),
        body_wrq H (dataSize_nonneg _ host _) (word16_request _ host fname), if_pos rfl]
    · obtain ⟨j, hj, -⟩ := short_of_lastPacket heq
      cases hj
  | succ k =>
    have hle : (chunk data k).length ≤ DATA_SIZE := by rw [length_chunk]; exact Nat.min_le_left _ _
    have hstep := data_step hfault (s := { n.right with out := [] }) hmode (h.openHead hmode) host (k + 1) hle
    by_cases hshort : (chunk data k).length < DATA_SIZE
    · rw [if_pos hshort] at hstep
      exact .done hstep
    · rw [if_neg hshort] at hstep
      refine .opened hstep (hrest (fun heq => hshort ?_))
      obtain ⟨j, hj, hlast⟩ := short_of_lastPacket heq
      cases hj
      exact hlast

/-- **The server's wait runs out.** -/
theorem Phase.timeout (hn : Phase fname data n) (h : Upload fname data r n)
    (harr : LastArrives fname data n .rightTimeout) : Phase fname data (n.stepRight (serverMachine H host) none) := by
  cases hn with
  | closed hmode hret hacks => exact closed_stepRight h hmode hret hacks (fun d hd => by cases hd)
  | done hs => exact .done (done_stepRight h none hs)
  | opened hmode hlast =>
    obtain ⟨m, hmode⟩ := hmode
    obtain ⟨rfl, htook⟩ := h.server.took m hmode
    have hfull := htook.full
    have hahead := h.ahead
    -- neither the last block is on its way nor the ACK before it
    have hway : ¬ LastOnWay fname data n := by
      by_cases hr : r + 1 = lastBlock data
      · exact harr (hr ▸ hmode)
      · unfold lastBlock at hr
        rintro (hmem | ⟨d, hd, hack⟩)
        · have := lastBlock_le_of_mem h hmem
          unfold lastBlock at this
          unfold DATA_SIZE at *
          omega
        · have := h.toClient d hd _ hack
          unfold DATA_SIZE at *
          omega
    have hstep : step H { n.right with out := [] } .timeout =
        afterWrite H (recvFrom { n.right with out := [] } .timeout) (-1) := by
      rw [step_writing H _ (show ({ n.right with out := [] } : Srv σ).mode = .writing (r + 1) from hmode), body_timeout]
    obtain ⟨hclosed, -, hout⟩ := afterWrite_closed H (recvFrom { n.right with out := [] } .timeout)
      (show (-1 : Int) ≤ 0 by decide)
    rw [← hstep] at hclosed hout
    refine .closed (fun m' hm => ?_) (fun hret => hway (Or.inl (hlast hret))) (fun d hd hack => ?_)
    · rcases hclosed with hc | hc <;> cases hc.symm.trans hm
    · obtain hd | ⟨p, hp, -⟩ := mem_stepRight hd
      · exact hway (Or.inr ⟨d, hd, hack⟩)
      · rw [toRecv, hout] at hp
        cases hp

/-- **A move of the link** on which the last block is not lost. -/
theorem arrival_step (hfault : ∀ buffer len app, 0 ≤ len → H.onWriteData buffer len app ≠ none)
    (hlen : data.length < 65535 * 512) (n : Link.Net Send (Srv σ) Datagram Datagram) (a : Link.Action)
    (hn : (∃ r, Upload fname data r n) ∧ Phase fname data n) (harr : LastArrives fname data n a) :
    (∃ r, Upload fname data r (Link.step (clientMachine device) (serverMachine H host) n a)) ∧
      Phase fname data (Link.step (clientMachine device) (serverMachine H host) n a) := by
  obtain ⟨⟨r, h⟩, hphase⟩ := hn
  refine ⟨Link.step_preserves (upload_preserves H host device fname hlen) ⟨r, h⟩ a, ?_⟩
  cases a with
  | leftTimeout => exact hphase.stepLeft h hlen (fun _ hd => hd) (fun d hd => by cases hd)
  | leftRecv =>
    cases hl : n.toLeft with
    | nil => simpa only [Link.step, hl] using hphase
    | cons m ms =>
      simp only [Link.step, hl]
      exact hphase.stepLeft h hlen (fun d hd => hl ▸ List.mem_cons_of_mem m hd)
        (fun d hd => by cases hd; rw [hl]; exact List.mem_cons_self ..)
  | rightTimeout => exact hphase.timeout h harr
  | rightRecv =>
    cases hr : n.toRight with
    | nil => simpa only [Link.step, hr] using hphase
    | cons m ms =>
      simp only [Link.step, hr]
      obtain ⟨ks, hks, -⟩ := h.toServer
      obtain ⟨k, -, -, rfl, -⟩ := List.map_eq_cons_iff.1 (hks.symm.trans hr)
      have hms : Upload fname data r { n with toRight := ms } :=
        h.lose (hr ▸ List.sublist_cons_self _ ms) (List.Sublist.refl _)
      cases hphase with
      | closed hmode hret hacks =>
        exact Phase.closed_stepRight hms hmode hret hacks (fun d hd => by cases hd; exact ⟨k, rfl⟩)
      | opened hmode hlast => exact Phase.opened_stepRight hfault hr h hmode.choose_spec hlast
      | done hs => exact .done (done_stepRight hms _ hs)
  | loseToRight i =>
    cases hphase with
    | closed hmode hret hacks => exact .closed hmode hret hacks
    | opened hmode hlast =>
      refine .opened hmode (fun hret => List.mem_eraseIdx_iff_getElem?.2 ?_)
      obtain ⟨j, hj⟩ := List.mem_iff_getElem?.1 (hlast hret)
      exact ⟨j, fun heq => harr (heq ▸ hj), hj⟩
    | done hs => exact .done hs
  | loseToLeft i =>
    cases hphase with
    | closed hmode hret hacks => exact .closed hmode hret (fun d hd => hacks d ((List.eraseIdx_sublist _ i).subset hd))
    | opened hmode hlast => exact .opened hmode hlast
    | done hs => exact .done hs

/-- **With the last block on its way an upload arrives**, once what is in flight to the server is there. -/
theorem Phase.received (hfault : ∀ buffer len app, 0 ≤ len → H.onWriteData buffer len app ≠ none)
    (hlen : data.length < 65535 * 512) (h : (∃ r, Upload fname data r n) ∧ Phase fname data n)
    (hret : n.left.progress = .returned) :
    Received data (Link.drain (clientMachine device) (serverMachine H host) n).right := by
  obtain ⟨⟨⟨r, hup⟩, hphase⟩, hempty, hleft⟩ := Link.drain_preserves (L := clientMachine device)
    (R := serverMachine H host) (fun n hn => arrival_step hfault hlen n .rightRecv hn trivial) h
  rw [← hleft] at hret
  cases hphase with
  | closed _ hno _ => exact absurd hret hno
  | opened _ hlast =>
    have hmem := hlast hret
    rw [hempty] at hmem
    cases hmem
  | done hs =>
    obtain ⟨session, hs, hres⟩ := hs
    exact ⟨session, hs, (hup.server.safe session hs).whole hres, hres⟩

end

/-- **A reported upload is a received one**, in every run in which the last block gets through: once `send` has returned
and what is in flight is there, a session took the whole file. -/
theorem upload_arrives (env : OtaEnv φ) (host device : Addr) (s : Srv (Ota φ)) (fname data : List UInt8)
    (actions : List Link.Action)
    (harr : Link.Along (LastArrives fname data) (clientMachine device) (serverMachine (otaServer env) host)
      (uploadStart s fname data) actions)
    (hret : (uploadRun (otaServer env) host device s fname data actions).left.progress = .returned) :
    Received data (Link.drain (clientMachine device) (serverMachine (otaServer env) host)
      (uploadRun (otaServer env) host device s fname data actions)).right := by
  by_cases hlen : data.length < 65535 * 512
  · have hstart : Phase fname data (uploadStart s fname data) :=
      .closed (fun m hm => by cases hm) (fun hp => by cases hp) (fun d hd => by cases hd)
    exact Phase.received (onWriteData_ne_none env) hlen
      (Link.run_along (arrival_step (onWriteData_ne_none env) hlen) actions
        ⟨⟨0, uploadStart_upload s fname data⟩, hstart⟩ harr) hret
  · -- `send` raises before the last block
    exfalso
    have hlong : 65535 * 512 ≤ data.length := Nat.not_lt.1 hlen
    have hstep : ∀ (c : Send) (e : Option Datagram), TooLong data c → TooLong data (clientMachine device c e).1 :=
      fun c e hc => TooLong.step hlong (c := { c with out := [] }) ⟨hc.file, hc.start, hc.le, hc.progress⟩ _
    have hkeep : Link.Preserves (clientMachine device) (serverMachine (otaServer env) host)
        (fun n => TooLong data n.left) :=
      ⟨fun n h => hstep n.left none h, fun n m ms h _ => hstep n.left (some m) h, fun n h => h, fun n m ms h _ => h,
        fun n _ _ h _ _ => h⟩
    have h := Link.run_preserves hkeep (n := uploadStart s fname data)
      ⟨rfl, rfl, fun _ => Nat.zero_le _, fun hp => by cases hp⟩ actions
    exact h.progress hret

/-- An ACK that is lost, a request sent again, and the block. -/
theorem upload_arrives_repeated :
    Received [7, 8, 9] (Link.drain (clientMachine 2) (serverMachine (otaServer stockEnv) 1)
      (uploadRun (otaServer stockEnv) 1 2 (stockServer loadedStore []) (ascii "cfg.cfg") [7, 8, 9]
        [.rightRecv, .loseToLeft 0, .leftTimeout, .rightRecv, .leftRecv])).right :=
  upload_arrives stockEnv 1 2 (stockServer loadedStore []) (ascii "cfg.cfg") [7, 8, 9]
    [.rightRecv, .loseToLeft 0, .leftTimeout, .rightRecv, .leftRecv]
    ⟨trivial, trivial, trivial, trivial, trivial, trivial⟩ (by decide +kernel)

/-- The last block lost: `send` has returned, and the server's session ends with a timeout. -/
theorem upload_lost :
    let n := uploadRun (otaServer stockEnv) 1 2 (stockServer loadedStore []) (ascii "cfg.cfg") [7, 8, 9]
      [.rightRecv, .leftRecv, .loseToRight 0, .rightTimeout]
    n.left.progress = .returned ∧
      ¬ Received [7, 8, 9] (Link.drain (clientMachine 2) (serverMachine (otaServer stockEnv) 1) n).right := by
  decide +kernel

end Mstd.Tftp
