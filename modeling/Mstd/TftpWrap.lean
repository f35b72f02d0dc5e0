import Mstd.TftpArrival
/-!
# `send` against a peer that loses nothing

The peer answers the WRQ with ACK 0 and each DATA packet with the ACK of its number.  `send` compares 16 bits of `pkt_n`,
but writes all of it: so it returns exactly when its last block has a number of 16 bits (`send_returns_iff`).
-/
namespace Mstd.Tftp

/-- The peer's answer to a packet. -/
def ackOf (packet : Datagram) : Datagram :=
  if word16 packet 0 = TFTP_CMD_DATA then ackPacket (word16 packet 2) else ackPacket 0

/-- A pass with the answer to packet `n`, if `send` has sent it. -/
def answered (peer : Addr) (n : Nat) (c : Send) : Send :=
  match c.out[n]? with
  | none        => c
  | some packet => sendStep c (.packet peer (ackOf packet))

/-- `send` behind its first `n` answers, to its packets in order. -/
def exchange (peer : Addr) (fname data : List UInt8) : Nat → Send
  | 0     => startSend fname data
  | n + 1 => answered peer n (exchange peer fname data n)

/-- What `send` ought to do: consecutive blocks of 512 bytes, numbered from 1 on in 16 bits, of which the last is short. -/
structure SendsFile (fname data : List UInt8) (c : Send) : Prop where
  returned : c.progress = .returned
  packets : c.out = xrqPacket TFTP_CMD_WRQ fname ::
    (List.range (data.length / 512 + 1)).map (fun k => dataBytes ((k + 1) % 65536) ((data.drop (512 * k)).take 512))
  short : ((data.drop (512 * (data.length / 512))).take 512).length < 512

section

variable {fname data : List UInt8} {c : Send}

theorem ackOf_uploadPacket {k : Nat} (hk : k ≤ 65535) : ackOf (uploadPacket fname data k) = ackPacket k := by
  cases k with
  | zero =>
    have hcode : word16 (xrqPacket TFTP_CMD_WRQ fname) 0 = TFTP_CMD_WRQ := by
      simp [word16, xrqPacket, TFTP_CMD_WRQ]
    rw [uploadPacket, ackOf, if_neg (by rw [hcode]; decide)]
  | succ k =>
    have hcode := word16_dataBytes_code (k + 1) (chunk data k) []
    have hnum := word16_dataBytes_num (k + 1) (chunk data k) []
    rw [List.append_nil] at hcode hnum
    rw [uploadPacket, ackOf, if_pos hcode, hnum, Nat.mod_eq_of_lt (Nat.lt_succ_of_le hk)]

theorem sendStep_ack (peer : Addr) (hwait : c.progress = .waiting) :
    sendStep c (.packet peer (ackPacket c.pktN)) = sendNext c := by
  simp [sendStep, hwait, getAnswer_ackPacket]

/-- **A pass of the exchange**: the answer to the last packet brings the next one. -/
theorem exchange_succ (peer : Addr) {n : Nat} (hlen : data.length < 65535 * 512) (hn : n ≤ data.length / 512)
    (hwait : (exchange peer fname data n).progress = .waiting) (hpkt : (exchange peer fname data n).pktN = n)
    (hout : (exchange peer fname data n).out = (List.range (n + 1)).map (uploadPacket fname data)) :
    exchange peer fname data (n + 1) = sendNext (exchange peer fname data n) := by
  have hpacket : (exchange peer fname data n).out[n]? = some (uploadPacket fname data n) := by
    simp [hout]
  have hack : ackOf (uploadPacket fname data n) = ackPacket (exchange peer fname data n).pktN := by
    rw [hpkt, ackOf_uploadPacket (by omega)]
  rw [exchange, answered, hpacket]
  simp only [hack]
  exact sendStep_ack peer hwait

/-- **The run of the exchange** up to the last full block. -/
theorem exchange_eq (peer : Addr) (fname : List UInt8) (hlen : data.length < 65535 * 512) : ∀ n ≤ data.length / 512,
    Sending fname data (exchange peer fname data n) ∧ (exchange peer fname data n).progress = .waiting ∧
      (exchange peer fname data n).pktN = n ∧
      (exchange peer fname data n).out = (List.range (n + 1)).map (uploadPacket fname data)
  | 0, _      => ⟨⟨rfl, rfl, rfl, Nat.zero_le _, rfl, fun _ => Nat.zero_le _⟩, rfl, rfl, rfl⟩
  | n + 1, hn => by
    obtain ⟨h, hwait, hpkt, hout⟩ := exchange_eq peer fname hlen n (Nat.le_of_succ_le hn)
    obtain ⟨hs, hpkt', hout'⟩ := h.next hlen hwait
    have hprogress := h.progress_next hlen hwait
    have hfull : ¬ (chunk data (exchange peer fname data n).pktN).length < DATA_SIZE := by
      rw [hpkt, chunk_short_iff (by omega)]
      unfold DATA_SIZE
      omega
    rw [exchange_succ peer hlen (Nat.le_of_succ_le hn) hwait hpkt hout]
    refine ⟨hs, ?_, by rw [hpkt', hpkt], ?_⟩
    · rw [hprogress, if_neg hfull]
    · rw [hout', hout, hpkt, List.range_succ (n := n + 1), List.map_append]
      rfl

/-- The packets as the peer should get them. -/
theorem uploadPackets (hlen : data.length < 65535 * 512) :
    (List.range (data.length / 512 + 2)).map (uploadPacket fname data) =
      xrqPacket TFTP_CMD_WRQ fname ::
        (List.range (data.length / 512 + 1)).map
          (fun k => dataBytes ((k + 1) % 65536) ((data.drop (512 * k)).take 512)) := by
  rw [List.range_succ_eq_map, List.map_cons, List.map_map]
  refine congrArg _ (List.map_congr_left (fun k hk => ?_))
  have hlt := List.mem_range.1 hk
  rw [Function.comp_apply, uploadPacket, Nat.mod_eq_of_lt (by omega)]
  rfl

theorem exchange_returns (peer : Addr) (fname : List UInt8) (hlen : data.length < 65535 * 512) :
    SendsFile fname data (exchange peer fname data (data.length / 512 + 1)) := by
  obtain ⟨h, hwait, hpkt, hout⟩ := exchange_eq peer fname hlen _ (Nat.le_refl _)
  obtain ⟨-, -, hout'⟩ := h.next hlen hwait
  have hprogress := h.progress_next hlen hwait
  have hshort : (chunk data (data.length / 512)).length < DATA_SIZE := (chunk_short_iff (by omega)).2 rfl
  rw [hpkt, if_pos hshort] at hprogress
  have hsucc := exchange_succ peer hlen (Nat.le_refl _) hwait hpkt hout
  refine ⟨by rw [hsucc, hprogress], ?_, ?_⟩
  · rw [hsucc, hout', hout, hpkt, ← uploadPackets hlen, List.range_succ (n := data.length / 512 + 1), List.map_append]
    rfl
  · rw [List.length_take, List.length_drop]
    omega

/-- A file of more blocks is not sent to its end. -/
theorem exchange_tooLong (peer : Addr) (fname : List UInt8) (hlen : 65535 * 512 ≤ data.length) : ∀ n,
    TooLong data (exchange peer fname data n)
  | 0     => ⟨rfl, rfl, fun _ => Nat.zero_le _, fun h => by cases h⟩
  | n + 1 => by
    have ih := exchange_tooLong peer fname hlen n
    rw [exchange, answered]
    split
    · exact ih
    · exact ih.step hlen _

end

/-- **When `send` gets through to a peer that loses nothing**: when the number of the last block fits its two bytes. -/
theorem send_returns_iff (peer : Addr) (fname data : List UInt8) :
    (∃ n, SendsFile fname data (exchange peer fname data n)) ↔ data.length < 65535 * 512 := by
  constructor
  · rintro ⟨n, h⟩
    by_contra hlong
    exact (exchange_tooLong peer fname (Nat.not_lt.1 hlong) n).progress h.returned
  · intro hlen
    exact ⟨_, exchange_returns peer fname hlen⟩

/-- A file of 65535 full blocks needs one more. -/
theorem send_never_returns :
    ¬ ∃ n, (exchange 1 (ascii "fw.bin") (List.replicate (65535 * 512) 0) n).progress = .returned := by
  rintro ⟨n, h⟩
  exact (exchange_tooLong 1 (ascii "fw.bin") (by rw [List.length_replicate]) n).progress h

end Mstd.Tftp
