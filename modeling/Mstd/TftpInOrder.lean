import Mstd.TftpBounds
/-!
# The order of the blocks of a write session

`process_write` compares the number on the wire with its counter by `<` only, and looks for the short packet whether it
took the block or not.  So the blocks come in order, and the other DATA packets change nothing, exactly when every DATA
packet is the next block or a full copy of an earlier one (`blocks_inOrder_iff`).
-/
namespace Mstd.Tftp

variable {σ φ : Type}

/-! ## A session so far -/

/-- `process_write` behind the `recvfrom` results so far. -/
def writeSoFar (H : Handler σ) (s : Srv σ) (n : Nat) : List Recv → WriteLoop σ
  | []      => .again s n
  | e :: es =>
    match processWriteBody H (recvFrom s e) n with
    | .again t m       => writeSoFar H { t with mode := .writing m } m es
    | .finish t result => .finish t result
    | .fault           => .fault

/-- The blocks passed to `on_write_data`. -/
def WriteLoop.blocks : WriteLoop σ → List Block
  | .again s _  => s.blocks
  | .finish s _ => s.blocks
  | .fault      => []

/-- The same stored data. -/
def Kept (s t : Srv σ) : Prop :=
  ∃ b size c o, t = { s with buffer := b, dataSize := size, client := c, out := o }

/-- The same stored data and the same outcome. -/
def WriteLoop.Same : WriteLoop σ → WriteLoop σ → Prop
  | .again s n, .again t m             => Kept s t ∧ n = m
  | .finish s result, .finish t result' => Kept s t ∧ result = result'
  | .fault, .fault                     => True
  | _, _                               => False

/-- A well-formed datagram has an opcode, and a DATA packet its number. -/
def HasHeader : Recv → Prop
  | .timeout    => True
  | .packet _ d => 2 ≤ d.length ∧ (word16 d 0 = TFTP_CMD_DATA → 4 ≤ d.length)

def IsData : Recv → Prop
  | .timeout    => False
  | .packet _ d => word16 d 0 = TFTP_CMD_DATA

/-- The numbers are 1, 2, 3, … as 16 bits hold them. -/
def Numbered (blocks : List Block) : Prop := ∀ i b, blocks[i]? = some b → b.num = (i + 1) % 65536

/-- Whatever comes behind `e`, the session is the same as without it. -/
def Ignored (H : Handler σ) (s : Srv σ) (n : Nat) (e : Recv) : Prop :=
  ∀ es, (∀ e ∈ es, HasHeader e) → (writeSoFar H s n (e :: es)).Same (writeSoFar H s n es)

/-- **The blocks of a session are taken in order**, and a DATA packet that is not passed on changes nothing. -/
structure InOrder (H : Handler σ) (s : Srv σ) (n : Nat) (es : List Recv) : Prop where
  numbers : ∀ es', es' <+: es → Numbered (writeSoFar H s n es').blocks
  others : ∀ es' e, es' ++ [e] <+: es → ∀ t m, writeSoFar H s n es' = .again t m → IsData e →
    (writeSoFar H t m [e]).blocks = t.blocks → Ignored H t m e

/-- **The DATA packets come in turn from number `n` on**, up to the end of the session: each is the next block or a full
copy of an earlier one. -/
def InTurn : Nat → List Recv → Prop
  | _, []               => True
  | _, .timeout :: _    => True
  | n, .packet _ d :: es =>
    if word16 d 0 = TFTP_CMD_DATA then
      word16 d 2 = n ∧ (TFTP_DATA_SIZE ≤ d.length → InTurn (n + 1) es) ∨
        word16 d 2 < n ∧ TFTP_DATA_SIZE ≤ d.length ∧ InTurn n es
    else word16 d 0 = TFTP_CMD_WRQ ∧ n = 1 → InTurn n es

instance HasHeader.decidable : (e : Recv) → Decidable (HasHeader e)
  | .timeout    => .isTrue trivial
  | .packet _ d => inferInstanceAs (Decidable (2 ≤ d.length ∧ (word16 d 0 = TFTP_CMD_DATA → 4 ≤ d.length)))

instance InTurn.decidable : (n : Nat) → (es : List Recv) → Decidable (InTurn n es)
  | _, []                => .isTrue trivial
  | _, .timeout :: _     => .isTrue trivial
  | n, .packet _ d :: es =>
    have := InTurn.decidable n es
    have := InTurn.decidable (n + 1) es
    inferInstanceAs (Decidable (if word16 d 0 = TFTP_CMD_DATA then
      word16 d 2 = n ∧ (TFTP_DATA_SIZE ≤ d.length → InTurn (n + 1) es) ∨
        word16 d 2 < n ∧ TFTP_DATA_SIZE ≤ d.length ∧ InTurn n es
    else word16 d 0 = TFTP_CMD_WRQ ∧ n = 1 → InTurn n es))

/-- A write session as `parse_rq` opens it. -/
structure Opened (s : Srv σ) : Prop where
  mode : s.mode = .writing 1
  hist : ∃ file asked rest, s.hist = .start s.client file asked :: rest

theorem parseRq_opened (H : Handler σ) (s : Srv σ) (result : Int) {n : Nat} (h : (parseRq H s result).mode = .writing n) :
    Opened (parseRq H s result) := by
  obtain ⟨hclient, -, ⟨-, hmode⟩ | ⟨⟨file, hhist⟩, hmode⟩⟩ := parseRq_sends H s result
  · exact absurd h (hmode n)
  · exact ⟨hmode, file, s.app, s.hist, by rw [hhist, hclient]⟩

section

variable (H : Handler σ) {s t : Srv σ} {n m : Nat} {e : Recv}

theorem writeSoFar_again (h : processWriteBody H (recvFrom s e) n = .again t m) (es : List Recv) :
    writeSoFar H s n (e :: es) = writeSoFar H { t with mode := .writing m } m es := by
  rw [writeSoFar, h]

theorem writeSoFar_finish {result : Int} (h : processWriteBody H (recvFrom s e) n = .finish t result) (es : List Recv) :
    writeSoFar H s n (e :: es) = .finish t result := by
  rw [writeSoFar, h]

/-- It returns when `process_write` does. -/
theorem writeSoFar_finish_iff (es : List Recv) {result : Int} :
    writeSoFar H s n es = .finish t result ↔ ∃ rest, processWrite H s n es = some (t, result, rest) := by
  induction es generalizing s n with
  | nil =>
    constructor
    · rintro ⟨⟩
    · rintro ⟨_, ⟨⟩⟩
  | cons e es ih =>
    rw [writeSoFar, processWrite]
    cases hb : processWriteBody H (recvFrom s e) n with
    | again u k => exact ih
    | finish u result' =>
      constructor
      · intro h
        cases h
        exact ⟨es, rfl⟩
      · rintro ⟨rest, h⟩
        cases h
        rfl
    | fault =>
      constructor
      · rintro ⟨⟩
      · rintro ⟨_, ⟨⟩⟩

/-- While it goes on, it is the machine. -/
theorem run_writeSoFar (es : List Recv) (hmode : s.mode = .writing n) (h : writeSoFar H s n es = .again t m) :
    run H s es = t ∧ t.mode = .writing m := by
  induction es generalizing s n with
  | nil =>
    cases h
    exact ⟨rfl, hmode⟩
  | cons e es ih =>
    rw [run_cons, step_writing H e hmode]
    cases hb : processWriteBody H (recvFrom s e) n with
    | again u k =>
      rw [writeSoFar_again H hb] at h
      exact ih rfl h
    | finish u result =>
      rw [writeSoFar_finish H hb] at h
      cases h
    | fault =>
      rw [writeSoFar, hb] at h
      cases h

end

/-! ## The blocks -/

theorem Numbered.append_iff {blocks : List Block} (h : Numbered blocks) (b : Block) :
    Numbered (blocks ++ [b]) ↔ b.num = (blocks.length + 1) % 65536 := by
  constructor
  · intro h'
    exact h' blocks.length b (by rw [List.getElem?_append_right (Nat.le_refl _), Nat.sub_self, List.getElem?_cons_zero])
  · intro hb i b' hi
    rcases Nat.lt_trichotomy i blocks.length with hlt | rfl | hgt
    · rw [List.getElem?_append_left hlt] at hi
      exact h i b' hi
    · rw [List.getElem?_append_right (Nat.le_refl _), Nat.sub_self, List.getElem?_cons_zero] at hi
      cases hi
      exact hb
    · rw [List.getElem?_eq_none (by rw [List.length_append, List.length_singleton]; omega)] at hi
      cases hi

/-- The session is running, and `n` is the number of its next block. -/
structure Next (s : Srv σ) (n : Nat) : Prop where
  running : OpenHead s.hist
  length : s.blocks.length + 1 = n

theorem Opened.next {s : Srv σ} (h : Opened s) : Next s 1 ∧ Numbered s.blocks := by
  obtain ⟨file, asked, rest, hhist⟩ := h.hist
  have hblocks : s.blocks = [] := by rw [Srv.blocks, hhist]; rfl
  refine ⟨⟨⟨_, rest, hhist, rfl⟩, by rw [hblocks, List.length_nil]⟩, ?_⟩
  rw [hblocks]
  intro i b hi
  cases hi

theorem blocks_recordBlock {s t : Srv σ} (hopen : OpenHead s.hist) {b : Block} (h : t.hist = recordBlock b s.hist) :
    t.blocks = s.blocks ++ [b] := by
  obtain ⟨cur, rest, hhist, -⟩ := hopen
  rw [Srv.blocks, Srv.blocks, h, hhist, recordBlock]

section

variable {s t : Srv σ} {n : Nat}

theorem Kept.recv (h : Kept s t) (src : Addr) (d : Datagram) :
    Alike (recvFrom s (.packet src d)) (recvFrom t (.packet src d)) := by
  obtain ⟨b, size, c, o, rfl⟩ := h
  exact ⟨_, _, rfl⟩

theorem Kept.blocks (h : Kept s t) : t.blocks = s.blocks := by
  obtain ⟨b, size, c, o, rfl⟩ := h
  rfl

theorem Next.kept (h : Next s n) (hk : Kept s t) : Next t n := by
  obtain ⟨b, size, c, o, rfl⟩ := hk
  exact ⟨h.running, h.length⟩

theorem kept_sendAck (s : Srv σ) (src : Addr) (d : Datagram) (k : Nat) :
    Kept s (sendAck (recvFrom s (.packet src d)) k) := ⟨_, _, _, _, rfl⟩

end

section

variable {H : Handler σ} {s t : Srv σ} {n : Nat} {src : Addr} {d : Datagram}

/-- **The stored data decide the session.** -/
theorem same_of_kept (hreads : H.ReadsLen) (h : Kept s t) (es : List Recv) (hes : ∀ e ∈ es, HasHeader e) :
    (writeSoFar H s n es).Same (writeSoFar H t n es) := by
  induction es generalizing s t n with
  | nil => exact ⟨h, rfl⟩
  | cons e es ih =>
    cases e with
    | timeout =>
      rw [writeSoFar_finish H (body_timeout H s n), writeSoFar_finish H (body_timeout H t n)]
      obtain ⟨b, size, c, o, rfl⟩ := h
      exact ⟨⟨_, _, _, _, rfl⟩, rfl⟩
    | packet src d =>
      obtain ⟨r, hs⟩ := recvFrom_inBuffer s src d
      obtain ⟨r', ht⟩ := recvFrom_inBuffer t src d
      obtain ⟨hhead, hblock⟩ := hes _ List.mem_cons_self
      have hcode : word16 (d.take TFTP_DATA_SIZE) 0 = word16 d 0 := word16_take (by decide)
      have hbody := processWriteBody_alike H hreads (h.recv src d) hs ht
        (by rw [List.length_take]; unfold TFTP_DATA_SIZE; omega)
        (fun hdata => by
          have := hblock (hcode.symm.trans hdata)
          rw [List.length_take]
          unfold TFTP_DATA_SIZE
          omega) n
      cases hu : processWriteBody H (recvFrom s (.packet src d)) n <;>
        cases hv : processWriteBody H (recvFrom t (.packet src d)) n <;>
        rw [hu, hv] at hbody <;> try exact hbody.elim
      case again.again u m v m' =>
        obtain ⟨⟨b, o, rfl⟩, rfl⟩ := hbody
        rw [writeSoFar_again H hu, writeSoFar_again H hv]
        exact ih ⟨_, _, _, _, rfl⟩ (fun e he => hes e (List.mem_cons_of_mem _ he))
      case finish.finish u result v result' =>
        obtain ⟨⟨b, o, rfl⟩, rfl⟩ := hbody
        rw [writeSoFar_finish H hu, writeSoFar_finish H hv]
        exact ⟨⟨_, _, _, _, rfl⟩, rfl⟩
      case fault.fault =>
        rw [writeSoFar, writeSoFar, hu, hv]
        trivial

end

/-! ## One packet -/

section

variable (H : Handler σ) {s : Srv σ} {n : Nat} {src : Addr} {d : Datagram}

theorem recv_header (s : Srv σ) (h : HasHeader (.packet src d)) :
    word16 (recvFrom s (.packet src d)).buffer.bytes 0 = word16 d 0 ∧
      (word16 d 0 = TFTP_CMD_DATA → word16 (recvFrom s (.packet src d)).buffer.bytes 2 = word16 d 2) := by
  obtain ⟨r, hs⟩ := recvFrom_inBuffer s src d
  obtain ⟨hhead, hblock⟩ := h
  constructor
  · rw [hs.word16 0 (by rw [List.length_take]; unfold TFTP_DATA_SIZE; omega)]
    exact word16_take (by decide)
  · intro hdata
    have hfour := hblock hdata
    rw [hs.word16 2 (by rw [List.length_take]; unfold TFTP_DATA_SIZE; omega), ← word16_drop, ← word16_drop d 2,
      List.drop_take]
    exact word16_take (by decide)

theorem endOfBlock_recv {t : Srv σ} (h : t.dataSize = (recvFrom s (.packet src d)).dataSize) (n : Nat) :
    endOfBlock t n = if TFTP_DATA_SIZE ≤ d.length then .again t n else .finish t 0 := by
  have hsize : t.dataSize = ((min d.length TFTP_DATA_SIZE : Nat) : Int) := h
  unfold endOfBlock
  by_cases hfull : TFTP_DATA_SIZE ≤ d.length
  · rw [if_pos hfull, if_neg (by omega)]
  · rw [if_neg hfull, if_pos (by omega)]

theorem body_repeated (h : HasHeader (.packet src d)) (hreq : word16 d 0 = TFTP_CMD_WRQ ∧ n = 1) :
    processWriteBody H (recvFrom s (.packet src d)) n = .again (sendAck (recvFrom s (.packet src d)) 0) n := by
  rw [body_wrq H (Int.natCast_nonneg _) ((recv_header s h).1.trans hreq.1), if_pos hreq.2]

theorem body_ends (h : HasHeader (.packet src d)) (hdata : word16 d 0 ≠ TFTP_CMD_DATA)
    (hreq : ¬ (word16 d 0 = TFTP_CMD_WRQ ∧ n = 1)) :
    processWriteBody H (recvFrom s (.packet src d)) n = .finish (recvFrom s (.packet src d)) 1 := by
  have hcode := (recv_header s h).1
  exact body_foreign H (Int.natCast_nonneg _) (by rwa [hcode]) (by rwa [hcode])

/-- **A block with an old number** is acknowledged, and ends the session when it is short. -/
theorem body_old (h : HasHeader (.packet src d)) (hdata : word16 d 0 = TFTP_CMD_DATA) (hold : word16 d 2 < n) :
    processWriteBody H (recvFrom s (.packet src d)) n =
      if TFTP_DATA_SIZE ≤ d.length then .again (sendAck (recvFrom s (.packet src d)) (word16 d 2)) n
      else .finish (sendAck (recvFrom s (.packet src d)) (word16 d 2)) 0 := by
  obtain ⟨hcode, hnum⟩ := recv_header s h
  have hsize : (sendAck (recvFrom s (.packet src d)) (word16 d 2)).dataSize =
      (recvFrom s (.packet src d)).dataSize := rfl
  rw [body_dup H (Int.natCast_nonneg _) (hcode.trans hdata) (by rwa [hnum hdata]), hnum hdata, endOfBlock_recv hsize]

/-- **Any other number** is taken for the next block. -/
theorem body_taken (htotal : ∀ buffer len app, 0 ≤ len → H.onWriteData buffer len app ≠ none)
    (h : HasHeader (.packet src d)) (hdata : word16 d 0 = TFTP_CMD_DATA) (hnew : n ≤ word16 d 2) :
    ∃ t, processWriteBody H (recvFrom s (.packet src d)) n =
        (if TFTP_DATA_SIZE ≤ d.length then .again t (n + 1) else .finish t 0) ∧
      ∃ b, t.hist = recordBlock b s.hist ∧ b.num = word16 d 2 := by
  obtain ⟨hcode, hnum⟩ := recv_header s h
  have hlen : 0 ≤ (recvFrom s (.packet src d)).dataSize - 4 := by
    show 0 ≤ ((min d.length TFTP_DATA_SIZE : Nat) : Int) - 4
    have := h.2 hdata
    unfold TFTP_DATA_SIZE
    omega
  obtain ⟨⟨ret, app⟩, hcall⟩ := Option.ne_none_iff_exists'.1
    (htotal ((recvFrom s (.packet src d)).buffer.bytes.drop 4) _ (recvFrom s (.packet src d)).app hlen)
  rw [body_block H (Int.natCast_nonneg _) (hcode.trans hdata) (by rwa [hnum hdata]), hcall]
  refine ⟨_, @endOfBlock_recv σ s src d _ ?_ (n + 1), _, rfl, hnum hdata⟩
  rfl

end

/-! ## Sessions -/

section

variable {H : Handler σ} {s t : Srv σ} {n m : Nat} {e : Recv} {es : List Recv}

/-- What `InOrder` asks of the first packet. -/
def FirstInOrder (H : Handler σ) (s : Srv σ) (n : Nat) (e : Recv) : Prop :=
  Numbered s.blocks ∧ (IsData e → (writeSoFar H s n [e]).blocks = s.blocks → Ignored H s n e)

theorem inOrder_again (h : processWriteBody H (recvFrom s e) n = .again t m) :
    InOrder H s n (e :: es) ↔ FirstInOrder H s n e ∧ InOrder H { t with mode := .writing m } m es := by
  have hcons := writeSoFar_again H h
  constructor
  · rintro ⟨hnumbers, hothers⟩
    refine ⟨⟨hnumbers [] List.nil_prefix, hothers [] e ⟨es, rfl⟩ s n rfl⟩, ?_, ?_⟩
    · intro es' hes'
      rw [← hcons]
      exact hnumbers (e :: es') ((List.prefix_cons_inj e).2 hes')
    · intro es' e' hes' u k hu
      exact hothers (e :: es') e' ((List.prefix_cons_inj e).2 hes') u k ((hcons es').trans hu)
  · rintro ⟨⟨hfirst, hignored⟩, hnumbers, hothers⟩
    constructor
    · intro es' hes'
      cases es' with
      | nil => exact hfirst
      | cons a es' =>
        obtain ⟨rfl, hrest⟩ := List.cons_prefix_cons.1 hes'
        rw [hcons]
        exact hnumbers es' hrest
    · intro es' e' hes' u k hu
      cases es' with
      | nil =>
        obtain ⟨rfl, -⟩ := List.cons_prefix_cons.1 hes'
        cases hu
        exact hignored
      | cons a es' =>
        obtain ⟨rfl, hrest⟩ := List.cons_prefix_cons.1 hes'
        exact hothers es' e' hrest u k ((hcons es').symm.trans hu)

theorem inOrder_finish {result : Int} (h : processWriteBody H (recvFrom s e) n = .finish t result) :
    InOrder H s n (e :: es) ↔ FirstInOrder H s n e ∧ Numbered t.blocks := by
  have hcons := writeSoFar_finish H h
  constructor
  · rintro ⟨hnumbers, hothers⟩
    have hlast := hnumbers [e] ⟨es, rfl⟩
    rw [hcons] at hlast
    exact ⟨⟨hnumbers [] List.nil_prefix, hothers [] e ⟨es, rfl⟩ s n rfl⟩, hlast⟩
  · rintro ⟨⟨hfirst, hignored⟩, hlast⟩
    constructor
    · intro es' hes'
      cases es' with
      | nil => exact hfirst
      | cons a es' =>
        obtain ⟨rfl, -⟩ := List.cons_prefix_cons.1 hes'
        rw [hcons]
        exact hlast
    · intro es' e' hes' u k hu
      cases es' with
      | nil =>
        obtain ⟨rfl, -⟩ := List.cons_prefix_cons.1 hes'
        cases hu
        exact hignored
      | cons a es' =>
        obtain ⟨rfl, -⟩ := List.cons_prefix_cons.1 hes'
        rw [hcons] at hu
        cases hu

end

section

variable {H : Handler σ} {s : Srv σ} {n : Nat} {es : List Recv}

/-- A packet that is no block leaves it to the packets behind it. -/
theorem firstInOrder_other {e : Recv} (hnum : Numbered s.blocks) (h : ¬ IsData e) : FirstInOrder H s n e :=
  ⟨hnum, fun hdata => absurd hdata h⟩

theorem Next.recorded {t : Srv σ} (h : Next s n) {b : Block} (ht : t.hist = recordBlock b s.hist) : Next t (n + 1) := by
  obtain ⟨hopen, hlen⟩ := h
  refine ⟨?_, ?_⟩
  · rw [ht]
    exact hopen.recordBlock b
  · rw [blocks_recordBlock hopen ht, List.length_append, List.length_singleton, hlen]

/-- A block that is taken asks for its number only. -/
theorem firstInOrder_taken {e : Recv} {t : Srv σ} (h : Next s n) (hnum : Numbered s.blocks) {b : Block}
    (ht : t.hist = recordBlock b s.hist) (hblocks : (writeSoFar H s n [e]).blocks = t.blocks) : FirstInOrder H s n e := by
  refine ⟨hnum, fun _ hsame => ?_⟩
  rw [hblocks, blocks_recordBlock h.running ht, List.append_right_eq_self] at hsame
  cases hsame

theorem word16_lt (bytes : List UInt8) (off : Nat) : word16 bytes off < 65536 := by
  unfold word16
  have := (bytes.getD off 0).toNat_lt
  have := (bytes.getD (off + 1) 0).toNat_lt
  omega

/-- The number of a block that was taken is the right one when it is the next one. -/
theorem numbered_taken {t : Srv σ} (h : Next s n) (hnum : Numbered s.blocks) {b : Block}
    (ht : t.hist = recordBlock b s.hist) {d : Datagram} (hb : b.num = word16 d 2) (hnew : n ≤ word16 d 2) :
    Numbered t.blocks ↔ word16 d 2 = n := by
  have hlt := word16_lt d 2
  rw [blocks_recordBlock h.running ht, hnum.append_iff, h.length, hb, Nat.mod_eq_of_lt (by omega)]

/-- A packet that keeps the stored data and leaves the loop where it is. -/
theorem ignored_of_kept (hreads : H.ReadsLen) (hmode : s.mode = .writing n) {e : Recv} {t : Srv σ} (hkept : Kept s t)
    (hbody : processWriteBody H (recvFrom s e) n = .again t n) : Ignored H s n e := by
  intro es hes
  rw [writeSoFar_again H hbody]
  refine same_of_kept hreads ?_ es hes
  obtain ⟨b, size, c, o, rfl⟩ := hkept
  exact ⟨_, _, _, _, by rw [← hmode]⟩

/-- **A short copy of an earlier block is not ignored**: the session is over. -/
theorem not_ignored_of_finish {e : Recv} {t : Srv σ} {result : Int}
    (hbody : processWriteBody H (recvFrom s e) n = .finish t result) : ¬ Ignored H s n e := by
  intro h
  have hempty := h [] (fun _ he => absurd he List.not_mem_nil)
  rw [writeSoFar_finish H hbody] at hempty
  exact hempty

/-- The state in which the loop waits again. -/
def waiting (t : Srv σ) (n : Nat) : Srv σ := { t with mode := .writing n }

section

variable {src : Addr} {d : Datagram} (hd : HasHeader (.packet src d)) (hnum : Numbered s.blocks)
include hd hnum

theorem inOrder_repeated (hdata : word16 d 0 ≠ TFTP_CMD_DATA) (hreq : word16 d 0 = TFTP_CMD_WRQ ∧ n = 1) :
    InOrder H s n (.packet src d :: es) ↔ InOrder H (waiting (sendAck (recvFrom s (.packet src d)) 0) n) n es := by
  rw [inOrder_again (body_repeated H hd hreq)]
  exact and_iff_right (firstInOrder_other hnum hdata)

theorem inOrder_ends (hdata : word16 d 0 ≠ TFTP_CMD_DATA) (hreq : ¬ (word16 d 0 = TFTP_CMD_WRQ ∧ n = 1)) :
    InOrder H s n (.packet src d :: es) := by
  rw [inOrder_finish (body_ends H hd hdata hreq)]
  exact ⟨firstInOrder_other hnum hdata, hnum⟩

theorem inOrder_copy (hreads : H.ReadsLen) (hmode : s.mode = .writing n) (hdata : word16 d 0 = TFTP_CMD_DATA)
    (hold : word16 d 2 < n) (hfull : TFTP_DATA_SIZE ≤ d.length) :
    InOrder H s n (.packet src d :: es) ↔
      InOrder H (waiting (sendAck (recvFrom s (.packet src d)) (word16 d 2)) n) n es := by
  have hbody := body_old H (s := s) hd hdata hold
  rw [if_pos hfull] at hbody
  have hignored := ignored_of_kept hreads hmode (kept_sendAck s src d _) hbody
  rw [inOrder_again hbody]
  exact and_iff_right ⟨hnum, fun _ _ => hignored⟩

omit hnum in
theorem not_inOrder_short (hdata : word16 d 0 = TFTP_CMD_DATA) (hold : word16 d 2 < n)
    (hshort : ¬ TFTP_DATA_SIZE ≤ d.length) : ¬ InOrder H s n (.packet src d :: es) := by
  have hbody := body_old H (s := s) hd hdata hold
  rw [if_neg hshort] at hbody
  rw [inOrder_finish hbody]
  rintro ⟨⟨-, hignored⟩, -⟩
  refine not_ignored_of_finish hbody (hignored hdata ?_)
  rw [writeSoFar_finish H hbody]
  rfl

variable (htotal : ∀ buffer len app, 0 ≤ len → H.onWriteData buffer len app ≠ none) (h : Next s n)
include htotal h

/-- A full block that is taken has the right number, or the session is not in order. -/
theorem inOrder_block (hdata : word16 d 0 = TFTP_CMD_DATA) (hnew : n ≤ word16 d 2)
    (hfull : TFTP_DATA_SIZE ≤ d.length) (rest : List Recv) :
    ∃ t, Next t (n + 1) ∧ (Numbered t.blocks ↔ word16 d 2 = n) ∧
      (InOrder H s n (.packet src d :: rest) ↔ InOrder H (waiting t (n + 1)) (n + 1) rest) := by
  obtain ⟨t, hbody, b, ht, hb⟩ := body_taken H htotal (s := s) hd hdata hnew
  rw [if_pos hfull] at hbody
  have hblocks : (writeSoFar H s n [.packet src d]).blocks = t.blocks := by
    rw [writeSoFar_again H hbody]
    rfl
  refine ⟨t, h.recorded ht, numbered_taken h hnum ht hb hnew, ?_⟩
  rw [inOrder_again hbody]
  exact and_iff_right (firstInOrder_taken h hnum ht hblocks)

theorem inOrder_lastBlock (hdata : word16 d 0 = TFTP_CMD_DATA) (hnew : n ≤ word16 d 2)
    (hshort : ¬ TFTP_DATA_SIZE ≤ d.length) : InOrder H s n (.packet src d :: es) ↔ word16 d 2 = n := by
  obtain ⟨t, hbody, b, ht, hb⟩ := body_taken H htotal (s := s) hd hdata hnew
  rw [if_neg hshort] at hbody
  have hblocks : (writeSoFar H s n [.packet src d]).blocks = t.blocks := by
    rw [writeSoFar_finish H hbody]
    rfl
  rw [inOrder_finish hbody, numbered_taken h hnum ht hb hnew]
  exact and_iff_right (firstInOrder_taken h hnum ht hblocks)

end

/-- **From any point of a session on, the blocks are taken in order exactly when they come in turn.** -/
theorem inOrder_iff_inTurn (hreads : H.ReadsLen)
    (htotal : ∀ buffer len app, 0 ≤ len → H.onWriteData buffer len app ≠ none) (h : Next s n)
    (hmode : s.mode = .writing n) (hnum : Numbered s.blocks) (hes : ∀ e ∈ es, HasHeader e) :
    InOrder H s n es ↔ InTurn n es := by
  induction es generalizing s n with
  | nil =>
    refine ⟨fun _ => trivial, fun _ => ⟨?_, ?_⟩⟩
    · intro es' hes'
      rw [List.prefix_nil.1 hes']
      exact hnum
    · intro es' e hes'
      exact absurd (List.prefix_nil.1 hes') (List.append_ne_nil_of_right_ne_nil _ (List.cons_ne_nil _ _))
  | cons e es ih =>
    have hrest {t : Srv σ} {m : Nat} (ht : Next t m) (htnum : Numbered t.blocks) :
        InOrder H (waiting t m) m es ↔ InTurn m es :=
      ih ⟨ht.running, ht.length⟩ rfl htnum (fun e he => hes e (List.mem_cons_of_mem _ he))
    cases e with
    | timeout =>
      rw [inOrder_finish (body_timeout H s n)]
      exact ⟨fun _ => trivial, fun _ => ⟨firstInOrder_other hnum id, hnum⟩⟩
    | packet src d =>
      have hd := hes _ List.mem_cons_self
      have hack := fun k => h.kept (kept_sendAck s src d k)
      by_cases hdata : word16 d 0 = TFTP_CMD_DATA
      · rw [InTurn, if_pos hdata]
        by_cases hold : word16 d 2 < n
        · have hne : ¬ word16 d 2 = n := Nat.ne_of_lt hold
          by_cases hfull : TFTP_DATA_SIZE ≤ d.length
          · rw [inOrder_copy hd hnum hreads hmode hdata hold hfull, hrest (hack _) hnum]
            simp only [hne, hold, hfull, false_and, true_and, false_or]
          · simp only [not_inOrder_short hd hdata hold hfull, hne, hfull, false_and, and_false, or_false]
        · have hnew : n ≤ word16 d 2 := Nat.not_lt.1 hold
          by_cases hfull : TFTP_DATA_SIZE ≤ d.length
          · obtain ⟨t, hnext, hright, hin⟩ := inOrder_block hd hnum htotal h hdata hnew hfull es
            rw [hin]
            simp only [hold, hfull, false_and, or_false, forall_const]
            constructor
            · intro hin
              have hnum' : Numbered t.blocks := hin.numbers [] List.nil_prefix
              exact ⟨hright.1 hnum', (hrest hnext hnum').1 hin⟩
            · rintro ⟨heq, hturn⟩
              exact (hrest hnext (hright.2 heq)).2 hturn
          · rw [inOrder_lastBlock hd hnum htotal h hdata hnew hfull]
            simp only [hold, hfull, false_and, or_false, false_implies, and_true]
      · rw [InTurn, if_neg hdata]
        by_cases hreq : word16 d 0 = TFTP_CMD_WRQ ∧ n = 1
        · rw [inOrder_repeated hd hnum hdata hreq, hrest (hack _) hnum]
          exact ⟨fun hturn _ => hturn, fun hturn => hturn hreq⟩
        · exact ⟨fun _ hr => absurd hr hreq, fun _ => inOrder_ends hd hnum hdata hreq⟩

end

/-- **When the blocks of a session are accepted in order without gaps**: every DATA packet of the session is the next
block or a full copy of an earlier one. -/
theorem blocks_inOrder_iff (env : OtaEnv φ) {s : Srv (Ota φ)} (hopen : Opened s) {es : List Recv}
    (hes : ∀ e ∈ es, HasHeader e) : InOrder (otaServer env) s 1 es ↔ InTurn 1 es := by
  obtain ⟨hnext, hnum⟩ := hopen.next
  exact inOrder_iff_inTurn (otaServer_readsLen env) (fun buffer len app => onWriteData_ne_none env buffer len app) hnext
    hopen.mode hnum hes

/-- A session for `cfg.cfg`. -/
def openedCfg : Srv (Ota Unit) :=
  parseRq (otaServer stockEnv) (stockServer loadedStore (xrqPacket TFTP_CMD_WRQ cfgName)) (-1)

theorem openedCfg_opened : Opened openedCfg :=
  parseRq_opened (n := 1) (otaServer stockEnv) _ (-1) (by decide +kernel)

def fullBlock (n : Nat) : Recv := .packet 1 (dataBytes n (List.replicate 512 0))

/-- The first block comes twice. -/
theorem blocks_inOrder_copy :
    InOrder (otaServer stockEnv) openedCfg 1 [fullBlock 1, fullBlock 1, .packet 1 (dataBytes 2 [7])] :=
  (blocks_inOrder_iff stockEnv openedCfg_opened (by decide +kernel)).2 (by decide +kernel)

/-- Block 2 is taken for block 1, and a short copy of block 1 ends the session. -/
theorem blocks_outOfOrder :
    ¬ InOrder (otaServer stockEnv) openedCfg 1 [.packet 1 (dataBytes 2 [7])] ∧
      ¬ InOrder (otaServer stockEnv) openedCfg 1 [fullBlock 1, .packet 1 (dataBytes 1 [7])] := by
  obtain ⟨hnext, hnum⟩ := openedCfg_opened.next
  have hturn {es : List Recv} (hes : ∀ e ∈ es, HasHeader e) : InOrder (otaServer stockEnv) openedCfg 1 es ↔ InTurn 1 es :=
    inOrder_iff_inTurn (otaServer_readsLen stockEnv) (fun buffer len app => onWriteData_ne_none stockEnv buffer len app)
      hnext openedCfg_opened.mode hnum hes
  rw [hturn (by decide +kernel), hturn (by decide +kernel)]
  decide +kernel

end Mstd.Tftp
