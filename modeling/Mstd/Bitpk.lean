import Mathlib.Data.List.Chain
import Mstd.LittleEndian
/-!
# The packer of FPGA bit files (`bitpk.py`)

`load_segment_1` cuts the file into runs of zeros and runs of other bytes, `load_segment_2` puts short runs of zeros
into the data before them, `pack` writes the segments without their types.  A segment stands for its bytes, and both
generators keep what the file stands for; `unpack` gets the types back from the order alone.
-/
namespace Mstd.Bitpk

/-- A pair of the generators: `0, length` or `1, bytes`. -/
inductive Segment where
  | zeros (length : Nat)
  | data (bytes : List UInt8)
  deriving DecidableEq

/-- `tp`, with 1 as `true`. -/
def Segment.tp : Segment → Bool
  | .zeros _ => false
  | .data _  => true

/-! ## `load_segment_1` -/

/-- The inner loop on zeros, `length` of them read: their number, and the file from the byte that ended the loop on. -/
def zeroRun (length : Nat) : List UInt8 → Nat × List UInt8
  | []        => (length, [])
  | b :: rest => if b ≠ 0 then (length, b :: rest) else zeroRun (length + 1) rest

/-- The inner loop on other bytes. -/
def dataRun (result : List UInt8) : List UInt8 → List UInt8 × List UInt8
  | []        => (result, [])
  | b :: rest => if b = 0 then (result, b :: rest) else dataRun (result ++ [b]) rest

theorem length_zeroRun : ∀ (length : Nat) (file : List UInt8), (zeroRun length file).2.length ≤ file.length
  | _, []          => Nat.le_refl 0
  | length, b :: rest => by
    rw [zeroRun]
    split
    · exact Nat.le_refl _
    · exact Nat.le_succ_of_le (length_zeroRun (length + 1) rest)

theorem length_dataRun : ∀ (result file : List UInt8), (dataRun result file).2.length ≤ file.length
  | _, []          => Nat.le_refl 0
  | result, b :: rest => by
    rw [dataRun]
    split
    · exact Nat.le_refl _
    · exact Nat.le_succ_of_le (length_dataRun (result ++ [b]) rest)

def loadSegment1 : List UInt8 → List Segment
  | []        => []
  | b :: rest =>
    if b = 0 then .zeros (zeroRun 1 rest).1 :: loadSegment1 (zeroRun 1 rest).2
    else .data (dataRun [b] rest).1 :: loadSegment1 (dataRun [b] rest).2
termination_by file => file.length
decreasing_by
  · exact Nat.lt_succ_of_le (length_zeroRun 1 rest)
  · exact Nat.lt_succ_of_le (length_dataRun [b] rest)

/-! ## `load_segment_2` -/

def loadSegment2From (pending : List UInt8) : List Segment → List Segment
  | []                   => if pending ≠ [] then [.data pending] else []
  | .data bytes :: segs  => loadSegment2From (pending ++ bytes) segs
  | .zeros n :: segs     =>
    if n ≤ 3 ∧ pending ≠ [] then loadSegment2From (pending ++ List.replicate n 0) segs
    else if pending ≠ [] then .data pending :: .zeros n :: loadSegment2From [] segs
    else .zeros n :: loadSegment2From pending segs

def loadSegment2 (file : List UInt8) : List Segment := loadSegment2From [] (loadSegment1 file)

/-! ## `pack` and `unpack` -/

/-- What `pack` can raise: its `assert`, and `length.to_bytes(2)` on a length of more than 16 bits. -/
inductive Raised where
  | assertionError
  | overflowError
  deriving DecidableEq

/-- The length of a segment as it is written. -/
def lengthBytes (length : Nat) : Except Raised (List UInt8) :=
  if length ≥ 255 then
    if length < 65536 then .ok (0xFF :: LittleEndian.encode 2 length) else .error .overflowError
  else .ok (LittleEndian.encode 1 length)

/-- The bytes that `pack` writes for a segment. -/
def segmentBytes : Segment → Except Raised (List UInt8)
  | .zeros n    => lengthBytes n
  | .data bytes => (lengthBytes bytes.length).map (· ++ bytes)

/-- The loop of `pack`, entered with `last_type`. -/
def packFrom (lastType : Bool) : List Segment → Except Raised (List UInt8)
  | []          => .ok []
  | seg :: segs =>
    if lastType = seg.tp then .error .assertionError
    else
      match segmentBytes seg with
      | .error e  => .error e
      | .ok bytes => (packFrom seg.tp segs).map (bytes ++ ·)

def pack (file : List UInt8) : Except Raised (List UInt8) := packFrom false (loadSegment2 file)

/-- The length that `unpack` reads behind the byte `b`, and the rest of the file. -/
def readLength (b : UInt8) (rest : List UInt8) : Nat × List UInt8 :=
  if b = 255 then (LittleEndian.decode (rest.take 2), rest.drop 2) else (b.toNat, rest)

theorem length_readLength (b : UInt8) (rest : List UInt8) : (readLength b rest).2.length ≤ rest.length := by
  unfold readLength
  split
  · rw [List.length_drop]; exact Nat.sub_le _ _
  · exact Nat.le_refl _

/-- The loop of `unpack`, entered with `cur_type`. -/
def unpackFrom (curType : Bool) : List UInt8 → List UInt8
  | []        => []
  | b :: rest =>
    if curType then
      (readLength b rest).2.take (readLength b rest).1 ++
        unpackFrom (!curType) ((readLength b rest).2.drop (readLength b rest).1)
    else List.replicate (readLength b rest).1 0 ++ unpackFrom (!curType) (readLength b rest).2
termination_by file => file.length
decreasing_by
  · rw [List.length_drop]
    exact Nat.lt_succ_of_le (Nat.le_trans (Nat.sub_le _ _) (length_readLength b rest))
  · exact Nat.lt_succ_of_le (length_readLength b rest)

def unpack (file : List UInt8) : List UInt8 := unpackFrom true file

/-! ## What segments stand for -/

def Segment.bytes : Segment → List UInt8
  | .zeros n    => List.replicate n 0
  | .data bytes => bytes

theorem zeroRun_bytes : ∀ (length : Nat) (file : List UInt8),
    List.replicate (zeroRun length file).1 0 ++ (zeroRun length file).2 = List.replicate length 0 ++ file
  | _, []             => rfl
  | length, b :: rest => by
    rw [zeroRun]
    split
    · rfl
    · rename_i hb
      rw [zeroRun_bytes (length + 1) rest, not_not.1 hb, List.replicate_succ', List.append_assoc]
      rfl

theorem dataRun_bytes : ∀ (result file : List UInt8),
    (dataRun result file).1 ++ (dataRun result file).2 = result ++ file
  | _, []             => rfl
  | result, b :: rest => by
    rw [dataRun]
    split
    · rfl
    · rw [dataRun_bytes (result ++ [b]) rest, List.append_assoc]
      rfl

/-- **The runs are the file.** -/
theorem loadSegment1_bytes (file : List UInt8) : (loadSegment1 file).flatMap Segment.bytes = file := by
  fun_induction loadSegment1 file with
  | case1 => rfl
  | case2 rest ih =>
    rw [List.flatMap_cons, ih]
    exact zeroRun_bytes 1 rest
  | case3 b rest hb ih =>
    rw [List.flatMap_cons, ih]
    exact dataRun_bytes [b] rest

/-- Merging short runs keeps what the segments stand for. -/
theorem loadSegment2From_bytes : ∀ (pending : List UInt8) (segs : List Segment),
    (loadSegment2From pending segs).flatMap Segment.bytes = pending ++ segs.flatMap Segment.bytes
  | pending, [] => by
    rw [loadSegment2From]
    by_cases h : pending = []
    · simp [h]
    · simp [h, Segment.bytes]
  | pending, .data bytes :: segs => by
    rw [loadSegment2From, loadSegment2From_bytes (pending ++ bytes) segs, List.append_assoc]
    rfl
  | pending, .zeros n :: segs => by
    rw [loadSegment2From]
    by_cases h : pending = []
    · subst h
      simp [loadSegment2From_bytes [] segs, Segment.bytes]
    · by_cases hn : n ≤ 3
      · rw [if_pos ⟨hn, h⟩, loadSegment2From_bytes _ segs, List.append_assoc]
        rfl
      · simp [hn, h, loadSegment2From_bytes [] segs, Segment.bytes]

theorem loadSegment2_bytes (file : List UInt8) : (loadSegment2 file).flatMap Segment.bytes = file := by
  rw [loadSegment2, loadSegment2From_bytes, loadSegment1_bytes, List.nil_append]

/-! ## Alternation -/

/-- Data and zeros take turns. -/
def Alternates (segs : List Segment) : Prop := segs.IsChain (fun a b => a.tp ≠ b.tp)

theorem head_zeroRun : ∀ (length : Nat) (file : List UInt8), ∀ b ∈ (zeroRun length file).2.head?, b ≠ 0
  | _, []             => fun b hb => by cases hb
  | length, c :: rest => by
    rw [zeroRun]
    split
    · rename_i hc
      intro b hb
      cases hb
      exact hc
    · exact head_zeroRun (length + 1) rest

theorem head_dataRun : ∀ (result file : List UInt8), ∀ b ∈ (dataRun result file).2.head?, b = 0
  | _, []             => fun b hb => by cases hb
  | result, c :: rest => by
    rw [dataRun]
    split
    · rename_i hc
      intro b hb
      cases hb
      exact hc
    · exact head_dataRun (result ++ [c]) rest

/-- The first run has the type of the first byte. -/
theorem head_loadSegment1 (file : List UInt8) :
    (loadSegment1 file).head?.map Segment.tp = file.head?.map (fun b => !(b == 0)) := by
  cases file with
  | nil => rw [loadSegment1]; rfl
  | cons b rest =>
    rw [loadSegment1]
    by_cases hb : b = 0
    · simp [hb, Segment.tp]
    · simp [hb, Segment.tp]

theorem alternates_loadSegment1 (file : List UInt8) : Alternates (loadSegment1 file) := by
  fun_induction loadSegment1 file with
  | case1 => exact List.IsChain.nil
  | case2 rest ih =>
    refine List.isChain_cons.2 ⟨fun s hs => ?_, ih⟩
    have hhead := head_loadSegment1 (zeroRun 1 rest).2
    rw [hs] at hhead
    obtain ⟨b, hb, htp⟩ := Option.map_eq_some_iff.1 hhead.symm
    rw [← htp, beq_false_of_ne (head_zeroRun 1 rest b hb)]
    exact Bool.false_ne_true
  | case3 c rest hc ih =>
    refine List.isChain_cons.2 ⟨fun s hs => ?_, ih⟩
    have hhead := head_loadSegment1 (dataRun [c] rest).2
    rw [hs] at hhead
    obtain ⟨b, hb, htp⟩ := Option.map_eq_some_iff.1 hhead.symm
    rw [← htp, head_dataRun [c] rest b hb]
    exact Bool.false_ne_true.symm

theorem dataRun_ne_nil : ∀ {result : List UInt8} (file : List UInt8), result ≠ [] → (dataRun result file).1 ≠ []
  | _, [], h             => h
  | result, b :: rest, h => by
    rw [dataRun]
    split
    · exact h
    · exact dataRun_ne_nil rest (by simp)

theorem data_loadSegment1 (file : List UInt8) : Segment.data [] ∉ loadSegment1 file := by
  fun_induction loadSegment1 file with
  | case1 => exact List.not_mem_nil
  | case2 rest ih => simpa using ih
  | case3 b rest hb ih =>
    rw [List.mem_cons, not_or]
    exact ⟨fun h => dataRun_ne_nil rest (by simp) (Segment.data.inj h).symm, ih⟩

/-- **The merged segments alternate**, and they start with data when some is pending. -/
theorem alternates_loadSegment2From : ∀ (pending : List UInt8) (segs : List Segment), Alternates segs →
    Segment.data [] ∉ segs →
    Alternates (loadSegment2From pending segs) ∧
      (loadSegment2From pending segs).head?.map Segment.tp =
        if pending = [] then segs.head?.map Segment.tp else some true
  | pending, [], _, _ => by
    rw [loadSegment2From]
    by_cases h : pending = []
    · simp [h, Alternates]
    · simp [h, Alternates, Segment.tp]
  | pending, .data bytes :: segs, halt, hdata => by
    have hbytes : bytes ≠ [] := fun h => hdata (by simp [h])
    obtain ⟨ha, hh⟩ := alternates_loadSegment2From (pending ++ bytes) segs halt.tail
      (fun h => hdata (List.mem_cons_of_mem _ h))
    rw [loadSegment2From]
    refine ⟨ha, ?_⟩
    rw [hh, if_neg (by simp [hbytes])]
    split <;> rfl
  | pending, .zeros n :: segs, halt, hdata => by
    have hrest : Segment.data [] ∉ segs := fun h => hdata (List.mem_cons_of_mem _ h)
    -- behind a run of zeros that stays the next segment is the next run, which is data
    have hzeros : Alternates (.zeros n :: loadSegment2From [] segs) := by
      obtain ⟨ha, hh⟩ := alternates_loadSegment2From [] segs halt.tail hrest
      rw [if_pos rfl] at hh
      refine List.isChain_cons.2 ⟨fun s hs => ?_, ha⟩
      rw [hs] at hh
      obtain ⟨t, ht, htp⟩ := Option.map_eq_some_iff.1 hh.symm
      rw [← htp]
      exact (List.isChain_cons.1 halt).1 t ht
    rw [loadSegment2From]
    by_cases h : pending = []
    · subst h
      rw [if_neg (fun h => h.2 rfl), if_neg (fun h => h rfl), if_pos rfl]
      exact ⟨hzeros, rfl⟩
    · rw [if_neg h]
      by_cases hn : n ≤ 3
      · rw [if_pos ⟨hn, h⟩]
        obtain ⟨ha, hh⟩ := alternates_loadSegment2From (pending ++ List.replicate n 0) segs halt.tail hrest
        exact ⟨ha, by rw [hh, if_neg (by simp [h])]⟩
      · rw [if_neg (fun hc => hn hc.1), if_pos h]
        exact ⟨List.isChain_cons_cons.2 ⟨Bool.false_ne_true.symm, hzeros⟩, rfl⟩

theorem alternates_loadSegment2 (file : List UInt8) : Alternates (loadSegment2 file) :=
  (alternates_loadSegment2From [] _ (alternates_loadSegment1 file) (data_loadSegment1 file)).1

/-! ## The round trip -/

/-- **Every length of up to 16 bits is written so that it is read back**, with the file behind it. -/
theorem readLength_lengthBytes {n : Nat} (hfit : n < 65536) :
    ∃ b more, lengthBytes n = .ok (b :: more) ∧ ∀ rest, readLength b (more ++ rest) = (n, rest) := by
  unfold lengthBytes
  by_cases hlong : n ≥ 255
  · rw [if_pos hlong, if_pos hfit]
    refine ⟨0xFF, LittleEndian.encode 2 n, rfl, fun rest => ?_⟩
    have hlen := LittleEndian.length_encode 2 n
    rw [readLength, if_pos rfl, List.take_left' hlen, List.drop_left' hlen, LittleEndian.decode_encode 2 n hfit]
  · rw [if_neg hlong]
    refine ⟨UInt8.ofNat n, [], rfl, fun rest => ?_⟩
    have hn : (UInt8.ofNat n).toNat = n := by
      rw [UInt8.toNat_ofNat']
      omega
    have hne : UInt8.ofNat n ≠ 255 := fun h255 => by
      rw [h255] at hn
      exact hlong (Nat.le_of_eq hn)
    rw [List.nil_append, readLength, if_neg hne, hn]

theorem lt_of_lengthBytes {n : Nat} {bytes : List UInt8} (h : lengthBytes n = .ok bytes) : n < 65536 := by
  unfold lengthBytes at h
  split at h
  · split at h
    · assumption
    · cases h
  · omega

theorem unpackFrom_segment {seg : Segment} {bytes : List UInt8} (h : segmentBytes seg = .ok bytes)
    (rest : List UInt8) : unpackFrom seg.tp (bytes ++ rest) = seg.bytes ++ unpackFrom (!seg.tp) rest := by
  cases seg with
  | zeros n =>
    obtain ⟨b, more, hb, hread⟩ := readLength_lengthBytes (lt_of_lengthBytes h)
    obtain rfl := Except.ok.inj (hb.symm.trans h)
    rw [List.cons_append, Segment.tp, unpackFrom, if_neg Bool.false_ne_true, hread]
    rfl
  | data block =>
    rw [segmentBytes] at h
    cases hl : lengthBytes block.length with
    | error e => rw [hl] at h; cases h
    | ok lb =>
      obtain ⟨b, more, hb, hread⟩ := readLength_lengthBytes (lt_of_lengthBytes hl)
      rw [hb] at h
      have hbytes : bytes = b :: (more ++ block) := (Except.ok.inj h).symm
      rw [hbytes, List.cons_append, List.append_assoc, Segment.tp, unpackFrom, if_pos rfl, hread]
      simp only [List.take_left', List.drop_left']
      rfl

theorem packFrom_cons {lastType : Bool} {seg : Segment} {segs : List Segment} {packed : List UInt8}
    (h : packFrom lastType (seg :: segs) = .ok packed) :
    ∃ bytes rest, segmentBytes seg = .ok bytes ∧ packFrom seg.tp segs = .ok rest ∧ packed = bytes ++ rest ∧
      lastType ≠ seg.tp := by
  rw [packFrom] at h
  by_cases htp : lastType = seg.tp
  · rw [if_pos htp] at h
    cases h
  · rw [if_neg htp] at h
    cases hs : segmentBytes seg with
    | error e => rw [hs] at h; cases h
    | ok bytes =>
      rw [hs] at h
      cases hp : packFrom seg.tp segs with
      | error e => rw [hp] at h; cases h
      | ok rest =>
        rw [hp] at h
        exact ⟨bytes, rest, rfl, rfl, (Except.ok.inj h).symm, htp⟩

theorem unpackFrom_packFrom : ∀ (lastType : Bool) (segs : List Segment) (packed : List UInt8),
    packFrom lastType segs = .ok packed → unpackFrom (!lastType) packed = segs.flatMap Segment.bytes
  | _, [], packed, h => by
    obtain rfl := Except.ok.inj h
    rw [unpackFrom]
    rfl
  | lastType, seg :: segs, packed, h => by
    obtain ⟨bytes, rest, hs, hp, rfl, htp⟩ := packFrom_cons h
    have hcur : (!lastType) = seg.tp := by cases lastType <;> cases hseg : seg.tp <;> simp_all
    rw [hcur, unpackFrom_segment hs, unpackFrom_packFrom seg.tp segs rest hp, List.flatMap_cons]

/-- **What `pack` writes `unpack` turns back into the file.**  The segments alternate, which is all that tells their
types apart, and every length that can be written is read back. -/
theorem unpack_pack (file : List UInt8) :
    Alternates (loadSegment2 file) ∧
      (∀ n < 65536, ∃ b more, lengthBytes n = .ok (b :: more) ∧ ∀ rest, readLength b (more ++ rest) = (n, rest)) ∧
      ∀ packed, pack file = .ok packed → unpack packed = file :=
  ⟨alternates_loadSegment2 file, fun _ hfit => readLength_lengthBytes hfit,
    fun packed h => (unpackFrom_packFrom false _ packed h).trans (loadSegment2_bytes file)⟩

/-- A short run of zeros inside data, and a long one. -/
theorem unpack_pack_runs : unpack [4, 7, 0, 0, 8, 5, 1, 9] = [7, 0, 0, 8, 0, 0, 0, 0, 0, 9] :=
  (unpack_pack [7, 0, 0, 8, 0, 0, 0, 0, 0, 9]).2.2 [4, 7, 0, 0, 8, 5, 1, 9] (by
    simp [pack, loadSegment2, loadSegment1, zeroRun, dataRun, loadSegment2From, packFrom, segmentBytes, lengthBytes,
      Segment.tp, LittleEndian.encode, Except.map])

end Mstd.Bitpk
