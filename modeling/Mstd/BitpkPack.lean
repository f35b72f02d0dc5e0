import Mstd.Bitpk
/-!
# Which files the packer takes (`bitpk.py`, `pack`)

The segments of a file that does not begin with a zero are `Canonical`: runs of at least four zeros, and between them data
without four zeros in a row.  From that follow which files are packed (`pack_finishes_iff`) and how long the result is
(`length_pack`).
-/
namespace Mstd.Bitpk

/-! ## Infixes of zeros -/

/-- Part of two lists is part of one of them, or lies across both. -/
theorem append_split {pre w post a b : List UInt8} (h : pre ++ w ++ post = a ++ b) :
    (∃ p, a = pre ++ w ++ p) ∨ (∃ p, b = p ++ w ++ post) ∨
      ∃ u v, w = u ++ v ∧ u ≠ [] ∧ v ≠ [] ∧ a = pre ++ u ∧ b = v ++ post := by
  rw [List.append_assoc] at h
  rcases List.append_eq_append_iff.1 h with ⟨u, ha, hrest⟩ | ⟨p, -, hb⟩
  · rcases List.append_eq_append_iff.1 hrest with ⟨p, hu, -⟩ | ⟨v, hw, hb⟩
    · exact .inl ⟨p, by rw [ha, hu, List.append_assoc]⟩
    · by_cases hu : u = []
      · exact .inr (.inl ⟨[], by rw [hb, hw, hu]; rfl⟩)
      by_cases hv : v = []
      · exact .inl ⟨[], by rw [ha, hw, hv, List.append_nil, List.append_nil]⟩
      exact .inr (.inr ⟨u, v, hw, hu, hv, ha, hb⟩)
  · exact .inr (.inl ⟨p, by rw [hb, List.append_assoc]⟩)

def zeros (n : Nat) : List UInt8 := List.replicate n 0

theorem mem_zeros {n : Nat} {b : UInt8} (h : b ∈ zeros n) : b = 0 := List.eq_of_mem_replicate h

theorem head?_eq_zero {l : List UInt8} (hne : l ≠ []) (h : ∀ b ∈ l, b = 0) : l.head? = some 0 := by
  cases l with
  | nil => exact absurd rfl hne
  | cons b l => exact congrArg some (h b (List.mem_cons_self ..))

theorem getLast?_eq_zero {l : List UInt8} (hne : l ≠ []) (h : ∀ b ∈ l, b = 0) : l.getLast? = some 0 := by
  rw [List.getLast?_eq_some_getLast hne]
  exact congrArg some (h _ (List.getLast_mem hne))

/-- Zeros do not lie across two lists where one of them has another byte at the edge. -/
theorem zeros_infix_append {n : Nat} {a b : List UInt8} (h : zeros n <:+: a ++ b)
    (hedge : a.getLast? ≠ some 0 ∨ b.head? ≠ some 0) : zeros n <:+: a ∨ zeros n <:+: b := by
  obtain ⟨pre, post, h⟩ := h
  rcases append_split h with ⟨p, rfl⟩ | ⟨p, rfl⟩ | ⟨u, v, huv, hu, hv, rfl, rfl⟩
  · exact .inl (List.infix_append ..)
  · exact .inr (List.infix_append ..)
  · have hzero : ∀ b ∈ u ++ v, b = 0 := fun b hb => mem_zeros (huv ▸ hb)
    have hlast := getLast?_eq_zero hu (fun b hb => hzero b (List.mem_append_left v hb))
    have hhead := head?_eq_zero hv (fun b hb => hzero b (List.mem_append_right u hb))
    rcases hedge with hedge | hedge
    · rw [List.getLast?_append_of_ne_nil _ hu] at hedge
      exact absurd hlast hedge
    · rw [List.head?_append_of_ne_nil _ hv] at hedge
      exact absurd hhead hedge

/-! ## Canonical segments -/

/-- Data that begins with another byte than zero and has no four zeros in a row. -/
structure Dense (bytes : List UInt8) : Prop where
  ne : bytes ≠ []
  head : bytes.head? ≠ some 0
  sparse : ¬ zeros 4 <:+: bytes

/-- Data and long runs of zeros in turn; data before a run ends in another byte. -/
def Canonical : List Segment → Prop
  | []                   => True
  | .zeros n :: segs     => 4 ≤ n ∧ segs.head?.map Segment.tp ≠ some false ∧ Canonical segs
  | .data bytes :: segs  => Dense bytes ∧ (segs ≠ [] → segs.head?.map Segment.tp = some false ∧ bytes.getLast? ≠ some 0) ∧
      Canonical segs

theorem dense_zeros_append {bytes : List UInt8} (h : Dense bytes) (hlast : bytes.getLast? ≠ some 0) {n : Nat} (hn : n ≤ 3) :
    Dense (bytes ++ zeros n) := by
  refine ⟨by simp [h.ne], ?_, fun hin => ?_⟩
  · rw [List.head?_append_of_ne_nil _ h.ne]
    exact h.head
  · rcases zeros_infix_append hin (.inl hlast) with hin | hin
    · exact h.sparse hin
    · have hlen := hin.length_le
      simp only [zeros, List.length_replicate] at hlen
      omega

/-- Bytes of a run that is no zeros, behind what is pending. -/
theorem dense_append {pending bytes : List UInt8} (h : pending = [] ∨ Dense pending) (hne : bytes ≠ [])
    (hbytes : ∀ b ∈ bytes, b ≠ 0) : Dense (pending ++ bytes) ∧ (pending ++ bytes).getLast? ≠ some 0 := by
  have hhead : bytes.head? ≠ some 0 := fun h0 => hbytes 0 (List.mem_of_mem_head? h0) rfl
  have hsparse : ¬ zeros 4 <:+: bytes := fun hin => hbytes 0 (hin.subset (by simp [zeros])) rfl
  refine ⟨⟨by simp [hne], ?_, fun hin => ?_⟩, fun h0 => ?_⟩
  · rcases h with rfl | h
    · exact hhead
    · rw [List.head?_append_of_ne_nil _ h.ne]
      exact h.head
  · rcases zeros_infix_append hin (.inr hhead) with hin | hin
    · rcases h with rfl | h
      · exact absurd hin.length_le (by simp [zeros])
      · exact h.sparse hin
    · exact hsparse hin
  · rw [List.getLast?_append_of_ne_nil _ hne] at h0
    exact hbytes 0 (List.mem_of_getLast? h0) rfl

/-- A run as `load_segment_1` cuts it. -/
def Segment.Run : Segment → Prop
  | .zeros n    => 1 ≤ n
  | .data bytes => bytes ≠ [] ∧ ∀ b ∈ bytes, b ≠ 0

theorem le_zeroRun : ∀ (length : Nat) (file : List UInt8), length ≤ (zeroRun length file).1
  | _, []             => Nat.le_refl _
  | length, b :: rest => by
    rw [zeroRun]
    split
    · exact Nat.le_refl _
    · exact Nat.le_of_succ_le (le_zeroRun (length + 1) rest)

theorem dataRun_ne_zero : ∀ {result : List UInt8} (file : List UInt8), (∀ b ∈ result, b ≠ 0) →
    ∀ b ∈ (dataRun result file).1, b ≠ 0
  | _, [], h             => h
  | result, c :: rest, h => by
    rw [dataRun]
    split
    · exact h
    · rename_i hc
      refine dataRun_ne_zero rest (fun b hb => ?_)
      rcases List.mem_append.1 hb with hb | hb
      · exact h b hb
      · exact List.mem_singleton.1 hb ▸ hc

theorem run_loadSegment1 (file : List UInt8) : ∀ s ∈ loadSegment1 file, s.Run := by
  fun_induction loadSegment1 file with
  | case1 => simp
  | case2 rest ih => exact List.forall_mem_cons.2 ⟨le_zeroRun 1 rest, ih⟩
  | case3 b rest hb ih =>
    exact List.forall_mem_cons.2 ⟨⟨dataRun_ne_nil rest (by simp), dataRun_ne_zero rest (by simpa using hb)⟩, ih⟩

/-- What is pending before the runs `segs`. -/
structure Pending (pending : List UInt8) (segs : List Segment) : Prop where
  empty : pending = [] → segs.head?.map Segment.tp ≠ some false
  dense : pending ≠ [] → Dense pending
  last : segs.head?.map Segment.tp = some false → pending.getLast? ≠ some 0

theorem tp_head {a : Segment} {segs : List Segment} (h : Alternates (a :: segs)) : segs.head?.map Segment.tp ≠ some a.tp := by
  cases segs with
  | nil => simp
  | cons b segs => exact fun hb => (List.isChain_cons_cons.1 h).1 (Option.some.inj hb).symm

/-- **The merged segments are canonical**, unless the file begins with zeros. -/
theorem canonical_loadSegment2From : ∀ (pending : List UInt8) (segs : List Segment), Alternates segs → (∀ s ∈ segs, s.Run) →
    Pending pending segs → Canonical (loadSegment2From pending segs)
  | pending, [], _, _, hp => by
    rw [loadSegment2From]
    by_cases h : pending = []
    · simp [h, Canonical]
    · simp [h, Canonical, hp.dense h]
  | pending, .data bytes :: segs, halt, hrun, hp => by
    obtain ⟨hne, hbytes⟩ : (Segment.data bytes).Run := hrun _ (List.mem_cons_self ..)
    obtain ⟨hdense, hlast⟩ := dense_append (Classical.or_iff_not_imp_left.2 hp.dense) hne hbytes
    rw [loadSegment2From]
    exact canonical_loadSegment2From _ segs halt.tail (fun s hs => hrun s (List.mem_cons_of_mem _ hs))
      ⟨fun h => absurd h hdense.ne, fun _ => hdense, fun _ => hlast⟩
  | pending, .zeros n :: segs, halt, hrun, hp => by
    have hne : pending ≠ [] := fun h => hp.empty h rfl
    have hrest : ∀ s ∈ segs, s.Run := fun s hs => hrun s (List.mem_cons_of_mem _ hs)
    have hnext : segs.head?.map Segment.tp ≠ some false := tp_head halt
    rw [loadSegment2From]
    by_cases hn : n ≤ 3
    · rw [if_pos ⟨hn, hne⟩]
      exact canonical_loadSegment2From _ segs halt.tail hrest
        ⟨fun _ => hnext, fun _ => dense_zeros_append (hp.dense hne) (hp.last rfl) hn, fun h => absurd h hnext⟩
    · rw [if_neg (fun h => hn h.1), if_pos hne]
      have hcanon := canonical_loadSegment2From [] segs halt.tail hrest
        ⟨fun _ => hnext, fun h => absurd rfl h, fun h => absurd h hnext⟩
      have hhead := (alternates_loadSegment2From [] segs halt.tail (fun h => (hrest _ h).1 rfl)).2
      rw [if_pos rfl] at hhead
      exact ⟨hp.dense hne, fun _ => ⟨rfl, hp.last rfl⟩, Nat.lt_of_not_le hn, hhead ▸ hnext, hcanon⟩

theorem head_loadSegment2 (file : List UInt8) :
    (loadSegment2 file).head?.map Segment.tp = file.head?.map (fun b => !(b == 0)) := by
  have hhead := (alternates_loadSegment2From [] _ (alternates_loadSegment1 file) (data_loadSegment1 file)).2
  rw [if_pos rfl] at hhead
  exact hhead.trans (head_loadSegment1 file)

theorem head_ne_false_iff {file : List UInt8} : file.head?.map (fun b => !(b == 0)) ≠ some false ↔ file.head? ≠ some 0 := by
  cases file <;> simp

theorem canonical_loadSegment2 {file : List UInt8} (h : file.head? ≠ some 0) : Canonical (loadSegment2 file) := by
  refine canonical_loadSegment2From [] _ (alternates_loadSegment1 file) (run_loadSegment1 file)
    ⟨fun _ => ?_, fun h => absurd rfl h, fun _ => by simp⟩
  rw [head_loadSegment1]
  exact head_ne_false_iff.2 h

/-! ## The segments seen in the file -/

theorem head_bytes : ∀ {segs : List Segment}, Canonical segs → segs.head?.map Segment.tp ≠ some false →
    (segs.flatMap Segment.bytes).head? ≠ some 0
  | [], _, _                   => by simp
  | .zeros n :: segs, _, h     => absurd rfl h
  | .data bytes :: segs, hc, _ => by
    rw [List.flatMap_cons, Segment.bytes, List.head?_append_of_ne_nil _ hc.1.ne]
    exact hc.1.head

/-- Behind data is the end of the file, or four zeros at least. -/
theorem behind_data {bytes : List UInt8} {segs : List Segment} (h : Canonical (.data bytes :: segs)) :
    segs = [] ∨ ∃ n segs', segs = .zeros n :: segs' ∧ 4 ≤ n := by
  cases segs with
  | nil => exact .inl rfl
  | cons seg segs =>
    cases seg with
    | zeros n => exact .inr ⟨n, segs, rfl, h.2.2.1⟩
    | data b => exact absurd (h.2.1 (by simp)).1 (by simp [Segment.tp])

theorem zeros_infix_zeros {m n : Nat} (h : m ≤ n) : zeros m <:+: zeros n :=
  ⟨[], zeros (n - m), by simp [zeros, h]⟩

/-- **Four zeros in a row or more are part of a segment of zeros.** -/
theorem zeros_of_infix {n : Nat} (hn : 4 ≤ n) : ∀ {segs : List Segment}, Canonical segs →
    zeros n <:+: segs.flatMap Segment.bytes → ∃ m, .zeros m ∈ segs ∧ n ≤ m
  | [], _, hin => by
    have hlen := hin.length_le
    simp only [zeros, List.length_replicate, List.flatMap_nil, List.length_nil] at hlen
    omega
  | .zeros m :: segs, hc, hin => by
    rcases zeros_infix_append hin (.inr (head_bytes hc.2.2 hc.2.1)) with hin | hin
    · exact ⟨m, List.mem_cons_self .., by simpa [zeros, Segment.bytes] using hin.length_le⟩
    · obtain ⟨k, hk, hle⟩ := zeros_of_infix hn hc.2.2 hin
      exact ⟨k, List.mem_cons_of_mem _ hk, hle⟩
  | .data bytes :: segs, hc, hin => by
    have hdense : ¬ zeros n <:+: bytes := fun h => hc.1.sparse ((zeros_infix_zeros hn).trans h)
    by_cases hlast : segs = []
    · simp only [hlast, List.flatMap_cons, List.flatMap_nil, List.append_nil] at hin
      exact absurd hin hdense
    · rcases zeros_infix_append hin (.inl (hc.2.1 hlast).2) with hin | hin
      · exact absurd hin hdense
      · obtain ⟨k, hk, hle⟩ := zeros_of_infix hn hc.2.2 hin
        exact ⟨k, List.mem_cons_of_mem _ hk, hle⟩

/-- A part of the file that is packed as data: it begins with another byte than zero, has no four zeros in a row, and ends
in a zero only at the end of the file. -/
structure Stretch (file w : List UInt8) : Prop where
  ne : w ≠ []
  head : w.head? ≠ some 0
  sparse : ¬ zeros 4 <:+: w
  place : ∃ pre post, file = pre ++ w ++ post ∧ (w.getLast? = some 0 → post = [])

/-- A segment of data is a stretch. -/
theorem stretch_of_data {bytes : List UInt8} : ∀ {segs : List Segment}, Canonical segs → .data bytes ∈ segs →
    Stretch (segs.flatMap Segment.bytes) bytes
  | seg :: segs, hc, hmem => by
    rcases List.mem_cons.1 hmem with rfl | hmem
    · refine ⟨hc.1.ne, hc.1.head, hc.1.sparse, [], segs.flatMap Segment.bytes, rfl, fun hlast => ?_⟩
      by_cases h : segs = []
      · rw [h]
        rfl
      · exact absurd hlast (hc.2.1 h).2
    · have hc' : Canonical segs := by
        cases seg with
        | zeros n => exact hc.2.2
        | data b => exact hc.2.2
      obtain ⟨hne, hhead, hsparse, pre, post, hfile, hpost⟩ := stretch_of_data hc' hmem
      exact ⟨hne, hhead, hsparse, seg.bytes ++ pre, post, by simp [hfile], hpost⟩

/-- What lies across the end of data has four zeros, or ends in a zero. -/
theorem across_data {u v post rest : List UInt8} {n : Nat} (hn : 4 ≤ n) (hv : v ≠ []) (h : zeros n ++ rest = v ++ post) :
    zeros 4 <:+: u ++ v ∨ v.getLast? = some 0 ∧ post ≠ [] := by
  rcases List.append_eq_append_iff.1 h with ⟨p, rfl, -⟩ | ⟨p, hz, hpost⟩
  · exact .inl ((zeros_infix_zeros hn).trans ⟨u, p, by rw [List.append_assoc]⟩)
  · have hlen : v.length + p.length = n := by
      rw [← List.length_append, ← hz, zeros, List.length_replicate]
    have hzero : ∀ b ∈ v, b = 0 := fun b hb => mem_zeros (n := n) (hz ▸ List.mem_append_left p hb)
    by_cases hp : p = []
    · subst hp
      rw [List.append_nil] at hz
      exact .inl ((zeros_infix_zeros hn).trans (hz ▸ (List.suffix_append u v).isInfix))
    · exact .inr ⟨getLast?_eq_zero hv hzero, by simp [hpost, hp]⟩

/-- **A stretch is part of a segment of data.** -/
theorem data_of_stretch {w post : List UInt8} (hne : w ≠ []) (hhead : w.head? ≠ some 0) (hsparse : ¬ zeros 4 <:+: w)
    (hpost : w.getLast? = some 0 → post = []) : ∀ {segs : List Segment} {pre : List UInt8}, Canonical segs →
    pre ++ w ++ post = segs.flatMap Segment.bytes → ∃ bytes, .data bytes ∈ segs ∧ w.length ≤ bytes.length
  | [], pre, _, h => by simp [hne] at h
  | .zeros n :: segs, pre, hc, h => by
    rcases append_split h with ⟨p, (hz : zeros n = _)⟩ | ⟨p, hrest⟩ | ⟨u, v, hw, hu, -, (hz : zeros n = _), -⟩
    · have hzero : ∀ b ∈ w, b = 0 := fun b hb =>
        mem_zeros (n := n) (hz ▸ List.mem_append_left p (List.mem_append_right pre hb))
      exact absurd (head?_eq_zero hne hzero) hhead
    · obtain ⟨bytes, hmem, hlen⟩ := data_of_stretch hne hhead hsparse hpost hc.2.2 hrest.symm
      exact ⟨bytes, List.mem_cons_of_mem _ hmem, hlen⟩
    · have hzero : ∀ b ∈ u, b = 0 := fun b hb => mem_zeros (n := n) (hz ▸ List.mem_append_right pre hb)
      rw [hw, List.head?_append_of_ne_nil _ hu] at hhead
      exact absurd (head?_eq_zero hu hzero) hhead
  | .data bytes :: segs, pre, hc, h => by
    rcases append_split h with ⟨p, hb⟩ | ⟨p, hrest⟩ | ⟨u, v, hw, -, hv, -, hrest⟩
    · refine ⟨bytes, List.mem_cons_self .., ?_⟩
      have hlen := congrArg List.length hb
      simp only [Segment.bytes, List.length_append] at hlen
      omega
    · obtain ⟨bytes', hmem, hlen⟩ := data_of_stretch hne hhead hsparse hpost hc.2.2 hrest.symm
      exact ⟨bytes', List.mem_cons_of_mem _ hmem, hlen⟩
    · rcases behind_data hc with rfl | ⟨n, segs', rfl, hn⟩
      · simp [hv] at hrest
      · rcases across_data (u := u) hn hv hrest with hin | ⟨hlast, hp⟩
        · exact absurd (hw ▸ hin) hsparse
        · rw [hw, List.getLast?_append_of_ne_nil _ hv] at hpost
          exact absurd (hpost hlast) hp

/-! ## The files that are packed -/

theorem lengthBytes_cases (n : Nat) :
    (n < 65536 ∧ ∃ bytes, lengthBytes n = .ok bytes) ∨ (65536 ≤ n ∧ lengthBytes n = .error .overflowError) := by
  unfold lengthBytes
  by_cases hfit : n < 65536
  · refine .inl ⟨hfit, ?_⟩
    split
    · exact ⟨_, rfl⟩
    · exact ⟨_, rfl⟩
  · exact .inr ⟨Nat.le_of_not_lt hfit, by rw [if_pos (by omega), if_neg hfit]⟩

theorem segmentBytes_cases (seg : Segment) :
    (seg.bytes.length < 65536 ∧ ∃ bytes, segmentBytes seg = .ok bytes) ∨
      (65536 ≤ seg.bytes.length ∧ segmentBytes seg = .error .overflowError) := by
  cases seg with
  | zeros n => simpa [Segment.bytes, segmentBytes] using lengthBytes_cases n
  | data block =>
    rcases lengthBytes_cases block.length with ⟨hfit, bytes, h⟩ | ⟨hlong, h⟩
    · exact .inl ⟨hfit, bytes ++ block, by rw [segmentBytes, h]; rfl⟩
    · exact .inr ⟨hlong, by rw [segmentBytes, h]; rfl⟩

/-- **The loop of `pack` on segments that alternate.**  Its `assert` can fail on the first of them only. -/
theorem packFrom_cases : ∀ (lastType : Bool) (segs : List Segment), Alternates segs →
    segs.head?.map Segment.tp ≠ some lastType →
    packFrom lastType segs ≠ .error .assertionError ∧
      ((∃ packed, packFrom lastType segs = .ok packed) ↔ ∀ s ∈ segs, s.bytes.length < 65536)
  | _, [], _, _ => ⟨by simp [packFrom], by simp [packFrom]⟩
  | lastType, seg :: segs, halt, hhead => by
    have htp : lastType ≠ seg.tp := fun h => hhead (congrArg some h.symm)
    obtain ⟨hassert, hiff⟩ := packFrom_cases seg.tp segs halt.tail (tp_head halt)
    rw [packFrom, if_neg htp]
    rcases segmentBytes_cases seg with ⟨hfit, bytes, hseg⟩ | ⟨hlong, hseg⟩
    · rw [hseg, List.forall_mem_cons, ← hiff]
      cases hp : packFrom seg.tp segs with
      | error e => exact ⟨fun h => hassert (by rw [hp]; exact h), by simp [Except.map]⟩
      | ok packed => exact ⟨by simp [Except.map], by simp [Except.map, hfit]⟩
    · rw [hseg]
      exact ⟨by simp, by simp [Nat.not_lt.2 hlong]⟩

theorem pack_cases {file : List UInt8} (h : file.head? ≠ some 0) :
    pack file ≠ .error .assertionError ∧
      ((∃ packed, pack file = .ok packed) ↔ ∀ s ∈ loadSegment2 file, s.bytes.length < 65536) := by
  refine packFrom_cases false _ (alternates_loadSegment2 file) ?_
  rw [head_loadSegment2]
  exact head_ne_false_iff.2 h

/-- A file that begins with a zero fails the `assert`. -/
theorem pack_zero {file : List UInt8} (h : file.head? = some 0) : pack file = .error .assertionError := by
  have hhead := head_loadSegment2 file
  rw [h] at hhead
  unfold pack
  cases hsegs : loadSegment2 file with
  | nil => simp [hsegs] at hhead
  | cons seg segs =>
    rw [hsegs] at hhead
    have htp : false = seg.tp := (Option.some.inj hhead).symm
    rw [packFrom, if_pos htp]

/-- **The segments of a file are short when its runs of zeros and its stretches are.** -/
theorem short_segments_iff {file : List UInt8} (h : file.head? ≠ some 0) :
    (∀ s ∈ loadSegment2 file, s.bytes.length < 65536) ↔
      (∀ n, zeros n <:+: file → n < 65536) ∧ ∀ w, Stretch file w → w.length < 65536 := by
  have hcanon := canonical_loadSegment2 h
  have hfile := loadSegment2_bytes file
  constructor
  · intro hshort
    refine ⟨fun n hin => ?_, fun w ⟨hne, hhead, hsparse, pre, post, hplace, hpost⟩ => ?_⟩
    · by_cases hn : 4 ≤ n
      · rw [← hfile] at hin
        obtain ⟨m, hm, hle⟩ := zeros_of_infix hn hcanon hin
        have hlen := hshort _ hm
        rw [Segment.bytes, List.length_replicate] at hlen
        exact Nat.lt_of_le_of_lt hle hlen
      · omega
    · rw [← hfile] at hplace
      obtain ⟨bytes, hmem, hle⟩ := data_of_stretch hne hhead hsparse hpost hcanon hplace.symm
      exact Nat.lt_of_le_of_lt hle (hshort _ hmem)
  · rintro ⟨hzeros, hstretch⟩ s hs
    cases s with
    | zeros n =>
      obtain ⟨before, behind, hsegs⟩ := List.append_of_mem hs
      rw [Segment.bytes, List.length_replicate]
      apply hzeros
      rw [← hfile, hsegs, List.flatMap_append, List.flatMap_cons, ← List.append_assoc]
      exact List.infix_append ..
    | data bytes =>
      apply hstretch
      rw [← hfile]
      exact stretch_of_data hcanon hs

/-- **The files that `pack` takes**: those that do not begin with a zero and where no run of zeros and no stretch of data is
longer than its two length bytes can say. -/
theorem pack_finishes_iff (file : List UInt8) :
    (pack file = .error .assertionError ↔ file.head? = some 0) ∧
      ((∃ packed, pack file = .ok packed) ↔
        file.head? ≠ some 0 ∧ (∀ n, zeros n <:+: file → n < 65536) ∧ ∀ w, Stretch file w → w.length < 65536) := by
  by_cases h : file.head? = some 0
  · simp [h, pack_zero h]
  · obtain ⟨hassert, hiff⟩ := pack_cases h
    refine ⟨iff_of_false hassert h, ?_⟩
    rw [hiff, short_segments_iff h]
    exact (and_iff_right h).symm

/-- One zero byte is the shortest file that is not packed. -/
theorem pack_one_zero : pack [0] = .error .assertionError ∧ ¬ ∀ file, ∃ packed, pack file = .ok packed := by
  have h : pack [0] = .error .assertionError := pack_zero rfl
  refine ⟨h, fun hall => ?_⟩
  obtain ⟨packed, hp⟩ := hall [0]
  rw [h] at hp
  cases hp

/-! ## The length of what is packed -/

/-- The bytes that the length of a segment takes. -/
def headerLength (length : Nat) : Nat := if length ≥ 255 then 3 else 1

theorem headerLength_le (n : Nat) : headerLength n ≤ 3 := by
  unfold headerLength
  split
  · exact Nat.le_refl 3
  · exact Nat.le_add_left 1 2

theorem length_lengthBytes {n : Nat} {bytes : List UInt8} (h : lengthBytes n = .ok bytes) :
    bytes.length = headerLength n := by
  unfold lengthBytes at h
  unfold headerLength
  split at h
  · rename_i hlong
    rw [if_pos hlong]
    split at h
    · rw [← Except.ok.inj h, List.length_cons, LittleEndian.length_encode]
    · cases h
  · rename_i hshort
    rw [if_neg hshort, ← Except.ok.inj h, LittleEndian.length_encode]

/-- **A run of four zeros or more saves what two headers take**, that of the run and that of the data behind it. -/
theorem headers_le_zeros {n : Nat} (hn : 4 ≤ n) (m : Nat) : headerLength n + headerLength m ≤ n := by
  have hm := headerLength_le m
  unfold headerLength at *
  split
  · omega
  · omega

/-- The header of the data that comes next. -/
def nextHeader : List Segment → Nat
  | .data bytes :: _ => headerLength bytes.length
  | _                => 0

theorem nextHeader_le (segs : List Segment) : ∃ m, nextHeader segs ≤ headerLength m := by
  unfold nextHeader
  split
  · exact ⟨_, Nat.le_refl _⟩
  · exact ⟨0, Nat.zero_le _⟩

/-- The bytes that a segment takes. -/
def packedLength : Segment → Nat
  | .zeros n    => headerLength n
  | .data bytes => headerLength bytes.length + bytes.length

theorem length_segmentBytes {seg : Segment} {bytes : List UInt8} (h : segmentBytes seg = .ok bytes) :
    bytes.length = packedLength seg := by
  cases seg with
  | zeros n => exact length_lengthBytes h
  | data block =>
    rw [segmentBytes] at h
    cases hl : lengthBytes block.length with
    | error e => rw [hl] at h; cases h
    | ok lb =>
      rw [hl] at h
      rw [← Except.ok.inj h, List.length_append, length_lengthBytes hl, packedLength]

/-- **Behind the first header the packed segments are no longer than what they stand for.** -/
theorem length_packFrom : ∀ {lastType : Bool} {segs : List Segment} {packed : List UInt8}, Canonical segs →
    packFrom lastType segs = .ok packed → packed.length ≤ (segs.flatMap Segment.bytes).length + nextHeader segs
  | _, [], packed, _, h => by
    obtain rfl := Except.ok.inj h
    exact Nat.le_refl 0
  | lastType, seg :: segs, packed, hc, h => by
    obtain ⟨bytes, rest, hseg, hrest, rfl, -⟩ := packFrom_cons h
    have hlen := length_segmentBytes hseg
    rw [List.flatMap_cons, List.length_append, List.length_append]
    cases seg with
    | zeros n =>
      have ih := length_packFrom hc.2.2 hrest
      obtain ⟨m, hm⟩ := nextHeader_le segs
      have hsaved := headers_le_zeros hc.1 m
      simp only [Segment.bytes, List.length_replicate, nextHeader, packedLength] at *
      omega
    | data block =>
      have ih := length_packFrom hc.2.2 hrest
      have hnext : nextHeader segs = 0 := by
        rcases behind_data hc with rfl | ⟨n, segs', rfl, -⟩
        · rfl
        · rfl
      rw [hnext] at ih
      rw [packedLength] at hlen
      simp only [Segment.bytes, nextHeader]
      omega

theorem canonical_zeros : ∀ {segs : List Segment}, Canonical segs → ∀ n, .zeros n ∈ segs → 4 ≤ n
  | .zeros m :: segs, hc, n, hmem => by
    rcases List.mem_cons.1 hmem with h | hmem
    · exact Segment.zeros.inj h ▸ hc.1
    · exact canonical_zeros hc.2.2 n hmem
  | .data bytes :: segs, hc, n, hmem => by
    rcases List.mem_cons.1 hmem with h | hmem
    · cases h
    · exact canonical_zeros hc.2.2 n hmem

/-- **What `pack` writes is at most 3 bytes longer than the file**: every run of zeros that stays a segment of its own saves
as many bytes as its header and that of the data behind it take. -/
theorem length_pack {file packed : List UInt8} (h : pack file = .ok packed) :
    packed.length ≤ file.length + 3 ∧
      ∀ n, .zeros n ∈ loadSegment2 file → ∀ m, headerLength n + headerLength m ≤ n := by
  have hhead : file.head? ≠ some 0 := fun h0 => by
    rw [pack_zero h0] at h
    cases h
  have hcanon := canonical_loadSegment2 hhead
  refine ⟨?_, fun n hn => headers_le_zeros (canonical_zeros hcanon n hn)⟩
  have hlen := length_packFrom hcanon h
  rw [loadSegment2_bytes] at hlen
  obtain ⟨m, hm⟩ := nextHeader_le (loadSegment2 file)
  have hthree := headerLength_le m
  omega

/-- Two bytes with five zeros between them. -/
theorem length_pack_runs : ∃ packed, pack [7, 0, 0, 0, 0, 0, 9] = .ok packed ∧ packed.length ≤ 7 + 3 := by
  have h : pack [7, 0, 0, 0, 0, 0, 9] = .ok [1, 7, 5, 1, 9] := by
    simp [pack, loadSegment2, loadSegment1, zeroRun, dataRun, loadSegment2From, packFrom, segmentBytes, lengthBytes,
      Segment.tp, LittleEndian.encode, Except.map]
  exact ⟨_, h, (length_pack h).1⟩

end Mstd.Bitpk
