import Mathlib.Data.Nat.Bitwise
import Mstd.CfgEnumText
/-!
# Which enum values survive their text (`mstd.cfg.py`, `int2str` and `str2int`)

`str2int_int2str_nat_iff` names the values by their bits and the names of their items.  `shortToc_eq_some_iff` says when
`post_init` takes a short name for an item's.
-/
namespace Mstd.Cfg

open Py (Str Dict)

/-! ## Bits -/

theorem testBit_foldl_or (k : Nat) : ∀ (values : List Nat) (a : Nat),
    (values.foldl (· ||| ·) a).testBit k = (a.testBit k || values.any (fun v => v.testBit k))
  | [], a => by simp
  | v :: values, a => by
    rw [List.foldl_cons, testBit_foldl_or k values, Nat.testBit_or, List.any_cons, Bool.or_assoc]

theorem and_eq_left_iff {w v : Nat} : w &&& v = w ↔ ∀ k, w.testBit k = true → v.testBit k = true := by
  constructor
  · intro h k hk
    rw [← h, Nat.testBit_and, Bool.and_eq_true] at hk
    exact hk.2
  · intro h
    refine Nat.eq_of_testBit_eq (fun k => ?_)
    rw [Nat.testBit_and]
    cases hk : w.testBit k with
    | false => rfl
    | true => rw [h k hk, Bool.and_self]

/-- Values make up `v` when they have its bits and no others. -/
theorem foldl_or_eq_iff {values : List Nat} {v : Nat} : values.foldl (· ||| ·) 0 = v ↔
    (∀ w ∈ values, w &&& v = w) ∧ ∀ k, v.testBit k = true → ∃ w ∈ values, w.testBit k = true := by
  have hbit (k : Nat) : (values.foldl (· ||| ·) 0).testBit k = true ↔ ∃ w ∈ values, w.testBit k = true := by
    rw [testBit_foldl_or, Nat.zero_testBit, Bool.false_or, List.any_eq_true]
  constructor
  · rintro rfl
    exact ⟨fun w hw => and_eq_left_iff.2 (fun k hk => (hbit k).2 ⟨w, hw, hk⟩), fun k => (hbit k).1⟩
  · rintro ⟨hsub, hcov⟩
    refine Nat.eq_of_testBit_eq (fun k => Bool.eq_iff_iff.2 ((hbit k).trans ⟨?_, hcov k⟩))
    rintro ⟨w, hw, hk⟩
    exact and_eq_left_iff.1 (hsub w hw) k hk

section

variable {α β : Type} {f : α → Option β}

theorem mapM_eq_some {l : List α} {values : List β} (h : l.mapM f = some values) {b : β} :
    b ∈ values ↔ ∃ a ∈ l, f a = some b := by
  induction l generalizing values with
  | nil => cases h; simp
  | cons a l ih =>
    rw [List.mapM_cons] at h
    obtain ⟨v, hv, h⟩ := Option.bind_eq_some_iff.1 h
    obtain ⟨vs, hvs, h⟩ := Option.bind_eq_some_iff.1 h
    cases h
    rw [List.mem_cons, ih hvs]
    simp only [List.mem_cons, exists_eq_or_imp, hv, Option.some.injEq, @eq_comm _ v]

theorem exists_mapM {l : List α} (h : ∀ a ∈ l, ∃ b, f a = some b) : ∃ values, l.mapM f = some values := by
  induction l with
  | nil => exact ⟨[], rfl⟩
  | cons a l ih =>
    obtain ⟨v, hv⟩ := h a (List.mem_cons_self ..)
    obtain ⟨vs, hvs⟩ := ih (fun x hx => h x (List.mem_cons_of_mem a hx))
    exact ⟨v :: vs, by rw [List.mapM_cons, hv, hvs]; rfl⟩

theorem mapM_of_mem {l : List α} {values : List β} (h : l.mapM f = some values) {a : α} (ha : a ∈ l) :
    ∃ b, f a = some b := by
  induction l generalizing values with
  | nil => cases ha
  | cons x l ih =>
    rw [List.mapM_cons] at h
    obtain ⟨v, hv, h⟩ := Option.bind_eq_some_iff.1 h
    obtain ⟨vs, hvs, -⟩ := Option.bind_eq_some_iff.1 h
    rcases List.mem_cons.1 ha with rfl | ha
    · exact ⟨v, hv⟩
    · exact ih hvs ha

end

/-! ## Names -/

/-- What is behind the first `_` of a name. -/
def shortName (name : Str) : Str := (Py.partition '_' name).2.2

/-- The items that are no masks. -/
def EnumDef.named (e : EnumDef) : List EnumField := e.body.filter (fun item => !decide (maskSuffix <:+ item.name))

/-- How many items have a short name. -/
def EnumDef.shorts (e : EnumDef) (short : Str) : Nat := e.named.countP (fun item => shortName item.name = short)

/-- What `int2str` writes of an item is read as that item: no other has its short name, or its prefix is empty. -/
def EnumDef.Spelled (e : EnumDef) (item : Str × Nat) : Prop :=
  e.shorts (shortName item.1) = 1 ∨ (Py.partition '_' item.1).1 = []

instance (e : EnumDef) (item : Str × Nat) : Decidable (e.Spelled item) := inferInstanceAs (Decidable (_ ∨ _))

/-- How many items with a short name `post_init` has met, up to two. -/
def Tables.met (t : Tables) (short : Str) : Nat :=
  match t.shortToc.get? short with
  | none          => 0
  | some (some _) => 1
  | some none     => 2

theorem Tables.met_le (t : Tables) (short : Str) : t.met short ≤ 2 := by
  unfold met
  split <;> omega

theorem Tables.met_eq_zero_iff {t : Tables} {short : Str} : t.met short = 0 ↔ t.shortToc.get? short = none := by
  unfold met
  split <;> simp_all

theorem Tables.met_eq_one_iff {t : Tables} {short : Str} :
    t.met short = 1 ↔ ∃ name, t.shortToc.get? short = some (some name) := by
  unfold met
  split <;> simp_all

theorem Tables.met_addItem {t : Tables} {item : EnumField} (h : ItemName item.name) (short : Str) :
    (t.addItem item).met short =
      if ¬ maskSuffix <:+ item.name ∧ shortName item.name = short then min 2 (t.met short + 1) else t.met short := by
  obtain ⟨pref, rest, hpart, -, -⟩ := Py.partition_of_mem h.1
  have hshort : shortName item.name = rest := by rw [shortName, hpart]
  unfold addItem
  by_cases hmask : maskSuffix <:+ item.name
  · rw [if_pos hmask, if_neg (fun h => h.1 hmask)]
    rfl
  · rw [if_neg hmask, hpart]
    by_cases hrest : rest = short
    · subst hrest
      rw [if_pos ⟨hmask, hshort⟩]
      simp only [met, Dict.get?_set, if_true]
      cases t.shortToc.get? rest with
      | none => rfl
      | some x => cases x <;> rfl
    · rw [if_neg (fun h => hrest (hshort.symm.trans h.2))]
      simp only [met, Dict.get?_set, if_neg hrest]

theorem Tables.met_foldl (short : Str) : ∀ {body : List EnumField} (t : Tables), (∀ item ∈ body, ItemName item.name) →
    (body.foldl addItem t).met short =
      min 2 (t.met short + (body.filter (fun item => !decide (maskSuffix <:+ item.name))).countP
        (fun item => shortName item.name = short))
  | [], t, _ => by
    have hle := t.met_le short
    simp [hle]
  | item :: body, t, h => by
    rw [List.foldl_cons, met_foldl short _ (fun x hx => h x (List.mem_cons_of_mem item hx)),
      met_addItem (h item (List.mem_cons_self ..))]
    have hle := t.met_le short
    by_cases hmask : maskSuffix <:+ item.name
    · rw [if_neg (fun h => h.1 hmask), List.filter_cons_of_neg (by simp [hmask])]
    · rw [List.filter_cons_of_pos (by simp [hmask]), List.countP_cons]
      by_cases hshort : shortName item.name = short
      · rw [if_pos ⟨hmask, hshort⟩, if_pos (decide_eq_true hshort)]
        omega
      · rw [if_neg (fun h => hshort h.2), if_neg (by simpa using hshort), Nat.add_zero]

/-- **`post_init` takes a short name for an item's** when it is that of one item. -/
theorem EnumDef.Parsed.met_tables {e : EnumDef} (h : e.Parsed) (short : Str) : e.tables.met short = min 2 (e.shorts short) := by
  have hmet := Tables.met_foldl short ⟨[], [], []⟩ h
  rwa [show Tables.met ⟨[], [], []⟩ short = 0 from rfl, Nat.zero_add] at hmet

/-! ## Values of an unsigned type -/

/-- Every bit of the value is one of an item that is shown for it. -/
def EnumDef.Covers (e : EnumDef) (v : Nat) : Prop :=
  ∀ k, v.testBit k = true → ∃ item ∈ e.shown v, item.2.testBit k = true

theorem EnumDef.leftover_eq_zero_iff {e : EnumDef} {v : Nat} : e.leftover v = 0 ↔ e.Covers v := by
  have hfold (items : List (Str × Nat)) :
      items.foldl (fun processed item => processed ||| item.2) 0 = (items.map Prod.snd).foldl (· ||| ·) 0 := by
    rw [List.foldl_map]
  have hdiff (p : Nat) : Int.ldiff (v : Int) (p : Int) = (Nat.ldiff v p : Nat) := rfl
  rw [EnumDef.leftover, hfold, hdiff, Int.natCast_eq_zero]
  have hbit (k : Nat) : (((e.shown v).map Prod.snd).foldl (· ||| ·) 0).testBit k = true ↔
      ∃ item ∈ e.shown v, item.2.testBit k = true := by
    rw [testBit_foldl_or, Nat.zero_testBit, Bool.false_or, List.any_map, List.any_eq_true]
    rfl
  constructor
  · intro h k hk
    refine (hbit k).1 ?_
    have hzero := Nat.testBit_ldiff v (((e.shown v).map Prod.snd).foldl (· ||| ·) 0) k
    rw [h, Nat.zero_testBit, hk, Bool.true_and] at hzero
    simpa using hzero.symm
  · intro h
    refine Nat.eq_of_testBit_eq (fun k => ?_)
    rw [Nat.testBit_ldiff, Nat.zero_testBit]
    cases hk : v.testBit k with
    | false => rfl
    | true => rw [(hbit k).2 (h k hk)]; rfl

/-- The items whose text the split keeps: an empty one stays at the ends only. -/
def EnumDef.written (e : EnumDef) (v : Nat) : List (Str × Nat) :=
  match e.shown v with
  | []      => []
  | x :: xs => x :: e.tables.kept xs

/-- A value is read back: its bits are those of items that are shown, these are all read, as values that make up the value,
and where nothing is shown no item has an empty short name. -/
structure EnumDef.Survives (e : EnumDef) (v : Nat) : Prop where
  covers : e.Covers v
  read : ∀ item ∈ e.written v, ∃ w, e.readAs item = some w ∧ w &&& v = w
  bits : ∀ k, v.testBit k = true → ∃ item ∈ e.written v, ∃ w, e.readAs item = some w ∧ w.testBit k = true
  empty : e.shown v = [] → e.shorts [] = 0

theorem EnumDef.Parsed.shorts_eq_zero_iff {e : EnumDef} (h : e.Parsed) (short : Str) :
    e.shorts short = 0 ↔ e.tables.shortToc.get? short = none := by
  rw [← Tables.met_eq_zero_iff, h.met_tables]
  omega

theorem EnumDef.survives_iff_legible {e : EnumDef} (h : e.Parsed) (v : Nat) : e.Survives v ↔ e.Legible v := by
  have hempty := h.shorts_eq_zero_iff []
  have hmake {items : List (Str × Nat)} : (∃ values, items.mapM e.readAs = some values ∧
      (values.foldl (· ||| ·) 0 : Nat) = (v : Int)) ↔
      (∀ item ∈ items, ∃ w, e.readAs item = some w ∧ w &&& v = w) ∧
        ∀ k, v.testBit k = true → ∃ item ∈ items, ∃ w, e.readAs item = some w ∧ w.testBit k = true := by
    constructor
    · rintro ⟨values, hvalues, hfold⟩
      obtain ⟨hsub, hcov⟩ := foldl_or_eq_iff.1 (Int.natCast_inj.1 hfold)
      refine ⟨fun item hitem => ?_, fun k hk => ?_⟩
      · obtain ⟨w, hw⟩ := mapM_of_mem hvalues hitem
        exact ⟨w, hw, hsub w ((mapM_eq_some hvalues).2 ⟨item, hitem, hw⟩)⟩
      · obtain ⟨w, hw, hbit⟩ := hcov k hk
        obtain ⟨item, hitem, hread⟩ := (mapM_eq_some hvalues).1 hw
        exact ⟨item, hitem, w, hread, hbit⟩
    · rintro ⟨hsub, hcov⟩
      obtain ⟨values, hvalues⟩ := exists_mapM (fun item hitem => (hsub item hitem).imp (fun w hw => hw.1))
      refine ⟨values, hvalues, Int.natCast_inj.2 (foldl_or_eq_iff.2 ⟨fun w hw => ?_, fun k hk => ?_⟩)⟩
      · obtain ⟨item, hitem, hread⟩ := (mapM_eq_some hvalues).1 hw
        obtain ⟨w', hw', hand⟩ := hsub item hitem
        exact Option.some.inj (hread.symm.trans hw') ▸ hand
      · obtain ⟨item, hitem, w, hread, hbit⟩ := hcov k hk
        exact ⟨w, (mapM_eq_some hvalues).2 ⟨item, hitem, hread⟩, hbit⟩
  unfold EnumDef.Legible
  rw [EnumDef.leftover_eq_zero_iff]
  cases hshown : e.shown v with
  | nil =>
    have hwritten : e.written v = [] := by rw [EnumDef.written, hshown]
    constructor
    · exact fun hs => ⟨hs.covers, hempty.1 (hs.empty hshown)⟩
    · rintro ⟨hcov, hshort⟩
      refine ⟨hcov, fun item hitem => ?_, fun k hk => ?_, fun _ => hempty.2 hshort⟩
      · rw [hwritten] at hitem; cases hitem
      · obtain ⟨item, hitem, -⟩ := hcov k hk
        rw [hshown] at hitem
        cases hitem
  | cons x xs =>
    have hwritten : e.written v = x :: e.tables.kept xs := by rw [EnumDef.written, hshown]
    simp only [hmake]
    constructor
    · exact fun hs => ⟨hs.covers, hwritten ▸ hs.read, hwritten ▸ hs.bits⟩
    · rintro ⟨hcov, hread, hbits⟩
      refine ⟨hcov, hwritten ▸ hread, hwritten ▸ hbits, fun hnil => ?_⟩
      rw [hshown] at hnil
      cases hnil

/-! ## Ordinary names -/

/-- A name whose short name is not empty and does not begin with `_`. -/
def OrdinaryName (name : Str) : Prop := shortName name ≠ [] ∧ (shortName name).head? ≠ some '_'

instance (name : Str) : Decidable (OrdinaryName name) := inferInstanceAs (Decidable (_ ∧ _))

theorem EnumDef.mem_toc {e : EnumDef} {item : Str × Nat} (h : item ∈ e.tables.toc) : ∃ x ∈ e.named, x.name = item.1 := by
  have hfold : ∀ (body : List EnumField) (t : Tables), item ∈ (body.foldl Tables.addItem t).toc →
      item ∈ t.toc ∨ ∃ x ∈ body, ¬ maskSuffix <:+ x.name ∧ x.name = item.1 := by
    intro body
    induction body with
    | nil => exact fun t hm => .inl hm
    | cons x body ih =>
      intro t hm
      rcases ih _ hm with hm | ⟨y, hy, hname⟩
      · unfold Tables.addItem at hm
        split at hm
        · exact .inl hm
        · rename_i hmask
          have hset : item ∈ t.toc.set x.name x.value := by
            split at hm <;> exact hm
          rcases Dict.mem_set hset with rfl | hold
          · exact .inr ⟨x, List.mem_cons_self .., hmask, rfl⟩
          · exact .inl hold
      · exact .inr ⟨y, List.mem_cons_of_mem x hy, hname⟩
  rcases hfold e.body ⟨[], [], []⟩ h with hnil | ⟨x, hx, hmask, hname⟩
  · cases hnil
  · exact ⟨x, List.mem_filter.2 ⟨hx, by simpa using hmask⟩, hname⟩

/-- An ordinary name is read as its item, if it is read. -/
theorem EnumDef.Parsed.readAs_ordinary {e : EnumDef} (h : e.Parsed) {item : Str × Nat} (hname : OrdinaryName item.1) :
    e.readAs item = if e.Spelled item then some item.2 else none := by
  have hname := hname.2
  have hone : e.shorts (shortName item.1) = 1 ↔ ∃ name, e.tables.shortToc.get? (shortName item.1) = some (some name) := by
    rw [← Tables.met_eq_one_iff, h.met_tables]
    omega
  have hspelled : e.Spelled item ↔
      (∃ name, e.tables.shortToc.get? (shortName item.1) = some (some name)) ∨ (Py.partition '_' item.1).1 = [] :=
    or_congr_left hone
  rcases hpart : Py.partition '_' item.1 with ⟨pref, found, short⟩
  have hshort : shortName item.1 = short := by rw [shortName, hpart]
  rw [hshort] at hspelled hname
  rw [hpart] at hspelled
  unfold EnumDef.readAs
  simp only [hpart]
  by_cases hs : e.Spelled item
  · rw [if_pos hs]
    rcases hspelled.1 hs with ⟨name, hget⟩ | hpref
    · simp only [hget, if_neg hname]
    · rw [if_pos hpref]
      split
      · exact if_neg hname
      · rfl
  · rw [if_neg hs]
    obtain ⟨hget, hpref⟩ := not_or.1 (mt hspelled.2 hs)
    rw [if_neg hpref]
    split
    · exact absurd ⟨_, ‹_›⟩ hget
    · rfl

theorem Tables.kept_eq_self {t : Tables} : ∀ {items : List (Str × Nat)}, (∀ item ∈ items, t.text item.1 ≠ []) →
    t.kept items = items
  | [], _ => rfl
  | [_], _ => rfl
  | x :: y :: xs, h => by
    rw [kept, if_neg (h x (List.mem_cons_self ..)), kept_eq_self (fun z hz => h z (List.mem_cons_of_mem x hz))]

theorem Tables.text_ne_nil (t : Tables) {name : Str} (h : OrdinaryName name) : t.text name ≠ [] := by
  have htext : t.text name = shortName name ∨ t.text name = (Py.partition '_' name).1 ++ '.' :: shortName name := by
    unfold text
    split
    rename_i hpart
    rw [shortName, hpart]
    split
    · exact .inl rfl
    · exact .inr rfl
  rcases htext with htext | htext
  · rw [htext]; exact h.1
  · rw [htext]; exact List.append_ne_nil_of_right_ne_nil _ (List.cons_ne_nil _ _)

/-- **Where all names are ordinary**, a value survives when its bits are those of items that can be spelled. -/
theorem EnumDef.Parsed.survives_ordinary_iff {e : EnumDef} (h : e.Parsed) (hnames : ∀ item ∈ e.named, OrdinaryName item.name)
    (v : Nat) : e.Survives v ↔ e.Covers v ∧ ∀ item ∈ e.shown v, e.Spelled item := by
  have hordinary : ∀ item ∈ e.shown v, OrdinaryName item.1 := fun item hitem => by
    obtain ⟨x, hx, hname⟩ := EnumDef.mem_toc (List.mem_filter.1 hitem).1
    exact hname ▸ hnames x hx
  have hwritten : e.written v = e.shown v := by
    unfold EnumDef.written
    cases hshown : e.shown v with
    | nil => rfl
    | cons x xs =>
      rw [hshown] at hordinary
      exact congrArg (x :: ·) (Tables.kept_eq_self (fun item hitem =>
        e.tables.text_ne_nil (hordinary item (List.mem_cons_of_mem x hitem))))
  have hwithin : ∀ item ∈ e.shown v, item.2 &&& v = item.2 := fun item hitem => by
    have hshows := (List.mem_filter.1 hitem).2
    unfold Tables.shows at hshows
    rw [Bool.and_eq_true, beq_iff_eq] at hshows
    exact Int.natCast_inj.1 hshows.1
  constructor
  · intro hs
    refine ⟨hs.covers, fun item hitem => ?_⟩
    obtain ⟨w, hw, -⟩ := hs.read item (hwritten ▸ hitem)
    rw [h.readAs_ordinary (hordinary item hitem)] at hw
    by_contra hspelled
    rw [if_neg hspelled] at hw
    cases hw
  · rintro ⟨hcov, hspelled⟩
    have hread : ∀ item ∈ e.shown v, e.readAs item = some item.2 := fun item hitem => by
      rw [h.readAs_ordinary (hordinary item hitem), if_pos (hspelled item hitem)]
    refine ⟨hcov, fun item hitem => ?_, fun k hk => ?_, fun _ => ?_⟩
    · rw [hwritten] at hitem
      exact ⟨item.2, hread item hitem, hwithin item hitem⟩
    · obtain ⟨item, hitem, hbit⟩ := hcov k hk
      exact ⟨item, hwritten ▸ hitem, item.2, hread item hitem, hbit⟩
    · refine List.countP_eq_zero.2 (fun item hitem hshort => (hnames item hitem).1 ?_)
      simpa using hshort

/-- **When a value survives its symbolic form**, for any enum of the parser and any value of an unsigned type. -/
theorem str2int_int2str_nat_iff (e : EnumDef) (h : e.Parsed) (v : Nat) :
    (e.str2int (e.int2str v) = .ok v ↔ e.Survives v) ∧
    ((∀ item ∈ e.named, OrdinaryName item.name) →
      (e.Survives v ↔ e.Covers v ∧ ∀ item ∈ e.shown v, e.Spelled item)) := by
  refine ⟨?_, fun hnames => h.survives_ordinary_iff hnames v⟩
  rw [EnumDef.survives_iff_legible h, ← EnumDef.str2int_int2str_iff h]
  constructor
  · exact fun hok => ⟨v, hok, rfl⟩
  · rintro ⟨n, hok, hn⟩
    rw [hok, Int.natCast_inj.1 hn]

/-- Two modes with a switch each, and a mode of the second. -/
def modes : EnumDef :=
  ⟨"Modes".toList, .uint8_t, [⟨"WF_On".toList, 1⟩, ⟨"BT_On".toList, 2⟩, ⟨"BT_Fast".toList, 4⟩]⟩

theorem modes_fast : modes.str2int (modes.int2str 4) = .ok 4 := by
  have hiff := str2int_int2str_nat_iff modes (by decide +kernel) 4
  have hshown : modes.shown (4 : Nat) = [("BT_Fast".toList, 4)] := by decide +kernel
  refine hiff.1.2 ((hiff.2 (by decide +kernel)).2 ⟨fun k hk => ?_, fun item hitem => ?_⟩)
  · exact ⟨_, hshown ▸ List.mem_singleton_self _, hk⟩
  · rw [hshown, List.mem_singleton] at hitem
    exact hitem ▸ by decide +kernel

/-- A bit of no item, and a short name of two. -/
theorem modes_lost : modes.Parsed ∧ modes.int2str 8 = "#0x8".toList ∧ modes.int2str 1 = "WF.On".toList ∧
    ((modes.str2int (modes.int2str 8)).toOption = none) ∧ ((modes.str2int (modes.int2str 1)).toOption = none) := by
  decide +kernel

end Mstd.Cfg
