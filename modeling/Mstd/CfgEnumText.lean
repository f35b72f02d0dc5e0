import Mathlib.Data.Nat.Basic
import Mstd.CfgEnum
/-!
# Enum values read back (`mstd.cfg.py`, `int2str` and `str2int`)

`str2int_int2str_iff` says which values `str2int` makes of their own text: no bit is left over, and the items of the
text stand for all the bits of the value.  `item_text` is the step: what the text of one item is read as.
-/
namespace Mstd.Cfg

open Py (Str Dict)

/-! ## Characters of words -/

theorem isItemSep_of_isWord {c : Char} (h : Py.isWord c = true) : isItemSep c = false := by
  simp [isItemSep, Py.isSpace_of_isWord h, Py.ne_of_isWord h (show Py.isWord ',' = false by decide),
    Py.ne_of_isWord h (show Py.isWord '|' = false by decide)]

theorem startsWithDelim_of_word {s : Str} (h : ∀ c ∈ s, Py.isWord c = true) :
    startsWithDelim s = true ↔ s.head? = some '_' := by
  cases s with
  | nil => simp [startsWithDelim]
  | cons c cs =>
    have hc := h c (List.mem_cons_self ..)
    have hdot := Py.ne_of_isWord hc (show Py.isWord '.' = false by decide)
    have hcolon := Py.ne_of_isWord hc (show Py.isWord ':' = false by decide)
    by_cases hu : c = '_'
    · simp [startsWithDelim, hu]
    · simp [startsWithDelim, hu, hdot, hcolon]

theorem subDelims_of_word : ∀ {s : Str}, (∀ c ∈ s, Py.isWord c = true) → subDelims s = s
  | [], _ => rfl
  | c :: cs, h => by
    have hc := h c (List.mem_cons_self ..)
    have hdot := Py.ne_of_isWord hc (show Py.isWord '.' = false by decide)
    have hcolon := Py.ne_of_isWord hc (show Py.isWord ':' = false by decide)
    have ih := subDelims_of_word (fun x hx => h x (List.mem_cons_of_mem c hx))
    unfold subDelims
    split
    · rename_i heq; exact absurd (List.cons.inj heq).1 hcolon
    · rename_i heq; obtain ⟨rfl, rfl⟩ := List.cons.inj heq; rw [if_neg hdot, ih]
    · rename_i heq; cases heq

/-! ## The tables -/

structure Tables.Good (t : Tables) : Prop where
  nodup : (t.toc.map Prod.fst).Nodup
  names : ∀ item ∈ t.toc, ItemName item.1
  short : ∀ item ∈ t.toc, ∃ x, t.shortToc.get? (Py.partition '_' item.1).2.2 = some x ∧ ∀ name, x = some name → name = item.1
  shorts : ∀ s x, t.shortToc.get? s = some x → ∀ c ∈ s, Py.isWord c = true

theorem Tables.Good.addItem {t : Tables} (h : t.Good) {item : EnumField} (hitem : ItemName item.name) :
    (t.addItem item).Good := by
  unfold Tables.addItem
  split
  · exact ⟨h.nodup, h.names, h.short, h.shorts⟩
  · obtain ⟨pref, rest, hpart, hname, -⟩ := Py.partition_of_mem hitem.1
    rw [hpart]
    refine ⟨Dict.nodup_set h.nodup, fun x hx => ?_, fun x hx => ?_, fun s x hs => ?_⟩
    · rcases Dict.mem_set hx with rfl | hx
      · exact hitem
      · exact h.names x hx
    · rw [Dict.get?_set]
      rcases Dict.mem_set hx with rfl | hx
      · refine ⟨_, if_pos (by rw [hpart]), fun name hn => ?_⟩
        split at hn
        · cases hn
        · exact (Option.some.inj hn).symm
      · obtain ⟨y, hy, hyname⟩ := h.short x hx
        by_cases hr : rest = (Py.partition '_' x.1).2.2
        · exact ⟨none, by rw [if_pos hr, hr, hy]; rfl, fun _ hn => absurd hn.symm (Option.some_ne_none _)⟩
        · exact ⟨y, by rw [if_neg hr, hy], hyname⟩
    · rw [Dict.get?_set] at hs
      split at hs
      · rename_i hr
        subst hr
        exact fun c hc => hitem.2 c (hname ▸ List.mem_append_right _ (List.mem_cons_of_mem _ hc))
      · exact h.shorts s x hs

theorem EnumDef.Parsed.tables {e : EnumDef} (h : e.Parsed) : e.tables.Good := by
  have hfold : ∀ (body : List EnumField) (t : Tables), t.Good → (∀ item ∈ body, ItemName item.name) →
      (body.foldl Tables.addItem t).Good := by
    intro body
    induction body with
    | nil => exact fun t ht _ => ht
    | cons item body ih =>
      exact fun t ht hbody => ih _ (ht.addItem (hbody item (List.mem_cons_self ..)))
        (fun x hx => hbody x (List.mem_cons_of_mem _ hx))
  refine hfold e.body _ ⟨List.nodup_nil, fun _ hm => absurd hm List.not_mem_nil, fun _ hm => absurd hm List.not_mem_nil,
    fun _ _ hs => ?_⟩ h
  cases hs

/-! ## One item -/

/-- What the text of an item is read as: a short name that begins with `_` counts as a whole name, and a name with its
prefix before the dot is only read where the prefix is empty. -/
def EnumDef.readAs (e : EnumDef) (item : Str × Nat) : Option Nat :=
  match Py.partition '_' item.1 with
  | (pref, _, short) =>
    match e.tables.shortToc.get? short with
    | some (some _) => if short.head? = some '_' then e.tables.toc.get? short else some item.2
    | _             => if pref = [] then some item.2 else none

theorem EnumDef.Parsed.item_notWord {e : EnumDef} (h : e.Parsed) {s : Str} (hdelim : ¬ startsWithDelim s = true) {c : Char}
    (hc : c ∈ s) (hword : Py.isWord c = false) : (e.item s).toOption = none := by
  have hshort : e.tables.shortToc.get? s = none := by
    by_contra hne
    obtain ⟨x, hx⟩ := Option.ne_none_iff_exists'.1 hne
    exact Py.ne_of_isWord (h.tables.shorts s x hx c hc) hword rfl
  have htoc : e.tables.toc.get? s = none := by
    by_contra hne
    obtain ⟨v, hv⟩ := Option.ne_none_iff_exists'.1 hne
    exact Py.ne_of_isWord ((h.tables.names _ (Dict.mem_of_get? hv)).2 c hc) hword rfl
  unfold EnumDef.item
  simp only [if_neg hdelim, hshort, htoc, if_neg (List.ne_nil_of_mem hc)]
  rfl

theorem EnumDef.Parsed.item_text {e : EnumDef} (h : e.Parsed) {item : Str × Nat} (hitem : item ∈ e.tables.toc) :
    (e.item (e.tables.text item.1)).toOption = e.readAs item := by
  have hgood := h.tables
  have hget : e.tables.toc.get? item.1 = some item.2 := Dict.get?_of_mem hgood.nodup hitem
  obtain ⟨hmem, hword⟩ := hgood.names item hitem
  obtain ⟨x, hx, hxname⟩ := hgood.short item hitem
  obtain ⟨pref, short, hpart, hname, hpref⟩ := Py.partition_of_mem hmem
  have hshort : ∀ c ∈ short, Py.isWord c = true :=
    fun c hc => hword c (hname ▸ List.mem_append_right _ (List.mem_cons_of_mem _ hc))
  rw [hpart] at hx
  unfold Tables.text EnumDef.readAs
  simp only [hpart, hx]
  cases x with
  | some name =>
    obtain rfl := hxname name rfl
    simp only
    unfold EnumDef.item
    by_cases hd : short.head? = some '_'
    · rw [if_pos ((startsWithDelim_of_word hshort).2 hd), if_pos hd, subDelims_of_word hshort]
      cases e.tables.toc.get? short <;> rfl
    · rw [if_neg (fun h => hd ((startsWithDelim_of_word hshort).1 h)), if_neg hd, hx]
      simp only [hget]
      rfl
  | none =>
    simp only
    by_cases hp : pref = []
    · subst hp
      have hsub : subDelims ('.' :: short) = item.1 := by
        rw [hname, List.nil_append, ← subDelims_of_word hshort]
        simp [subDelims, subDelims_of_word hshort]
      rw [if_pos rfl, EnumDef.item, List.nil_append, if_pos (show startsWithDelim ('.' :: short) = true from rfl)]
      simp only [hsub, hget]
      rfl
    · rw [if_neg hp]
      refine h.item_notWord ?_ (List.mem_append_right _ (List.mem_cons_self ..)) (by decide)
      obtain ⟨p, ps, rfl⟩ := List.exists_cons_of_ne_nil hp
      have hpw : Py.isWord p = true := hword p (hname ▸ List.mem_append_left _ (List.mem_cons_self ..))
      have hdot := Py.ne_of_isWord hpw (show Py.isWord '.' = false by decide)
      have hcolon := Py.ne_of_isWord hpw (show Py.isWord ':' = false by decide)
      have hu : p ≠ '_' := fun hu => hpref (hu ▸ List.mem_cons_self ..)
      simp [startsWithDelim, hu, hdot, hcolon]

/-! ## A value -/

/-- The items of a list that the split of the joined texts keeps behind the first. -/
def Tables.kept (t : Tables) : List (Str × Nat) → List (Str × Nat)
  | []           => []
  | [x]          => [x]
  | x :: y :: xs => if t.text x.1 = [] then t.kept (y :: xs) else x :: t.kept (y :: xs)

theorem Tables.compress_map (t : Tables) : ∀ items : List (Str × Nat),
    Py.compress (items.map (fun item => t.text item.1)) = (t.kept items).map (fun item => t.text item.1)
  | [] => rfl
  | [_] => rfl
  | x :: y :: xs => by
    have ih := t.compress_map (y :: xs)
    rw [List.map_cons] at ih
    rw [List.map_cons, List.map_cons, Py.compress, ih, kept]
    split <;> rfl

theorem Tables.kept_sublist (t : Tables) : ∀ items : List (Str × Nat), (t.kept items).Sublist items
  | [] => List.Sublist.refl _
  | [_] => List.Sublist.refl _
  | x :: y :: xs => by
    rw [kept]
    split
    · exact (t.kept_sublist (y :: xs)).cons x
    · exact (t.kept_sublist (y :: xs)).cons_cons x

/-- What `str2int` makes of its own text: no bit is left over, and the items that the split keeps are read as values
that make up `val`. -/
def EnumDef.Legible (e : EnumDef) (val : Int) : Prop :=
  e.leftover val = 0 ∧
    match e.shown val with
    | []      => e.tables.shortToc.get? [] = none
    | x :: xs => ∃ values, (x :: e.tables.kept xs).mapM e.readAs = some values ∧ (values.foldl (· ||| ·) 0 : Nat) = val

theorem EnumDef.toOption_items (e : EnumDef) : ∀ (texts : List Str) (result : Nat),
    (e.items result texts).toOption =
      (texts.mapM (fun text => (e.item text).toOption)).map (fun values => values.foldl (· ||| ·) result)
  | [], _ => rfl
  | text :: texts, result => by
    rw [EnumDef.items, List.mapM_cons]
    cases htext : e.item text with
    | error x => rfl
    | ok v =>
      simp only [e.toOption_items texts (result ||| v)]
      cases texts.mapM (fun text => (e.item text).toOption) <;> rfl

theorem EnumDef.items_of_mem (e : EnumDef) {text : Str} (h : (e.item text).toOption = none) :
    ∀ {texts : List Str} (result : Nat), text ∈ texts → (e.items result texts).toOption = none
  | t :: ts, result, hmem => by
    rw [EnumDef.items]
    cases ht : e.item t with
    | error x => rfl
    | ok v =>
      rcases List.mem_cons.1 hmem with rfl | hmem
      · rw [ht] at h; cases h
      · exact e.items_of_mem h _ hmem

theorem EnumDef.Parsed.mapM_text {e : EnumDef} (h : e.Parsed) : ∀ {items : List (Str × Nat)}, (∀ x ∈ items, x ∈ e.tables.toc) →
    (items.map (fun item => e.tables.text item.1)).mapM (fun text => (e.item text).toOption) = items.mapM e.readAs
  | [], _ => rfl
  | x :: xs, hitems => by
    rw [List.map_cons, List.mapM_cons, List.mapM_cons, h.item_text (hitems x (List.mem_cons_self ..)),
      h.mapM_text (fun y hy => hitems y (List.mem_cons_of_mem _ hy))]

/-! ## Characters of texts -/

theorem EnumDef.Parsed.mem_text {e : EnumDef} (h : e.Parsed) {item : Str × Nat} (hitem : item ∈ e.tables.toc) {c : Char}
    (hc : c ∈ e.tables.text item.1) : Py.isWord c = true ∨ c = '.' := by
  obtain ⟨hmem, hword⟩ := h.tables.names item hitem
  obtain ⟨pref, short, hpart, hname, -⟩ := Py.partition_of_mem hmem
  have hshort : ∀ c ∈ short, Py.isWord c = true :=
    fun c hc => hword c (hname ▸ List.mem_append_right _ (List.mem_cons_of_mem _ hc))
  unfold Tables.text at hc
  simp only [hpart] at hc
  split at hc
  · exact .inl (hshort c hc)
  · rcases List.mem_append.1 hc with hc | hc
    · exact .inl (hword c (hname ▸ List.mem_append_left _ hc))
    · exact (List.mem_cons.1 hc).symm.imp_left (hshort c)

theorem mem_hexUpper {val : Int} {c : Char} (hc : c ∈ hexUpper val) : Py.isWord c = true ∨ c = '-' := by
  have hdigit : ∀ d < 16, Py.isWord (Nat.digitChar d).toUpper = true := by decide
  have hdigits (n : Nat) : ∀ c ∈ (Nat.toDigits 16 n).map Char.toUpper, Py.isWord c = true := by
    induction n using Nat.strong_induction_on with
    | _ n ih =>
      intro c hc
      rw [Nat.toDigits_eq_if (by decide)] at hc
      split at hc
      · rename_i hn
        rw [List.map_singleton, List.mem_singleton] at hc
        exact hc ▸ hdigit n hn
      · rw [List.map_append, List.mem_append, List.map_singleton, List.mem_singleton] at hc
        rcases hc with hc | rfl
        · exact ih (n / 16) (by omega) c hc
        · exact hdigit _ (Nat.mod_lt _ (by decide))
  unfold hexUpper at hc
  simp only at hc
  split at hc
  · exact (List.mem_cons.1 hc).symm.imp_left (hdigits _ c)
  · exact .inl (hdigits _ c hc)

/-- The pieces of a text, without separators. -/
def EnumDef.pieces (e : EnumDef) (val : Int) : List Str :=
  (e.shown val).map (fun item => e.tables.text item.1) ++
    if e.leftover val = 0 then [] else ["#0x".toList ++ hexUpper (e.leftover val)]

theorem EnumDef.int2str_eq (e : EnumDef) (val : Int) : e.int2str val = Py.join ['|'] (e.pieces val) := by
  unfold EnumDef.int2str EnumDef.pieces
  simp only
  split
  · rw [List.append_nil]
  · rfl

theorem EnumDef.Parsed.mem_pieces {e : EnumDef} (h : e.Parsed) {val : Int} {piece : Str} (hp : piece ∈ e.pieces val) {c : Char}
    (hc : c ∈ piece) : Py.isWord c = true ∨ c ∈ ['.', '#', '-'] := by
  rcases List.mem_append.1 hp with hp | hp
  · obtain ⟨x, hx, rfl⟩ := List.mem_map.1 hp
    exact (h.mem_text (List.mem_filter.1 hx).1 hc).imp_right (fun hc => by simp [hc])
  · split at hp
    · cases hp
    · rw [List.mem_singleton.1 hp] at hc
      rcases List.mem_append.1 hc with hc | hc
      · have hc : c = '#' ∨ c = '0' ∨ c = 'x' := by simpa using hc
        rcases hc with rfl | rfl | rfl <;> decide
      · exact (mem_hexUpper hc).imp_right (fun hc => by simp [hc])

theorem EnumDef.Parsed.pieces_free {e : EnumDef} (h : e.Parsed) (val : Int) :
    ∀ piece ∈ e.pieces val, ∀ c ∈ piece, isItemSep c = false := by
  intro piece hp c hc
  rcases h.mem_pieces hp hc with hc | hc
  · exact isItemSep_of_isWord hc
  · simp only [List.mem_cons, List.not_mem_nil, or_false] at hc
    rcases hc with rfl | rfl | rfl <;> decide

theorem mem_join {sep : Char} {c : Char} : ∀ {items : List Str}, c ∈ Py.join [sep] items → c = sep ∨ ∃ s ∈ items, c ∈ s
  | [], h => absurd h List.not_mem_nil
  | [s], h => .inr ⟨s, List.mem_singleton_self s, by simpa [Py.join] using h⟩
  | s :: t :: ts, h => by
    rw [Py.join_cons_cons] at h
    rcases List.mem_append.1 h with h | h
    · exact .inr ⟨s, List.mem_cons_self .., h⟩
    · rcases List.mem_cons.1 h with h | h
      · exact .inl h
      · refine (mem_join h).imp_right ?_
        rintro ⟨u, hu, hc⟩
        exact ⟨u, List.mem_cons_of_mem s hu, hc⟩

theorem EnumDef.Parsed.mem_int2str {e : EnumDef} (h : e.Parsed) {val : Int} {c : Char} (hc : c ∈ e.int2str val) :
    Py.isWord c = true ∨ c ∈ ['.', '#', '-', '|'] := by
  rw [e.int2str_eq] at hc
  rcases mem_join hc with rfl | ⟨piece, hp, hc⟩
  · exact .inr (by decide)
  · exact (h.mem_pieces hp hc).imp_right (List.mem_append_left ['|'])

/-! ## A value -/

/-- **The bits that no shown item has** cannot be read back. -/
theorem EnumDef.Parsed.str2int_leftover {e : EnumDef} (h : e.Parsed) {val : Int} (hleft : e.leftover val ≠ 0) :
    (e.str2int (e.int2str val)).toOption = none := by
  have hhex : (e.item ("#0x".toList ++ hexUpper (e.leftover val))).toOption = none :=
    h.item_notWord Bool.false_ne_true (List.mem_cons_self ..) (show Py.isWord '#' = false by decide)
  have hfree := h.pieces_free val
  rw [EnumDef.str2int, e.int2str_eq]
  unfold EnumDef.pieces at hfree ⊢
  rw [if_neg hleft] at hfree ⊢
  cases hmap : (e.shown val).map (fun item => e.tables.text item.1) with
  | nil =>
    rw [hmap] at hfree
    rw [List.nil_append, Py.splitRuns_join (by decide) hfree]
    exact e.items_of_mem hhex 0 (List.mem_cons_self ..)
  | cons t ts =>
    rw [hmap] at hfree
    rw [List.cons_append] at hfree ⊢
    rw [Py.splitRuns_join (show isItemSep '|' = true by decide) hfree]
    exact e.items_of_mem hhex 0 (List.mem_cons_of_mem _ ((Py.mem_compress _).2
      ⟨List.mem_append_right ts (List.mem_singleton_self _), .inr List.getLast?_concat⟩))

theorem EnumDef.Parsed.str2int_nil {e : EnumDef} (h : e.Parsed) (hshown : e.shown 0 = []) :
    e.items 0 (Py.splitRuns isItemSep (Py.join ['|'] [])) = .ok 0 ↔ e.tables.shortToc.get? [] = none := by
  have htoc : e.tables.toc.get? [] = none := by
    by_contra hne
    obtain ⟨v, hv⟩ := Option.ne_none_iff_exists'.1 hne
    exact absurd (h.tables.names _ (Dict.mem_of_get? hv)).1 List.not_mem_nil
  show e.items 0 [[]] = .ok 0 ↔ _
  rw [EnumDef.items, EnumDef.item, if_neg (show ¬ startsWithDelim [] = true by decide), htoc]
  cases hshort : e.tables.shortToc.get? [] with
  | none => exact ⟨fun _ => rfl, fun _ => rfl⟩
  | some x =>
    refine iff_of_false (fun h0 => ?_) (Option.some_ne_none x)
    cases x with
    | none => cases h0
    | some name =>
      cases hget : e.tables.toc.get? name with
      | none => simp only [hget] at h0; cases h0
      | some value =>
        -- an item of value 0 would be shown
        simp only [hget, EnumDef.items, Except.ok.injEq, Nat.zero_or] at h0
        subst h0
        have hmem : (name, 0) ∈ e.shown 0 := by
          refine List.mem_filter.2 ⟨Dict.mem_of_get? hget, ?_⟩
          unfold Tables.shows
          cases e.tables.masks.get? (Py.partition '_' name).1 <;> simp [Int.land]
        rw [hshown] at hmem
        cases hmem

/-- **When the text of a value is read back as the value.** -/
theorem EnumDef.str2int_int2str_iff {e : EnumDef} (h : e.Parsed) (val : Int) :
    (∃ n : Nat, e.str2int (e.int2str val) = .ok n ∧ (n : Int) = val) ↔ e.Legible val := by
  have hok {x : Except Error Nat} {n : Nat} : x = .ok n ↔ x.toOption = some n := by cases x <;> simp [Except.toOption]
  by_cases hleft : e.leftover val = 0
  · have hfree := h.pieces_free val
    rw [EnumDef.str2int, e.int2str_eq]
    unfold EnumDef.Legible
    unfold EnumDef.pieces at hfree ⊢
    rw [if_pos hleft, List.append_nil] at hfree ⊢
    simp only [hleft, true_and]
    have hsub : ∀ x ∈ e.shown val, x ∈ e.tables.toc := fun x hx => (List.mem_filter.1 hx).1
    cases hshown : e.shown val with
    | nil =>
      have hval : val = 0 := by
        rw [EnumDef.leftover, hshown] at hleft
        cases val with
        | ofNat n => simpa [Int.ldiff, Nat.ldiff] using hleft
        | negSucc n => simp [Int.ldiff] at hleft
      subst hval
      rw [List.map_nil, ← h.str2int_nil hshown]
      refine ⟨?_, fun h0 => ⟨0, h0, rfl⟩⟩
      rintro ⟨n, hn, h0⟩
      exact (Int.natCast_eq_zero.1 h0) ▸ hn
    | cons x xs =>
      rw [hshown] at hsub hfree
      have hkept : ∀ y ∈ x :: e.tables.kept xs, y ∈ e.tables.toc :=
        fun y hy => hsub y (((e.tables.kept_sublist xs).cons_cons x).subset hy)
      have hmapM := h.mapM_text hkept
      rw [List.map_cons] at hfree hmapM ⊢
      simp only [Py.splitRuns_join (show isItemSep '|' = true by decide) hfree, e.tables.compress_map, hok,
        e.toOption_items, hmapM]
      constructor
      · rintro ⟨n, hn, hval⟩
        obtain ⟨values, hvalues, rfl⟩ := Option.map_eq_some_iff.1 hn
        exact ⟨values, hvalues, hval⟩
      · rintro ⟨values, hvalues, hval⟩
        exact ⟨_, by rw [hvalues]; rfl, hval⟩
  · refine iff_of_false ?_ (fun hlegible => hleft hlegible.1)
    rintro ⟨n, hn, -⟩
    have hnone := h.str2int_leftover hleft
    rw [hok.1 hn] at hnone
    cases hnone

end Mstd.Cfg
