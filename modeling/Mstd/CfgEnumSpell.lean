import Mathlib.Data.List.Nodup
import Mstd.CfgEnumRead
/-!
# Spellings of enum items (`mstd.cfg.py`, `str2int`)

An item is written by its name, with `::` or a dot for the first `_`, or by its short name.  `spelled_read_iff` says when
`str2int` makes a list of such texts the values of their items, and which other texts it takes.
-/
namespace Mstd.Cfg

open Py (Str Dict)

def prefixName (name : Str) : Str := (Py.partition '_' name).1

inductive Spelling where
  | full
  | colons
  | dot
  | short

/-- An item as a text mentions it. -/
structure Mention where
  item : Str × Nat
  spelling : Spelling

def Mention.text (x : Mention) : Str :=
  match x.spelling with
  | .full   => x.item.1
  | .colons => prefixName x.item.1 ++ ':' :: ':' :: shortName x.item.1
  | .dot    => prefixName x.item.1 ++ '.' :: shortName x.item.1
  | .short  => shortName x.item.1

/-- The mention is of an item of the enum; a short name is that of one item. -/
structure EnumDef.Allows (e : EnumDef) (x : Mention) : Prop where
  mem : x.item ∈ e.tables.toc
  short : x.spelling = .short → e.shorts (shortName x.item.1) = 1

/-- No short name is another item's name. -/
def EnumDef.Apart (e : EnumDef) : Prop := ∀ x ∈ e.tables.toc, ∀ y ∈ e.tables.toc, x.1 ≠ y.1 → shortName x.1 ≠ y.1

instance (e : EnumDef) : Decidable e.Apart := inferInstanceAs (Decidable (∀ x ∈ _, ∀ y ∈ _, _))

/-! ## One mention -/

/-- A mention that `str2int` takes: it looks for `::` and dots at the start only, and for a short name with `_` there among
the names. -/
def Mention.Readable (x : Mention) : Prop :=
  match x.spelling with
  | .full          => True
  | .colons | .dot => prefixName x.item.1 = []
  | .short         => (shortName x.item.1).head? ≠ some '_'

instance Mention.decReadable : (x : Mention) → Decidable x.Readable
  | ⟨_, .full⟩      => .isTrue trivial
  | ⟨item, .colons⟩ => inferInstanceAs (Decidable (prefixName item.1 = []))
  | ⟨item, .dot⟩    => inferInstanceAs (Decidable (prefixName item.1 = []))
  | ⟨_, .short⟩     => inferInstanceAs (Decidable (_ ≠ _))

theorem name_eq {name : Str} (h : ItemName name) :
    name = prefixName name ++ '_' :: shortName name ∧ '_' ∉ prefixName name := by
  obtain ⟨pref, rest, hpart, hname, hpref⟩ := Py.partition_of_mem h.1
  rw [prefixName, shortName, hpart]
  exact ⟨hname, hpref⟩

/-- A text that begins with `_`, `::` or a dot is looked up among the names. -/
theorem EnumDef.item_delim (e : EnumDef) {s : Str} (hd : startsWithDelim s = true) :
    (e.item s).toOption = e.tables.toc.get? (subDelims s) := by
  unfold EnumDef.item
  rw [if_pos hd]
  cases e.tables.toc.get? (subDelims s) <;> rfl

/-- Every short name in the table is that of a name, the one it stands for. -/
def Tables.ShortsNamed (t : Tables) : Prop := ∀ s x, t.shortToc.get? s = some x →
  ∃ name, (t.toc.get? name).isSome = true ∧ shortName name = s ∧ ∀ n, x = some n → n = name

section

variable {e : EnumDef} (h : e.Parsed)

include h

theorem EnumDef.Parsed.word_short {item : Str × Nat} (hitem : item ∈ e.tables.toc) :
    ∀ c ∈ shortName item.1, Py.isWord c = true := fun c hc => by
  have hname := h.tables.names item hitem
  refine hname.2 c ?_
  rw [(name_eq hname).1]
  exact List.mem_append_right _ (List.mem_cons_of_mem _ hc)

theorem EnumDef.Parsed.of_shortToc : e.tables.ShortsNamed := by
  have hfold : ∀ (body : List EnumField) (t : Tables), (∀ item ∈ body, ItemName item.name) →
      t.ShortsNamed → (body.foldl Tables.addItem t).ShortsNamed := by
    intro body
    induction body with
    | nil => exact fun t _ ht => ht
    | cons item body ih =>
      intro t hbody ht
      refine ih _ (fun y hy => hbody y (List.mem_cons_of_mem item hy)) (fun s x hs => ?_)
      obtain ⟨pref, rest, hpart, -, -⟩ := Py.partition_of_mem (hbody item (List.mem_cons_self ..)).1
      unfold Tables.addItem at hs ⊢
      split at hs
      · rename_i hmask
        rw [if_pos hmask]
        exact ht s x hs
      · rename_i hmask
        rw [if_neg hmask]
        rw [hpart] at hs ⊢
        simp only [Dict.get?_set] at hs ⊢
        by_cases hr : rest = s
        · rw [if_pos hr] at hs
          refine ⟨item.name, by rw [if_pos rfl]; rfl, by rw [shortName, hpart, hr], fun n hn => ?_⟩
          obtain rfl := Option.some.inj hs
          split at hn
          · cases hn
          · exact (Option.some.inj hn).symm
        · rw [if_neg hr] at hs
          obtain ⟨name, hmem, hname⟩ := ht s x hs
          refine ⟨name, ?_, hname⟩
          split
          · rfl
          · exact hmem
  exact hfold e.body _ h (fun s x hs => by cases hs)

/-- A short name of one item stands for it. -/
theorem EnumDef.Parsed.shortToc_of_one {item : Str × Nat} (hitem : item ∈ e.tables.toc)
    (hone : e.shorts (shortName item.1) = 1) : e.tables.shortToc.get? (shortName item.1) = some (some item.1) := by
  have hmet := h.met_tables (shortName item.1)
  rw [hone] at hmet
  obtain ⟨name, hname⟩ := Tables.met_eq_one_iff.1 hmet
  obtain ⟨x, hx, hxname⟩ := h.tables.short item hitem
  have hx : e.tables.shortToc.get? (shortName item.1) = some x := hx
  rw [hx] at hname
  rw [hx, Option.some.inj hname, ← hxname name (Option.some.inj hname)]

/-- Where no short name is a name, no text is both. -/
theorem EnumDef.Parsed.name_or_short (hapart : e.Apart) {s : Str} {v : Nat} (hv : e.tables.toc.get? s = some v) :
    e.tables.shortToc.get? s = none := by
  by_contra hs
  obtain ⟨y, hy⟩ := Option.ne_none_iff_exists'.1 hs
  obtain ⟨name, hmem, rfl, -⟩ := h.of_shortToc _ _ hy
  obtain ⟨w, hw⟩ := Option.isSome_iff_exists.1 hmem
  refine hapart _ (Dict.mem_of_get? hw) _ (Dict.mem_of_get? hv) (fun hsame => ?_) rfl
  have hlen := congrArg List.length (name_eq (h.tables.names _ (Dict.mem_of_get? hw))).1
  have hlen' : name.length = (shortName name).length := congrArg List.length hsame
  simp only [List.length_append, List.length_cons] at hlen
  omega

/-- Behind a prefix `str2int` knows no separator but `_`. -/
theorem EnumDef.Parsed.item_behind {item : Str × Nat} (hitem : item ∈ e.tables.toc) (hp : prefixName item.1 ≠ []) {sep : Str}
    {c : Char} (hc : c ∈ sep) (hword : Py.isWord c = false) : (e.item (prefixName item.1 ++ sep)).toOption = none := by
  have hname := h.tables.names item hitem
  obtain ⟨heq, hpref⟩ := name_eq hname
  refine h.item_notWord ?_ (List.mem_append_right _ hc) hword
  obtain ⟨p, ps, hps⟩ := List.exists_cons_of_ne_nil hp
  have hpw : Py.isWord p = true := hname.2 p (by rw [heq, hps]; exact List.mem_cons_self ..)
  have hdot := Py.ne_of_isWord hpw (show Py.isWord '.' = false by decide)
  have hcolon := Py.ne_of_isWord hpw (show Py.isWord ':' = false by decide)
  have hu : p ≠ '_' := fun hu => hpref (by rw [hps, hu]; exact List.mem_cons_self ..)
  simp [hps, startsWithDelim, hu, hdot, hcolon]

/-- An item with `::` or a dot in it is read when nothing stands before that. -/
theorem EnumDef.Parsed.item_sep {item : Str × Nat} (hitem : item ∈ e.tables.toc) {sep : Str}
    (hstart : startsWithDelim (sep ++ shortName item.1) = true)
    (hsub : subDelims (sep ++ shortName item.1) = '_' :: shortName item.1) {c : Char} (hc : c ∈ sep)
    (hword : Py.isWord c = false) :
    (e.item (prefixName item.1 ++ (sep ++ shortName item.1))).toOption =
      if prefixName item.1 = [] then some item.2 else none := by
  by_cases hp : prefixName item.1 = []
  · have hname : '_' :: shortName item.1 = item.1 := by
      conv => rhs; rw [(name_eq (h.tables.names item hitem)).1, hp, List.nil_append]
    rw [if_pos hp, hp, List.nil_append, e.item_delim hstart, hsub, hname]
    exact Dict.get?_of_mem h.tables.nodup hitem
  · rw [if_neg hp]
    exact h.item_behind hitem hp (List.mem_append_left _ hc) hword

/-- **What `str2int` makes of a mention.** -/
theorem EnumDef.Parsed.item_mention (hapart : e.Apart) {x : Mention} (hx : e.Allows x) :
    (e.item x.text).toOption = if x.Readable then some x.item.2 else none := by
  have hname := h.tables.names x.item hx.mem
  have hshort := h.word_short hx.mem
  have hget : e.tables.toc.get? x.item.1 = some x.item.2 := Dict.get?_of_mem h.tables.nodup hx.mem
  obtain ⟨item, spelling⟩ := x
  simp only at hname hshort hget
  cases spelling with
  | full =>
    rw [if_pos (show Mention.Readable ⟨item, .full⟩ from trivial)]
    show (e.item item.1).toOption = _
    by_cases hd : startsWithDelim item.1 = true
    · rw [e.item_delim hd, subDelims_of_word hname.2, hget]
    · unfold EnumDef.item
      simp only [if_neg hd, h.name_or_short hapart hget, hget]
      rfl
  | colons =>
    have hsub : subDelims ([':', ':'] ++ shortName item.1) = '_' :: shortName item.1 := by
      rw [List.cons_append, List.singleton_append, subDelims, subDelims_of_word hshort]
    exact h.item_sep hx.mem rfl hsub (List.mem_cons_self ..) (by decide)
  | dot =>
    have hsub : subDelims (['.'] ++ shortName item.1) = '_' :: shortName item.1 := by
      simp [subDelims, subDelims_of_word hshort]
    exact h.item_sep hx.mem rfl hsub (List.mem_cons_self ..) (by decide)
  | short =>
    show (e.item (shortName item.1)).toOption = _
    have hstand := h.shortToc_of_one hx.mem (hx.short rfl)
    by_cases hd : (shortName item.1).head? = some '_'
    · have htoc : e.tables.toc.get? (shortName item.1) = none := by
        by_contra hne
        obtain ⟨v, hv⟩ := Option.ne_none_iff_exists'.1 hne
        rw [h.name_or_short hapart hv] at hstand
        cases hstand
      rw [if_neg (show ¬ Mention.Readable ⟨item, .short⟩ from fun hr => hr hd),
        e.item_delim ((startsWithDelim_of_word hshort).2 hd), subDelims_of_word hshort, htoc]
    · rw [if_pos (show Mention.Readable ⟨item, .short⟩ from hd)]
      unfold EnumDef.item
      simp only [if_neg (fun hs => hd ((startsWithDelim_of_word hshort).1 hs)), hstand, hget]
      rfl

end

/-! ## Lists of mentions -/

/-- The values of the items, joined with `|`. -/
def valueOf (xs : List Mention) : Nat := xs.foldl (fun result x => result ||| x.item.2) 0

/-- A list that `str2int` takes: every mention, and an empty one, which is lost between two others, at an end of the list
or with bits of others only.  Nothing is read as the item with the empty short name, if there is one. -/
structure EnumDef.Reads (e : EnumDef) (xs : List Mention) : Prop where
  readable : ∀ x ∈ xs, x.Readable
  kept : ∀ x ∈ xs, x.text = [] → xs.head?.map Mention.text = some [] ∨ xs.getLast?.map Mention.text = some [] ∨
    ∀ k, x.item.2.testBit k = true → ∃ y ∈ xs, y.text ≠ [] ∧ y.item.2.testBit k = true
  empty : xs = [] → ∀ item ∈ e.tables.toc, shortName item.1 = [] → e.shorts [] = 1 ∧ item.2 = 0

theorem testBit_valueOf (xs : List Mention) (k : Nat) :
    (valueOf xs).testBit k = true ↔ ∃ x ∈ xs, x.item.2.testBit k = true := by
  have hfold : valueOf xs = (xs.map (fun x => x.item.2)).foldl (· ||| ·) 0 := by rw [valueOf, List.foldl_map]
  rw [hfold, testBit_foldl_or, Nat.zero_testBit, Bool.false_or, List.any_map, List.any_eq_true]
  rfl

/-- A mention whose text the split of the list keeps. -/
def Mention.Kept (xs : List Mention) (y : Mention) : Prop :=
  y.text ≠ [] ∨ xs.head?.map Mention.text = some y.text ∨ xs.getLast?.map Mention.text = some y.text

theorem mem_keptTexts {x : Mention} {xs : List Mention} {t : Str} :
    t ∈ x.text :: Py.compress (xs.map Mention.text) ↔ ∃ y ∈ x :: xs, y.text = t ∧ Mention.Kept (x :: xs) y := by
  rw [Py.mem_cons_compress, ← List.map_cons (f := Mention.text), List.mem_map, List.getLast?_map]
  constructor
  · rintro ⟨⟨y, hy, rfl⟩, hplace⟩
    exact ⟨y, hy, rfl, hplace.imp_right (Or.imp_left (fun heq => congrArg some heq.symm))⟩
  · rintro ⟨y, hy, rfl, hplace⟩
    exact ⟨⟨y, hy, rfl⟩, hplace.imp_right (Or.imp_left (fun heq => (Option.some.inj heq).symm))⟩

/-- The kept mentions have all bits exactly when what is lost was shown elsewhere. -/
theorem covered_iff (xs : List Mention) :
    (∀ k, (valueOf xs).testBit k = true → ∃ y ∈ xs, Mention.Kept xs y ∧ y.item.2.testBit k = true) ↔
      ∀ x ∈ xs, x.text = [] → xs.head?.map Mention.text = some [] ∨ xs.getLast?.map Mention.text = some [] ∨
        ∀ k, x.item.2.testBit k = true → ∃ y ∈ xs, y.text ≠ [] ∧ y.item.2.testBit k = true := by
  constructor
  · intro hcov y hy hyt
    by_cases hhead : xs.head?.map Mention.text = some []
    · exact .inl hhead
    by_cases hlast : xs.getLast?.map Mention.text = some []
    · exact .inr (.inl hlast)
    refine .inr (.inr (fun k hk => ?_))
    obtain ⟨z, hz, hplace, hbit⟩ := hcov k ((testBit_valueOf _ k).2 ⟨y, hy, hk⟩)
    refine ⟨z, hz, fun hzt => ?_, hbit⟩
    rw [Mention.Kept, hzt] at hplace
    rcases hplace with hne | heq | heq
    · exact hne rfl
    · exact hhead heq
    · exact hlast heq
  · intro hkept k hk
    obtain ⟨y, hy, hbit⟩ := (testBit_valueOf _ k).1 hk
    by_cases hyt : y.text = []
    · rcases hkept y hy hyt with hhead | hlast | hother
      · exact ⟨y, hy, .inr (.inl (hhead.trans (congrArg some hyt.symm))), hbit⟩
      · exact ⟨y, hy, .inr (.inr (hlast.trans (congrArg some hyt.symm))), hbit⟩
      · obtain ⟨z, hz, hzt, hzbit⟩ := hother k hbit
        exact ⟨z, hz, .inl hzt, hzbit⟩
    · exact ⟨y, hy, .inl hyt, hbit⟩

theorem Mention.text_ne_nil {x : Mention} (hname : ItemName x.item.1) (h : ¬ x.Readable) : x.text ≠ [] := by
  obtain ⟨item, spelling⟩ := x
  cases spelling with
  | full => exact absurd trivial h
  | colons => exact List.append_ne_nil_of_right_ne_nil _ (List.cons_ne_nil _ _)
  | dot => exact List.append_ne_nil_of_right_ne_nil _ (List.cons_ne_nil _ _)
  | short =>
    intro ht
    have ht : shortName item.1 = [] := ht
    refine h (fun hhead => ?_)
    have hhead : (shortName item.1).head? = some '_' := hhead
    rw [ht] at hhead
    cases hhead

section

variable {e : EnumDef} (h : e.Parsed)

include h

theorem EnumDef.Parsed.mention_free {x : Mention} (hx : e.Allows x) : ∀ c ∈ x.text, isItemSep c = false := by
  have hname := h.tables.names x.item hx.mem
  have hshort := h.word_short hx.mem
  have hpref : ∀ c ∈ prefixName x.item.1, Py.isWord c = true := fun c hc => hname.2 c (by
    rw [(name_eq hname).1]
    exact List.mem_append_left _ hc)
  intro c hc
  obtain ⟨item, spelling⟩ := x
  have hparts : Py.isWord c = true ∨ c = ':' ∨ c = '.' := by
    cases spelling with
    | full => exact .inl (hname.2 c hc)
    | colons =>
      rcases List.mem_append.1 hc with hc | hc
      · exact .inl (hpref c hc)
      · rcases List.mem_cons.1 hc with rfl | hc
        · exact .inr (.inl rfl)
        · exact (List.mem_cons.1 hc).elim (fun h => .inr (.inl h)) (fun h => .inl (hshort c h))
    | dot =>
      rcases List.mem_append.1 hc with hc | hc
      · exact .inl (hpref c hc)
      · exact (List.mem_cons.1 hc).elim (fun h => .inr (.inr h)) (fun h => .inl (hshort c h))
    | short => exact .inl (hshort c hc)
  rcases hparts with hword | rfl | rfl
  · exact isItemSep_of_isWord hword
  · decide
  · decide

theorem EnumDef.Parsed.str2int_empty : e.str2int [] = .ok 0 ↔
    ∀ item ∈ e.tables.toc, shortName item.1 = [] → e.shorts [] = 1 ∧ item.2 = 0 := by
  have htoc : e.tables.toc.get? [] = none := by
    by_contra hne
    obtain ⟨v, hv⟩ := Option.ne_none_iff_exists'.1 hne
    exact absurd (h.tables.names _ (Dict.mem_of_get? hv)).1 List.not_mem_nil
  have hone (he : e.shorts [] = 1) : ∃ name, e.tables.shortToc.get? [] = some (some name) := by
    refine Tables.met_eq_one_iff.1 ?_
    rw [h.met_tables, he]
    rfl
  show e.items 0 [[]] = .ok 0 ↔ _
  rw [EnumDef.items, EnumDef.item, if_neg (show ¬ startsWithDelim [] = true by decide), htoc]
  cases hshort : e.tables.shortToc.get? [] with
  | none =>
    refine iff_of_true rfl (fun item hitem hempty => ?_)
    obtain ⟨y, hy, -⟩ := h.tables.short item hitem
    have hy : e.tables.shortToc.get? (shortName item.1) = some y := hy
    rw [hempty, hshort] at hy
    cases hy
  | some y =>
    obtain ⟨name, hmem, hname, hy⟩ := h.of_shortToc _ _ hshort
    obtain ⟨v, hv⟩ := Option.isSome_iff_exists.1 hmem
    cases y with
    | none =>
      refine iff_of_false (fun h0 => by cases h0) (fun hall => ?_)
      obtain ⟨n, hn⟩ := hone (hall (name, v) (Dict.mem_of_get? hv) hname).1
      rw [hn] at hshort
      cases hshort
    | some n =>
      obtain rfl := hy n rfl
      simp only [hv, EnumDef.items, Nat.zero_or, Except.ok.injEq]
      constructor
      · rintro rfl item hitem hempty
        have hstand := Tables.met_eq_one_iff.2 ⟨n, hshort⟩
        rw [h.met_tables] at hstand
        have hcount : e.shorts [] = 1 := by omega
        have hitem' := h.shortToc_of_one hitem (hempty ▸ hcount)
        rw [hempty, hshort] at hitem'
        have hsame := Dict.get?_of_mem h.tables.nodup hitem
        rw [← Option.some.inj (Option.some.inj hitem'), hv] at hsame
        exact ⟨hcount, (Option.some.inj hsame).symm⟩
      · exact fun hall => (hall (n, v) (Dict.mem_of_get? hv) hname).2

/-- The values that `str2int` puts together are those of the mentions it keeps. -/
theorem EnumDef.Parsed.kept_values (hapart : e.Apart) {x : Mention} {xs : List Mention} (hxs : ∀ y ∈ x :: xs, e.Allows y)
    (hread : ∀ y ∈ x :: xs, y.Readable) :
    ∃ values, (x.text :: Py.compress (xs.map Mention.text)).mapM (fun t => (e.item t).toOption) = some values ∧
      ∀ w, w ∈ values ↔ ∃ y ∈ x :: xs, y.item.2 = w ∧ Mention.Kept (x :: xs) y := by
  have hvalue : ∀ y ∈ x :: xs, (e.item y.text).toOption = some y.item.2 := fun y hy => by
    rw [h.item_mention hapart (hxs y hy), if_pos (hread y hy)]
  obtain ⟨values, hvalues⟩ := exists_mapM (f := fun t => (e.item t).toOption)
    (l := x.text :: Py.compress (xs.map Mention.text)) (fun t ht => by
      obtain ⟨y, hy, rfl, -⟩ := mem_keptTexts.1 ht
      exact ⟨_, hvalue y hy⟩)
  refine ⟨values, hvalues, fun w => ?_⟩
  rw [mapM_eq_some hvalues]
  constructor
  · rintro ⟨t, ht, hw⟩
    obtain ⟨y, hy, rfl, hplace⟩ := mem_keptTexts.1 ht
    exact ⟨y, hy, Option.some.inj ((hvalue y hy).symm.trans hw), hplace⟩
  · rintro ⟨y, hy, rfl, hplace⟩
    exact ⟨y.text, mem_keptTexts.2 ⟨y, hy, rfl, hplace⟩, hvalue y hy⟩

/-- **A list of mentions** is read as the values of its items exactly when `str2int` takes it. -/
theorem EnumDef.Parsed.str2int_joined (hapart : e.Apart) {xs : List Mention} {text : Str} (hxs : ∀ x ∈ xs, e.Allows x)
    (hjoined : Py.Joined isItemSep (xs.map Mention.text) text) : e.str2int text = .ok (valueOf xs) ↔ e.Reads xs := by
  cases xs with
  | nil =>
    cases hjoined
    refine h.str2int_empty.trans ⟨fun he => ⟨fun x hx => absurd hx List.not_mem_nil, fun x hx => absurd hx List.not_mem_nil,
      fun _ => he⟩, fun hr => hr.empty rfl⟩
  | cons x xs =>
    have hfree : ∀ t ∈ x.text :: xs.map Mention.text, ∀ c ∈ t, isItemSep c = false := fun t ht => by
      obtain ⟨y, hy, rfl⟩ := List.mem_map.1 (show t ∈ (x :: xs).map Mention.text from ht)
      exact h.mention_free (hxs y hy)
    have hok {r : Except Error Nat} {n : Nat} : r = .ok n ↔ r.toOption = some n := by cases r <;> simp [Except.toOption]
    rw [EnumDef.str2int, Py.splitRuns_joined hjoined hfree, hok]
    by_cases hread : ∀ y ∈ x :: xs, y.Readable
    · obtain ⟨values, hvalues, hmem⟩ := h.kept_values hapart hxs hread
      have hinside : ∀ w ∈ values, w &&& valueOf (x :: xs) = w := fun w hw => and_eq_left_iff.2 (fun k hk => by
        obtain ⟨y, hy, rfl, -⟩ := (hmem _).1 hw
        exact (testBit_valueOf _ k).2 ⟨y, hy, hk⟩)
      have hcovered : (∀ k, (valueOf (x :: xs)).testBit k = true → ∃ w ∈ values, w.testBit k = true) ↔
          ∀ k, (valueOf (x :: xs)).testBit k = true →
            ∃ y ∈ x :: xs, Mention.Kept (x :: xs) y ∧ y.item.2.testBit k = true := by
        refine forall_congr' (fun k => imp_congr_right (fun _ => ⟨?_, ?_⟩))
        · rintro ⟨w, hw, hbit⟩
          obtain ⟨y, hy, rfl, hplace⟩ := (hmem _).1 hw
          exact ⟨y, hy, hplace, hbit⟩
        · rintro ⟨y, hy, hplace, hbit⟩
          exact ⟨_, (hmem _).2 ⟨y, hy, rfl, hplace⟩, hbit⟩
      rw [e.toOption_items, hvalues, Option.map_some, Option.some.injEq, foldl_or_eq_iff, and_iff_right hinside, hcovered,
        covered_iff]
      exact ⟨fun hkept => ⟨hread, hkept, fun hnil => absurd hnil (List.cons_ne_nil x xs)⟩, fun hr => hr.kept⟩
    · refine iff_of_false (fun hsome => hread (fun y hy => ?_)) (fun hr => hread hr.readable)
      by_contra hnot
      have hne := Mention.text_ne_nil (h.tables.names y.item (hxs y hy).mem) hnot
      have hnone := e.items_of_mem (by rw [h.item_mention hapart (hxs y hy), if_neg hnot]) 0
        (mem_keptTexts.2 ⟨y, hy, rfl, .inl hne⟩)
      rw [hsome] at hnone
      cases hnone

/-- A text that mentions no item is taken when it begins with `_`, `::` or a dot, and is a name with `_` for all of them. -/
theorem EnumDef.Parsed.item_other {t : Str} (hne : t ≠ []) (hother : ∀ x, e.Allows x → x.text ≠ t) :
    (e.item t).toOption = none ↔ ¬ (startsWithDelim t = true ∧ ∃ item ∈ e.tables.toc, item.1 = subDelims t) := by
  by_cases hd : startsWithDelim t = true
  · rw [e.item_delim hd]
    cases hget : e.tables.toc.get? (subDelims t) with
    | none =>
      refine iff_of_true rfl (fun ⟨_, item, hitem, hname⟩ => ?_)
      rw [← hname, Dict.get?_of_mem h.tables.nodup hitem] at hget
      cases hget
    | some v => exact iff_of_false (Option.some_ne_none v) (fun hn => hn ⟨hd, _, Dict.mem_of_get? hget, rfl⟩)
  · refine iff_of_true ?_ (fun hn => hd hn.1)
    unfold EnumDef.item
    rw [if_neg hd]
    cases hshort : e.tables.shortToc.get? t with
    | some y =>
      cases y with
      | none => rfl
      | some name =>
        obtain ⟨name', hmem, hname, hy⟩ := h.of_shortToc _ _ hshort
        obtain rfl := hy name rfl
        obtain ⟨v, hv⟩ := Option.isSome_iff_exists.1 hmem
        have hmet := Tables.met_eq_one_iff.2 ⟨name, hshort⟩
        rw [h.met_tables] at hmet
        exact absurd hname (hother ⟨(name, v), .short⟩ ⟨Dict.mem_of_get? hv, fun _ => by rw [hname]; omega⟩)
    | none =>
      cases htoc : e.tables.toc.get? t with
      | some v => exact absurd rfl (hother ⟨(t, v), .full⟩ ⟨Dict.mem_of_get? htoc, fun hs => by cases hs⟩)
      | none =>
        simp only [if_neg hne]
        rfl

end

/-- **When the spellings of items mean the same**: a list of items is read as their values exactly when `str2int` takes each
spelling, and a text that is no spelling of an item is rejected unless its separators stand for another. -/
theorem spelled_read_iff (e : EnumDef) (h : e.Parsed) (hapart : e.Apart) :
    (∀ (xs : List Mention) (text : Str), (∀ x ∈ xs, e.Allows x) → Py.Joined isItemSep (xs.map Mention.text) text →
      (e.str2int text = .ok (valueOf xs) ↔ e.Reads xs)) ∧
    ∀ t : Str, t ≠ [] → (∀ c ∈ t, isItemSep c = false) → (∀ x, e.Allows x → x.text ≠ t) →
      ((∀ (texts : List Str) (text : Str), t ∈ texts → (∀ s ∈ texts, ∀ c ∈ s, isItemSep c = false) →
          Py.Joined isItemSep texts text → ∃ x, e.str2int text = .error x) ↔
        ¬ (startsWithDelim t = true ∧ ∃ item ∈ e.tables.toc, item.1 = subDelims t)) := by
  refine ⟨fun xs text hxs hjoined => h.str2int_joined hapart hxs hjoined, fun t hne hfree hother => ?_⟩
  rw [← h.item_other hne hother]
  have herror {r : Except Error Nat} : (∃ x, r = .error x) ↔ r.toOption = none := by cases r <;> simp [Except.toOption]
  constructor
  · intro hall
    have hone := hall [t] t (List.mem_singleton_self t) (fun s hs => List.mem_singleton.1 hs ▸ hfree) (.single t)
    rw [herror, EnumDef.str2int, Py.splitRuns_of_free hfree, e.toOption_items] at hone
    cases ht : (e.item t).toOption with
    | none => rfl
    | some v => simp [ht] at hone
  · intro hnone texts text ht hfrees hjoined
    cases texts with
    | nil => exact absurd ht List.not_mem_nil
    | cons s ts =>
      rw [herror, EnumDef.str2int, Py.splitRuns_joined hjoined hfrees]
      exact e.items_of_mem hnone 0 (Py.mem_cons_compress.2 ⟨ht, .inl hne⟩)

theorem modes_spelled : modes.str2int "Fast, |WF_On".toList = .ok 5 ∧ ∃ x, modes.str2int "Fast|Slow".toList = .error x := by
  have hiff := spelled_read_iff modes (by decide +kernel) (by decide +kernel)
  constructor
  · refine (hiff.1 [⟨("BT_Fast".toList, 4), .short⟩, ⟨("WF_On".toList, 1), .full⟩] "Fast, |WF_On".toList ?_ ?_).2 ?_
    · intro x hx
      rcases List.mem_cons.1 hx with rfl | hx
      · exact ⟨by decide +kernel, fun _ => by decide +kernel⟩
      · obtain rfl := List.mem_singleton.1 hx
        exact ⟨by decide +kernel, fun hs => by cases hs⟩
    · show Py.Joined _ _ ("Fast".toList ++ ", |".toList ++ "WF_On".toList)
      exact .cons (by decide) (List.all_eq_true.1 (by decide)) (.single _)
    · refine ⟨fun x hx => ?_, fun x hx ht => ?_, fun hnil => by cases hnil⟩
      · rcases List.mem_cons.1 hx with rfl | hx
        · decide +kernel
        · exact List.mem_singleton.1 hx ▸ trivial
      · rcases List.mem_cons.1 hx with rfl | hx
        · exact absurd ht (by decide +kernel)
        · exact absurd (List.mem_singleton.1 hx ▸ ht) (by decide +kernel)
  · have hother : ∀ x, modes.Allows x → x.text ≠ "Slow".toList := fun x hx => by
      have htoc : modes.tables.toc = [("WF_On".toList, 1), ("BT_On".toList, 2), ("BT_Fast".toList, 4)] := by decide +kernel
      have hmem := hx.mem
      obtain ⟨item, spelling⟩ := x
      rw [htoc] at hmem
      simp only [List.mem_cons, List.not_mem_nil, or_false] at hmem
      rcases hmem with rfl | rfl | rfl <;> cases spelling <;> decide +kernel
    have hfree {s : Str} (hs : s.all (fun c => !isItemSep c) = true) : ∀ c ∈ s, isItemSep c = false := fun c hc =>
      Bool.not_eq_true' _ ▸ List.all_eq_true.1 hs c hc
    refine (hiff.2 "Slow".toList (by decide) (hfree (by decide)) hother).2 (by decide +kernel) ["Fast".toList, "Slow".toList]
      "Fast|Slow".toList (by decide) (fun s hs => hfree ?_) ?_
    · simp only [List.mem_cons, List.not_mem_nil, or_false] at hs
      rcases hs with rfl | rfl <;> decide
    · show Py.Joined _ _ ("Fast".toList ++ "|".toList ++ "Slow".toList)
      exact .cons (by decide) (List.all_eq_true.1 (by decide)) (.single _)

/-- A prefix before `::` or a dot, and a name with a dot for a later `_`. -/
theorem modes_misspelled :
    modes.Parsed ∧ modes.Apart ∧ modes.Allows ⟨("BT_Fast".toList, 4), .colons⟩ ∧
      (modes.str2int "BT::Fast".toList).toOption = none ∧ (modes.str2int "BT.Fast".toList).toOption = none ∧
      let e : EnumDef := ⟨"Modes".toList, .uint8_t, [⟨"_BT_Fast".toList, 4⟩]⟩
      e.Parsed ∧ e.Apart ∧ (e.str2int "_BT.Fast".toList).toOption = some 4 := by
  refine ⟨by decide +kernel, by decide +kernel, ⟨by decide +kernel, fun hs => by cases hs⟩, ?_⟩
  decide +kernel

end Mstd.Cfg
