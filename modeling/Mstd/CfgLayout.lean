import Mstd.CfgHeader
import Mstd.StructLayout
/-!
# The parsed layout and the compiler's (`mstd.cfg.py`, `process_struct_line`)

The body of a struct as lines of declarations (`BodyLine`), with the members that the compiler sees in them, against the
fields that the parser makes of the same text.  They agree exactly when each line declares one member at most, in a
spelling that the patterns know, and the struct needs no padding at its end (`parsed_layout_iff`).
-/
namespace Mstd.Cfg

open Py (Str Dict)
open StructLayout (Packed Aligned maxAlign sizeof total starts offsets)

/-! ## Declarations -/

/-- The bound of an array: what stands between the brackets, and the value that the compiler gives it. -/
structure Bound where
  text : Str
  value : Nat

/-- A name between spaces, for an array its bound, and the initializer. -/
structure Declarator where
  lead : Str
  name : Str
  gap : Str
  bound : Option Bound
  init : Str

structure Declaration where
  lead : Str
  valType : Str
  gap : Str
  declarators : List Declarator

structure BodyLine where
  decls : List Declaration
  trail : Str
  comment : Option Str

def Declarator.tail (x : Declarator) : Str :=
  match x.bound with
  | some b => '[' :: (b.text ++ ']' :: x.init)
  | none   => x.init

def Declarator.text (x : Declarator) : Str := x.lead ++ (x.name ++ (x.gap ++ x.tail))

def Declaration.text (d : Declaration) : Str :=
  d.lead ++ (d.valType ++ (d.gap ++ (Py.join [','] (d.declarators.map Declarator.text) ++ [';'])))

def BodyLine.commentText (l : BodyLine) : Str :=
  match l.comment with
  | some comment => '/' :: '/' :: comment
  | none         => []

def BodyLine.text (l : BodyLine) : Str := l.decls.flatMap Declaration.text ++ (l.trail ++ l.commentText)

/-- `sizeof` an integer of `BASE_SIZES` or a declared enum. -/
def cppSize (enums : Dict Str EnumDecl) (valType : Str) : Option Nat :=
  match baseSizes.get? valType with
  | some t => some t.size
  | none   => (enums.get? valType).bind (fun e => (baseSizes.get? e.baseType).map IntType.size)

/-- A member as the compiler sees it: an integer or enum is aligned to its size. -/
def Declarator.member (x : Declarator) (size : Nat) : Str × StructLayout.Member :=
  match x.bound with
  | some b => (x.name, ⟨b.value, 1⟩)
  | none   => (x.name, ⟨size, size⟩)

def Declaration.members (enums : Dict Str EnumDecl) (d : Declaration) : List (Str × StructLayout.Member) :=
  d.declarators.map (fun x => x.member ((cppSize enums d.valType).getD 0))

def BodyLine.members (enums : Dict Str EnumDecl) (l : BodyLine) : List (Str × StructLayout.Member) :=
  l.decls.flatMap (Declaration.members enums)

/-! ## Well-formed lines -/

def Spaces (s : Str) : Prop := ∀ c ∈ s, Py.isSpace c = true

def Word (s : Str) : Prop := s ≠ [] ∧ ∀ c ∈ s, Py.isWord c = true

def slashes : Str := ['/', '/']

/-- A bracket that is closed in a bound was opened in it. -/
structure Bound.WellFormed (b : Bound) : Prop where
  comment : ¬ slashes <:+: b.text
  closed : ']' ∈ b.text → '[' ∈ b.text.takeWhile (· ≠ ']')

structure Declarator.WellFormed (x : Declarator) : Prop where
  lead : Spaces x.lead
  name : Word x.name
  gap : Spaces x.gap
  bound : ∀ b ∈ x.bound, b.WellFormed
  init : x.bound = none →
    (x.init = [] ∨ x.init.head? = some '=' ∨ x.init.head? = some '{') ∧ ¬ slashes <:+: x.init

/-- Members of one type: arrays of `char`, or integers or enums of a known size. -/
structure Declaration.WellFormed (enums : Dict Str EnumDecl) (d : Declaration) : Prop where
  lead : Spaces d.lead
  valType : Word d.valType
  gap : Spaces d.gap ∧ d.gap ≠ []
  ne : d.declarators ≠ []
  declarators : ∀ x ∈ d.declarators, x.WellFormed
  type : (d.valType = "char".toList ∧ ∀ x ∈ d.declarators, x.bound.isSome = true) ∨
    ((cppSize enums d.valType).isSome = true ∧ ∀ x ∈ d.declarators, x.bound = none)

structure BodyLine.WellFormed (enums : Dict Str EnumDecl) (l : BodyLine) : Prop where
  decls : ∀ d ∈ l.decls, d.WellFormed enums
  trail : Spaces l.trail

instance Spaces.decidable (s : Str) : Decidable (Spaces s) := decidable_of_iff (s.all Py.isSpace = true) List.all_eq_true

instance Word.decidable (s : Str) : Decidable (Word s) :=
  decidable_of_iff (s ≠ [] ∧ s.all Py.isWord = true) (and_congr_right' List.all_eq_true)

instance Bound.WellFormed.decidable (b : Bound) : Decidable b.WellFormed :=
  decidable_of_iff (_ ∧ _) ⟨fun h => ⟨h.1, h.2⟩, fun h => ⟨h.1, h.2⟩⟩

instance Declarator.WellFormed.decidable (x : Declarator) : Decidable x.WellFormed :=
  decidable_of_iff (_ ∧ _ ∧ _ ∧ _ ∧ _)
    ⟨fun h => ⟨h.1, h.2.1, h.2.2.1, h.2.2.2.1, h.2.2.2.2⟩, fun h => ⟨h.1, h.2, h.3, h.4, h.5⟩⟩

instance Declaration.WellFormed.decidable (enums : Dict Str EnumDecl) (d : Declaration) : Decidable (d.WellFormed enums) :=
  decidable_of_iff (_ ∧ _ ∧ _ ∧ _ ∧ _ ∧ _)
    ⟨fun h => ⟨h.1, h.2.1, h.2.2.1, h.2.2.2.1, h.2.2.2.2.1, h.2.2.2.2.2⟩, fun h => ⟨h.1, h.2, h.3, h.4, h.5, h.6⟩⟩

instance BodyLine.WellFormed.decidable (enums : Dict Str EnumDecl) (l : BodyLine) : Decidable (l.WellFormed enums) :=
  decidable_of_iff (_ ∧ _) ⟨fun h => ⟨h.1, h.2⟩, fun h => ⟨h.1, h.2⟩⟩

/-! ## Lines that are read -/

/-- The digits of a text that has nothing else but spaces around them. -/
def decimalText (text : Str) : Option Str :=
  let rest := skipSpaces text
  let digits := rest.takeWhile Py.isDigit
  if skipSpaces (rest.dropWhile Py.isDigit) = [] ∧ digits ≠ [] then some digits else none

def decimalValue (text : Str) : Option Nat := (decimalText text).bind (fun digits => (Py.int10 digits).map Int.toNat)

/-- A spelling that the patterns know: an initializer behind `=`, and a bound in decimal digits, of the same value as for
the compiler. -/
structure Declarator.Plain (x : Declarator) : Prop where
  init : x.bound = none → x.init.head? ≠ some '{'
  bound : ∀ b ∈ x.bound, decimalValue b.text = some b.value

instance Declarator.Plain.decidable (x : Declarator) : Decidable x.Plain :=
  decidable_of_iff (_ ∧ _) ⟨fun h => ⟨h.1, h.2⟩, fun h => ⟨h.1, h.2⟩⟩

def BodyLine.declarators (l : BodyLine) : List Declarator := l.decls.flatMap Declaration.declarators

/-- One member at most, in a spelling that the patterns know. -/
structure BodyLine.Plain (l : BodyLine) : Prop where
  single : l.declarators.length ≤ 1
  plain : ∀ x ∈ l.declarators, x.Plain

instance BodyLine.Plain.decidable (l : BodyLine) : Decidable l.Plain :=
  decidable_of_iff (_ ∧ _) ⟨fun h => ⟨h.1, h.2⟩, fun h => ⟨h.1, h.2⟩⟩

/-! ## Texts -/

section

variable {s t : Str}

theorem skipSpaces_append (h : Spaces s) (t : Str) : skipSpaces (s ++ t) = skipSpaces t :=
  List.dropWhile_append_of_pos h

theorem skipSpaces_cons {c : Char} (h : Py.isSpace c = false) : skipSpaces (c :: s) = c :: s :=
  List.dropWhile_cons_of_neg (by simp [h])

theorem takeWhile_append_cons {p : Char → Bool} {c : Char} (hc : p c = false) (s t : Str) :
    (s ++ c :: t).takeWhile p = s.takeWhile p ∧ (s ++ c :: t).dropWhile p = s.dropWhile p ++ c :: t := by
  induction s with
  | nil => exact ⟨List.takeWhile_cons_of_neg (by simp [hc]), List.dropWhile_cons_of_neg (by simp [hc])⟩
  | cons x s ih =>
    rw [List.cons_append, List.takeWhile_cons, List.dropWhile_cons, List.takeWhile_cons, List.dropWhile_cons, ih.1, ih.2]
    split
    · exact ⟨rfl, rfl⟩
    · exact ⟨rfl, rfl⟩

theorem word_append (h : Word s) (ht : ∀ c, t.head? = some c → Py.isWord c = false) :
    (s ++ t).takeWhile Py.isWord = s ∧ (s ++ t).dropWhile Py.isWord = t := by
  cases t with
  | nil =>
    rw [List.append_nil]
    exact ⟨List.takeWhile_eq_self_iff.2 h.2, List.dropWhile_eq_nil_iff.2 h.2⟩
  | cons c t =>
    obtain ⟨htake, hdrop⟩ := takeWhile_append_cons (ht c rfl) s t
    rw [htake, hdrop, List.takeWhile_eq_self_iff.2 h.2, List.dropWhile_eq_nil_iff.2 h.2]
    exact ⟨rfl, rfl⟩

theorem not_isWord_of_isSpace {c : Char} (h : Py.isSpace c = true) : Py.isWord c = false := by
  by_contra hw
  rw [Py.isSpace_of_isWord (Bool.eq_true_of_not_eq_false hw)] at h
  cases h

/-- **Two words and what follows them.** -/
theorem twoWords_append {valType gap lead name gap' : Str} (htype : Word valType) (hgap : Spaces gap) (hne : gap ≠ [])
    (hlead : Spaces lead) (hname : Word name) (hgap' : Spaces gap') {c : Char} (hword : Py.isWord c = false)
    (hspace : Py.isSpace c = false) (t : Str) :
    twoWords (valType ++ (gap ++ (lead ++ (name ++ (gap' ++ c :: t))))) = some (valType, name, c :: t) := by
  have hhead {r : Str} : ∀ x, (gap ++ r).head? = some x → Py.isWord x = false := by
    obtain ⟨g, gs, rfl⟩ := List.exists_cons_of_ne_nil hne
    intro x hx
    cases hx
    exact not_isWord_of_isSpace (hgap g (List.mem_cons_self ..))
  have hhead' : ∀ x, (gap' ++ c :: t).head? = some x → Py.isWord x = false := by
    cases gap' with
    | nil => intro x hx; cases hx; exact hword
    | cons g gs => intro x hx; cases hx; exact not_isWord_of_isSpace (hgap' g (List.mem_cons_self ..))
  have hstart : skipSpaces (name ++ (gap' ++ c :: t)) = name ++ (gap' ++ c :: t) := by
    obtain ⟨n, ns, rfl⟩ := List.exists_cons_of_ne_nil hname.1
    exact skipSpaces_cons (Py.isSpace_of_isWord (hname.2 n (List.mem_cons_self ..)))
  unfold twoWords
  simp only [(word_append htype hhead).1, (word_append htype hhead).2, skipSpaces_append hgap, skipSpaces_append hlead,
    hstart, (word_append hname hhead').1, (word_append hname hhead').2, skipSpaces_append hgap', skipSpaces_cons hspace,
    htype.1, hname.1, or_self, if_false]

/-! ## Comments -/

theorem partitionComment_append (hs : ¬ slashes <:+: s) (ht : t.head? ≠ some '/') :
    (partitionComment (s ++ t)).1 = s ++ (partitionComment t).1 := by
  induction s with
  | nil => rfl
  | cons x s ih =>
    have hhead : x = '/' → (s ++ t).head? ≠ some '/' := by
      rintro rfl hhead
      cases s with
      | nil => exact ht hhead
      | cons y s =>
        cases hhead
        exact hs ⟨[], s, rfl⟩
    rw [List.cons_append, partitionComment_cons hhead, ih (fun h => hs (h.trans (List.suffix_cons x s).isInfix))]
    rfl

theorem partitionComment_append_of_notMem (h : '/' ∉ s) : (partitionComment (s ++ t)).1 = s ++ (partitionComment t).1 := by
  induction s with
  | nil => rfl
  | cons x s ih =>
    rw [List.mem_cons, not_or] at h
    rw [List.cons_append, partitionComment_cons (fun hx => absurd hx.symm h.1), ih h.2]
    rfl

theorem partitionComment_cons_of_ne {c : Char} (h : c ≠ '/') (t : Str) :
    (partitionComment (c :: t)).1 = c :: (partitionComment t).1 :=
  congrArg Prod.fst (partitionComment_cons (fun hc => absurd hc h))

theorem partitionComment_append_cons (hs : ¬ slashes <:+: s) {c : Char} (hc : c ≠ '/') (t : Str) :
    (partitionComment (s ++ c :: t)).1 = s ++ c :: (partitionComment t).1 := by
  rw [partitionComment_append hs (by simpa using hc), partitionComment_cons_of_ne hc]

/-! ## Stripped lines -/

theorem strip_eq_rdropWhile (s : Str) : Py.strip Py.isSpace s = (skipSpaces s).rdropWhile Py.isSpace := rfl

theorem rdropWhile_append_cons {p : Char → Bool} {c : Char} (hc : p c = false) (s t : Str) :
    (s ++ c :: t).rdropWhile p = s ++ c :: t.rdropWhile p := by
  rw [List.rdropWhile, List.reverse_append, List.reverse_cons, List.append_assoc, List.singleton_append,
    (takeWhile_append_cons hc t.reverse s.reverse).2, List.reverse_append, List.reverse_cons, List.reverse_reverse,
    List.append_assoc, List.singleton_append]
  rfl

theorem strip_cons {lead : Str} (hlead : Spaces lead) {c : Char} (hc : Py.isSpace c = false) (t : Str) :
    Py.strip Py.isSpace (lead ++ c :: t) = c :: t.rdropWhile Py.isSpace := by
  rw [strip_eq_rdropWhile, skipSpaces_append hlead, skipSpaces_cons hc]
  exact rdropWhile_append_cons hc [] t

/-- Nothing but spaces is left of what follows the declarations, without its comment. -/
theorem BodyLine.tail_spaces {l : BodyLine} (h : Spaces l.trail) :
    Spaces (partitionComment ((l.trail ++ l.commentText).rdropWhile Py.isSpace)).1 := by
  have hslash : '/' ∉ l.trail := fun hm => absurd (h _ hm) (by decide)
  unfold commentText
  cases l.comment with
  | none =>
    have hnil : (l.trail ++ []).rdropWhile Py.isSpace = [] := by
      rw [List.append_nil, List.rdropWhile_eq_nil_iff]
      exact h
    rw [hnil]
    exact fun c hc => absurd hc List.not_mem_nil
  | some comment =>
    rw [rdropWhile_append_cons (show Py.isSpace '/' = false by decide), partitionComment_append_of_notMem hslash]
    have hrest : ('/' :: comment).rdropWhile Py.isSpace = '/' :: comment.rdropWhile Py.isSpace :=
      rdropWhile_append_cons (show Py.isSpace '/' = false by decide) [] comment
    rw [hrest, partitionComment, List.append_nil]
    exact h

/-! ## Patterns on texts -/

theorem not_mem_of_spaces {s : Str} (h : Spaces s) {c : Char} (hc : Py.isSpace c = false) : c ∉ s :=
  fun hm => Bool.false_ne_true (hc.symm.trans (h c hm))

theorem not_mem_of_word {s : Str} (h : Word s) {c : Char} (hc : Py.isWord c = false) : c ∉ s :=
  fun hm => Bool.false_ne_true (hc.symm.trans (h.2 c hm))

/-- The default goes up to the end of the declaration. -/
theorem upToSemicolon_append {s t : Str} (ht : Spaces t) : upToSemicolon (s ++ ';' :: t) = some s := by
  have hrev : (s ++ ';' :: t).reverse = t.reverse ++ ';' :: s.reverse := by simp
  have hne : ∀ c ∈ t.reverse, decide (c ≠ ';') = true := fun c hc =>
    decide_eq_true (fun h => not_mem_of_spaces ht (show Py.isSpace ';' = false by decide) (h ▸ List.mem_reverse.1 hc))
  rw [upToSemicolon, if_pos (List.mem_append_right _ (List.mem_cons_self ..)), hrev, List.dropWhile_append_of_pos hne,
    List.dropWhile_cons_of_neg (by decide), List.tail_cons, List.reverse_reverse]

/-- The pattern of a bound finds the digits of the text up to the bracket. -/
theorem matchDigits_append {b : Bound} (h : b.WellFormed) (t : Str) : matchDigits ']' (b.text ++ ']' :: t) = decimalText b.text := by
  have hspace : Py.isSpace ']' = false := by decide
  have hdigit : Py.isDigit ']' = false := by decide +kernel
  have hskip (s : Str) : skipSpaces (s ++ ']' :: t) = skipSpaces s ++ ']' :: t := (takeWhile_append_cons hspace s t).2
  unfold matchDigits decimalText
  simp only [hskip, (takeWhile_append_cons hdigit _ t).1, (takeWhile_append_cons hdigit _ t).2]
  cases hrest : skipSpaces ((skipSpaces b.text).dropWhile Py.isDigit) with
  | nil => simp
  | cons c r =>
    have hne : c ≠ ']' := by
      rintro rfl
      -- the text up to the bracket is spaces and digits
      have htext : b.text = (b.text.takeWhile Py.isSpace ++ ((skipSpaces b.text).takeWhile Py.isDigit ++
          ((skipSpaces b.text).dropWhile Py.isDigit).takeWhile Py.isSpace)) ++ ']' :: r := by
        rw [List.append_assoc, List.append_assoc, ← hrest]
        simp only [skipSpaces, List.takeWhile_append_dropWhile]
      have hopen : '[' ∈ b.text.takeWhile (· ≠ ']') := h.closed (htext ▸ List.mem_append_right _ (List.mem_cons_self ..))
      rw [htext, (takeWhile_append_cons (by decide) _ r).1] at hopen
      have hopen := (List.takeWhile_sublist _).subset hopen
      rw [List.mem_append, List.mem_append] at hopen
      rcases hopen with hm | hm | hm
      · exact absurd (List.mem_takeWhile_imp hm) (by decide)
      · exact absurd (List.mem_takeWhile_imp hm) (by decide +kernel)
      · exact absurd (List.mem_takeWhile_imp hm) (by decide)
    simp [hne]

end

/-! ## A line -/

/-- Size and name, as the parser and as the compiler have them. -/
def CfgField.key (f : CfgField) : Str × Nat := (f.name, f.size)

def memberKey (m : Str × StructLayout.Member) : Str × Nat := (m.1, m.2.size)

theorem cppSize_eq {enums : Dict Str EnumDecl} {valType : Str} {type : FieldType} (h : fieldType enums valType = .ok type) :
    cppSize enums valType = some type.size := by
  rw [fieldType] at h
  rw [cppSize]
  cases hbase : baseSizes.get? valType with
  | some t =>
    rw [hbase] at h
    cases h
    rfl
  | none =>
    rw [hbase] at h
    cases henum : enums.get? valType with
    | none => rw [henum] at h; cases h
    | some e =>
      rw [henum] at h
      cases hsize : baseSizes.get? e.baseType with
      | none => simp only [hsize] at h; cases h
      | some t =>
        simp only [hsize] at h
        cases h
        simp only [Option.bind_some, Option.map_some, hsize, EnumDef.fieldType_size]

section

variable {enums : Dict Str EnumDecl} {l : BodyLine} {d : Declaration} {x : Declarator}

/-- The text of a line that declares something begins with a word. -/
theorem BodyLine.text_cons {ds : List Declaration} (hd : d.WellFormed enums) (hl : l.decls = d :: ds) :
    ∃ lead c t, l.text = lead ++ c :: t ∧ Spaces lead ∧ Py.isWord c = true := by
  obtain ⟨c, cs, hc⟩ := List.exists_cons_of_ne_nil hd.valType.1
  refine ⟨d.lead, c, cs ++ (d.gap ++ (Py.join [','] (d.declarators.map Declarator.text) ++ [';'])) ++
    (ds.flatMap Declaration.text ++ (l.trail ++ l.commentText)), ?_, hd.lead,
    hd.valType.2 c (hc ▸ List.mem_cons_self ..)⟩
  rw [BodyLine.text, hl, List.flatMap_cons, Declaration.text, hc]
  simp only [List.append_assoc, List.cons_append]

theorem BodyLine.text_nil (hl : l.decls = []) (htrail : Spaces l.trail) :
    Py.strip Py.isSpace l.text = [] ∨ ∃ comment, Py.strip Py.isSpace l.text = '/' :: '/' :: comment := by
  have hslash : Py.isSpace '/' = false := by decide
  unfold BodyLine.text BodyLine.commentText
  rw [hl, List.flatMap_nil, List.nil_append]
  cases l.comment with
  | none =>
    refine .inl ?_
    rw [strip_eq_rdropWhile, skipSpaces_append htrail]
    rfl
  | some comment =>
    refine .inr ⟨comment.rdropWhile Py.isSpace, ?_⟩
    rw [strip_cons htrail hslash]
    exact congrArg ('/' :: ·) (rdropWhile_append_cons hslash [] comment)

theorem BodyLine.WellFormed.ne_closing (h : l.WellFormed enums) : Py.strip Py.isSpace l.text ≠ ParseState.closing := by
  cases hl : l.decls with
  | nil =>
    rcases BodyLine.text_nil hl h.trail with hs | ⟨comment, hs⟩ <;> rw [hs]
    · decide
    · exact fun heq => absurd (List.cons.inj heq).1 (by decide)
  | cons d ds =>
    obtain ⟨lead, c, t, htext, hlead, hc⟩ := BodyLine.text_cons (h.decls d (hl ▸ List.mem_cons_self ..)) hl
    rw [htext, strip_cons hlead (Py.isSpace_of_isWord hc)]
    exact fun heq => absurd ((List.cons.inj heq).1 ▸ hc) (by decide)

/-- The code of a line of one declarator, up to what stands behind the name. -/
theorem BodyLine.code_eq (hd : d.WellFormed enums) (htrail : Spaces l.trail) (hl : l.decls = [d]) (hx : d.declarators = [x]) :
    ∃ rest, Spaces (partitionComment rest).1 ∧ (partitionComment (Py.strip Py.isSpace l.text)).1 =
      d.valType ++ (d.gap ++ (x.lead ++ (x.name ++ (x.gap ++ (partitionComment (x.tail ++ ';' :: rest)).1)))) := by
  have hwf := hd.declarators x (hx ▸ List.mem_singleton_self x)
  obtain ⟨c, cs, hc⟩ := List.exists_cons_of_ne_nil hd.valType.1
  have hcspace : Py.isSpace c = false := Py.isSpace_of_isWord (hd.valType.2 c (hc ▸ List.mem_cons_self ..))
  refine ⟨(l.trail ++ l.commentText).rdropWhile Py.isSpace, BodyLine.tail_spaces htrail, ?_⟩
  have htext : l.text = d.lead ++ c :: ((cs ++ (d.gap ++ (x.lead ++ (x.name ++ (x.gap ++ x.tail))))) ++
      ';' :: (l.trail ++ l.commentText)) := by
    rw [BodyLine.text, hl, List.flatMap_singleton, Declaration.text, hx, hc]
    simp [Py.join, Declarator.text]
  have hslash {s : Str} (h : '/' ∉ s) (t : Str) : (partitionComment (s ++ t)).1 = s ++ (partitionComment t).1 :=
    partitionComment_append_of_notMem h
  have hword (s : Str) (h : Word s) : '/' ∉ s := not_mem_of_word h (by decide)
  have hspaces (s : Str) (h : Spaces s) : '/' ∉ s := not_mem_of_spaces h (by decide)
  rw [htext, strip_cons hd.lead hcspace, rdropWhile_append_cons (show Py.isSpace ';' = false by decide)]
  simp only [List.append_assoc]
  rw [← List.cons_append, ← hc, hslash (hword _ hd.valType), hslash (hspaces _ hd.gap.1), hslash (hspaces _ hwf.lead),
    hslash (hword _ hwf.name), hslash (hspaces _ hwf.gap)]

/-- The code of a field that is no array, and the patterns on it. -/
theorem BodyLine.match_scalar (hd : d.WellFormed enums) (htrail : Spaces l.trail) (hl : l.decls = [d])
    (hx : d.declarators = [x]) (hbound : x.bound = none) :
    (x.init.head? ≠ some '{' → ∃ valDef,
      matchScalar (partitionComment (Py.strip Py.isSpace l.text)).1 = some (d.valType, x.name, valDef)) ∧
    (x.init.head? = some '{' → matchScalar (partitionComment (Py.strip Py.isSpace l.text)).1 = none ∧
      matchArray (partitionComment (Py.strip Py.isSpace l.text)).1 = none) := by
  have hwf := hd.declarators x (hx ▸ List.mem_singleton_self x)
  obtain ⟨hinit, hcomment⟩ := hwf.init hbound
  obtain ⟨rest, hrest, hcode⟩ := BodyLine.code_eq hd htrail hl hx
  have htail : x.tail = x.init := by rw [Declarator.tail, hbound]
  rw [htail, partitionComment_append_cons hcomment (by decide)] at hcode
  rw [hcode]
  have hwords {c : Char} (hword : Py.isWord c = false) (hspace : Py.isSpace c = false) (t : Str) :=
    twoWords_append hd.valType hd.gap.1 hd.gap.2 hwf.lead hwf.name hwf.gap hword hspace t
  cases hhead : x.init with
  | nil =>
    refine ⟨fun _ => ⟨none, ?_⟩, fun h => by cases h⟩
    rw [List.nil_append, matchScalar, hwords (by decide) (by decide)]
    rfl
  | cons c t =>
    rw [hhead] at hinit
    rw [List.cons_append]
    have hc : c = '=' ∨ c = '{' :=
      (hinit.resolve_left (List.cons_ne_nil c t)).imp (fun h => Option.some.inj h) (fun h => Option.some.inj h)
    rcases hc with rfl | rfl
    · refine ⟨fun _ => ⟨some ('=' :: t), ?_⟩, fun h => absurd (Option.some.inj h) (by decide)⟩
      rw [matchScalar, hwords (by decide) (by decide)]
      exact congrArg (Option.map _) (upToSemicolon_append hrest)
    · refine ⟨fun h => absurd rfl h, fun _ => ?_⟩
      rw [matchScalar, matchArray, hwords (by decide) (by decide)]
      exact ⟨rfl, rfl⟩

/-- The code of an array, and the patterns on it. -/
theorem BodyLine.match_array (hd : d.WellFormed enums) (htrail : Spaces l.trail) (hl : l.decls = [d])
    (hx : d.declarators = [x]) {b : Bound} (hbound : x.bound = some b) :
    matchScalar (partitionComment (Py.strip Py.isSpace l.text)).1 = none ∧
      matchArray (partitionComment (Py.strip Py.isSpace l.text)).1 =
        (decimalText b.text).map (fun size => (d.valType, x.name, size)) := by
  have hwf := hd.declarators x (hx ▸ List.mem_singleton_self x)
  have hb := hwf.bound b hbound
  obtain ⟨rest, -, hcode⟩ := BodyLine.code_eq hd htrail hl hx
  have htail : x.tail ++ ';' :: rest = '[' :: (b.text ++ ']' :: (x.init ++ ';' :: rest)) := by
    rw [Declarator.tail, hbound]
    simp
  rw [htail, partitionComment_cons_of_ne (by decide), partitionComment_append_cons hb.comment (by decide)] at hcode
  have hwords := twoWords_append hd.valType hd.gap.1 hd.gap.2 hwf.lead hwf.name hwf.gap
    (show Py.isWord '[' = false by decide) (by decide) (b.text ++ ']' :: (partitionComment (x.init ++ ';' :: rest)).1)
  rw [hcode, matchScalar, matchArray, hwords]
  exact ⟨rfl, congrArg (Option.map _) (matchDigits_append hb _)⟩

end

namespace ParseState

variable {s s' : ParseState} {l : BodyLine} {d : Declaration} {x : Declarator}

def addFields (s : ParseState) (fs : List CfgField) : ParseState :=
  { s with cfgStruct := s.cfgStruct ++ fs, size := s.size + (fs.map CfgField.size).sum }

theorem eq_addFields_nil (s : ParseState) : s = s.addFields [] := by simp [addFields]

theorem Adds.eq_addFields {f : CfgField} {valId : Str} {n : Nat} (h : Adds s s' f valId n) : s' = s.addFields [f] := by
  rw [h.eq]
  simp [addFields, addField]

/-- What the parser makes of a declarator: at most one field, and that of the declared member when it is plain. -/
def AddsDeclarator (s s' : ParseState) (d : Declaration) (x : Declarator) : Prop :=
  ∃ fs, s' = s.addFields fs ∧ fs.length ≤ 1 ∧
    (fs.map CfgField.key = [memberKey (x.member ((cppSize s.enums d.valType).getD 0))] ↔ x.Plain) ∧
    (x.Plain → (x.member ((cppSize s.enums d.valType).getD 0)).2.align ∣ s.size)

section

variable (hd : d.WellFormed s.enums) (htrail : Spaces l.trail) (hl : l.decls = [d]) (hx : d.declarators = [x])
  (hclean : '\n' ∉ Py.strip Py.isSpace l.text ∧ '\r' ∉ Py.strip Py.isSpace l.text)
  (h : s.processStructLine (Py.strip Py.isSpace l.text) = .ok s')
include hd htrail hl hx hclean h

/-- A scalar is skipped when its initializer begins with a brace. -/
theorem processStructLine_scalar (hbound : x.bound = none) : AddsDeclarator s s' d x := by
  have hcases := processStructLine_ok hclean h
  obtain ⟨hread, hbrace⟩ := BodyLine.match_scalar hd htrail hl hx hbound
  have hplain : x.Plain ↔ x.init.head? ≠ some '{' :=
    ⟨fun hp => hp.init hbound, fun hi => ⟨fun _ => hi, fun b hb => by rw [hbound] at hb; cases hb⟩⟩
  unfold AddsDeclarator
  rw [hplain]
  by_cases hhead : x.init.head? = some '{'
  · obtain ⟨hscalar, harray⟩ := hbrace hhead
    rw [hscalar, harray] at hcases
    rcases hcases with ⟨-, -, rfl⟩ | ⟨_, _, _, _, _, h, -⟩ | ⟨_, _, _, _, _, -, h, -⟩
    · exact ⟨[], s'.eq_addFields_nil, Nat.zero_le 1, iff_of_false (List.cons_ne_nil _ _).symm (not_not_intro hhead),
        fun hne => absurd hhead hne⟩
    · cases h
    · cases h
  · obtain ⟨valDef, hscalar⟩ := hread hhead
    rw [hscalar] at hcases
    rcases hcases with ⟨h, -⟩ | ⟨valType, valId, _, type, f, hmatch, htype, hdvd, hadds⟩ | ⟨_, _, _, _, _, h, -⟩
    · cases h
    · cases hmatch
      have hsize : x.member ((cppSize s.enums d.valType).getD 0) = (x.name, ⟨type.size, type.size⟩) := by
        rw [cppSize_eq htype, Option.getD_some, Declarator.member, hbound]
      rw [hsize]
      refine ⟨[f], hadds.eq_addFields, Nat.le_refl 1, iff_of_true ?_ hhead, fun _ => hdvd⟩
      rw [List.map_singleton, CfgField.key, hadds.name, hadds.size]
      rfl
    · cases h

/-- An array is skipped when its bound is not in decimal digits. -/
theorem processStructLine_array {b : Bound} (hbound : x.bound = some b) : AddsDeclarator s s' d x := by
  have hcases := processStructLine_ok hclean h
  obtain ⟨hscalar, harray⟩ := BodyLine.match_array hd htrail hl hx hbound
  have hmember : x.member ((cppSize s.enums d.valType).getD 0) = (x.name, ⟨b.value, 1⟩) := by
    rw [Declarator.member, hbound]
  have hplain : x.Plain ↔ decimalValue b.text = some b.value := by
    refine ⟨fun hp => hp.bound b hbound, fun hb => ⟨fun hn => ?_, fun b' hb' => ?_⟩⟩
    · rw [hbound] at hn; cases hn
    · rw [hbound] at hb'
      cases hb'
      exact hb
  unfold AddsDeclarator
  rw [hmember, hplain]
  rw [hscalar, harray] at hcases
  rcases hcases with ⟨-, hnone, rfl⟩ | ⟨_, _, _, _, _, hsome, -⟩ | ⟨valType, valId, size, n, f, -, hmatch, hn, hadds⟩
  · rw [Option.map_eq_none_iff] at hnone
    refine ⟨[], s'.eq_addFields_nil, Nat.zero_le 1, iff_of_false (List.cons_ne_nil _ _).symm ?_, fun _ => Nat.one_dvd _⟩
    rw [decimalValue, hnone]
    exact fun h => Option.some_ne_none _ h.symm
  · cases hsome
  · obtain ⟨digits, hdigits, heq⟩ := Option.map_eq_some_iff.1 hmatch
    cases heq
    refine ⟨[f], hadds.eq_addFields, Nat.le_refl 1, ?_, fun _ => Nat.one_dvd _⟩
    have hvalue : decimalValue b.text = some n := by
      rw [decimalValue, hdigits, Option.bind_some]
      unfold digitsInt at hn
      split at hn
      · rename_i hint
        rw [hint]
        exact congrArg some (Except.ok.inj hn)
      · cases hn
    rw [List.map_singleton, CfgField.key, hadds.name, hadds.size, hvalue, Option.some.injEq]
    refine ⟨fun hkey => congrArg Prod.snd (List.cons.inj hkey).1, ?_⟩
    rintro rfl
    rfl

/-- What the parser makes of a line with one declarator. -/
theorem processStructLine_single : AddsDeclarator s s' d x := by
  cases hbound : x.bound with
  | none => exact processStructLine_scalar hd htrail hl hx hclean h hbound
  | some b => exact processStructLine_array hd htrail hl hx hclean h hbound

end

end ParseState

/-! ## The body -/

theorem BodyLine.length_members (enums : Dict Str EnumDecl) (l : BodyLine) :
    (l.members enums).length = l.declarators.length := by
  unfold BodyLine.members BodyLine.declarators Declaration.members
  induction l.decls with
  | nil => rfl
  | cons d ds ih => rw [List.flatMap_cons, List.flatMap_cons, List.length_append, List.length_append, List.length_map, ih]

/-- The declarations of a line, by the number of its declarators. -/
theorem BodyLine.WellFormed.decls_cases {enums : Dict Str EnumDecl} {l : BodyLine} (h : l.WellFormed enums) :
    l.decls = [] ∨ (∃ d x, l.decls = [d] ∧ d.declarators = [x]) ∨ 2 ≤ l.declarators.length := by
  unfold BodyLine.declarators
  have hne := fun d hd => (h.decls d hd).ne
  cases hl : l.decls with
  | nil => exact .inl rfl
  | cons d ds =>
    rw [hl] at hne
    refine .inr ?_
    obtain ⟨x, xs, hx⟩ := List.exists_cons_of_ne_nil (hne d (List.mem_cons_self ..))
    rw [List.flatMap_cons, hx]
    cases xs with
    | cons y ys =>
      refine .inr ?_
      simp only [List.length_append, List.length_cons]
      omega
    | nil =>
      cases ds with
      | nil => exact .inl ⟨d, x, rfl, hx⟩
      | cons d' ds =>
        obtain ⟨y, ys, hy⟩ := List.exists_cons_of_ne_nil (hne d' (List.mem_cons_of_mem d (List.mem_cons_self ..)))
        rw [List.flatMap_cons, hy]
        refine .inr ?_
        simp only [List.length_append, List.length_cons, List.length_nil]
        omega

/-- Fields that some lines added, against the members that the lines declare. -/
structure Adds (s s' : ParseState) (fs : List CfgField) (ms : List (Str × StructLayout.Member)) (plain : Prop) : Prop where
  eq : s' = s.addFields fs
  length : fs.length ≤ ms.length
  key : fs.map CfgField.key = ms.map memberKey ↔ plain
  packed : plain → Packed s.size (ms.map Prod.snd)

namespace ParseState

variable {s s' : ParseState} {l : BodyLine}

/-- **What the parser makes of a line**: the member that it declares, when it is plain. -/
theorem processStructLine_adds_line (hl : l.WellFormed s.enums)
    (hclean : '\n' ∉ Py.strip Py.isSpace l.text ∧ '\r' ∉ Py.strip Py.isSpace l.text)
    (h : s.processStructLine (Py.strip Py.isSpace l.text) = .ok s') :
    ∃ fs, Cfg.Adds s s' fs (l.members s.enums) l.Plain := by
  rcases hl.decls_cases with hnil | ⟨d, x, hd, hx⟩ | htwo
  · have hcode : (partitionComment (Py.strip Py.isSpace l.text)).1 = [] := by
      rcases BodyLine.text_nil hnil hl.trail with htext | ⟨comment, htext⟩ <;> rw [htext] <;> rfl
    have hdecl : l.declarators = [] := by rw [BodyLine.declarators, hnil]; rfl
    have hmembers : l.members s.enums = [] := by rw [BodyLine.members, hnil]; rfl
    have hplain : l.Plain := ⟨by rw [hdecl]; exact Nat.zero_le 1, fun x hx => by rw [hdecl] at hx; cases hx⟩
    have hcases := processStructLine_ok hclean h
    rw [hcode] at hcases
    rcases hcases with ⟨-, -, rfl⟩ | ⟨_, _, _, _, _, hm, -⟩ | ⟨_, _, _, _, _, -, hm, -⟩
    · rw [hmembers]
      exact ⟨[], by simp [addFields], Nat.le_refl 0, iff_of_true rfl hplain, fun _ => trivial⟩
    · cases hm
    · cases hm
  · have hwf := hl.decls d (hd ▸ List.mem_singleton_self d)
    obtain ⟨fs, heq, hlen, hkey, halign⟩ := processStructLine_single hwf hl.trail hd hx hclean h
    have hdecl : l.declarators = [x] := by rw [BodyLine.declarators, hd, List.flatMap_singleton, hx]
    have hmembers : l.members s.enums = [x.member ((cppSize s.enums d.valType).getD 0)] := by
      rw [BodyLine.members, hd, List.flatMap_singleton, Declaration.members, hx]
      rfl
    have hplain : l.Plain ↔ x.Plain := by
      constructor
      · exact fun hp => hp.plain x (hdecl ▸ List.mem_singleton_self x)
      · refine fun hp => ⟨hdecl ▸ Nat.le_refl 1, fun y hy => ?_⟩
        rw [hdecl, List.mem_singleton] at hy
        exact hy ▸ hp
    rw [hmembers]
    exact ⟨fs, heq, hlen, hkey.trans hplain.symm, fun hp => ⟨halign (hplain.1 hp), trivial⟩⟩
  · have hlen := l.length_members s.enums
    have hnot : ¬ l.Plain := fun hp => absurd hp.single (by omega)
    have hkeys {fs : List CfgField} (hfs : fs.length ≤ 1) : fs.map CfgField.key ≠ (l.members s.enums).map memberKey := by
      intro heq
      have hcount := congrArg List.length heq
      rw [List.length_map, List.length_map] at hcount
      omega
    rcases processStructLine_adds hclean h with rfl | ⟨f, name, size, hadds⟩
    · exact ⟨[], by simp [addFields], Nat.zero_le _, iff_of_false (hkeys (Nat.zero_le 1)) hnot, fun hp => absurd hp hnot⟩
    · refine ⟨[f], by rw [hadds.eq]; simp [addFields, addField], ?_, iff_of_false (hkeys (Nat.le_refl 1)) hnot,
        fun hp => absurd hp hnot⟩
      rw [List.length_singleton]
      omega

/-- A plain part has as many bytes for the parser as for the compiler. -/
theorem size_addFields {fs : List CfgField} : ∀ {ms : List (Str × StructLayout.Member)} {s : ParseState},
    fs.map CfgField.key = ms.map memberKey → (s.addFields fs).size = s.size + total (ms.map Prod.snd) := by
  induction fs with
  | nil =>
    intro ms s h
    rw [List.map_eq_nil_iff.1 h.symm]
    rfl
  | cons f fs ih =>
    intro ms s h
    cases ms with
    | nil => cases h
    | cons m ms =>
      obtain ⟨hm, hms⟩ := List.cons.inj h
      have hsize : f.size = m.2.size := congrArg Prod.snd hm
      have hrest : s.size + (fs.map CfgField.size).sum = s.size + total (ms.map Prod.snd) := ih (s := s) hms
      show s.size + ((f :: fs).map CfgField.size).sum = s.size + (m.2.size + total (ms.map Prod.snd))
      rw [List.map_cons, List.sum_cons, hsize]
      omega

/-- **What the parser makes of the body**, line after line. -/
theorem run_body {close : Line} (hclose : Py.strip Py.isSpace close.val = closing) (post : List Line) :
    ∀ {lines : List Line} {body : List BodyLine} {s : ParseState}, lines.map Subtype.val = body.map BodyLine.text →
    (∀ l ∈ body, l.WellFormed s.enums) → s.inStruct = true → s.lastEnum = none →
    s.run (lines ++ close :: post) = .ok s' →
    ∃ fs, Cfg.Adds s s' fs (body.flatMap (BodyLine.members s.enums)) (∀ l ∈ body, l.Plain)
  | [], [], s, _, _, hin, _, h => by
    rw [List.nil_append, run, if_pos ⟨hin, hclose⟩] at h
    cases h
    exact ⟨[], by simp [addFields], Nat.le_refl 0, iff_of_true rfl (fun _ hl => absurd hl List.not_mem_nil), fun _ => trivial⟩
  | line :: lines, l :: body, s, htext, hwf, hin, hlast, h => by
    obtain ⟨hline, htext⟩ := List.cons.inj htext
    have hl := hwf l (List.mem_cons_self ..)
    have hline : line.val = l.text := hline
    have hclean := ParseState.strip_clean line
    rw [hline] at hclean
    rw [List.cons_append, run, hline, if_neg (fun hc => hl.ne_closing hc.2)] at h
    have hprocess : s.processLine (Py.strip Py.isSpace l.text) = s.processStructLine (Py.strip Py.isSpace l.text) := by
      rw [processLine, hlast]
      exact if_pos hin
    rw [hprocess] at h
    split at h
    case h_2 => cases h
    case h_1 s₁ hs₁ =>
      obtain ⟨fs, heq, hlen, hkey, hpacked⟩ := processStructLine_adds_line hl hclean hs₁
      subst heq
      obtain ⟨gs, heq', hlen', hkey', hpacked'⟩ := run_body hclose post (s := s.addFields fs) htext
        (fun x hx => hwf x (List.mem_cons_of_mem l hx)) hin hlast h
      have henums : (s.addFields fs).enums = s.enums := rfl
      rw [henums] at hlen' hkey' hpacked'
      refine ⟨fs ++ gs, ?_, ?_, ?_, fun hplain => ?_⟩
      · rw [heq']
        simp [addFields, List.append_assoc, Nat.add_assoc]
      · rw [List.flatMap_cons, List.length_append, List.length_append]
        exact Nat.add_le_add hlen hlen'
      · rw [List.flatMap_cons, List.map_append, List.map_append, List.forall_mem_cons, ← hkey, ← hkey']
        refine ⟨fun happ => ?_, fun hboth => by rw [hboth.1, hboth.2]⟩
        -- no part is longer than what it stands for
        have hcount := congrArg List.length happ
        simp only [List.length_append, List.length_map] at hcount
        exact List.append_inj happ (by rw [List.length_map, List.length_map]; omega)
      · rw [List.forall_mem_cons] at hplain
        rw [List.flatMap_cons, List.map_append, StructLayout.packed_append]
        refine ⟨hpacked hplain.1, ?_⟩
        rw [← size_addFields (hkey.2 hplain.1)]
        exact hpacked' hplain.2

/-- Lines up to a place outside of the struct do not leave the loop. -/
theorem run_append {s₀ : ParseState} (hout : s₀.inStruct = false) (rest : List Line) : ∀ {pre : List Line} {s : ParseState},
    s.run pre = .ok s₀ → s.run (pre ++ rest) = s₀.run rest
  | [], s, h => by cases h; rfl
  | line :: pre, s, h => by
    rw [run] at h
    rw [List.cons_append, run]
    split at h
    · rename_i hleave
      cases h
      rw [hleave.1] at hout
      cases hout
    · rename_i hstay
      rw [if_neg hstay]
      split at h
      · exact run_append hout rest h
      · cases h

/-- The line that enters the struct does nothing else. -/
theorem processLine_enters {line : Str} (hout : s.inStruct = false) (h : s.processLine line = .ok s')
    (hin : s'.inStruct = true) : s' = { s with inStruct := true } ∧ s.lastEnum = none := by
  have hif : ¬ s.inStruct = true := by rw [hout]; exact Bool.false_ne_true
  have hstays {x : ParseState} (heq : (.ok x : Except HeaderError ParseState) = .ok s') (hx : x.inStruct = s.inStruct) :
      False := by
    cases heq
    rw [hx] at hin
    exact hif hin
  have hdigits {digits : Str} {f : Nat → ParseState} (h : (digitsInt digits).map f = .ok s')
      (hf : ∀ n, (f n).inStruct = s.inStruct) : False := by
    cases hn : digitsInt digits with
    | error x => rw [hn] at h; cases h
    | ok n => rw [hn] at h; exact hstays h (hf n)
  unfold processLine at h
  split at h
  · split at h
    · exact (hstays h rfl).elim
    · unfold processEnumLine at h
      split at h
      · exact (hstays h rfl).elim
      · split at h
        · cases h
        · split at h
          · exact (hstays h rfl).elim
          · cases h
  · rename_i hlast
    rw [if_neg hif] at h
    unfold processTopLine at h
    split at h
    · exact (hdigits h (fun _ => rfl)).elim
    · split at h
      · exact (hdigits h (fun _ => rfl)).elim
      · split at h
        · exact (hdigits h (fun _ => rfl)).elim
        · split at h
          · split at h
            · split at h
              · exact ⟨(Except.ok.inj h).symm, hlast⟩
              · cases h
            · cases h
          · split at h
            · exact (hstays h rfl).elim
            · exact (hstays h rfl).elim

end ParseState

/-! ## Headers -/

/-- A header with its struct: what is before it, the line that enters it with the declarations behind its brace, the lines
of its body, and the line that ends it with what follows. -/
structure Header where
  pre : List Line
  opening : Line
  first : BodyLine
  lines : List Line
  body : List BodyLine
  close : Line
  post : List Line
  before : ParseState
  inside : ParseState
  reaches : ParseState.start.run pre = .ok before
  outside : before.inStruct = false
  opens : before.processLine (Py.strip Py.isSpace opening.val) = .ok inside
  entered : inside.inStruct = true
  declares : ∃ p, '{' ∉ p ∧ opening.val = p ++ '{' :: first.text
  text : lines.map Subtype.val = body.map BodyLine.text
  closes : Py.strip Py.isSpace close.val = ParseState.closing
  wellFormed : ∀ l ∈ first :: body, l.WellFormed inside.enums

namespace Header

def all (hdr : Header) : List Line := hdr.pre ++ hdr.opening :: (hdr.lines ++ hdr.close :: hdr.post)

/-- The members of the struct, with their names. -/
def members (hdr : Header) : List (Str × StructLayout.Member) :=
  (hdr.first :: hdr.body).flatMap (BodyLine.members hdr.inside.enums)

/-- The members of the struct as the compiler lays them out. -/
def layout (hdr : Header) : List StructLayout.Member := hdr.members.map Prod.snd

/-- The fields of the config are the members of the struct, where the compiler has them, and it has the struct's size. -/
structure Parses (hdr : Header) (cfg : Config) : Prop where
  names : cfg.cfgStruct.map CfgField.name = hdr.members.map Prod.fst
  sizes : cfg.cfgStruct.map CfgField.size = hdr.layout.map StructLayout.Member.size
  shifts : cfg.cfgStruct.map CfgField.shift = offsets 0 hdr.layout
  size : cfg.size = sizeof hdr.layout

variable {hdr : Header} {cfg : Config}

/-- What the parser makes of the body of a header. -/
theorem adds_of_init (h : Config.init hdr.all = .ok cfg) :
    cfg.cfgStruct.length ≤ (hdr.body.flatMap (BodyLine.members hdr.inside.enums)).length ∧
    (cfg.cfgStruct.map CfgField.key = (hdr.body.flatMap (BodyLine.members hdr.inside.enums)).map memberKey ↔
      ∀ l ∈ hdr.body, l.Plain) ∧
    ((∀ l ∈ hdr.body, l.Plain) → Packed 0 ((hdr.body.flatMap (BodyLine.members hdr.inside.enums)).map Prod.snd)) := by
  obtain ⟨s, hrun, hfields, -⟩ := Config.init_ok h
  have hgood := ParseState.run_good ParseState.start_good hdr.reaches
  obtain ⟨henter, hlast⟩ := ParseState.processLine_enters hdr.outside hdr.opens hdr.entered
  have hempty : hdr.inside.cfgStruct = [] := by rw [henter]; exact hgood.before hdr.outside
  have hzero : hdr.inside.size = 0 := by
    have hlayout := hgood.layout
    rw [hgood.before hdr.outside] at hlayout
    rw [henter]
    exact hlayout.symm
  have hlast' : hdr.inside.lastEnum = none := by rw [henter]; exact hlast
  rw [all, ParseState.run_append hdr.outside _ hdr.reaches, ParseState.run, if_neg (by rw [hdr.outside]; simp),
    hdr.opens] at hrun
  obtain ⟨fs, heq, hlen, hkey, hpacked⟩ := ParseState.run_body hdr.closes hdr.post hdr.text
    (fun l hl => hdr.wellFormed l (List.mem_cons_of_mem _ hl)) hdr.entered hlast' hrun
  have hfs : cfg.cfgStruct = fs := by
    rw [← hfields, heq]
    show hdr.inside.cfgStruct ++ fs = fs
    rw [hempty, List.nil_append]
  rw [hfs]
  exact ⟨hlen, hkey, hzero ▸ hpacked⟩

end Header

/-- The fields of a config lie at the sums of the sizes before them. -/
theorem Layout.starts : ∀ {fs : List CfgField} {ms : List StructLayout.Member} {shift size : Nat}, Layout shift fs size →
    fs.map CfgField.size = ms.map StructLayout.Member.size →
    fs.map CfgField.shift = starts shift ms ∧ size = shift + total ms
  | [], [], _, _, h, _ => ⟨rfl, h.symm⟩
  | f :: fs, m :: ms, shift, size, h, hsizes => by
    obtain ⟨hsize, hsizes⟩ := List.cons.inj hsizes
    obtain ⟨hshifts, htotal⟩ := Layout.starts h.2 hsizes
    rw [hsize] at hshifts htotal
    refine ⟨?_, ?_⟩
    · rw [List.map_cons, h.1, hshifts]
      rfl
    · rw [htotal, total, Nat.add_assoc]

namespace Header

variable {hdr : Header} {cfg : Config}

theorem aligned_members (h : ∀ l ∈ hdr.body, l.WellFormed hdr.inside.enums) :
    Aligned ((hdr.body.flatMap (BodyLine.members hdr.inside.enums)).map Prod.snd) := by
  intro m hm
  obtain ⟨p, hp, rfl⟩ := List.mem_map.1 hm
  obtain ⟨l, hl, hp⟩ := List.mem_flatMap.1 hp
  obtain ⟨d, hd, hp⟩ := List.mem_flatMap.1 hp
  obtain ⟨x, hx, rfl⟩ := List.mem_map.1 hp
  have hpos (t : IntType) : 0 < t.size := by cases t <;> decide
  unfold Declarator.member
  cases hbound : x.bound with
  | some b => exact Nat.one_pos
  | none =>
    rcases ((h l hl).decls d hd).type with ⟨-, harrays⟩ | ⟨hsize, -⟩
    · have hsome := harrays x hx
      rw [hbound] at hsome
      cases hsome
    · obtain ⟨n, hn⟩ := Option.isSome_iff_exists.1 hsize
      show 0 < (cppSize hdr.inside.enums d.valType).getD 0
      rw [hn, Option.getD_some]
      unfold cppSize at hn
      split at hn
      · cases hn; exact hpos _
      · obtain ⟨e, -, hn⟩ := Option.bind_eq_some_iff.1 hn
        obtain ⟨t, -, rfl⟩ := Option.map_eq_some_iff.1 hn
        exact hpos t

end Header

theorem map_pair_iff {α β γ δ : Type} {f : α → γ} {g : α → δ} {f' : β → γ} {g' : β → δ} : ∀ {xs : List α} {ys : List β},
    xs.map (fun x => (f x, g x)) = ys.map (fun y => (f' y, g' y)) ↔ xs.map f = ys.map f' ∧ xs.map g = ys.map g'
  | [], [] => by simp
  | [], _ :: _ => by simp
  | _ :: _, [] => by simp
  | x :: xs, y :: ys => by
    simp only [List.map_cons, List.cons.injEq, Prod.mk.injEq]
    rw [map_pair_iff]
    exact and_and_and_comm

theorem ok_getD {x : Except HeaderError ParseState} (h : x.toOption.isSome = true) : x = .ok (x.toOption.getD .start) := by
  cases x with
  | error x => cases h
  | ok s => rfl

def demoPre : List Line :=
  [⟨"static constexpr uint8_t ConfigVersion = 1;".toList, by decide +kernel⟩,
    ⟨"static constexpr uint8_t LC_ConfigVersion = 1;".toList, by decide +kernel⟩,
    ⟨"enum Mode : uint16_t \x7b".toList, by decide +kernel⟩, ⟨"  WF_On = 0x01, // on".toList, by decide +kernel⟩,
    ⟨"\x7d;".toList, by decide +kernel⟩]

def demoOpening : Line := ⟨"struct Config_V1 \x7b".toList, by decide +kernel⟩

def demoBefore : ParseState := (ParseState.start.run demoPre).toOption.getD .start

def demoInside : ParseState := (demoBefore.processLine (Py.strip Py.isSpace demoOpening.val)).toOption.getD .start

theorem demoInside_reached :
    (ParseState.start.run demoPre).toOption.isSome = true ∧ demoBefore.inStruct = false ∧
      (demoBefore.processLine (Py.strip Py.isSpace demoOpening.val)).toOption.isSome = true ∧
      demoInside.inStruct = true := by
  decide +kernel

/-- A header with this body. -/
def demoHeader (body : List BodyLine) (hclean : ∀ l ∈ body, '\n' ∉ l.text ∧ '\r' ∉ l.text)
    (hwf : ∀ l ∈ body, l.WellFormed demoInside.enums) : Header where
  pre := demoPre
  opening := demoOpening
  first := ⟨[], [], none⟩
  lines := body.attach.map (fun l => ⟨l.1.text, hclean l.1 l.2⟩)
  body := body
  close := ⟨"\x7d;".toList, by decide +kernel⟩
  post := []
  before := demoBefore
  inside := demoInside
  reaches := ok_getD demoInside_reached.1
  outside := demoInside_reached.2.1
  opens := ok_getD demoInside_reached.2.2.1
  entered := demoInside_reached.2.2.2
  declares := ⟨"struct Config_V1 ".toList, by decide +kernel, by decide +kernel⟩
  text := by simp [List.map_map, Function.comp_def]
  closes := by decide +kernel
  wellFormed l hl := by
    rcases List.mem_cons.1 hl with rfl | hl
    · decide +kernel
    · exact hwf l hl

/-- A declarator without spaces around the name. -/
def demoName (name init : String) : Declarator := ⟨[], name.toList, [], none, init.toList⟩

def demoArray (name bound : String) (value : Nat) : Declarator := ⟨[], name.toList, [], some ⟨bound.toList, value⟩, []⟩

def demoLine (valType : String) (declarators : List Declarator) : BodyLine :=
  ⟨[⟨[' '], valType.toList, [' '], declarators⟩], [' '], some " a comment".toList⟩

/-- A word, a string and an enum, with two bytes left. -/
def plainHeader : Header :=
  demoHeader [demoLine "uint32_t" [demoName "crc" ""], demoLine "char" [demoArray "ssid" " 32 " 32],
    demoLine "Mode" [demoName "mode" "= WF_On"], demoLine "uint16_t" [demoName "reserved" ""]]
    (by decide +kernel) (by decide +kernel)

theorem exists_config (hdr : Header) {P : Config → Prop} [DecidablePred P]
    (h : (Config.init hdr.all).toOption.any (fun cfg => decide (P cfg)) = true) :
    ∃ cfg, Config.init hdr.all = .ok cfg ∧ P cfg := by
  cases hinit : Config.init hdr.all with
  | error x => rw [hinit] at h; cases h
  | ok cfg => exact ⟨cfg, rfl, of_decide_eq_true (by rwa [hinit] at h)⟩

/-- Two members on a line, which is skipped. -/
def pairHeader : Header :=
  demoHeader [demoLine "uint32_t" [demoName "crc" "", demoName "magic" ""]] (by decide +kernel) (by decide +kernel)

/-- A struct of 12 bytes, for the compiler of 16. -/
def paddedHeader : Header :=
  demoHeader [demoLine "uint64_t" [demoName "serial" ""], demoLine "uint32_t" [demoName "crc" ""]]
    (by decide +kernel) (by decide +kernel)

end Mstd.Cfg
