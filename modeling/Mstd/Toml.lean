import Mathlib.Data.List.Infix
import Mstd.Py
/-!
# A fragment of TOML 1.0

The documents of comments and of bare keys with an integer or a literal string, as `tomllib.loads` reads them; every
other document counts as an error here.  `parseValue_int`, `parseValue_literal` and `parseValue_mlLiteral` say what the
three kinds of values are read as, `doc_comment` and `doc_keyValue` what a line does to the table read so far.
-/
namespace Toml

open Py (Str Dict)

inductive Value where
  | int (val : Int)
  | str (val : Str)
  deriving DecidableEq

/-! ## Characters -/

/-- The ASCII control characters. -/
def isCtrl (c : Char) : Bool := c.toNat < 32 || c.toNat == 127

def isWs (c : Char) : Bool := c == ' ' || c == '\t'

/-- The characters of bare keys. -/
def isBare (c : Char) : Bool := c.isAlphanum || c == '_' || c == '-'

/-- No control character other than these. -/
def Clean (allowed : Str) (s : Str) : Prop := ∀ c ∈ s, isCtrl c = true → c ∈ allowed

instance (allowed s : Str) : Decidable (Clean allowed s) := List.decidableBAll (fun c => isCtrl c = true → c ∈ allowed) s

def skipWs (src : Str) : Str := src.dropWhile isWs

/-- `src.replace("\r\n", "\n")`. -/
def normalize : Str → Str
  | []      => []
  | c :: cs => if c = '\r' ∧ cs.head? = some '\n' then normalize cs else c :: normalize cs

/-! ## Values -/

/-- Behind the opening quote of a literal string. -/
def literal : Str → Option (Str × Str)
  | []      => none
  | c :: cs =>
    if c = '\'' then some ([], cs)
    else if isCtrl c ∧ c ≠ '\t' then none
    else (literal cs).map (fun (s, rest) => (c :: s, rest))

def tripleQuote : Str := ['\'', '\'', '\'']

/-- Up to two quotes before the closing ones belong to the string. -/
def closing : Str → Str × Str
  | '\'' :: '\'' :: rest => (['\'', '\''], rest)
  | '\'' :: rest         => (['\''], rest)
  | rest                 => ([], rest)

/-- Behind the opening quotes of a multi-line literal string, and the newline behind them. -/
def mlLiteral : Str → Option (Str × Str)
  | []      => none
  | c :: cs =>
    if tripleQuote <+: c :: cs then some (closing (cs.drop 2))
    else if isCtrl c ∧ c ≠ '\t' ∧ c ≠ '\n' then none
    else (mlLiteral cs).map (fun (s, rest) => (c :: s, rest))

def trimNewline : Str → Str
  | '\n' :: cs => cs
  | cs         => cs

/-- The digits of an integer, without a leading zero. -/
def digits (src : Str) : Option (Nat × Str) :=
  let ds := src.takeWhile Char.isDigit
  if ds = [] ∨ (ds.head? = some '0' ∧ ds ≠ ['0']) then none
  else some (Nat.ofDigitChars 10 ds 0, src.dropWhile Char.isDigit)

def parseValue : Str → Option (Value × Str)
  | '\'' :: '\'' :: '\'' :: cs => (mlLiteral (trimNewline cs)).map (fun (s, rest) => (.str s, rest))
  | '\'' :: cs                 => (literal cs).map (fun (s, rest) => (.str s, rest))
  | '-' :: cs                  => (digits cs).map (fun (n, rest) => (.int (-n), rest))
  | cs                         => (digits cs).map (fun (n, rest) => (.int n, rest))

/-! ## Documents -/

/-- A comment up to its newline, if there is one. -/
def skipComment : Str → Option Str
  | '#' :: cs => if Clean ['\t'] (cs.takeWhile (· ≠ '\n')) then some (cs.dropWhile (· ≠ '\n')) else none
  | cs        => some cs

def keyValue (d : Dict Str Value) (src : Str) : Option (Dict Str Value × Str) :=
  let key := src.takeWhile isBare
  match skipWs (src.dropWhile isBare) with
  | '=' :: rest =>
    (parseValue (skipWs rest)).bind (fun (v, rest) => if (d.get? key).isSome then none else some (d.set key v, rest))
  | _ => none

/-- A statement: a key with its value, or none of it before a comment. -/
def statement (d : Dict Str Value) : Str → Option (Dict Str Value × Str)
  | []      => none
  | c :: cs => if isBare c then keyValue d (c :: cs) else if c = '#' then some (d, c :: cs) else none

/-- The loop of `loads` over the lines. -/
def doc : Nat → Dict Str Value → Str → Option (Dict Str Value)
  | 0,     _, _   => none
  | n + 1, d, src =>
    match skipWs src with
    | []         => some d
    | '\n' :: cs => doc n d cs
    | c :: cs    =>
      (statement d (c :: cs)).bind (fun (d, rest) =>
        (skipComment (skipWs rest)).bind (fun rest =>
          match rest with
          | []         => some d
          | '\n' :: cs => doc n d cs
          | _          => none))

/-- `tomllib.loads`. -/
def loads (s : Str) : Option (Dict Str Value) :=
  let src := normalize s
  doc (src.length + 1) [] src

example : loads "# two keys\r\nb1 = 'x'\nc = -12\n".toList =
    some [("b1".toList, .str "x".toList), ("c".toList, .int (-12))] := by decide +kernel

/-! ## Line ends -/

theorem normalize_append {s t : Str} (h : s.getLast? = some '\r' → t.head? ≠ some '\n') :
    normalize (s ++ t) = normalize s ++ normalize t := by
  induction s with
  | nil => rfl
  | cons c cs ih =>
    cases cs with
    | nil =>
      have hne (h' : c = '\r' ∧ t.head? = some '\n') : False := h (congrArg some h'.1) h'.2
      rw [List.singleton_append, normalize, if_neg hne, normalize, if_neg (fun h => nomatch h.2)]
      rfl
    | cons c' cs =>
      rw [List.getLast?_cons_cons] at h
      have hhead : (c' :: cs ++ t).head? = (c' :: cs).head? := rfl
      rw [List.cons_append, normalize, normalize.eq_2 c, ih h, hhead]
      split <;> rfl

theorem normalize_of_notMem {s : Str} (h : '\r' ∉ s ∨ '\n' ∉ s) : normalize s = s := by
  induction s with
  | nil => rfl
  | cons c cs ih =>
    have hne (hc : c = '\r' ∧ cs.head? = some '\n') : False := by
      rcases h with h | h
      · exact h (hc.1 ▸ List.mem_cons_self ..)
      · exact h (List.mem_cons_of_mem _ (List.mem_of_mem_head? hc.2))
    rw [normalize, if_neg hne, ih (h.imp (fun h hm => h (List.mem_cons_of_mem _ hm))
      (fun h hm => h (List.mem_cons_of_mem _ hm)))]

theorem normalize_sublist (s : Str) : (normalize s).Sublist s := by
  induction s with
  | nil => exact List.Sublist.refl _
  | cons c cs ih =>
    rw [normalize]
    split
    · exact ih.cons c
    · exact ih.cons_cons c

theorem mem_normalize {c : Char} (hc : c ≠ '\r') : ∀ {s : Str}, c ∈ s → c ∈ normalize s
  | x :: xs, h => by
    rw [normalize]
    split
    · rename_i hx
      exact mem_normalize hc ((List.mem_cons.1 h).resolve_left (fun h => hc (h.trans hx.1)))
    · exact List.mem_cons.2 ((List.mem_cons.1 h).imp_right (mem_normalize hc))

theorem trimNewline_sublist (s : Str) : (trimNewline s).Sublist s := by
  unfold trimNewline
  split
  · exact List.sublist_cons_self ..
  · exact List.Sublist.refl _

theorem head?_normalize {s : Str} (h : s.head? = some '\n') : (normalize s).head? = some '\n' := by
  cases s with
  | nil => cases h
  | cons c cs =>
    obtain rfl : c = '\n' := Option.some.inj h
    rw [normalize, if_neg (fun h => absurd h.1 (by decide))]
    rfl

/-- Dropping carriage returns brings no characters of a line together. -/
theorem prefix_of_prefix_normalize {p s : Str} (hcr : '\r' ∉ p) (hnl : '\n' ∉ p) (h : p <+: normalize s) : p <+: s := by
  induction p generalizing s with
  | nil => exact List.nil_prefix
  | cons c p ih =>
    cases s with
    | nil => exact h
    | cons c' cs =>
      rw [normalize] at h
      split at h
      · rename_i hc
        obtain ⟨t, ht⟩ := h
        have hhead := head?_normalize hc.2
        rw [← ht] at hhead
        exact absurd (List.mem_cons_self ..) (Option.some.inj hhead ▸ hnl)
      · obtain ⟨rfl, hp⟩ := List.cons_prefix_cons.1 h
        exact List.cons_prefix_cons.2 ⟨rfl, ih (fun hm => hcr (List.mem_cons_of_mem _ hm))
          (fun hm => hnl (List.mem_cons_of_mem _ hm)) hp⟩

theorem infix_of_infix_normalize {p s : Str} (hcr : '\r' ∉ p) (hnl : '\n' ∉ p) (h : p <:+: normalize s) : p <:+: s := by
  induction s with
  | nil => exact h
  | cons c cs ih =>
    rw [normalize] at h
    split at h
    · exact (ih h).trans (List.suffix_cons c cs).isInfix
    · rename_i hc
      rcases List.infix_cons_iff.1 h with h | h
      · rw [← if_neg hc (c := c = '\r' ∧ cs.head? = some '\n') (t := normalize cs) (e := c :: normalize cs), ← normalize] at h
        exact (prefix_of_prefix_normalize hcr hnl h).isInfix
      · exact (ih h).trans (List.suffix_cons c cs).isInfix

/-! ## Strings -/

theorem Clean.cons {allowed s : Str} {c : Char} : Clean allowed (c :: s) ↔ (isCtrl c = true → c ∈ allowed) ∧ Clean allowed s :=
  List.forall_mem_cons

theorem Clean.sublist {allowed s t : Str} (h : Clean allowed t) (hs : s.Sublist t) : Clean allowed s :=
  fun c hc => h c (hs.subset hc)

/-- **A literal string** is read up to its closing quote. -/
theorem literal_append {s : Str} (h : '\'' ∉ s) (rest : Str) :
    literal (s ++ '\'' :: rest) = if Clean ['\t'] s then some (s, rest) else none := by
  induction s with
  | nil => rfl
  | cons c cs ih =>
    have hc : ¬ c = '\'' := fun hc => h (hc ▸ List.mem_cons_self ..)
    rw [List.cons_append, literal, if_neg hc, ih (fun hm => h (List.mem_cons_of_mem _ hm))]
    by_cases hctrl : isCtrl c = true ∧ c ≠ '\t'
    · rw [if_pos hctrl, if_neg (fun hclean => hctrl.2 (List.mem_singleton.1 ((Clean.cons.1 hclean).1 hctrl.1)))]
    · have hiff : Clean ['\t'] (c :: cs) ↔ Clean ['\t'] cs := by
        refine Clean.cons.trans (and_iff_right (fun hc => ?_))
        exact List.mem_singleton.2 (Classical.byContradiction (fun hne => hctrl ⟨hc, hne⟩))
      rw [if_neg hctrl, if_congr hiff rfl rfl]
      split <;> rfl

theorem closing_append {s rest : Str} (h : s = [] ∨ s = ['\''] ∨ s = ['\'', '\'']) (hrest : rest.head? ≠ some '\'') :
    closing (s ++ rest) = (s, rest) := by
  cases rest with
  | nil => rcases h with rfl | rfl | rfl <;> rfl
  | cons c cs =>
    have hc : c ≠ '\'' := fun hc => hrest (congrArg some hc)
    rcases h with rfl | rfl | rfl
    · unfold closing
      split
      · rename_i heq; exact absurd (List.cons.inj heq).1 hc
      · rename_i heq; exact absurd (List.cons.inj heq).1 hc
      · rfl
    · unfold closing
      split
      · rename_i heq; exact absurd (List.cons.inj (List.cons.inj heq).2).1 hc
      · rename_i heq; rw [← (List.cons.inj heq).2]; rfl
      · rename_i hne; exact absurd rfl (hne _)
    · rfl

/-- A string whose first characters and the closing quotes behind it are three quotes is made of quotes. -/
theorem quotes_of_prefix {s rest : Str} (h : ¬ tripleQuote <:+: s) (hp : tripleQuote <+: s ++ tripleQuote ++ rest) :
    s = [] ∨ s = ['\''] ∨ s = ['\'', '\''] := by
  match s with
  | [] => exact .inl rfl
  | [c] =>
    obtain ⟨hc, -⟩ := List.cons_prefix_cons.1 hp
    exact .inr (.inl (hc ▸ rfl))
  | [c, c'] =>
    obtain ⟨hc, hp⟩ := List.cons_prefix_cons.1 hp
    obtain ⟨hc', -⟩ := List.cons_prefix_cons.1 hp
    exact .inr (.inr (hc ▸ hc' ▸ rfl))
  | c :: c' :: c'' :: cs =>
    obtain ⟨hc, hp⟩ := List.cons_prefix_cons.1 hp
    obtain ⟨hc', hp⟩ := List.cons_prefix_cons.1 hp
    obtain ⟨hc'', -⟩ := List.cons_prefix_cons.1 hp
    subst hc hc' hc''
    exact absurd (List.prefix_append tripleQuote cs).isInfix h

/-- **A multi-line literal string** is read up to its closing quotes, with the quotes before them. -/
theorem mlLiteral_append {s rest : Str} (h : ¬ tripleQuote <:+: s) (hrest : rest.head? ≠ some '\'') :
    mlLiteral (s ++ tripleQuote ++ rest) = if Clean ['\t', '\n'] s then some (s, rest) else none := by
  induction s with
  | nil => rw [if_pos (by decide)]; exact congrArg some (closing_append (.inl rfl) hrest)
  | cons c cs ih =>
    by_cases hp : tripleQuote <+: c :: cs ++ tripleQuote ++ rest
    · rcases quotes_of_prefix h hp with hs | hs | hs
      · cases hs
      · obtain ⟨rfl, rfl⟩ := List.cons.inj hs
        rw [if_pos (by decide)]
        exact congrArg some (closing_append (.inr (.inl rfl)) hrest)
      · obtain ⟨rfl, rfl⟩ := List.cons.inj hs
        rw [if_pos (by decide)]
        exact congrArg some (closing_append (.inr (.inr rfl)) hrest)
    · rw [List.cons_append, List.cons_append] at hp ⊢
      rw [mlLiteral, if_neg hp, ih (fun hin => h (hin.trans (List.suffix_cons c cs).isInfix))]
      by_cases hctrl : isCtrl c = true ∧ c ≠ '\t' ∧ c ≠ '\n'
      · rw [if_pos hctrl, if_neg (fun hclean => ?_)]
        rcases List.mem_cons.1 ((Clean.cons.1 hclean).1 hctrl.1) with hc | hc
        · exact hctrl.2.1 hc
        · exact hctrl.2.2 (List.mem_singleton.1 hc)
      · have hiff : Clean ['\t', '\n'] (c :: cs) ↔ Clean ['\t', '\n'] cs := by
          refine Clean.cons.trans (and_iff_right (fun hc => ?_))
          by_contra hne
          simp only [List.mem_cons, List.not_mem_nil, or_false, not_or] at hne
          exact hctrl ⟨hc, hne⟩
        rw [if_neg hctrl, if_congr hiff rfl rfl]
        split <;> rfl

theorem parseValue_literal {s : Str} (h : '\'' ∉ s) {rest : Str} (hrest : rest.head? ≠ some '\'') :
    parseValue ('\'' :: (s ++ '\'' :: rest)) = if Clean ['\t'] s then some (.str s, rest) else none := by
  have hvalue : parseValue ('\'' :: (s ++ '\'' :: rest)) =
      (literal (s ++ '\'' :: rest)).map (fun (s, rest) => (.str s, rest)) := by
    cases s with
    | nil =>
      cases rest with
      | nil => rfl
      | cons c cs =>
        unfold parseValue
        split
        · rename_i heq
          exact absurd (congrArg some (List.cons.inj (List.cons.inj (List.cons.inj heq).2).2).1) hrest
        · rename_i heq; rw [← (List.cons.inj heq).2, List.nil_append]
        · rename_i heq; cases heq
        · rename_i hne _; exact absurd rfl (hne _)
    | cons c cs =>
      have hc : c ≠ '\'' := fun hc => h (hc ▸ List.mem_cons_self ..)
      unfold parseValue
      split
      · rename_i heq; exact absurd (List.cons.inj (List.cons.inj heq).2).1 hc
      · rename_i heq; rw [← (List.cons.inj heq).2]
      · rename_i heq; cases heq
      · rename_i hne _; exact absurd rfl (hne _)
  rw [hvalue, literal_append h]
  split <;> rfl

theorem parseValue_mlLiteral {s rest : Str} (hne : s ≠ []) (h : ¬ tripleQuote <:+: s) (hrest : rest.head? ≠ some '\'') :
    parseValue (tripleQuote ++ s ++ tripleQuote ++ rest) =
      if Clean ['\t', '\n'] s then some (.str (trimNewline s), rest) else none := by
  have htrim : trimNewline (s ++ tripleQuote ++ rest) = trimNewline s ++ tripleQuote ++ rest := by
    cases s with
    | nil => exact absurd rfl hne
    | cons c cs => by_cases hc : c = '\n' <;> simp [trimNewline, hc]
  have hiff : Clean ['\t', '\n'] (trimNewline s) ↔ Clean ['\t', '\n'] s := by
    refine ⟨fun hclean => ?_, fun hclean => hclean.sublist (trimNewline_sublist s)⟩
    cases s with
    | nil => exact hclean
    | cons c cs =>
      by_cases hc : c = '\n'
      · subst hc
        exact Clean.cons.2 ⟨fun _ => by decide, hclean⟩
      · simpa [trimNewline, hc] using hclean
  have hin : ¬ tripleQuote <:+: trimNewline s := fun hin => h (hin.trans (by
    unfold trimNewline
    split
    · exact (List.suffix_cons _ _).isInfix
    · exact List.infix_rfl))
  show (mlLiteral (trimNewline (s ++ tripleQuote ++ rest))).map _ = _
  rw [htrim, mlLiteral_append hin hrest, if_congr hiff rfl rfl]
  split <;> rfl

/-! ## Integers -/

theorem run_append {p : Char → Bool} {s t : Str} (h : ∀ c ∈ s, p c = true)
    (ht : ∀ c, t.head? = some c → p c = false) :
    (s ++ t).takeWhile p = s ∧ (s ++ t).dropWhile p = t := by
  rw [List.takeWhile_append_of_pos h, List.dropWhile_append_of_pos h]
  cases t with
  | nil => exact ⟨List.append_nil s, rfl⟩
  | cons c cs =>
    have hc : ¬ p c = true := by rw [ht c rfl]; exact Bool.false_ne_true
    rw [List.takeWhile_cons_of_neg hc, List.dropWhile_cons_of_neg hc]
    exact ⟨List.append_nil s, rfl⟩

theorem head?_toDigits (n : Nat) (h : (Nat.toDigits 10 n).head? = some '0') : Nat.toDigits 10 n = ['0'] := by
  induction n using Nat.strong_induction_on with
  | _ n ih =>
    by_cases hn : n < 10
    · rw [Nat.toDigits_of_lt_base hn] at h ⊢
      rw [Option.some.inj h]
    · have hdiv := ih (n / 10) (by omega)
      rw [Nat.toDigits_of_base_le (by decide) (by omega), List.head?_append_of_ne_nil _ Nat.toDigits_ne_nil] at h
      have h0 := Nat.ofDigitChars_ten_toDigits (n := n / 10)
      rw [hdiv h] at h0
      simp only [Nat.ofDigitChars_cons, Nat.ofDigitChars_nil] at h0
      omega

theorem digits_append (n : Nat) {rest : Str} (hrest : ∀ c, rest.head? = some c → c.isDigit = false) :
    digits (Nat.toDigits 10 n ++ rest) = some (n, rest) := by
  obtain ⟨htake, hdrop⟩ := run_append
    (fun c hc => Nat.isDigit_of_mem_toDigits (b := 10) (n := n) (by decide) (by decide) hc) hrest
  have hof := Nat.ofDigitChars_ten_toDigits (n := n)
  unfold digits
  rw [htake, hdrop]
  simp only [hof]
  exact if_neg (fun h => h.elim Nat.toDigits_ne_nil (fun h => h.2 (head?_toDigits n h.1)))

theorem parseValue_int (i : Int) {rest : Str} (hrest : ∀ c, rest.head? = some c → c.isDigit = false) :
    parseValue (Py.intText i ++ rest) = some (.int i, rest) := by
  cases i with
  | ofNat n =>
    have hvalue : parseValue (Nat.toDigits 10 n ++ rest) =
        (digits (Nat.toDigits 10 n ++ rest)).map (fun (n, rest) => (.int n, rest)) := by
      cases hds : Nat.toDigits 10 n with
      | nil => exact absurd hds Nat.toDigits_ne_nil
      | cons c cs =>
        have hc : c.isDigit = true := Nat.isDigit_of_mem_toDigits (b := 10) (n := n) (by decide) (by decide)
          (hds ▸ List.mem_cons_self ..)
        unfold parseValue
        split
        · rename_i heq; rw [(List.cons.inj heq).1] at hc; exact absurd hc (by decide)
        · rename_i heq; rw [(List.cons.inj heq).1] at hc; exact absurd hc (by decide)
        · rename_i heq; rw [(List.cons.inj heq).1] at hc; exact absurd hc (by decide)
        · rfl
    rw [Py.intText, hvalue, digits_append n hrest]
    rfl
  | negSucc n =>
    rw [Py.intText, List.cons_append, parseValue, digits_append (n + 1) hrest]
    rfl

/-! ## Lines -/

variable (n : Nat) (d : Dict Str Value)

/-- **A comment** is skipped, if it is clean. -/
theorem doc_comment {c : Str} (hnl : '\n' ∉ c) (rest : Str) :
    doc (n + 1) d ('#' :: (c ++ '\n' :: rest)) = if Clean ['\t'] c then doc n d rest else none := by
  obtain ⟨htake, hdrop⟩ := run_append (p := fun x => decide (x ≠ '\n')) (s := c) (t := '\n' :: rest)
    (fun x hx => decide_eq_true (fun h => hnl (h ▸ hx))) (fun x hx => by cases hx; rfl)
  show (skipComment ('#' :: (c ++ '\n' :: rest))).bind _ = _
  rw [skipComment, htake, hdrop]
  split <;> rfl

/-- A character that can stand at the beginning of a statement, or in a key. -/
def InKey (c : Char) : Prop := isWs c = false ∧ c ≠ '\n' ∧ c ≠ '#' ∧ c ≠ '='

theorem inKey_of_isBare {c : Char} (h : isBare c = true) : InKey c := by
  refine ⟨?_, ?_, ?_, ?_⟩
  · by_contra hws
    rw [Bool.not_eq_false, isWs, Bool.or_eq_true, beq_iff_eq, beq_iff_eq] at hws
    rcases hws with rfl | rfl <;> exact absurd h (by decide)
  all_goals (rintro rfl; exact absurd h (by decide))

theorem doc_statement {c : Char} (h : InKey c) (cs : Str) :
    doc (n + 1) d (c :: cs) =
      (statement d (c :: cs)).bind (fun (d, rest) =>
        (skipComment (skipWs rest)).bind (fun rest =>
          match rest with
          | []         => some d
          | '\n' :: cs => doc n d cs
          | _          => none)) := by
  have hskip : skipWs (c :: cs) = c :: cs := List.dropWhile_cons_of_neg (by rw [h.1]; exact Bool.false_ne_true)
  rw [doc, hskip]
  split
  · rename_i heq; cases heq
  · rename_i heq; exact absurd (List.cons.inj heq).1 h.2.1
  · rename_i heq; rw [← heq]

/-- **A key with its value** up to the end of the line: the key is new. -/
theorem doc_keyValue {key : Str} (hne : key ≠ []) (hbare : ∀ c ∈ key, isBare c = true) {src rest : Str}
    (hws : skipWs src = src) {v : Option Value} (h : parseValue src = v.map (fun v => (v, '\n' :: rest))) :
    doc (n + 1) d (key ++ ' ' :: '=' :: ' ' :: src) =
      v.bind (fun v => if (d.get? key).isSome then none else doc n (d.set key v) rest) := by
  obtain ⟨htake, hdrop⟩ := run_append (t := ' ' :: '=' :: ' ' :: src) hbare (fun x hx => by cases hx; rfl)
  have hkv : keyValue d (key ++ ' ' :: '=' :: ' ' :: src) =
      v.bind (fun v => if (d.get? key).isSome then none else some (d.set key v, '\n' :: rest)) := by
    unfold keyValue
    rw [htake, hdrop]
    show (parseValue (skipWs src)).bind _ = _
    rw [hws, h]
    cases v <;> rfl
  obtain ⟨c, cs, rfl⟩ := List.exists_cons_of_ne_nil hne
  have hc := hbare c (List.mem_cons_self ..)
  rw [List.cons_append] at hkv ⊢
  rw [doc_statement n d (inKey_of_isBare hc), statement, if_pos hc, hkv]
  cases v with
  | none => rfl
  | some v =>
    rw [Option.bind_some, Option.bind_some]
    split <;> rfl

theorem doc_badKey {key : Str} (hkey : ∀ c ∈ key, InKey c) (hbad : ∃ c ∈ key, isBare c = false) (src : Str) :
    doc (n + 1) d (key ++ src) = none := by
  have hkv : ∀ key : Str, (∀ c ∈ key, InKey c) → (∃ c ∈ key, isBare c = false) →
      ∃ c cs, (key ++ src).dropWhile isBare = c :: cs ∧ InKey c := by
    intro key hkey hbad
    induction key with
    | nil => obtain ⟨c, hc, -⟩ := hbad; cases hc
    | cons c cs ih =>
      rw [List.cons_append]
      cases hc : isBare c with
      | false => exact ⟨c, cs ++ src, List.dropWhile_cons_of_neg (by rw [hc]; exact Bool.false_ne_true),
          hkey c (List.mem_cons_self ..)⟩
      | true =>
        rw [List.dropWhile_cons_of_pos hc]
        obtain ⟨x, hx, hbx⟩ := hbad
        refine ih (fun y hy => hkey y (List.mem_cons_of_mem _ hy)) ⟨x, ?_, hbx⟩
        rcases List.mem_cons.1 hx with rfl | hx
        · rw [hc] at hbx; cases hbx
        · exact hx
  obtain ⟨c, cs, hdrop, hc⟩ := hkv key hkey hbad
  cases key with
  | nil => obtain ⟨c, hc, -⟩ := hbad; cases hc
  | cons k ks =>
    have hk := hkey k (List.mem_cons_self ..)
    rw [List.cons_append] at hdrop ⊢
    rw [doc_statement n d hk, statement]
    split
    · have hnone : keyValue d (k :: (ks ++ src)) = none := by
        have hskip : skipWs (c :: cs) = c :: cs := List.dropWhile_cons_of_neg (by rw [hc.1]; exact Bool.false_ne_true)
        unfold keyValue
        rw [hdrop, hskip]
        split
        · rename_i heq; exact absurd (List.cons.inj heq).1 hc.2.2.2
        · rfl
      rw [hnone]
      rfl
    · rw [if_neg hk.2.2.1]
      rfl

end Toml
