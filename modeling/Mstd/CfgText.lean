import Mstd.CfgImage
import Mstd.CfgEnumText
/-!
# Text configs (`mstd.cfg.py`, `save_text_config` and `load_text_config`)

A text has a line `name = value` for each field, behind its comment.  `loads_getTomls` says what TOML makes of such a
text: each value as `readBack` has it, unless a line is not TOML or a name comes twice.
-/
namespace Mstd.Cfg

open Py (Str Dict)
open Toml (tripleQuote Clean isBare)

/-- `toml_repr`; `re.sub` rejects its own pattern. -/
def tomlRepr : TomlValue → Except Error Str
  | .int data => .ok (Py.intText data)
  | .str data =>
    if '\'' ∉ data ∧ '\n' ∉ data then .ok ('\'' :: (data ++ ['\'']))
    else if ¬ tripleQuote <:+: data then .ok (tripleQuote ++ data ++ tripleQuote)
    else .error .regexError

def hiddenNames : List Str := ["crc".toList, "size".toList, "version".toList]

def CfgField.commentLine (fld : CfgField) : Str := if fld.comment = [] then [] else "# ".toList ++ fld.comment ++ ['\n']

namespace ConfigData

/-- The line of a field. -/
def tomlLine (d : ConfigData) (fld : CfgField) : Except Error Str := do
  let repr ← tomlRepr (← d.getTomlValue fld.name)
  .ok (fld.commentLine ++ (fld.name ++ ' ' :: '=' :: ' ' :: (repr ++ ['\n'])))

/-- The loop of `get_full_toml`. -/
def getTomls (d : ConfigData) (withHiddenFields : Bool) : List CfgField → Except Error Str
  | []      => .ok []
  | f :: fs =>
    if !f.isFiller && (withHiddenFields || !hiddenNames.contains f.name) then
      match d.tomlLine f, d.getTomls withHiddenFields fs with
      | .ok line, .ok rest => .ok (line ++ rest)
      | .error x, _        => .error x
      | _, .error x        => .error x
    else d.getTomls withHiddenFields fs

def getFullToml (d : ConfigData) (withHiddenFields : Bool) : Except Error Str := d.getTomls withHiddenFields d.cfg.cfgStruct

/-- `set_full_toml`. -/
def setFullToml (d : ConfigData) (allowUnknown : Bool) : Dict Str TomlValue → Except Error ConfigData
  | []                 => .ok d
  | (key, val) :: toml =>
    if (d.data.get? key).isNone then
      if allowUnknown then d.setFullToml allowUnknown toml else .error (.unknownField key)
    else
      match d.setTomlValue key val with
      | .ok d'   => d'.setFullToml allowUnknown toml
      | .error x => .error x

def loadTextConfig (d : ConfigData) (data : Str) (force : Nat) : Except Error ConfigData :=
  match Toml.loads data with
  | some toml => d.setFullToml (force != 0) toml
  | none      => .error .tomlDecodeError

/-- The object behind the call, and the text. -/
def saveTextConfig (d : ConfigData) (unsafeCrc hiddenFields : Bool) : Except Error (ConfigData × Str) := do
  let d ← d.patchBinaryImage (!unsafeCrc)
  let text ← d.getFullToml hiddenFields
  .ok (d, text)

end ConfigData

/-! ## One value -/

/-- What TOML makes of a written value. -/
def readBack : TomlValue → Option TomlValue
  | .int data => some (.int data)
  | .str data =>
    if '\'' ∉ data ∧ '\n' ∉ data then (if Clean ['\t'] data then some (.str data) else none)
    else if ¬ tripleQuote <:+: data then
      if Clean ['\t', '\n'] (Toml.normalize data) then some (.str (Toml.trimNewline (Toml.normalize data))) else none
    else none

theorem mem_intText {i : Int} {c : Char} (h : c ∈ Py.intText i) : c.isDigit = true ∨ c = '-' := by
  have hdigit {n : Nat} (h : c ∈ Nat.toDigits 10 n) : c.isDigit = true :=
    Nat.isDigit_of_mem_toDigits (by decide) (by decide) h
  cases i with
  | ofNat n => exact .inl (hdigit h)
  | negSucc n => exact (List.mem_cons.1 h).symm.imp_left hdigit

theorem parseValue_tomlRepr {v : TomlValue} {repr : Str} (h : tomlRepr v = .ok repr) (rest : Str) :
    Toml.parseValue (Toml.normalize repr ++ '\n' :: rest) = (readBack v).map (fun v => (v, '\n' :: rest)) := by
  have hquote : ('\n' :: rest).head? ≠ some '\'' := fun h => absurd (Option.some.inj h) (by decide)
  cases v with
  | int data =>
    cases h
    have hcr : '\r' ∉ Py.intText data := fun hm => by rcases mem_intText hm with h | h <;> exact absurd h (by decide)
    rw [Toml.normalize_of_notMem (.inl hcr), Toml.parseValue_int data (fun c hc => by cases hc; rfl)]
    rfl
  | str data =>
    simp only [tomlRepr] at h
    simp only [readBack]
    split at h
    · rename_i hdata
      cases h
      have hnl : '\n' ∉ '\'' :: (data ++ ['\'']) := by simp [hdata.2]
      rw [Toml.normalize_of_notMem (.inr hnl), if_pos hdata, List.cons_append, List.append_assoc, List.singleton_append,
        Toml.parseValue_literal hdata.1 hquote]
      split <;> rfl
    · rename_i hdata
      split at h
      · rename_i htriple
        cases h
        have hnorm : Toml.normalize (tripleQuote ++ data ++ tripleQuote) =
            tripleQuote ++ Toml.normalize data ++ tripleQuote := by
          rw [Toml.normalize_append (fun _ => by decide), Toml.normalize_append (fun h => absurd h (by decide))]
          rfl
        have hne : Toml.normalize data ≠ [] := by
          rcases Classical.not_and_iff_not_or_not.1 hdata with h | h
          · exact List.ne_nil_of_mem (Toml.mem_normalize (by decide) (Classical.not_not.1 h))
          · exact List.ne_nil_of_mem (Toml.mem_normalize (by decide) (Classical.not_not.1 h))
        have hin : ¬ tripleQuote <:+: Toml.normalize data :=
          fun h => htriple (Toml.infix_of_infix_normalize (by decide) (by decide) h)
        rw [hnorm, Toml.parseValue_mlLiteral hne hin hquote, if_neg hdata, if_pos htriple]
        split <;> rfl
      · cases h

/-- The strings that are read back as they were written. -/
def Quotable (s : Str) : Prop := ¬ tripleQuote <:+: s ∧ Clean ['\t', '\n'] s ∧ s.head? ≠ some '\n'

instance (s : Str) : Decidable (Quotable s) := inferInstanceAs (Decidable (_ ∧ _ ∧ _))

/-- What a string is read back as has no control characters but tabs and newlines, and lacks at most some of the string's
characters; it is the string only when that is quotable. -/
theorem readBack_str {s : Str} {w : TomlValue} (h : readBack (.str s) = some w) :
    ∃ s', w = .str s' ∧ s'.Sublist s ∧ Clean ['\t', '\n'] s' ∧ '\x00' ∉ s ∧ (s' = s → Quotable s) := by
  simp only [readBack] at h
  split at h
  · rename_i hs
    split at h
    · rename_i hclean
      cases h
      refine ⟨s, rfl, List.Sublist.refl s, fun c hc hctrl => ?_, fun h0 => ?_, fun _ => ⟨fun hin => ?_, ?_, fun hn => ?_⟩⟩
      · exact List.mem_cons.2 (.inl (List.mem_singleton.1 (hclean c hc hctrl)))
      · exact absurd (hclean _ h0 (by decide)) (by decide)
      · exact hs.1 (hin.subset (List.mem_cons_self ..))
      · exact fun c hc hctrl => List.mem_cons.2 (.inl (List.mem_singleton.1 (hclean c hc hctrl)))
      · exact hs.2 (List.mem_of_mem_head? hn)
    · cases h
  · split at h
    · rename_i htriple
      split at h
      · rename_i hclean
        cases h
        have hsub := (Toml.trimNewline_sublist (Toml.normalize s)).trans (Toml.normalize_sublist s)
        refine ⟨_, rfl, hsub, hclean.sublist (Toml.trimNewline_sublist _), fun h0 => ?_,
          fun heq => ⟨htriple, ?_, fun hn => ?_⟩⟩
        · exact absurd (hclean _ (Toml.mem_normalize (by decide) h0) (by decide)) (by decide)
        · exact heq ▸ hclean.sublist (Toml.trimNewline_sublist _)
        · obtain ⟨cs, hcs⟩ : ∃ cs, Toml.normalize s = '\n' :: cs := by
            cases hnorm : Toml.normalize s with
            | nil => have := Toml.head?_normalize hn; rw [hnorm] at this; cases this
            | cons c cs => have := Toml.head?_normalize hn; rw [hnorm] at this; exact ⟨cs, by rw [Option.some.inj this]⟩
          have hlen := congrArg List.length heq
          have hle := (Toml.normalize_sublist s).length_le
          rw [hcs] at hlen hle
          simp only [Toml.trimNewline, List.length_cons] at hlen hle
          omega
      · cases h
    · cases h

theorem readBack_quotable {s : Str} (h : Quotable s) : readBack (.str s) = some (.str s) := by
  obtain ⟨htriple, hclean, hhead⟩ := h
  have hcr : '\r' ∉ s := fun hm => absurd (hclean _ hm (by decide)) (by decide)
  simp only [readBack]
  split
  · rename_i hs
    rw [if_pos]
    intro c hc hctrl
    rcases List.mem_cons.1 (hclean c hc hctrl) with h | h
    · exact h ▸ List.mem_singleton_self _
    · exact absurd (List.mem_singleton.1 h ▸ hc) hs.2
  · rw [Toml.normalize_of_notMem (.inl hcr), if_pos hclean]
    unfold Toml.trimNewline
    split
    · exact absurd rfl hhead
    · rfl

/-! ## One line -/

/-- TOML takes the comment and the key. -/
def CfgField.Plain (f : CfgField) : Prop := Clean ['\t'] f.comment ∧ ∀ c ∈ f.name, isBare c = true

instance (f : CfgField) : Decidable f.Plain :=
  decidable_of_iff (Clean ['\t'] f.comment ∧ f.name.all isBare = true) (and_congr_right' List.all_eq_true)

/-- What TOML makes of the line of a field. -/
def CfgField.readLine (f : CfgField) (v : TomlValue) : Option TomlValue := if f.Plain then readBack v else none

def CfgField.lines (f : CfgField) : Nat := if f.comment = [] then 1 else 2

theorem inKey_of_isWord {c : Char} (h : Py.isWord c = true) : Toml.InKey c := by
  refine ⟨?_, Py.ne_of_isWord h (by decide), Py.ne_of_isWord h (by decide), Py.ne_of_isWord h (by decide)⟩
  simp [Toml.isWs, Py.ne_of_isWord h (show Py.isWord ' ' = false by decide),
    Py.ne_of_isWord h (show Py.isWord '\t' = false by decide)]

theorem tomlRepr_ends {v : TomlValue} {repr : Str} (h : tomlRepr v = .ok repr) :
    (∃ c cs, repr = c :: cs ∧ Toml.isWs c = false ∧ c ≠ '\r') ∧ repr.getLast? ≠ some '\r' := by
  cases v with
  | int data =>
    cases h
    refine ⟨?_, fun hlast => ?_⟩
    · cases hdata : Py.intText data with
      | nil => cases data with
        | ofNat n => exact absurd hdata Nat.toDigits_ne_nil
        | negSucc n => cases hdata
      | cons c cs =>
        refine ⟨c, cs, rfl, ?_⟩
        rcases mem_intText (hdata ▸ List.mem_cons_self .. : c ∈ Py.intText data) with hc | rfl
        · refine ⟨?_, by rintro rfl; exact absurd hc (by decide)⟩
          simp only [Toml.isWs, Bool.or_eq_false_iff, beq_eq_false_iff_ne]
          exact ⟨by rintro rfl; exact absurd hc (by decide), by rintro rfl; exact absurd hc (by decide)⟩
        · exact ⟨by decide, by decide⟩
    · rcases mem_intText (List.mem_of_getLast? hlast) with h | h <;> exact absurd h (by decide)
  | str data =>
    simp only [tomlRepr] at h
    split at h
    · cases h
      exact ⟨⟨'\'', _, rfl, by decide, by decide⟩, by rw [← List.cons_append, List.getLast?_concat]; decide⟩
    · split at h
      · cases h
        refine ⟨⟨'\'', _, rfl, by decide, by decide⟩, ?_⟩
        rw [List.getLast?_append]
        exact fun h => absurd h (show some '\'' ≠ some '\r' by decide)
      · cases h

theorem normalize_line {f : CfgField} (hf : f.Parsed) {v : TomlValue} {repr : Str} (h : tomlRepr v = .ok repr) (rest : Str) :
    Toml.normalize (f.commentLine ++ (f.name ++ ' ' :: '=' :: ' ' :: (repr ++ ['\n'])) ++ rest) =
      f.commentLine ++ (f.name ++ ' ' :: '=' :: ' ' :: (Toml.normalize repr ++ '\n' :: Toml.normalize rest)) := by
  have hcr : '\r' ∉ f.commentLine ++ f.name ++ [' ', '=', ' '] := by
    have hname : '\r' ∉ f.name := fun hm => absurd (hf.word _ hm) (by decide)
    have hcomment := hf.comment.2
    unfold CfgField.commentLine
    split <;> simp [hname, hcomment]
  have hsplit : f.commentLine ++ (f.name ++ ' ' :: '=' :: ' ' :: (repr ++ ['\n'])) ++ rest =
      f.commentLine ++ f.name ++ [' ', '=', ' '] ++ (repr ++ ('\n' :: rest)) := by simp
  rw [hsplit, Toml.normalize_append (fun h => by simp at h), Toml.normalize_of_notMem (.inl hcr),
    Toml.normalize_append (fun h' => absurd h' (tomlRepr_ends h).2)]
  simp [Toml.normalize]

/-- **The line of a field**, behind its comment. -/
theorem doc_line {f : CfgField} (hf : f.Parsed) {v : TomlValue} {repr : Str} (h : tomlRepr v = .ok repr) (n : Nat)
    (toml : Dict Str TomlValue) (rest : Str) :
    Toml.doc (n + f.lines) toml (f.commentLine ++ (f.name ++ ' ' :: '=' :: ' ' :: (Toml.normalize repr ++ '\n' :: rest))) =
      (f.readLine v).bind (fun w => if (toml.get? f.name).isSome then none else Toml.doc n (toml.set f.name w) rest) := by
  have hbare (h' : ∀ c ∈ f.name, isBare c = true) :
      Toml.doc (n + 1) toml (f.name ++ ' ' :: '=' :: ' ' :: (Toml.normalize repr ++ '\n' :: rest)) =
        (readBack v).bind (fun w => if (toml.get? f.name).isSome then none else Toml.doc n (toml.set f.name w) rest) := by
    have hws : Toml.skipWs (Toml.normalize repr ++ '\n' :: rest) = Toml.normalize repr ++ '\n' :: rest := by
      obtain ⟨c, cs, rfl, hc, hcr⟩ := (tomlRepr_ends h).1
      rw [Toml.normalize, if_neg (fun h => hcr h.1), List.cons_append]
      exact List.dropWhile_cons_of_neg (by rw [hc]; exact Bool.false_ne_true)
    rw [Toml.doc_keyValue n toml hf.ne h' hws (parseValue_tomlRepr h rest)]
  have hbad (h' : ¬ ∀ c ∈ f.name, isBare c = true) (src : Str) : Toml.doc (n + 1) toml (f.name ++ src) = none := by
    have hbad : ∃ c ∈ f.name, isBare c = false := by
      by_contra hnone
      exact h' (fun c hc => by
        by_contra hc'
        exact hnone ⟨c, hc, Bool.not_eq_true _ ▸ hc'⟩)
    exact Toml.doc_badKey n toml (fun c hc => inKey_of_isWord (hf.word c hc)) hbad src
  unfold CfgField.lines CfgField.commentLine CfgField.readLine
  by_cases hc : f.comment = []
  · have hclean : Clean ['\t'] f.comment := by rw [hc]; exact fun c h => absurd h List.not_mem_nil
    rw [if_pos hc, if_pos hc, List.nil_append]
    by_cases hname : ∀ c ∈ f.name, isBare c = true
    · rw [hbare hname, if_pos ⟨hclean, hname⟩]
    · rw [hbad hname, if_neg (fun hplain : f.Plain => hname hplain.2), Option.bind_none]
  · have hnl : '\n' ∉ ' ' :: f.comment := by simp [hf.comment.1]
    have hsplit (src : Str) : "# ".toList ++ f.comment ++ ['\n'] ++ src = '#' :: (' ' :: f.comment ++ '\n' :: src) := by simp
    have hiff : Clean ['\t'] (' ' :: f.comment) ↔ Clean ['\t'] f.comment :=
      Toml.Clean.cons.trans (and_iff_right (fun h => absurd h (by decide)))
    rw [if_neg hc, if_neg hc, hsplit, Toml.doc_comment (n + 1) toml hnl, if_congr hiff rfl rfl]
    by_cases hclean : Clean ['\t'] f.comment
    · rw [if_pos hclean]
      by_cases hname : ∀ c ∈ f.name, isBare c = true
      · rw [hbare hname, if_pos ⟨hclean, hname⟩]
      · rw [hbad hname, if_neg (fun hplain : f.Plain => hname hplain.2), Option.bind_none]
    · rw [if_neg hclean, if_neg (fun hplain : f.Plain => hclean hplain.1), Option.bind_none]

/-! ## A whole text -/

theorem tomlRepr_of_readBack {v w : TomlValue} (h : readBack v = some w) : ∃ repr, tomlRepr v = .ok repr := by
  cases v with
  | int data => exact ⟨_, rfl⟩
  | str data =>
    simp only [readBack] at h
    simp only [tomlRepr]
    split
    · exact ⟨_, rfl⟩
    · rename_i hdata
      split
      · exact ⟨_, rfl⟩
      · rename_i htriple
        rw [if_neg hdata, if_neg htriple] at h
        cases h

namespace ConfigData

def readLine (d : ConfigData) (f : CfgField) : Option TomlValue := (d.getTomlValue f.name).toOption.bind f.readLine

/-- What TOML makes of the lines of some fields. -/
def readLines (d : ConfigData) (toml : Dict Str TomlValue) : List CfgField → Option (Dict Str TomlValue)
  | []      => some toml
  | f :: fs =>
    (d.readLine f).bind (fun w => if (toml.get? f.name).isSome then none else d.readLines (toml.set f.name w) fs)

variable (d : ConfigData)

theorem tomlLine_eq_ok {f : CfgField} {line : Str} : d.tomlLine f = .ok line ↔
    ∃ v repr, d.getTomlValue f.name = .ok v ∧ tomlRepr v = .ok repr ∧
      line = f.commentLine ++ (f.name ++ ' ' :: '=' :: ' ' :: (repr ++ ['\n'])) := by
  unfold tomlLine
  cases hv : d.getTomlValue f.name with
  | error x => simp [bind, Except.bind]
  | ok v => cases hr : tomlRepr v <;> simp [bind, Except.bind, hr, eq_comm]

theorem doc_getTomls : ∀ {fs : List CfgField}, (∀ f ∈ fs, f.Parsed) → ∀ {text : Str}, d.getTomls true fs = .ok text →
    ∀ {n : Nat} {toml : Dict Str TomlValue}, (Toml.normalize text).length < n →
    Toml.doc n toml (Toml.normalize text) = d.readLines toml (fs.filter (fun f => !f.isFiller))
  | [], _, text, h, n, toml, hn => by
    cases h
    obtain ⟨n, rfl⟩ := Nat.exists_eq_succ_of_ne_zero (Nat.ne_of_gt hn)
    rfl
  | f :: fs, hfs, text, h, n, toml, hn => by
    have hf := hfs f (List.mem_cons_self ..)
    have hrest := fun g hg => hfs g (List.mem_cons_of_mem f hg)
    rw [getTomls] at h
    cases hfill : f.isFiller with
    | true =>
      rw [if_neg (by simp [hfill])] at h
      rw [List.filter_cons_of_neg (by simp [hfill])]
      exact doc_getTomls hrest h hn
    | false =>
      rw [if_pos (by simp [hfill])] at h
      rw [List.filter_cons_of_pos (by simp [hfill])]
      cases hline : d.tomlLine f with
      | error x => rw [hline] at h; cases h
      | ok line =>
        cases htext : d.getTomls true fs with
        | error x => rw [hline, htext] at h; cases h
        | ok rest =>
          rw [hline, htext] at h
          cases h
          obtain ⟨v, repr, hv, hrepr, rfl⟩ := d.tomlLine_eq_ok.1 hline
          rw [normalize_line hf hrepr] at hn ⊢
          have hlines : f.lines + (Toml.normalize rest).length ≤ (f.commentLine ++ (f.name ++ ' ' :: '=' :: ' ' ::
              (Toml.normalize repr ++ '\n' :: Toml.normalize rest))).length := by
            unfold CfgField.lines CfgField.commentLine
            split <;> simp <;> omega
          obtain ⟨m, rfl⟩ : ∃ m, n = m + f.lines := ⟨n - f.lines, by omega⟩
          rw [doc_line hf hrepr, readLines, readLine, hv]
          refine Option.bind_congr (fun w _ => ?_)
          split
          · rfl
          · exact doc_getTomls hrest htext (n := m) (by omega)

/-- **What TOML makes of a text** that was written. -/
theorem loads_getFullToml {text : Str} (h : d.getFullToml true = .ok text) :
    Toml.loads text = d.readLines [] d.cfg.fields := d.doc_getTomls d.cfg.parsed h (Nat.lt_succ_self _)

/-- The keys and values of some fields. -/
def entries (fs : List CfgField) : Dict Str TomlValue := fs.filterMap (fun f => (d.readLine f).map (f.name, ·))

theorem readLines_eq_some : ∀ {fs : List CfgField} {toml toml' : Dict Str TomlValue}, d.readLines toml fs = some toml' ↔
    (∀ f ∈ fs, (d.readLine f).isSome = true ∧ f.name ∉ toml.map Prod.fst) ∧ (fs.map CfgField.name).Nodup ∧
      toml' = toml ++ d.entries fs
  | [], toml, toml' => by
    have hiff : d.readLines toml [] = some toml' ↔ toml' = toml := Option.some_inj.trans eq_comm
    simpa [entries] using hiff
  | f :: fs, toml, toml' => by
    rw [readLines]
    cases hf : d.readLine f with
    | none => simp [hf]
    | some w =>
      rw [Option.bind_some]
      by_cases hname : f.name ∈ toml.map Prod.fst
      · rw [if_pos (Dict.get?_isSome.2 hname)]
        exact iff_of_false (Option.some_ne_none _ ·.symm) (fun h => (h.1 f (List.mem_cons_self ..)).2 hname)
      · have hnone : toml.get? f.name = none := by
          rw [← Option.not_isSome_iff_eq_none, Dict.get?_isSome]
          exact hname
        have hentries : d.entries (f :: fs) = (f.name, w) :: d.entries fs := by simp [entries, hf]
        rw [if_neg (fun h => hname (Dict.get?_isSome.1 h)), readLines_eq_some, Dict.set_of_get?_none hnone, hentries]
        simp only [List.mem_cons, forall_eq_or_imp, hf, List.map_append, List.mem_append, List.map_cons, List.nodup_cons,
          List.append_assoc, List.singleton_append, List.map_nil, List.not_mem_nil, or_false, Option.isSome_some,
          true_and, hname, not_or]
        constructor
        · rintro ⟨hfs, hnodup, rfl⟩
          refine ⟨⟨not_false, fun g hg => ⟨(hfs g hg).1, (hfs g hg).2.1⟩⟩, ⟨fun hmem => ?_, hnodup⟩, rfl⟩
          obtain ⟨g, hg, hgname⟩ := List.mem_map.1 hmem
          exact (hfs g hg).2.2 hgname
        · rintro ⟨⟨-, hfs⟩, ⟨hnot, hnodup⟩, rfl⟩
          exact ⟨fun g hg => ⟨(hfs g hg).1, (hfs g hg).2, fun hgname => hnot (hgname ▸ List.mem_map_of_mem hg)⟩, hnodup, rfl⟩

end ConfigData

/-! ## One string -/

/-- A field `k` without a comment. -/
def keyField : CfgField := ⟨['k'], 0, none, .char 0, []⟩

theorem loads_keyLine {v : TomlValue} {repr : Str} (h : tomlRepr v = .ok repr) :
    Toml.loads ("k = ".toList ++ repr ++ ['\n']) = (readBack v).map (fun w => [(['k'], w)]) := by
  have hfield : keyField.Parsed := by decide
  have hline := normalize_line hfield h []
  rw [List.append_nil] at hline
  have hsrc : Toml.normalize ("k = ".toList ++ repr ++ ['\n']) =
      'k' :: ' ' :: '=' :: ' ' :: (Toml.normalize repr ++ ['\n']) := hline
  have hdoc := doc_line hfield h ((Toml.normalize repr).length + 5) [] []
  have hread : keyField.readLine v = readBack v := if_pos (by decide)
  rw [hread] at hdoc
  rw [Toml.loads, hsrc]
  show Toml.doc ((Toml.normalize repr ++ ['\n']).length + 4 + 1) [] _ = _
  rw [List.length_append]
  refine Eq.trans hdoc ?_
  cases readBack v <;> rfl

/-- **Which strings are quoted correctly** by `toml_repr`. -/
theorem tomlRepr_reads_iff (s : Str) :
    (∃ repr, tomlRepr (.str s) = .ok repr ∧
      Toml.loads ("k = ".toList ++ repr ++ ['\n']) = some [("k".toList, .str s)]) ↔ Quotable s := by
  constructor
  · rintro ⟨repr, hrepr, hloads⟩
    rw [loads_keyLine hrepr] at hloads
    obtain ⟨w, hw, heq⟩ := Option.map_eq_some_iff.1 hloads
    cases heq
    obtain ⟨s', hs', -, -, -, hquot⟩ := readBack_str hw
    exact hquot (Toml.Value.str.inj hs').symm
  · intro hs
    obtain ⟨repr, hrepr⟩ := tomlRepr_of_readBack (readBack_quotable hs)
    refine ⟨repr, hrepr, ?_⟩
    rw [loads_keyLine hrepr, readBack_quotable hs]
    rfl

/-- Three quotes, a newline at the beginning, and a control character. -/
theorem tomlRepr_misread :
    (tomlRepr (.str tripleQuote)).toOption = none ∧
      (∀ repr, tomlRepr (.str "\nx".toList) = .ok repr →
        Toml.loads ("k = ".toList ++ repr ++ ['\n']) = some [("k".toList, .str "x".toList)]) ∧
      ∀ repr, tomlRepr (.str "\r".toList) = .ok repr → Toml.loads ("k = ".toList ++ repr ++ ['\n']) = none := by
  refine ⟨by decide, fun repr h => ?_, fun repr h => ?_⟩
  · rw [loads_keyLine h]; decide
  · rw [loads_keyLine h]; decide

end Mstd.Cfg
