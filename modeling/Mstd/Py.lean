import Mathlib.Data.List.TakeWhile
import Mstd.PyChar
/-!
# Strings and dictionaries of Python

A string is its list of characters.  `partition`, `splitRuns` and `join` are `str.partition`, `re.split` on a class of
characters repeated, and `str.join`; a `Dict` keeps its keys in the order of their first assignment.
-/
namespace Py

abbrev Str := List Char

/-- The part before the first `sep`, whether there is one, and the part behind it. -/
def partition (sep : Char) : Str → Str × Bool × Str
  | []      => ([], false, [])
  | c :: cs => if c = sep then ([], true, cs) else ((c :: (partition sep cs).1, (partition sep cs).2))

theorem partition_of_mem {sep : Char} : ∀ {s : Str}, sep ∈ s →
    ∃ pref rest, partition sep s = (pref, true, rest) ∧ s = pref ++ sep :: rest ∧ sep ∉ pref
  | c :: cs, h => by
    by_cases hc : c = sep
    · exact ⟨[], cs, by rw [partition, if_pos hc], by rw [hc]; rfl, List.not_mem_nil⟩
    · obtain ⟨pref, rest, hp, rfl, hnot⟩ := partition_of_mem ((List.mem_cons.1 h).resolve_left (fun h => hc h.symm))
      refine ⟨c :: pref, rest, by rw [partition, if_neg hc, hp], rfl, fun hm => ?_⟩
      exact (List.mem_cons.1 hm).elim (fun h => hc h.symm) hnot

/-- The pieces between the runs of characters in `sep`, one more than there are runs. -/
def splitRuns (sep : Char → Bool) : Str → List Str
  | []      => [[]]
  | c :: cs =>
    if sep c then (if (cs.head?.any sep) then splitRuns sep cs else [] :: splitRuns sep cs)
    else
      match splitRuns sep cs with
      | []           => [[c]]
      | piece :: ps  => (c :: piece) :: ps

/-- `str` of an integer. -/
def intText : Int → Str
  | .ofNat n   => Nat.toDigits 10 n
  | .negSucc n => '-' :: Nat.toDigits 10 (n + 1)

def join (sep : Str) (items : List Str) : Str := List.intercalate sep items

section

variable {sep : Char → Bool}

theorem splitRuns_cons_sep {c : Char} (hc : sep c = true) :
    ∀ rest : Str, splitRuns sep (c :: rest) = [] :: splitRuns sep (rest.dropWhile sep)
  | [] => by simp [splitRuns, hc]
  | c' :: rest => by
    cases hc' : sep c' with
    | true => rw [splitRuns, if_pos hc, List.head?_cons, Option.any_some, if_pos hc', splitRuns_cons_sep hc' rest,
        List.dropWhile_cons_of_pos hc']
    | false => simp [splitRuns, hc, hc']

theorem splitRuns_of_free : ∀ {s : Str}, (∀ c ∈ s, sep c = false) → splitRuns sep s = [s]
  | [], _ => rfl
  | c :: cs, h => by
    have ih := splitRuns_of_free (fun x hx => h x (List.mem_cons_of_mem c hx))
    simp [splitRuns, h c (List.mem_cons_self ..), ih]

theorem splitRuns_append {c : Char} (hc : sep c = true) (rest : Str) : ∀ {s : Str}, (∀ x ∈ s, sep x = false) →
    splitRuns sep (s ++ c :: rest) = s :: splitRuns sep (rest.dropWhile sep)
  | [], _ => splitRuns_cons_sep hc rest
  | x :: xs, h => by
    have ih := splitRuns_append hc rest (fun y hy => h y (List.mem_cons_of_mem x hy))
    simp [splitRuns, h x (List.mem_cons_self ..), ih]

/-- Of the pieces behind the first, the split keeps the last and those that are not empty. -/
def compress : List Str → List Str
  | []           => []
  | [s]          => [s]
  | s :: t :: ts => if s = [] then compress (t :: ts) else s :: compress (t :: ts)

theorem join_cons_cons (c : Char) (s t : Str) (ts : List Str) : join [c] (s :: t :: ts) = s ++ c :: join [c] (t :: ts) := by
  simp [join, List.intercalate, List.intersperse]

/-- A text made of pieces with runs of separators between them. -/
inductive Joined (sep : Char → Bool) : List Str → Str → Prop where
  | nil : Joined sep [] []
  | single (s : Str) : Joined sep [s] s
  | cons {s t mid text : Str} {ts : List Str} : mid ≠ [] → (∀ c ∈ mid, sep c = true) → Joined sep (t :: ts) text →
    Joined sep (s :: t :: ts) (s ++ mid ++ text)

theorem joined_join {c : Char} (hc : sep c = true) : ∀ ts : List Str, Joined sep ts (join [c] ts)
  | []           => .nil
  | [s]          => by simpa [join] using Joined.single s
  | s :: t :: ts => by
    have hjoined : Joined sep (s :: t :: ts) (s ++ [c] ++ join [c] (t :: ts)) :=
      .cons (List.cons_ne_nil c []) (by simpa using hc) (joined_join hc (t :: ts))
    rwa [List.append_assoc, List.singleton_append, ← join_cons_cons] at hjoined

theorem splitRuns_run {mid text : Str} (hne : mid ≠ []) (hmid : ∀ c ∈ mid, sep c = true) {s : Str}
    (hs : ∀ x ∈ s, sep x = false) : splitRuns sep (s ++ mid ++ text) = s :: splitRuns sep (text.dropWhile sep) := by
  obtain ⟨c, cs, rfl⟩ := List.exists_cons_of_ne_nil hne
  rw [List.append_assoc, List.cons_append, splitRuns_append (hmid c (List.mem_cons_self ..)) _ hs,
    List.dropWhile_append_of_pos (fun x hx => hmid x (List.mem_cons_of_mem c hx))]

theorem splitRuns_dropWhile {ts : List Str} {text : Str} (h : Joined sep ts text) (hne : ts ≠ [])
    (hfree : ∀ t ∈ ts, ∀ x ∈ t, sep x = false) : splitRuns sep (text.dropWhile sep) = compress ts := by
  induction h with
  | nil => exact absurd rfl hne
  | single s =>
    have hs := hfree s (List.mem_cons_self ..)
    rw [List.dropWhile_eq_self_iff.2 (fun hl => by simp [hs _ (List.getElem_mem hl)]), splitRuns_of_free hs, compress]
  | @cons s t mid text ts hmid hsep _ ih =>
    have hs := hfree s (List.mem_cons_self ..)
    have ih := ih (List.cons_ne_nil t ts) (fun u hu => hfree u (List.mem_cons_of_mem s hu))
    rw [compress]
    cases s with
    | nil => rw [List.nil_append, List.dropWhile_append_of_pos hsep, ih, if_pos rfl]
    | cons x xs =>
      have hx : ¬ sep x = true := by simp [hs x (List.mem_cons_self ..)]
      rw [List.append_assoc, List.cons_append, List.dropWhile_cons_of_neg hx, ← List.cons_append, ← List.append_assoc,
        splitRuns_run hmid hsep hs, ih, if_neg (List.cons_ne_nil x xs)]

/-- **Splitting what was joined with separators**: all the pieces, but the empty ones in between. -/
theorem splitRuns_joined {s text : Str} {ts : List Str} (h : Joined sep (s :: ts) text)
    (hfree : ∀ t ∈ s :: ts, ∀ x ∈ t, sep x = false) : splitRuns sep text = s :: compress ts := by
  have hs := hfree s (List.mem_cons_self ..)
  cases h with
  | single => rw [splitRuns_of_free hs, compress]
  | cons hmid hsep hjoined =>
    rw [splitRuns_run hmid hsep hs,
      splitRuns_dropWhile hjoined (List.cons_ne_nil _ _) (fun u hu => hfree u (List.mem_cons_of_mem s hu))]

theorem splitRuns_join {c : Char} (hc : sep c = true) {s : Str} {ts : List Str}
    (h : ∀ t ∈ s :: ts, ∀ x ∈ t, sep x = false) : splitRuns sep (join [c] (s :: ts)) = s :: compress ts :=
  splitRuns_joined (joined_join hc (s :: ts)) h

/-- The pieces that stay are those that are not empty, and the last. -/
theorem mem_compress {t : Str} : ∀ (ts : List Str), t ∈ compress ts ↔ t ∈ ts ∧ (t ≠ [] ∨ ts.getLast? = some t)
  | []           => by simp [compress]
  | [s]          => ⟨fun h => ⟨h, .inr (by rw [List.mem_singleton.1 h]; rfl)⟩, fun h => h.1⟩
  | s :: u :: ts => by
    have ih := mem_compress (t := t) (u :: ts)
    rw [compress, List.getLast?_cons_cons]
    by_cases hs : s = []
    · rw [if_pos hs, ih, List.mem_cons (a := t) (b := s)]
      constructor
      · exact fun h => ⟨.inr h.1, h.2⟩
      · rintro ⟨rfl | hmem, h⟩
        · exact ⟨List.mem_of_getLast? (h.resolve_left (fun hne => hne hs)), h⟩
        · exact ⟨hmem, h⟩
    · rw [if_neg hs, List.mem_cons, ih, List.mem_cons (a := t) (b := s)]
      constructor
      · rintro (rfl | h)
        · exact ⟨.inl rfl, .inl hs⟩
        · exact ⟨.inr h.1, h.2⟩
      · rintro ⟨rfl | hmem, h⟩
        · exact .inl rfl
        · exact .inr ⟨hmem, h⟩

theorem mem_cons_compress {s t : Str} {ts : List Str} :
    t ∈ s :: compress ts ↔ t ∈ s :: ts ∧ (t ≠ [] ∨ t = s ∨ (s :: ts).getLast? = some t) := by
  rw [List.mem_cons, mem_compress, List.mem_cons]
  constructor
  · rintro (rfl | ⟨hmem, h⟩)
    · exact ⟨.inl rfl, .inr (.inl rfl)⟩
    · refine ⟨.inr hmem, h.imp_right (fun hlast => .inr ?_)⟩
      rw [List.getLast?_cons, hlast]
      rfl
  · rintro ⟨rfl | hmem, h⟩
    · exact .inl rfl
    · rcases h with hne | rfl | hlast
      · exact .inr ⟨hmem, .inl hne⟩
      · exact .inl rfl
      · refine .inr ⟨hmem, .inr ?_⟩
        obtain ⟨u, us, rfl⟩ := List.exists_cons_of_ne_nil (List.ne_nil_of_mem hmem)
        rwa [List.getLast?_cons_cons] at hlast

end

/-! ## Dictionaries -/

abbrev Dict (κ ν : Type) := List (κ × ν)

namespace Dict

variable {κ ν : Type} [DecidableEq κ]

def get? : Dict κ ν → κ → Option ν
  | [],          _ => none
  | (k', v) :: d, k => if k' = k then some v else get? d k

/-- An assignment replaces the value of the key, or puts the key behind the others. -/
def set : Dict κ ν → κ → ν → Dict κ ν
  | [],           k, v => [(k, v)]
  | (k', v') :: d, k, v => if k' = k then (k, v) :: d else (k', v') :: set d k v

theorem get?_set (d : Dict κ ν) (k : κ) (v : ν) (x : κ) : (d.set k v).get? x = if k = x then some v else d.get? x := by
  induction d with
  | nil => rfl
  | cons p d ih =>
    obtain ⟨k', v'⟩ := p
    by_cases hk : k' = k
    · subst hk
      simp only [set, get?, if_true]
      split <;> rfl
    · simp only [set, hk, if_false, get?, ih]
      by_cases hx : k' = x
      · rw [if_pos hx, if_neg (fun h => hk (hx.trans h.symm)), if_pos hx]
      · rw [if_neg hx, if_neg hx]

theorem set_of_get?_none {k : κ} {v : ν} : ∀ {d : Dict κ ν}, d.get? k = none → d.set k v = d ++ [(k, v)]
  | [], _ => rfl
  | (k', v') :: d, h => by
    rw [get?] at h
    split at h
    · cases h
    · rename_i hk; rw [set, if_neg hk, set_of_get?_none h]; rfl

theorem get?_isSome {k : κ} : ∀ {d : Dict κ ν}, (d.get? k).isSome = true ↔ k ∈ d.map Prod.fst
  | [] => by simp [get?]
  | (k', v') :: d => by
    rw [get?, List.map_cons, List.mem_cons, ← get?_isSome]
    by_cases hk : k' = k
    · simp [hk]
    · simp [hk, Ne.symm hk]

theorem mem_of_get? {k : κ} {v : ν} : ∀ {d : Dict κ ν}, d.get? k = some v → (k, v) ∈ d
  | (k', v') :: d, h => by
    rw [get?] at h
    split at h
    · rename_i hk; cases h; rw [hk]; exact List.mem_cons_self ..
    · exact List.mem_cons_of_mem _ (mem_of_get? h)

theorem get?_of_mem {k : κ} {v : ν} : ∀ {d : Dict κ ν}, (d.map Prod.fst).Nodup → (k, v) ∈ d → d.get? k = some v
  | (k', v') :: d, hnodup, h => by
    rw [List.map_cons, List.nodup_cons] at hnodup
    rcases List.mem_cons.1 h with h | h
    · cases h; rw [get?, if_pos rfl]
    · have hk : ¬ k' = k := fun hk => hnodup.1 (List.mem_map.2 ⟨(k, v), h, hk.symm⟩)
      rw [get?, if_neg hk, get?_of_mem hnodup.2 h]

theorem mem_set {k : κ} {v : ν} {p : κ × ν} : ∀ {d : Dict κ ν}, p ∈ d.set k v → p = (k, v) ∨ p ∈ d
  | [], h => .inl (List.mem_singleton.1 h)
  | (k', v') :: d, h => by
    rw [set] at h
    split at h
    · exact (List.mem_cons.1 h).imp_right (List.mem_cons_of_mem _)
    · rcases List.mem_cons.1 h with h | h
      · exact .inr (h ▸ List.mem_cons_self ..)
      · exact (mem_set h).imp_right (List.mem_cons_of_mem _)

theorem nodup_set {k : κ} {v : ν} : ∀ {d : Dict κ ν}, (d.map Prod.fst).Nodup → ((d.set k v).map Prod.fst).Nodup
  | [], _ => by simp [set]
  | (k', v') :: d, h => by
    rw [List.map_cons, List.nodup_cons] at h
    rw [set]
    split
    · rename_i hk; rw [List.map_cons, List.nodup_cons]; exact ⟨hk ▸ h.1, h.2⟩
    · rename_i hk
      rw [List.map_cons, List.nodup_cons]
      refine ⟨fun hm => ?_, nodup_set h.2⟩
      obtain ⟨p, hp, rfl⟩ := List.mem_map.1 hm
      rcases mem_set hp with rfl | hp
      · exact hk rfl
      · exact h.1 (List.mem_map.2 ⟨p, hp, rfl⟩)

/-- The value of a key is changed in place. -/
def modify (f : ν → ν) : Dict κ ν → κ → Dict κ ν
  | [],           _ => []
  | (k', v') :: d, k => if k' = k then (k', f v') :: d else (k', v') :: modify f d k

theorem get?_modify (f : ν → ν) (d : Dict κ ν) (k x : κ) :
    (modify f d k).get? x = if k = x then (d.get? x).map f else d.get? x := by
  induction d with
  | nil => simp only [modify, get?, Option.map_none, ite_self]
  | cons p d ih =>
    obtain ⟨k', v'⟩ := p
    by_cases hk : k' = k
    · subst hk
      simp only [modify, get?, if_true]
      by_cases hx : k' = x
      · simp only [hx, if_true, Option.map_some]
      · simp only [hx, if_false]
    · simp only [modify, hk, if_false, get?, ih]
      by_cases hx : k' = x
      · rw [if_pos hx, if_neg (fun h => hk (hx.trans h.symm)), if_pos hx]
      · rw [if_neg hx, if_neg hx]

end Dict

end Py
