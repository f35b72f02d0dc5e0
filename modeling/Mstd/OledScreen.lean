import Mstd.Sd1306Progress
/-!
# What stays on the screen

The rows that a text, a cleared screen and the bar change, and the rows that they leave.  The bar of the messages keeps to
rows 6 and 7 wherever a text has left the pointer, up to its last call, which clears the screen (`Bar.ticks`).
-/
namespace Mstd.Oled

variable {d d' : Display} {o o' : SSD1306}

/-- Data bytes in rows from `r` on leave the rows above. -/
theorem screen_above {r row : Nat} (hrow : row < r) (col : Nat) : ∀ (ws : List Cell) (ram : Nat → Nat → UInt8),
    (∀ w ∈ ws, r ≤ w.row) → screen ram ws row col = ram row col
  | [], _, _        => rfl
  | w :: ws, ram, h => by
    have hw : row ≠ w.row := Nat.ne_of_lt (Nat.lt_of_lt_of_le hrow (h w (List.mem_cons_self ..)))
    have ih := screen_above hrow col ws (overwrite ram w) (fun v hv => h v (List.mem_cons_of_mem _ hv))
    rw [screen, List.foldl_cons, ← screen, ih, overwrite, if_neg (fun hc => hw hc.1)]

theorem getD_lineBytes_nil (col : Nat) : (lineBytes []).getD col 0 = 0 := by
  have hblank : lineBytes [] = List.replicate 128 0 := rfl
  rw [hblank, List.getD_eq_getElem?_getD, List.getElem?_replicate]
  split <;> rfl

/-! ## Text -/

/-- A text ends with the page pointer at the row of one of its lines. -/
theorem page_drawText : ∀ (text : List UInt8) (y : Int) (d : Display), PrintableText text → ∀ d',
    drawText y text d = some d' → d'.page = rowOf (y + ((lines text).length - 1 : Nat))
  | text, y, d, h, d', hdraw => by
    rcases lines_cases text with ⟨hno, hlines⟩ | ⟨l, more, htext, hno, hlines⟩
    · have himp := drawTextImp_line y d (h.single hno)
      rw [drawText_last himp] at hdraw
      cases hdraw
      rw [hlines]
      exact congrArg rowOf (Int.add_zero y).symm
    · rw [htext] at h hdraw
      have himp := drawTextImp_eq y d (h.append.1.single hno) (.inr ⟨more, rfl⟩)
      have hmore : PrintableText more := fun c hc => h.append.2 c (List.mem_cons_of_mem _ hc)
      rw [drawText_more himp] at hdraw
      have ih := page_drawText more ((y + 1) % 8) _ hmore d' hdraw
      have hpos : 0 < (lines more).length := by
        rcases lines_cases more with ⟨-, h1⟩ | ⟨l', m', -, -, h1⟩ <;> simp [h1]
      rw [ih, hlines, List.length_cons]
      unfold rowOf
      omega
termination_by text => text.length
decreasing_by
  rw [htext, List.length_append, List.length_cons]
  omega

/-! ## A cleared screen -/

theorem screen_clrScreen : ∀ (rowStart : Nat) (d : Display), rowStart ≤ 8 → ∀ d', clrScreen rowStart 8 d = some d' →
    ∀ ram row col, row < 8 → col < 128 →
      screen ram d'.writes row col = if rowStart ≤ row then 0 else screen ram d.writes row col
  | rowStart, d, hle, d', hclr, ram, row, col, hrow, hcol => by
    rw [clrScreen] at hclr
    by_cases hlt : rowStart < 8
    · have hnil : ∀ c ∈ ([] : List UInt8), Printable c := List.forall_mem_nil _
      have hsame : rowOf rowStart = rowStart := by
        unfold rowOf
        omega
      have himp := drawTextImp_line rowStart d hnil
      rw [if_pos hlt, himp, hsame] at hclr
      have ih := screen_clrScreen (rowStart + 1) _ hlt d' hclr ram row col hrow hcol
      rw [ih, screen_append, screen_cells, length_lineBytes hnil, getD_lineBytes_nil]
      by_cases heq : row = rowStart
      · rw [if_neg (by omega), if_pos (by omega), if_pos (by omega)]
      · by_cases hge : rowStart ≤ row
        · rw [if_pos (by omega), if_pos hge]
        · rw [if_neg (by omega), if_neg (by omega), if_neg hge]
    · rw [if_neg hlt] at hclr
      cases hclr
      rw [if_neg (by omega)]
termination_by rowStart => 8 - rowStart

/-! ## The bar of the messages -/

/-- The bar from row 6 on, behind `n` calls, with the pointer somewhere in its rows. -/
structure Bar (n : Nat) (o : SSD1306) : Prop where
  piRow : o.piRow = UInt8.ofNat (6 + n / 1024)
  piData : o.piData = ones (n / 128 % 8 + 1)
  piCount : o.piCount = UInt8.ofNat (n % 128)
  page : 6 ≤ o.display.page

/-- The screen as the last call of the bar leaves it. -/
def clearedAt (row col : Nat) : UInt8 := if row = 0 ∧ col = 0 then 1 else 0

theorem bar_of_startPi (o : SSD1306) : ∃ o', startPi 6 o = some o' ∧ Bar 0 o' ∧
    ∀ ram row col, row < 6 → screen ram o'.display.writes row col = screen ram o.display.writes row col := by
  obtain ⟨o', ws, hstart, hat, hwrites, hrows⟩ := startPi_eq (r := 6) (by decide) o
  refine ⟨o', hstart, ⟨hat.piRow, hat.piData, hat.piCount, ?_⟩, fun ram row col hrow => ?_⟩
  · rw [hat.page]
  · rw [hwrites, screen_append, screen_above hrow col ws _ hrows]

/-- Behind a pass the bar goes on in its row, or in the next. -/
theorem Bar.next {n : Nat} (h : Bar n o) (hn : n + 1 < 2048) :
    ∃ t, nextPi { o with piCount := o.piCount + 1 } = some t ∧ t.piData = ones ((n + 1) / 128 % 8 + 1) ∧
      Bar (n + 1) t ∧ t.display.writes = o.display.writes := by
  obtain ⟨hfull, hcount⟩ := piCount_succ (Nat.mod_lt n (by decide : 0 < 128))
  by_cases hk : n % 128 = 127
  · have hge : o.piCount + 1 ≥ 128 := by
      rw [h.piCount]
      exact hfull.2 hk
    have hpi : o.piRow.toNat = 6 + n / 1024 := by
      rw [h.piRow, UInt8.toNat_ofNat']
      omega
    have hmod : UInt8.ofNat ((n + 1) % 128) = 0 := by
      rw [show (n + 1) % 128 = 0 by omega]
      rfl
    rw [nextPi, if_pos hge]
    simp only [hpi]
    by_cases hbits : n / 128 % 8 = 7
    · have hdata : ¬ o.piData ≠ 0xFF := not_not.2 (by rw [h.piData, hbits]; rfl)
      have hrow : 6 + (n + 1) / 1024 = 6 + n / 1024 + 1 := by omega
      have hones : (n + 1) / 128 % 8 = 0 := by omega
      rw [if_neg hdata, setupPiRow_of_lt (by omega), hones]
      refine ⟨_, rfl, rfl, ⟨?_, ?_, hmod.symm, ?_⟩, rfl⟩
      · rw [hrow]
      · rw [hones]
        rfl
      · show 6 ≤ 6 + n / 1024 + 1
        omega
    · have hdata : o.piData ≠ 0xFF := h.piData ▸ ones_ne (by omega)
      have hrow : (n + 1) / 1024 = n / 1024 := by omega
      have hones : (n + 1) / 128 % 8 = n / 128 % 8 + 1 := by omega
      rw [if_pos hdata, setupPiRow_of_lt (by omega), Option.map_some, h.piData, ones_succ (by omega), hones]
      refine ⟨_, rfl, rfl, ⟨?_, ?_, hmod.symm, ?_⟩, rfl⟩
      · rw [hrow]
      · rw [hones]
      · exact Nat.le_add_right 6 _
  · have hlt : ¬ o.piCount + 1 ≥ 128 := by
      rw [h.piCount]
      exact fun hc => hk (hfull.1 hc)
    have hrow : (n + 1) / 1024 = n / 1024 := by omega
    have hbits : (n + 1) / 128 = n / 128 := by omega
    have hmod : (n + 1) % 128 = n % 128 + 1 := by omega
    rw [nextPi, if_neg hlt]
    refine ⟨_, rfl, ?_, ⟨?_, ?_, ?_, h.page⟩, rfl⟩
    · rw [hbits]
      exact h.piData
    · rw [hrow]
      exact h.piRow
    · rw [hbits]
      exact h.piData
    · rw [hmod, ← hcount, ← h.piCount]

/-- **A call before the last** keeps to the rows of the bar. -/
theorem Bar.step {n : Nat} (h : Bar n o) (hn : n + 1 < 2048) :
    ∃ o', incPi o = some o' ∧ Bar (n + 1) o' ∧
      ∀ ram row col, row < 6 → screen ram o'.display.writes row col = screen ram o.display.writes row col := by
  obtain ⟨t, hnext, -, hbar, hwrites⟩ := h.next hn
  refine ⟨_, incPi_of_next hnext, ⟨hbar.piRow, hbar.piData, hbar.piCount, hbar.page⟩, fun ram row col hrow => ?_⟩
  have habove := screen_above hrow col [⟨t.display.page, t.display.col, t.piData⟩] (screen ram o.display.writes)
    (fun w hw => by
      rw [List.mem_singleton.1 hw]
      exact hbar.page)
  rw [← screen_append] at habove
  simp only [Display.data, hwrites]
  exact habove

/-- **The last call** clears the screen and starts in row 0. -/
theorem Bar.step_last (h : Bar 2047 o) :
    ∃ o', incPi o = some o' ∧ ∀ ram row col, row < 8 → col < 128 →
      screen ram o'.display.writes row col = clearedAt row col := by
  have hge : o.piCount + 1 ≥ 128 := by
    rw [h.piCount]
    decide
  have hpi : o.piRow.toNat = 7 := by
    rw [h.piRow]
    rfl
  have hdata : ¬ o.piData ≠ 0xFF := not_not.2 (by rw [h.piData]; rfl)
  obtain ⟨d, ws, hclr, -, -, -⟩ := clrScreen_eq 0 o.display (Nat.zero_le 8)
  have hblank := screen_clrScreen 0 o.display (Nat.zero_le 8) d hclr
  have hsetup := setupPiRow_of_lt (Nat.succ_pos 7) { o with piCount := o.piCount + 1, display := d }
  rw [setupPiRow, if_neg (by decide)] at hsetup
  have hnext : nextPi { o with piCount := o.piCount + 1 } =
      some { piRow := 0, piData := 1, piCount := 0, display := { d with page := 0, col := 0 } } := by
    rw [nextPi, if_pos hge]
    simp only [hpi]
    rw [if_neg hdata, setupPiRow, if_pos (by decide)]
    simp only [hclr, Option.map_some]
    exact hsetup
  refine ⟨_, incPi_of_next hnext, fun ram row col hrow hcol => ?_⟩
  have hone := hblank ram row col hrow hcol
  rw [if_pos (Nat.zero_le _)] at hone
  simp only [Display.data, screen_append]
  show overwrite (screen ram d.writes) ⟨0, 0, 1⟩ row col = _
  unfold overwrite clearedAt
  by_cases hcell : row = 0 ∧ col = 0
  · rw [if_pos hcell, if_pos hcell]
  · rw [if_neg hcell, if_neg hcell, hone]

/-- **Calls before the last** leave the rows above the bar. -/
theorem Bar.ticks {n : Nat} (h : Bar n o) : ∀ k, n + k < 2048 →
    ∃ o', Oled.ticks k o = some o' ∧ Bar (n + k) o' ∧
      ∀ ram row col, row < 6 → screen ram o'.display.writes row col = screen ram o.display.writes row col
  | 0, _      => ⟨o, rfl, h, fun _ _ _ _ => rfl⟩
  | k + 1, hk => by
    obtain ⟨t, hticks, hbar, hrows⟩ := Bar.ticks h k (Nat.lt_of_succ_lt hk)
    obtain ⟨o', hinc, hbar', hrows'⟩ := hbar.step hk
    refine ⟨o', ?_, hbar', fun ram row col hrow => (hrows' ram row col hrow).trans (hrows ram row col hrow)⟩
    rw [Oled.ticks, hticks]
    exact hinc

/-- **Calls up to the last** clear the screen. -/
theorem Bar.ticks_full {n k : Nat} (h : Bar n o) (hk : 0 < k) (hn : n + k = 2048) :
    ∃ o', Oled.ticks k o = some o' ∧ ∀ ram row col, row < 8 → col < 128 →
      screen ram o'.display.writes row col = clearedAt row col := by
  obtain ⟨k, rfl⟩ : ∃ j, k = j + 1 := ⟨k - 1, by omega⟩
  obtain ⟨t, hticks, hbar, -⟩ := h.ticks k (by omega)
  rw [show n + k = 2047 by omega] at hbar
  obtain ⟨o', hinc, hclear⟩ := hbar.step_last
  refine ⟨o', ?_, hclear⟩
  rw [Oled.ticks, hticks]
  exact hinc

end Mstd.Oled
