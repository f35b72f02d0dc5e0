import Mstd.Sd1306
/-!
# The progress bar (`sd1306.cpp`, `start_pi` and `inc_pi`)

`inc_pi` counts its calls before it writes, so the first pass over a row ends one column early and every later pass is one
call ahead (`incPi_iff`).
-/
namespace Mstd.Oled

structure SSD1306 where
  piRow : UInt8
  piData : UInt8
  piCount : UInt8
  display : Display

def setupPiRow (row : Nat) (s : SSD1306) : Option SSD1306 :=
  match if 8 ≤ row then (clrScreen 0 8 s.display).map (fun d => (0, d)) else some (row, s.display) with
  | none          => none
  | some (row, d) =>
    let pg := CMD_SetPage ||| UInt8.ofNat row
    let cmd := [CB_Cmd, CMD_LowColStartPM, CMD_HiColStartPM, CMD_MemMode, MM_Page, CMD_SetPage]
    some { piRow := UInt8.ofNat row, piData := 1, piCount := 0, display := sendCmd [cmd, [pg]] d }

def startPi (row : Nat) (s : SSD1306) : Option SSD1306 :=
  match clrScreen row 8 s.display with
  | none   => none
  | some d => setupPiRow row { s with display := d }

/-- The row and the bits of the next byte. -/
def nextPi (s : SSD1306) : Option SSD1306 :=
  if s.piCount ≥ 128 then
    if s.piData ≠ 0xFF then
      (setupPiRow s.piRow.toNat s).map (fun t => { t with piData := s.piData <<< 1 ||| 1 })
    else setupPiRow (s.piRow.toNat + 1) s
  else some s

def incPi (s : SSD1306) : Option SSD1306 :=
  match nextPi { s with piCount := s.piCount + 1 } with
  | none   => none
  | some s => some { s with display := sendCmd [[CB_Data, s.piData]] s.display }

/-- `n` calls of `inc_pi`. -/
def ticks : Nat → SSD1306 → Option SSD1306
  | 0, s     => some s
  | n + 1, s =>
    match ticks n s with
    | none   => none
    | some s => incPi s

/-! ## Cleared rows -/

/-- The rows from `rowStart` on are cleared, and no other. -/
theorem clrScreen_eq : ∀ (rowStart : Nat) (d : Display), rowStart ≤ 8 →
    ∃ d' ws, clrScreen rowStart 8 d = some d' ∧ d'.writes = d.writes ++ ws ∧ (∀ w ∈ ws, rowStart ≤ w.row) ∧
      (rowStart < 8 → ∃ w ∈ ws, w.row = rowStart)
  | rowStart, d, hle => by
    rw [clrScreen]
    by_cases hlt : rowStart < 8
    · have hrow : rowOf rowStart = rowStart := by
        unfold rowOf
        omega
      have himp := drawTextImp_line rowStart d (List.forall_mem_nil Printable)
      rw [hrow] at himp
      obtain ⟨d', ws, hclr, hwrites, hrows, -⟩ := clrScreen_eq (rowStart + 1)
        { page := rowStart, col := 0, writes := d.writes ++ cells rowStart 0 (lineBytes []) } hlt
      rw [if_pos hlt, himp]
      refine ⟨d', _, hclr, by rw [hwrites, List.append_assoc], fun w hw => ?_, fun _ => ?_⟩
      · rcases List.mem_append.1 hw with hw | hw
        · exact Nat.le_of_eq (row_of_mem_cells hw).symm
        · exact Nat.le_of_succ_le (hrows w hw)
      · exact ⟨⟨rowStart, 0, 0⟩, List.mem_append_left _ (List.mem_cons_self ..), rfl⟩
    · rw [if_neg hlt]
      exact ⟨d, [], rfl, (List.append_nil _).symm, by simp, fun h => absurd h hlt⟩
termination_by rowStart => 8 - rowStart

/-! ## Where the bar is -/

/-- A byte with its `k` lowest bits set. -/
def ones (k : Nat) : UInt8 := UInt8.ofNat (2 ^ k - 1)

theorem ones_succ {k : Nat} (hk : k < 8) : ones k <<< 1 ||| 1 = ones (k + 1) := by
  interval_cases k <;> rfl

theorem ones_ne {k : Nat} (hk : k < 8) : ones k ≠ 0xFF := by
  interval_cases k <;> decide

theorem setupPiRow_of_lt {row : Nat} (h : row < 8) (s : SSD1306) :
    setupPiRow row s =
      some { piRow := UInt8.ofNat row, piData := 1, piCount := 0, display := { s.display with page := row, col := 0 } } := by
  have hcmd : ∀ d : Display, sendCmd [[CB_Cmd, CMD_LowColStartPM, CMD_HiColStartPM, CMD_MemMode, MM_Page, CMD_SetPage],
      [CMD_SetPage ||| UInt8.ofNat row]] d = { d with page := row, col := 0 } := by
    intro d
    show commands (CMD_LowColStartPM :: CMD_HiColStartPM :: CMD_MemMode :: MM_Page :: CMD_SetPage ::
      [CMD_SetPage ||| UInt8.ofNat row]) d = _
    rw [commands_col, commands, if_pos rfl, commands_cons (by decide), commands_cons (by interval_cases row <;> decide),
      command_page _ h]
    rfl
  rw [setupPiRow, if_neg (Nat.not_le.2 h)]
  simp only [hcmd]

/-- Behind the last row the screen is cleared, and the bar is in row 0. -/
theorem setupPiRow_eight (s : SSD1306) :
    ∃ (d : Display) (ws : List Cell), setupPiRow 8 s =
        some { piRow := 0, piData := 1, piCount := 0, display := { d with page := 0, col := 0 } } ∧
      d.writes = s.display.writes ++ ws ∧ ∃ w ∈ ws, w.row = 0 := by
  obtain ⟨d, ws, hclr, hwrites, -, hzero⟩ := clrScreen_eq 0 s.display (Nat.zero_le 8)
  refine ⟨d, ws, ?_, hwrites, hzero (by decide)⟩
  have hsetup := setupPiRow_of_lt (Nat.succ_pos 7) { s with display := d }
  rw [setupPiRow, if_neg (by decide)] at hsetup
  rw [setupPiRow, if_pos (Nat.le_refl 8), hclr]
  exact hsetup

/-- The bar behind `n` calls from row `r` on. -/
structure At (r n : Nat) (s : SSD1306) : Prop where
  piRow : s.piRow = UInt8.ofNat (r + n / 1024)
  piData : s.piData = ones (n / 128 % 8 + 1)
  piCount : s.piCount = UInt8.ofNat (n % 128)
  page : s.display.page = r + n / 1024
  col : s.display.col = if n < 128 then n else (n + 1) % 128

/-- The cell that call `n` writes. -/
def cellOf (r n : Nat) : Cell := ⟨r + n / 1024, if n < 128 then n - 1 else n % 128, ones (n / 128 % 8 + 1)⟩

theorem incPi_of_next {s t : SSD1306} (h : nextPi { s with piCount := s.piCount + 1 } = some t) :
    incPi s = some { t with display := t.display.data t.piData } := by
  rw [incPi, h]
  rfl

theorem piCount_succ {k : Nat} (hk : k < 128) :
    (UInt8.ofNat k + 1 ≥ 128 ↔ k = 127) ∧ UInt8.ofNat k + 1 = UInt8.ofNat (k + 1) := by
  have hadd : UInt8.ofNat k + 1 = UInt8.ofNat (k + 1) := (UInt8.ofNat_add k 1).symm
  refine ⟨?_, hadd⟩
  rw [hadd, ge_iff_le, UInt8.le_iff_toNat_le, UInt8.toNat_ofNat']
  have h128 : (128 : UInt8).toNat = 128 := rfl
  omega

theorem At.step_pass {r n : Nat} {s : SSD1306} (h : At r n s) (hk : n % 128 ≠ 127) :
    ∃ s', incPi s = some s' ∧ At r (n + 1) s' ∧ s'.display.writes = s.display.writes ++ [cellOf r (n + 1)] := by
  obtain ⟨hfull, hcount⟩ := piCount_succ (Nat.mod_lt n (by decide : 0 < 128))
  have hnext : nextPi { s with piCount := s.piCount + 1 } = some { s with piCount := s.piCount + 1 } :=
    if_neg (fun hc => hk (hfull.1 (h.piCount ▸ hc)))
  have hrow : (n + 1) / 1024 = n / 1024 := by omega
  have hbits : (n + 1) / 128 = n / 128 := by omega
  have hmod : (n + 1) % 128 = n % 128 + 1 := by omega
  refine ⟨_, incPi_of_next hnext, ⟨?_, ?_, ?_, ?_, ?_⟩, ?_⟩
  · rw [hrow]
    exact h.piRow
  · rw [hbits]
    exact h.piData
  · rw [hmod, ← hcount, ← h.piCount]
  · rw [hrow]
    exact h.page
  · simp only [Display.data, h.col]
    split <;> split <;> omega
  · simp only [Display.data, h.page, h.piData, h.col, cellOf, hrow, hbits]
    congr 3
    split <;> split <;> omega

/-- Behind a pass the count starts anew, with the next bits or in the next row. -/
theorem nextPi_full {r n : Nat} {s : SSD1306} (h : At r n s) (hk : n % 128 = 127) (hrow : r + n / 1024 < 8) :
    nextPi { s with piCount := s.piCount + 1 } =
      if n / 128 % 8 = 7 then setupPiRow (r + n / 1024 + 1) { s with piCount := s.piCount + 1 }
      else some { piRow := s.piRow, piData := ones (n / 128 % 8 + 2), piCount := 0,
                  display := { s.display with page := r + n / 1024, col := 0 } } := by
  have hcount : s.piCount + 1 ≥ 128 := by
    rw [h.piCount, hk]
    decide
  have hpi : s.piRow.toNat = r + n / 1024 := by
    rw [h.piRow, UInt8.toNat_ofNat']
    omega
  rw [nextPi, if_pos hcount]
  simp only [hpi]
  by_cases hbits : n / 128 % 8 = 7
  · have hdata : ¬ s.piData ≠ 0xFF := not_not.2 (by rw [h.piData, hbits]; rfl)
    rw [if_pos hbits, if_neg hdata]
  · have hdata : s.piData ≠ 0xFF := h.piData ▸ ones_ne (by omega)
    rw [if_neg hbits, if_pos hdata, setupPiRow_of_lt hrow, Option.map_some, h.piRow, h.piData, ones_succ (by omega)]

theorem incPi_restart {r n : Nat} {s : SSD1306} (hk : n % 128 = 127)
    (hnext : nextPi { s with piCount := s.piCount + 1 } =
      some { piRow := UInt8.ofNat (r + (n + 1) / 1024), piData := ones ((n + 1) / 128 % 8 + 1), piCount := 0,
             display := { s.display with page := r + (n + 1) / 1024, col := 0 } }) :
    ∃ s', incPi s = some s' ∧ At r (n + 1) s' ∧ s'.display.writes = s.display.writes ++ [cellOf r (n + 1)] := by
  have hmod : (n + 1) % 128 = 0 := by omega
  have hge : ¬ n + 1 < 128 := by omega
  refine ⟨_, incPi_of_next hnext, ⟨rfl, rfl, ?_, rfl, ?_⟩, ?_⟩
  · rw [hmod]
    rfl
  · rw [if_neg hge]
    simp only [Display.data]
    omega
  · rw [cellOf, if_neg hge, hmod]
    rfl

/-- **A call before the end of row 7** writes the next cell. -/
theorem At.step {r n : Nat} {s : SSD1306} (h : At r n s) (hlt : n + 1 < 1024 * (8 - r)) :
    ∃ s', incPi s = some s' ∧ At r (n + 1) s' ∧ s'.display.writes = s.display.writes ++ [cellOf r (n + 1)] := by
  by_cases hk : n % 128 = 127
  · have hfull := nextPi_full h hk (by omega)
    by_cases hbits : n / 128 % 8 = 7
    · have hrow : (n + 1) / 1024 = n / 1024 + 1 := by omega
      have hones : (n + 1) / 128 % 8 = 0 := by omega
      refine incPi_restart hk ?_
      rw [hfull, if_pos hbits, setupPiRow_of_lt (by omega), hrow, hones]
      rfl
    · have hrow : (n + 1) / 1024 = n / 1024 := by omega
      have hones : (n + 1) / 128 % 8 = n / 128 % 8 + 1 := by omega
      refine incPi_restart hk ?_
      rw [hfull, if_neg hbits, hrow, hones, h.piRow]
  · exact h.step_pass hk

/-- **The call at the end of row 7** clears the screen, one call before the row is full. -/
theorem At.step_last {r n : Nat} {s : SSD1306} (h : At r n s) (hn : n + 1 = 1024 * (8 - r)) :
    ∃ s' ws, incPi s = some s' ∧ s'.display.writes = s.display.writes ++ ws ++ [⟨0, 0, 1⟩] ∧ ∃ w ∈ ws, w.row = 0 := by
  have hfull := nextPi_full h (by omega) (by omega)
  have hrow : r + n / 1024 + 1 = 8 := by omega
  rw [if_pos (by omega), hrow] at hfull
  obtain ⟨d, ws, hsetup, hwrites, hzero⟩ := setupPiRow_eight { s with piCount := s.piCount + 1 }
  refine ⟨_, ws, incPi_of_next (hfull.trans hsetup), ?_, hzero⟩
  simp only [Display.data, hwrites]

theorem startPi_eq {r : Nat} (hr : r < 8) (s : SSD1306) :
    ∃ s₀ ws, startPi r s = some s₀ ∧ At r 0 s₀ ∧ s₀.display.writes = s.display.writes ++ ws ∧ ∀ w ∈ ws, r ≤ w.row := by
  obtain ⟨d, ws, hclr, hwrites, hrows, -⟩ := clrScreen_eq r s.display (Nat.le_of_lt hr)
  refine ⟨{ piRow := UInt8.ofNat r, piData := 1, piCount := 0, display := { d with page := r, col := 0 } }, ws, ?_, ?_,
    hwrites, hrows⟩
  · rw [startPi, hclr]
    exact setupPiRow_of_lt hr { s with display := d }
  · exact ⟨rfl, rfl, rfl, rfl, rfl⟩

/-- **The run of the bar**: up to the end of row 7 it stays at row `r` and below. -/
theorem ticks_eq {r : Nat} {s₀ : SSD1306} (h : At r 0 s₀) : ∀ (n : Nat), n < 1024 * (8 - r) →
    ∃ s ws, ticks n s₀ = some s ∧ At r n s ∧ s.display.writes = s₀.display.writes ++ ws ∧ ∀ w ∈ ws, r ≤ w.row
  | 0, _      => ⟨s₀, [], rfl, h, (List.append_nil _).symm, by simp⟩
  | n + 1, hn => by
    obtain ⟨s, ws, hticks, hat, hwrites, hrows⟩ := ticks_eq h n (Nat.lt_of_succ_lt hn)
    obtain ⟨s', hinc, hat', hwrites'⟩ := hat.step hn
    refine ⟨s', ws ++ [cellOf r (n + 1)], ?_, hat', ?_, ?_⟩
    · rw [ticks, hticks]
      exact hinc
    · rw [hwrites', hwrites, List.append_assoc]
    · intro w hw
      rcases List.mem_append.1 hw with hw | hw
      · exact hrows w hw
      · rw [List.mem_singleton.1 hw]
        exact Nat.le_add_right r _

/-- The cell that call `n + 1` ought to write. -/
def dueCell (r n : Nat) : Cell := ⟨r + n / 1024, n % 128, ones (n / 128 % 8 + 1)⟩

theorem cellOf_eq_dueCell_iff (r n : Nat) : cellOf r (n + 1) = dueCell r n ↔ n < 127 := by
  constructor
  · intro h
    have hcol : (if n + 1 < 128 then n + 1 - 1 else (n + 1) % 128) = n % 128 := congrArg Cell.col h
    by_cases hlt : n + 1 < 128
    · omega
    · rw [if_neg hlt] at hcol
      omega
  · intro h
    have hrow : (n + 1) / 1024 = n / 1024 := by omega
    have hbits : (n + 1) / 128 = n / 128 := by omega
    have hmod : n % 128 = n := Nat.mod_eq_of_lt (by omega)
    rw [cellOf, dueCell, hrow, hbits, if_pos (by omega), hmod, Nat.add_sub_cancel]

/-- **Call `n + 1` of the bar writes the cell that it should exactly in the first 127 calls**, and the rows above the bar are
left alone exactly before the last of the calls that the rows from `r` on have room for. -/
theorem incPi_iff {r n : Nat} (hr : r < 8) (hn : n < 1024 * (8 - r)) (s : SSD1306) :
    ∃ s₀ s₁ s₂, startPi r s = some s₀ ∧ ticks n s₀ = some s₁ ∧ incPi s₁ = some s₂ ∧
      (s₂.display.writes = s₁.display.writes ++ [dueCell r n] ↔ n < 127) ∧
      ((∃ ws, s₂.display.writes = s.display.writes ++ ws ∧ ∀ w ∈ ws, r ≤ w.row) ↔ r = 0 ∨ n + 1 < 1024 * (8 - r)) := by
  obtain ⟨s₀, ws₀, hstart, hat₀, hwrites₀, hrows₀⟩ := startPi_eq hr s
  obtain ⟨s₁, ws₁, hticks, hat₁, hwrites₁, hrows₁⟩ := ticks_eq hat₀ n hn
  have hbelow : s₁.display.writes = s.display.writes ++ (ws₀ ++ ws₁) := by
    rw [hwrites₁, hwrites₀, List.append_assoc]
  have hrows : ∀ w ∈ ws₀ ++ ws₁, r ≤ w.row := fun w hw => (List.mem_append.1 hw).elim (hrows₀ w) (hrows₁ w)
  by_cases hlast : n + 1 < 1024 * (8 - r)
  · obtain ⟨s₂, hinc, -, hwrites⟩ := hat₁.step hlast
    refine ⟨s₀, s₁, s₂, hstart, hticks, hinc, ?_, iff_of_true ⟨ws₀ ++ ws₁ ++ [cellOf r (n + 1)], ?_, ?_⟩ (.inr hlast)⟩
    · rw [hwrites, List.append_right_inj, List.singleton_inj]
      exact cellOf_eq_dueCell_iff r n
    · rw [hwrites, hbelow, List.append_assoc]
    · intro w hw
      rcases List.mem_append.1 hw with hw | hw
      · exact hrows w hw
      · rw [List.mem_singleton.1 hw]
        exact Nat.le_add_right r _
  · obtain ⟨s₂, ws, hinc, hwrites, w, hw, hzero⟩ := hat₁.step_last (by omega)
    refine ⟨s₀, s₁, s₂, hstart, hticks, hinc, iff_of_false (fun h => ?_) (by omega), ?_⟩
    · rw [hwrites, List.append_assoc, List.append_right_inj] at h
      have hlen := congrArg List.length h
      have hpos := List.length_pos_of_mem hw
      simp only [List.length_append, List.length_singleton] at hlen
      omega
    · rw [hwrites, hbelow, List.append_assoc, List.append_assoc]
      constructor
      · rintro ⟨ws', heq, hall⟩
        have hle := hall w (by
          rw [← List.append_cancel_left heq]
          simp [hw])
        exact .inl (by omega)
      · rintro (rfl | h)
        · exact ⟨_, rfl, fun w _ => Nat.zero_le _⟩
        · exact absurd h hlast

def SSD1306.new : SSD1306 := { piRow := 0, piData := 0, piCount := 0, display := { page := 0, col := 0, writes := [] } }

/-- The last column of the first pass, which the bar leaves out. -/
theorem incPi_iff_column : ∃ s₀ s₁ s₂, startPi 6 SSD1306.new = some s₀ ∧ ticks 127 s₀ = some s₁ ∧ incPi s₁ = some s₂ ∧
    s₂.display.writes ≠ s₁.display.writes ++ [⟨6, 127, 1⟩] := by
  obtain ⟨s₀, s₁, s₂, hstart, hticks, hinc, hiff, -⟩ := incPi_iff (r := 6) (n := 127) (by decide) (by decide) SSD1306.new
  exact ⟨s₀, s₁, s₂, hstart, hticks, hinc, fun h => absurd (hiff.1 h) (by decide)⟩

/-- The last of 2048 ticks from row 6 on clears the screen. -/
theorem incPi_clears : ∃ s₀ s₁ s₂ ws, startPi 6 SSD1306.new = some s₀ ∧ ticks 2047 s₀ = some s₁ ∧ incPi s₁ = some s₂ ∧
    s₂.display.writes = s₁.display.writes ++ ws ∧ (∃ w ∈ ws, w.row = 0) ∧ ws ≠ [dueCell 6 2047] := by
  obtain ⟨s₀, -, hstart, hat₀, -, -⟩ := startPi_eq (r := 6) (by decide) SSD1306.new
  obtain ⟨s₁, -, hticks, hat₁, -, -⟩ := ticks_eq hat₀ 2047 (by decide)
  obtain ⟨s₂, ws, hinc, hwrites, w, hw, hzero⟩ := hat₁.step_last rfl
  refine ⟨s₀, s₁, s₂, ws ++ [⟨0, 0, 1⟩], hstart, hticks, hinc, ?_, ⟨w, List.mem_append_left _ hw, hzero⟩, fun h => ?_⟩
  · rw [hwrites, List.append_assoc]
  · have hdue : w ∈ [dueCell 6 2047] := h ▸ List.mem_append_left _ hw
    rw [List.mem_singleton.1 hdue] at hzero
    exact absurd hzero (by decide)

end Mstd.Oled
