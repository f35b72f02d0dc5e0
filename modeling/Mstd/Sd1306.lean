import Mathlib.Data.List.Induction
import Mathlib.Tactic.IntervalCases
/-!
# The screen (`sd1306.cpp`)

The bytes that the class `SSD1306` sends to the display, and what the display does with them in page mode, the only mode that
the class selects.  `draw_text` writes 128 bytes to each row that it visits (`drawText_rows`).
-/
namespace Mstd.Oled

/-! ## The display -/

def CB_Cmd : UInt8 := 0x00

def CB_Data : UInt8 := 0x40

def CMD_LowColStartPM : UInt8 := 0x00

def CMD_HiColStartPM : UInt8 := 0x10

def CMD_MemMode : UInt8 := 0x20

def CMD_SetPage : UInt8 := 0xB0

def MM_Page : UInt8 := 0x02

/-- A data byte in the display's RAM, a column of eight pixels. -/
structure Cell where
  row : Nat
  col : Nat
  data : UInt8
  deriving DecidableEq

/-- The display in page mode: its page and column pointers, and the data bytes that it got. -/
structure Display where
  page : Nat
  col : Nat
  writes : List Cell

/-- A data byte goes to the pointer, and the column advances by one within its page. -/
def Display.data (d : Display) (b : UInt8) : Display :=
  { d with col := (d.col + 1) % 128, writes := d.writes ++ [⟨d.page, d.col, b⟩] }

/-- A command of one byte. -/
def Display.command (d : Display) (c : UInt8) : Display :=
  if c < 0x10 then { d with col := d.col / 16 * 16 + c.toNat % 16 }
  else if c < 0x20 then { d with col := c.toNat % 8 * 16 + d.col % 16 }
  else if 0xB0 ≤ c ∧ c < 0xB8 then { d with page := c.toNat % 8 }
  else d

/-- Commands, with the mode behind `CMD_MemMode`, which is always `MM_Page`. -/
def commands : List UInt8 → Display → Display
  | [], d      => d
  | c :: cs, d =>
    if c = CMD_MemMode then
      match cs with
      | []      => d
      | _ :: cs => commands cs d
    else commands cs (d.command c)

/-- A transfer: what follows depends on the control byte. -/
def receive (d : Display) : List UInt8 → Display
  | []         => d
  | c :: bytes =>
    if c = CB_Cmd then commands bytes d
    else if c = CB_Data then bytes.foldl Display.data d
    else d

/-- `send_cmd`, with the display on the bus: the buffers go out in one transfer. -/
def sendCmd (args : List (List UInt8)) (d : Display) : Display := receive d args.flatten

/-! ## `draw_text` -/

/-- Standard ASCII 5x8 font, from the space to z. -/
def font5x8 : List UInt8 :=
  [0x00, 0x00, 0x00, 0x00, 0x00, 0x00, 0x00, 0x2f, 0x00, 0x00, 0x00, 0x07, 0x00, 0x07, 0x00, 0x14, 0x7f, 0x14, 0x7f, 0x14,
   0x24, 0x2a, 0x7f, 0x2a, 0x12, 0x62, 0x64, 0x08, 0x13, 0x23, 0x36, 0x49, 0x55, 0x22, 0x50, 0x00, 0x05, 0x03, 0x00, 0x00,
   0x00, 0x1c, 0x22, 0x41, 0x00, 0x00, 0x41, 0x22, 0x1c, 0x00, 0x14, 0x08, 0x3E, 0x08, 0x14, 0x08, 0x08, 0x3E, 0x08, 0x08,
   0x00, 0x00, 0xA0, 0x60, 0x00, 0x08, 0x08, 0x08, 0x08, 0x08, 0x00, 0x60, 0x60, 0x00, 0x00, 0x20, 0x10, 0x08, 0x04, 0x02,
   0x3E, 0x51, 0x49, 0x45, 0x3E, 0x00, 0x42, 0x7F, 0x40, 0x00, 0x42, 0x61, 0x51, 0x49, 0x46, 0x21, 0x41, 0x45, 0x4B, 0x31,
   0x18, 0x14, 0x12, 0x7F, 0x10, 0x27, 0x45, 0x45, 0x45, 0x39, 0x3C, 0x4A, 0x49, 0x49, 0x30, 0x01, 0x71, 0x09, 0x05, 0x03,
   0x36, 0x49, 0x49, 0x49, 0x36, 0x06, 0x49, 0x49, 0x29, 0x1E, 0x00, 0x36, 0x36, 0x00, 0x00, 0x00, 0x56, 0x36, 0x00, 0x00,
   0x08, 0x14, 0x22, 0x41, 0x00, 0x14, 0x14, 0x14, 0x14, 0x14, 0x00, 0x41, 0x22, 0x14, 0x08, 0x02, 0x01, 0x51, 0x09, 0x06,
   0x32, 0x49, 0x59, 0x51, 0x3E, 0x7C, 0x12, 0x11, 0x12, 0x7C, 0x7F, 0x49, 0x49, 0x49, 0x36, 0x3E, 0x41, 0x41, 0x41, 0x22,
   0x7F, 0x41, 0x41, 0x22, 0x1C, 0x7F, 0x49, 0x49, 0x49, 0x41, 0x7F, 0x09, 0x09, 0x09, 0x01, 0x3E, 0x41, 0x49, 0x49, 0x7A,
   0x7F, 0x08, 0x08, 0x08, 0x7F, 0x00, 0x41, 0x7F, 0x41, 0x00, 0x20, 0x40, 0x41, 0x3F, 0x01, 0x7F, 0x08, 0x14, 0x22, 0x41,
   0x7F, 0x40, 0x40, 0x40, 0x40, 0x7F, 0x02, 0x0C, 0x02, 0x7F, 0x7F, 0x04, 0x08, 0x10, 0x7F, 0x3E, 0x41, 0x41, 0x41, 0x3E,
   0x7F, 0x09, 0x09, 0x09, 0x06, 0x3E, 0x41, 0x51, 0x21, 0x5E, 0x7F, 0x09, 0x19, 0x29, 0x46, 0x46, 0x49, 0x49, 0x49, 0x31,
   0x01, 0x01, 0x7F, 0x01, 0x01, 0x3F, 0x40, 0x40, 0x40, 0x3F, 0x1F, 0x20, 0x40, 0x20, 0x1F, 0x3F, 0x40, 0x38, 0x40, 0x3F,
   0x63, 0x14, 0x08, 0x14, 0x63, 0x07, 0x08, 0x70, 0x08, 0x07, 0x61, 0x51, 0x49, 0x45, 0x43, 0x00, 0x7F, 0x41, 0x41, 0x00,
   0x55, 0x2A, 0x55, 0x2A, 0x55, 0x00, 0x41, 0x41, 0x7F, 0x00, 0x04, 0x02, 0x01, 0x02, 0x04, 0x40, 0x40, 0x40, 0x40, 0x40,
   0x00, 0x01, 0x02, 0x04, 0x00, 0x20, 0x54, 0x54, 0x54, 0x78, 0x7F, 0x48, 0x44, 0x44, 0x38, 0x38, 0x44, 0x44, 0x44, 0x20,
   0x38, 0x44, 0x44, 0x48, 0x7F, 0x38, 0x54, 0x54, 0x54, 0x18, 0x08, 0x7E, 0x09, 0x01, 0x02, 0x18, 0xA4, 0xA4, 0xA4, 0x7C,
   0x7F, 0x08, 0x04, 0x04, 0x78, 0x00, 0x44, 0x7D, 0x40, 0x00, 0x40, 0x80, 0x84, 0x7D, 0x00, 0x7F, 0x10, 0x28, 0x44, 0x00,
   0x00, 0x41, 0x7F, 0x40, 0x00, 0x7C, 0x04, 0x18, 0x04, 0x78, 0x7C, 0x08, 0x04, 0x04, 0x78, 0x38, 0x44, 0x44, 0x44, 0x38,
   0xFC, 0x24, 0x24, 0x24, 0x18, 0x18, 0x24, 0x24, 0x18, 0xFC, 0x7C, 0x08, 0x04, 0x04, 0x08, 0x48, 0x54, 0x54, 0x54, 0x20,
   0x04, 0x3F, 0x44, 0x40, 0x20, 0x3C, 0x40, 0x40, 0x20, 0x7C, 0x1C, 0x20, 0x40, 0x20, 0x1C, 0x3C, 0x40, 0x30, 0x40, 0x3C,
   0x44, 0x28, 0x10, 0x28, 0x44, 0x1C, 0xA0, 0xA0, 0xA0, 0x7C, 0x44, 0x64, 0x54, 0x4C, 0x44]

/-- The five bytes at `font5x8 + sym * 5`, if the table has them. -/
@[irreducible] def glyphAt (sym : Nat) : Option (List UInt8) :=
  if sym * 5 + 5 ≤ font5x8.length then some ((font5x8.drop (sym * 5)).take 5) else none

/-- The loop of `draw_text_imp`: the text from where it ends on, and `len`.  The text is the bytes of a C string before its
zero. -/
def drawGlyphs : List UInt8 → Nat → Display → Option (List UInt8 × Nat × Display)
  | [], len, d        => some ([], len, d)
  | c :: text, len, d =>
    if c = 0x0A then some (c :: text, len, d)
    else if len < 21 then
      match glyphAt (c - 0x20).toNat with
      | none    => none
      | some gr => drawGlyphs text (len + 1) (sendCmd [[CB_Data], gr, [0]] d)
    else drawGlyphs text len d

/-- The row of `y & 7`. -/
def rowOf (y : Int) : Nat := (y % 8).toNat

def drawTextImp (y : Int) (text : List UInt8) (d : Display) : Option (List UInt8 × Display) :=
  let cmd := [CB_Cmd, CMD_LowColStartPM ||| 0, CMD_HiColStartPM ||| 0, CMD_SetPage ||| UInt8.ofNat (rowOf y)]
  match drawGlyphs text 0 (sendCmd [cmd] d) with
  | none                => none
  | some (text, len, d) =>
    let total := 129 - len * 6
    some (text, sendCmd [CB_Data :: List.replicate (total - 1) 0] d)

theorem length_drawGlyphs : ∀ (text : List UInt8) (len : Nat) (d : Display) {r : List UInt8 × Nat × Display},
    drawGlyphs text len d = some r → r.1.length ≤ text.length
  | [], len, d, r, h => by
    cases h
    exact Nat.le_refl 0
  | c :: text, len, d, r, h => by
    rw [drawGlyphs] at h
    split at h
    · cases h
      exact Nat.le_refl _
    · split at h
      · split at h
        · cases h
        · exact Nat.le_succ_of_le (length_drawGlyphs text _ _ h)
      · exact Nat.le_succ_of_le (length_drawGlyphs text _ _ h)

theorem length_drawTextImp {y : Int} {text : List UInt8} {d : Display} {r : List UInt8 × Display}
    (h : drawTextImp y text d = some r) : r.1.length ≤ text.length := by
  simp only [drawTextImp] at h
  split at h
  · cases h
  · rename_i hglyphs
    cases h
    exact length_drawGlyphs text _ _ hglyphs

def drawText (y : Int) (text : List UInt8) (d : Display) : Option Display :=
  match h : drawTextImp y text d with
  | none                => none
  | some ([], d)        => some d
  | some (_ :: text, d) => drawText ((y + 1) % 8) text d
termination_by text.length
decreasing_by exact length_drawTextImp h

/-- `clr_screen`. -/
def clrScreen (rowStart rowEnd : Nat) (d : Display) : Option Display :=
  if rowStart < rowEnd then
    match drawTextImp rowStart [] d with
    | none        => none
    | some (_, d) => clrScreen (rowStart + 1) rowEnd d
  else some d
termination_by rowEnd - rowStart

/-! ## What the display gets -/

/-- Data bytes in one row, from a column on. -/
def cells (row : Nat) : Nat → List UInt8 → List Cell
  | _, []        => []
  | col, b :: bs => ⟨row, col, b⟩ :: cells row (col + 1) bs

theorem cells_append (row : Nat) : ∀ (col : Nat) (a b : List UInt8),
    cells row col (a ++ b) = cells row col a ++ cells row (col + a.length) b
  | _, [], _     => rfl
  | col, c :: a, b => by
    rw [List.cons_append, cells, cells_append row (col + 1) a b, List.length_cons, cells, List.cons_append]
    congr 3
    omega

theorem row_of_mem_cells {row : Nat} {w : Cell} : ∀ {col : Nat} {bytes : List UInt8}, w ∈ cells row col bytes → w.row = row
  | col, b :: bytes, h => by
    rcases List.mem_cons.1 h with rfl | h
    · rfl
    · exact row_of_mem_cells h

theorem foldl_data {d : Display} (hcol : d.col < 128) (bytes : List UInt8) (h : d.col + bytes.length ≤ 128) :
    bytes.foldl Display.data d =
      { page := d.page, col := (d.col + bytes.length) % 128, writes := d.writes ++ cells d.page d.col bytes } := by
  induction bytes using List.reverseRecOn with
  | nil =>
    rw [List.length_nil, Nat.add_zero, Nat.mod_eq_of_lt hcol, cells, List.append_nil]
    rfl
  | append_singleton bytes b ih =>
    rw [List.length_append, List.length_singleton] at h ⊢
    rw [List.foldl_append, ih (by omega), List.foldl_cons, List.foldl_nil, cells_append]
    simp only [Display.data, cells, List.append_assoc, Nat.mod_eq_of_lt (by omega : d.col + bytes.length < 128)]
    rfl

theorem sendCmd_data (bytes : List UInt8) (d : Display) :
    sendCmd [CB_Data :: bytes] d = bytes.foldl Display.data d := by
  simp [sendCmd, receive, CB_Data, CB_Cmd]

theorem commands_cons {c : UInt8} (h : c ≠ CMD_MemMode) (cs : List UInt8) (d : Display) :
    commands (c :: cs) d = commands cs (d.command c) := by
  cases cs with
  | nil => simp [commands, h]
  | cons c' cs => simp [commands, h]

/-- Both halves of the column pointer are set to 0. -/
theorem commands_col (cs : List UInt8) (d : Display) : commands (CMD_LowColStartPM :: CMD_HiColStartPM :: cs) d =
    commands cs { d with col := 0 } := by
  have hcol : (d.col / 16 * 16 + 0) % 16 = 0 := by omega
  have hlow : (d.command CMD_LowColStartPM).command CMD_HiColStartPM = { d with col := 0 } := by
    show { d with col := 0 * 16 + (d.col / 16 * 16 + 0) % 16 } = { d with col := 0 }
    rw [hcol]
  rw [commands_cons (by decide), commands_cons (by decide), hlow]

theorem command_page (d : Display) {row : Nat} (h : row < 8) :
    d.command (CMD_SetPage ||| UInt8.ofNat row) = { d with page := row } := by
  interval_cases row <;> rfl

theorem font5x8_length : font5x8.length = 455 := by decide +kernel

/-! ## One line -/

/-- The columns of a character: its glyph and a blank. -/
def columns (c : UInt8) : List UInt8 := (font5x8.drop ((c - 0x20).toNat * 5)).take 5 ++ [0]

/-- The 128 columns of a line. -/
def lineBytes (l : List UInt8) : List UInt8 :=
  (l.take 21).flatMap columns ++ List.replicate (128 - (l.take 21).length * 6) 0

/-- A character that the table has. -/
def Printable (c : UInt8) : Prop := 0x20 ≤ c ∧ c ≤ 0x7A

theorem Printable.toNat_lt {c : UInt8} (h : Printable c) : (c - 0x20).toNat < 91 := by
  obtain ⟨hlo, hhi⟩ := h
  rw [UInt8.toNat_sub_of_le _ _ hlo]
  have hhi' : c.toNat ≤ 122 := UInt8.le_iff_toNat_le.1 hhi
  have h32 : (0x20 : UInt8).toNat = 32 := rfl
  omega

/-- **The glyph of a printable character lies in the table.** -/
theorem glyphAt_printable {c : UInt8} (h : Printable c) :
    glyphAt (c - 0x20).toNat = some ((font5x8.drop ((c - 0x20).toNat * 5)).take 5) := by
  have hlt := h.toNat_lt
  unfold glyphAt
  rw [if_pos (by rw [font5x8_length]; omega)]

theorem length_columns {c : UInt8} (h : Printable c) : (columns c).length = 6 := by
  have hlt := h.toNat_lt
  rw [columns, List.length_append, List.length_take, List.length_drop, font5x8_length, List.length_singleton]
  omega

theorem length_flatMap_columns : ∀ {l : List UInt8}, (∀ c ∈ l, Printable c) → (l.flatMap columns).length = l.length * 6
  | [], _     => rfl
  | c :: l, h => by
    have ih := length_flatMap_columns (l := l) (fun c hc => h c (List.mem_cons_of_mem _ hc))
    rw [List.flatMap_cons, List.length_append, length_columns (h c (List.mem_cons_self ..)), ih, List.length_cons]
    omega

theorem length_lineBytes {l : List UInt8} (h : ∀ c ∈ l, Printable c) : (lineBytes l).length = 128 := by
  have hlen := length_flatMap_columns (l := l.take 21) (fun c hc => h c (List.mem_of_mem_take hc))
  have htake := List.length_take_le 21 l
  rw [lineBytes, List.length_append, hlen, List.length_replicate]
  omega

/-- The loop over a line: the columns of as many characters as still fit. -/
theorem drawGlyphs_eq : ∀ (l rest : List UInt8) (len : Nat) (d : Display), (∀ c ∈ l, Printable c) →
    (rest = [] ∨ ∃ more, rest = 0x0A :: more) →
    drawGlyphs (l ++ rest) len d = some (rest, len + (l.take (21 - len)).length,
      ((l.take (21 - len)).flatMap columns).foldl Display.data d)
  | [], rest, len, d, _, hrest => by
    rcases hrest with rfl | ⟨more, rfl⟩
    · simp [drawGlyphs]
    · simp [drawGlyphs]
  | c :: l, rest, len, d, hl, hrest => by
    have hc := hl c (List.mem_cons_self ..)
    have hl' : ∀ c ∈ l, Printable c := fun c hc => hl c (List.mem_cons_of_mem _ hc)
    have hne : c ≠ 0x0A := fun h => absurd (h ▸ hc.1) (by decide)
    rw [List.cons_append, drawGlyphs, if_neg hne]
    by_cases hlen : len < 21
    · obtain ⟨k, hk⟩ : ∃ k, 21 - len = k + 1 := ⟨20 - len, by omega⟩
      have hk' : 21 - (len + 1) = k := by omega
      rw [if_pos hlen, glyphAt_printable hc]
      simp only
      rw [drawGlyphs_eq l rest (len + 1) _ hl' hrest, hk, hk', List.take_succ_cons, List.flatMap_cons,
        List.foldl_append, List.length_cons, Nat.add_assoc, Nat.add_comm 1]
      rfl
    · have hk : 21 - len = 0 := by omega
      rw [if_neg hlen, drawGlyphs_eq l rest len d hl' hrest, hk]
      rfl

/-- **A line fills its row.** -/
theorem drawTextImp_eq (y : Int) {l rest : List UInt8} (d : Display) (hl : ∀ c ∈ l, Printable c)
    (hrest : rest = [] ∨ ∃ more, rest = 0x0A :: more) :
    drawTextImp y (l ++ rest) d = some (rest,
      { page := rowOf y, col := 0, writes := d.writes ++ cells (rowOf y) 0 (lineBytes l) }) := by
  have hrow : rowOf y < 8 := by
    unfold rowOf
    omega
  have hcmd : sendCmd [[CB_Cmd, CMD_LowColStartPM ||| 0, CMD_HiColStartPM ||| 0, CMD_SetPage ||| UInt8.ofNat (rowOf y)]] d =
      { d with page := rowOf y, col := 0 } := by
    rw [UInt8.or_zero, UInt8.or_zero]
    show commands [CMD_LowColStartPM, CMD_HiColStartPM, CMD_SetPage ||| UInt8.ofNat (rowOf y)] d = _
    rw [commands_col, commands_cons, command_page _ hrow]
    · rfl
    · interval_cases rowOf y <;> decide
  have hlen := length_lineBytes hl
  have hpad : 129 - (0 + (l.take 21).length) * 6 - 1 = 128 - (l.take 21).length * 6 := by omega
  have hbytes : (lineBytes l).foldl Display.data { d with page := rowOf y, col := 0 } =
      { page := rowOf y, col := 0, writes := d.writes ++ cells (rowOf y) 0 (lineBytes l) } := by
    rw [foldl_data (by simp) (lineBytes l) (by simp [hlen]), hlen]
    simp
  simp only [drawTextImp, hcmd, drawGlyphs_eq l rest 0 _ hl hrest, Nat.sub_zero, hpad, sendCmd_data]
  rw [← List.foldl_append]
  exact congrArg (fun d => some (rest, d)) hbytes

theorem drawTextImp_line (y : Int) {l : List UInt8} (d : Display) (hl : ∀ c ∈ l, Printable c) :
    drawTextImp y l d = some ([], { page := rowOf y, col := 0, writes := d.writes ++ cells (rowOf y) 0 (lineBytes l) }) := by
  have himp := drawTextImp_eq y d hl (.inl rfl)
  rwa [List.append_nil] at himp

/-! ## All lines -/

/-- The lines of a text. -/
def lines (text : List UInt8) : List (List UInt8) := text.splitOn 0x0A

/-- The cells of the lines from row `y` on. -/
def linesCells (y : Int) (ls : List (List UInt8)) : List (List Cell) :=
  ls.mapIdx (fun i l => cells (rowOf (y + i)) 0 (lineBytes l))

theorem linesCells_cons (y : Int) (l : List UInt8) (ls : List (List UInt8)) :
    linesCells y (l :: ls) = cells (rowOf y) 0 (lineBytes l) :: linesCells (y + 1) ls := by
  have hnext : ∀ i : Nat, y + ((i : Int) + 1) = y + 1 + i := fun i => by omega
  simp [linesCells, List.mapIdx_cons, hnext]

theorem linesCells_mod (y : Int) (ls : List (List UInt8)) : linesCells (y % 8) ls = linesCells y ls := by
  have hrow : ∀ i : Nat, rowOf (y % 8 + i) = rowOf (y + i) := fun i => by
    rw [rowOf, rowOf, Int.emod_add_emod]
  simp only [linesCells, hrow]

/-- A text is one line, or a line and more behind a newline. -/
theorem lines_cases (text : List UInt8) : (0x0A ∉ text ∧ lines text = [text]) ∨
    ∃ l more, text = l ++ 0x0A :: more ∧ 0x0A ∉ l ∧ lines text = l :: lines more := by
  by_cases h : 0x0A ∈ text
  · obtain ⟨l, more, rfl, hl⟩ := List.eq_append_cons_of_mem h
    exact .inr ⟨l, more, rfl, hl, List.splitOn_append_cons_self_of_not_mem hl more⟩
  · exact .inl ⟨h, List.splitOn_eq_singleton h⟩

/-- A text of printable characters and newlines. -/
def PrintableText (text : List UInt8) : Prop := ∀ c ∈ text, Printable c ∨ c = 0x0A

theorem PrintableText.single {text : List UInt8} (h : PrintableText text) (hno : 0x0A ∉ text) : ∀ c ∈ text, Printable c :=
  fun c hc => (h c hc).resolve_right (fun h0 => hno (h0 ▸ hc))

theorem PrintableText.append {l rest : List UInt8} (h : PrintableText (l ++ rest)) : PrintableText l ∧ PrintableText rest :=
  ⟨fun c hc => h c (List.mem_append_left rest hc), fun c hc => h c (List.mem_append_right l hc)⟩

theorem drawText_last {y : Int} {text : List UInt8} {d d' : Display} (h : drawTextImp y text d = some ([], d')) :
    drawText y text d = some d' := by
  rw [drawText]
  split
  · rename_i hnone
    rw [h] at hnone
    cases hnone
  · rename_i hsome
    rw [h] at hsome
    cases hsome
    rfl
  · rename_i hsome
    rw [h] at hsome
    cases hsome

theorem drawText_more {y : Int} {c : UInt8} {text more : List UInt8} {d d' : Display}
    (h : drawTextImp y text d = some (c :: more, d')) : drawText y text d = drawText ((y + 1) % 8) more d' := by
  rw [drawText]
  split
  · rename_i hnone
    rw [h] at hnone
    cases hnone
  · rename_i hsome
    rw [h] at hsome
    cases hsome
  · rename_i hsome
    rw [h] at hsome
    cases hsome
    rfl

/-- **What `draw_text` writes**: each line in its row. -/
theorem drawText_eq : ∀ (text : List UInt8) (y : Int) (d : Display), PrintableText text →
    ∃ d', drawText y text d = some d' ∧ d'.writes = d.writes ++ (linesCells y (lines text)).flatten
  | text, y, d, h => by
    rcases lines_cases text with ⟨hno, hlines⟩ | ⟨l, more, htext, hno, hlines⟩
    · have himp := drawTextImp_line y d (h.single hno)
      refine ⟨_, drawText_last himp, ?_⟩
      rw [hlines, linesCells_cons]
      simp [linesCells]
    · rw [htext] at h
      have himp := drawTextImp_eq y d (h.append.1.single hno) (.inr ⟨more, rfl⟩)
      obtain ⟨d', hdraw, hwrites⟩ := drawText_eq more ((y + 1) % 8)
        { page := rowOf y, col := 0, writes := d.writes ++ cells (rowOf y) 0 (lineBytes l) }
        (fun c hc => h.append.2 c (List.mem_cons_of_mem _ hc))
      refine ⟨d', ?_, ?_⟩
      · rw [htext, drawText_more himp, hdraw]
      · rw [hwrites, hlines, linesCells_cons, linesCells_mod, List.flatten_cons, List.append_assoc]
termination_by text => text.length
decreasing_by
  rw [htext, List.length_append, List.length_cons]
  omega

/-! ## What the screen shows -/

/-- The RAM behind a data byte. -/
def overwrite (ram : Nat → Nat → UInt8) (w : Cell) : Nat → Nat → UInt8 :=
  fun row col => if row = w.row ∧ col = w.col then w.data else ram row col

def screen (ram : Nat → Nat → UInt8) (writes : List Cell) : Nat → Nat → UInt8 := writes.foldl overwrite ram

theorem screen_append (ram : Nat → Nat → UInt8) (a b : List Cell) : screen ram (a ++ b) = screen (screen ram a) b :=
  List.foldl_append

theorem screen_cells : ∀ (row col : Nat) (bytes : List UInt8) (ram : Nat → Nat → UInt8) (r c : Nat),
    screen ram (cells row col bytes) r c =
      if r = row ∧ col ≤ c ∧ c < col + bytes.length then bytes.getD (c - col) 0 else ram r c
  | row, col, [], ram, r, c => by
    rw [if_neg (by simp only [List.length_nil]; omega)]
    rfl
  | row, col, b :: bytes, ram, r, c => by
    have ih := screen_cells row (col + 1) bytes (overwrite ram ⟨row, col, b⟩) r c
    rw [cells, screen, List.foldl_cons, ← screen, ih, List.length_cons]
    by_cases hr : r = row
    · by_cases hlt : col + 1 ≤ c ∧ c < col + 1 + bytes.length
      · rw [if_pos ⟨hr, hlt⟩, if_pos (by omega), show c - col = (c - (col + 1)) + 1 by omega, List.getD_cons_succ]
      · rw [if_neg (fun h => hlt h.2), overwrite]
        by_cases hc : c = col
        · rw [if_pos ⟨hr, hc⟩, if_pos (by omega), hc, Nat.sub_self, List.getD_cons_zero]
        · rw [if_neg (fun h => hc h.2), if_neg (by omega)]
    · rw [if_neg (fun h => hr h.1), if_neg (fun h => hr h.1), overwrite, if_neg (fun h => hr h.1)]

theorem screen_lines_other : ∀ (ls : List (List UInt8)) (y : Int) (ram : Nat → Nat → UInt8) {row : Nat} (col : Nat),
    (∀ i < ls.length, row ≠ rowOf (y + i)) → screen ram (linesCells y ls).flatten row col = ram row col
  | [], _, _, _, _, _             => rfl
  | l :: ls, y, ram, row, col, h => by
    have hrow : row ≠ rowOf y := by simpa using h 0 (Nat.succ_pos _)
    rw [linesCells_cons, List.flatten_cons, screen_append, screen_lines_other ls (y + 1) _ col (fun i hi => by
      rw [Int.add_assoc, Int.add_comm 1]
      exact h (i + 1) (Nat.succ_lt_succ hi)), screen_cells, if_neg (fun hc => hrow hc.1)]

/-- A row shows the last of its lines. -/
theorem screen_lines : ∀ (ls : List (List UInt8)) (y : Int) (ram : Nat → Nat → UInt8) {i : Nat} {l : List UInt8} {col : Nat},
    (∀ l ∈ ls, (lineBytes l).length = 128) → ls[i]? = some l →
    (∀ j, i < j → j < ls.length → rowOf (y + j) ≠ rowOf (y + i)) → col < 128 →
    screen ram (linesCells y ls).flatten (rowOf (y + i)) col = (lineBytes l).getD col 0
  | l' :: ls, y, ram, i, l, col, hlen, hi, hlast, hcol => by
    rw [linesCells_cons, List.flatten_cons, screen_append]
    cases i with
    | zero =>
      obtain rfl := Option.some.inj hi
      rw [screen_lines_other ls (y + 1) _ col (fun j hj => by
        rw [Int.add_assoc, Int.add_comm 1]
        exact (hlast (j + 1) (Nat.succ_pos j) (Nat.succ_lt_succ hj)).symm), screen_cells,
        hlen _ (List.mem_cons_self ..), if_pos (by simp [hcol]), Nat.sub_zero]
    | succ i =>
      have hshift : ∀ j : Nat, y + ((j + 1 : Nat) : Int) = y + 1 + j := fun j => by omega
      rw [hshift]
      refine screen_lines ls (y + 1) _ (fun l hl => hlen l (List.mem_cons_of_mem _ hl)) hi (fun j hj hlt => ?_) hcol
      have h := hlast (j + 1) (Nat.succ_lt_succ hj) (Nat.succ_lt_succ hlt)
      rwa [hshift, hshift] at h

theorem printable_lines : ∀ {text : List UInt8}, PrintableText text → ∀ l ∈ lines text, ∀ c ∈ l, Printable c
  | text, h, l, hl => by
    rcases lines_cases text with ⟨hno, hlines⟩ | ⟨l', more, htext, hno, hlines⟩
    · rw [hlines, List.mem_singleton] at hl
      subst hl
      exact h.single hno
    · rw [htext] at h
      rw [hlines] at hl
      rcases List.mem_cons.1 hl with rfl | hl
      · exact h.append.1.single hno
      · exact printable_lines (fun c hc => h.append.2 c (List.mem_cons_of_mem _ hc)) l hl
termination_by text => text.length
decreasing_by
  rw [htext, List.length_append, List.length_cons]
  omega

/-- **`draw_text` fills the rows of its lines**, 128 bytes each, and reads glyphs that the table has.  A row shows the last of
its lines, and a row of no line what it showed before. -/
theorem drawText_rows {text : List UInt8} (h : PrintableText text) (y : Int) (d : Display) :
    ∃ d', drawText y text d = some d' ∧ d'.writes = d.writes ++ (linesCells y (lines text)).flatten ∧
      (∀ l ∈ lines text, (lineBytes l).length = 128) ∧
      (∀ l ∈ lines text, ∀ c ∈ l, (c - 0x20).toNat * 5 + 5 ≤ font5x8.length) ∧
      ∀ ram,
        (∀ i l, (lines text)[i]? = some l → (∀ j, i < j → j < (lines text).length → rowOf (y + j) ≠ rowOf (y + i)) →
          ∀ col < 128, screen ram d'.writes (rowOf (y + i)) col = (lineBytes l).getD col 0) ∧
        ∀ row, (∀ i < (lines text).length, row ≠ rowOf (y + i)) →
          ∀ col, screen ram d'.writes row col = screen ram d.writes row col := by
  obtain ⟨d', hdraw, hwrites⟩ := drawText_eq text y d h
  have hprint := printable_lines h
  have hlen : ∀ l ∈ lines text, (lineBytes l).length = 128 := fun l hl => length_lineBytes (hprint l hl)
  refine ⟨d', hdraw, hwrites, hlen, fun l hl c hc => ?_, fun ram => ⟨?_, ?_⟩⟩
  · have hlt := (hprint l hl c hc).toNat_lt
    rw [font5x8_length]
    omega
  · intro i l hi hlast col hcol
    rw [hwrites, screen_append]
    exact screen_lines (lines text) y _ hlen hi hlast hcol
  · intro row hrow col
    rw [hwrites, screen_append]
    exact screen_lines_other (lines text) y _ col hrow

/-- Two lines from row 7 on: the second is in row 0. -/
theorem drawText_rows_wrapped : ∃ d', drawText 7 [0x41, 0x0A, 0x7A] { page := 0, col := 0, writes := [] } = some d' ∧
    ∀ col < 128, screen (fun _ _ => 0) d'.writes 0 col = (lineBytes [0x7A]).getD col 0 := by
  have htext : PrintableText [0x41, 0x0A, 0x7A] := by
    simp [PrintableText, Printable]
  obtain ⟨d', hdraw, -, -, -, hscreen⟩ := drawText_rows htext 7 { page := 0, col := 0, writes := [] }
  exact ⟨d', hdraw, (hscreen _).1 1 [0x7A] rfl (fun j hj hlt => absurd hlt (Nat.not_lt.2 hj))⟩

end Mstd.Oled
