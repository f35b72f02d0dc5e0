import Mstd.TftpOled
/-!
# The Wi-Fi events (`wifi_module.cpp`)

`event_handler_wifi` and `event_handler_ip`, with the display.  A lost station is connected again at most ten times
between two addresses, and each address is shown whole, in rows 3 and 4 (`station_run`).  When it comes during a transfer,
the bar goes on in row 4, up to the end of its pass (`address_in_transfer`).
-/
namespace Mstd.Wifi

open Oled (SSD1306 Printable lineBytes screen Bar ones)
open Tftp (ascii)

def OLED_STA_ROW : Nat := 3

/-- The events that the handlers are registered for; `other` is any that `event_handler_wifi` has no case for. -/
inductive Event where
  | staStart
  | staDisconnected
  | apStaConnected
  | apStaDisconnected
  | other
  | staGotIp (addr : UInt32)
  deriving DecidableEq

/-- The statics and `oled`, which is none when `msg` overflows or a glyph is read outside the font.  `connects` is a
history variable, the calls of `esp_wifi_connect`. -/
structure Station where
  staConnected : Bool
  retryNum : Nat
  myIp : UInt32
  connects : Nat
  oled : Option SSD1306

/-- `esp_wifi_connect`. -/
def Station.connect (w : Station) : Station := { w with connects := w.connects + 1 }

def eventHandlerWifi (e : Event) (w : Station) : Station :=
  match e with
  | .staStart        => w.connect
  | .staDisconnected =>
    let w := { w with staConnected := false }
    if w.retryNum < 10 then { w.connect with retryNum := w.retryNum + 1 } else w
  | _                => w

/-! ## The message -/

def decimal (b : UInt8) : List UInt8 := ascii (toString b.toNat)

/-- `inet_ntoa`: the bytes of the address in memory order. -/
def inetNtoa (addr : UInt32) : List UInt8 :=
  decimal addr.toUInt8 ++ 0x2E :: decimal (addr >>> 8).toUInt8 ++ 0x2E :: decimal (addr >>> 16).toUInt8 ++
    0x2E :: decimal (addr >>> 24).toUInt8

/-- `strcat` in a buffer of `size` bytes, with the zero behind the text. -/
def strcat (size : Nat) (dst src : List UInt8) : Option (List UInt8) :=
  if dst.length + src.length < size then some (dst ++ src) else none

/-- What `event_handler_ip` puts into `msg`. -/
def staMsg (addr : UInt32) : Option (List UInt8) := do
  let msg ← strcat 43 [] (ascii "STA : ")
  let msg ← strcat 43 msg (inetNtoa addr)
  strcat 43 msg (ascii "\nAKA : mstdp[.local]")

/-- `oled.draw_text(OLED_STA_ROW, msg)`. -/
def drawSta (addr : UInt32) (o : SSD1306) : Option SSD1306 := do
  let msg ← staMsg addr
  let d ← Oled.drawText OLED_STA_ROW msg o.display
  some { o with display := d }

/-- `IP_EVENT_STA_GOT_IP`. -/
def eventHandlerIp (addr : UInt32) (w : Station) : Station :=
  { w with staConnected := true, retryNum := 0, myIp := addr, oled := w.oled.bind (drawSta addr) }

def Station.step (w : Station) : Event → Station
  | .staGotIp addr => eventHandlerIp addr w
  | e              => eventHandlerWifi e w

def Station.run (w : Station) (es : List Event) : Station := es.foldl Station.step w

/-! ## The text of an address -/

def staLine (addr : UInt32) : List UInt8 := ascii "STA : " ++ inetNtoa addr

def akaLine : List UInt8 := ascii "AKA : mstdp[.local]"

instance (line : List UInt8) : Decidable (∀ c ∈ line, Printable c) :=
  List.decidableBAll (fun c => 0x20 ≤ c ∧ c ≤ 0x7A) line

theorem decimal_eq (b : UInt8) : (decimal b).length ≤ 3 ∧ ∀ c ∈ decimal b, Printable c := by
  have hall : ∀ n < 256, (ascii (toString n)).length ≤ 3 ∧ ∀ c ∈ ascii (toString n), Printable c := by
    decide +kernel
  exact hall b.toNat b.toNat_lt

theorem inetNtoa_eq (addr : UInt32) : (inetNtoa addr).length ≤ 15 ∧ ∀ c ∈ inetNtoa addr, Printable c := by
  obtain ⟨hlen₀, hc₀⟩ := decimal_eq addr.toUInt8
  obtain ⟨hlen₁, hc₁⟩ := decimal_eq (addr >>> 8).toUInt8
  obtain ⟨hlen₂, hc₂⟩ := decimal_eq (addr >>> 16).toUInt8
  obtain ⟨hlen₃, hc₃⟩ := decimal_eq (addr >>> 24).toUInt8
  have hdot : Printable 0x2E := by unfold Printable; decide
  refine ⟨?_, fun c hc => ?_⟩
  · simp only [inetNtoa, List.length_append, List.length_cons]
    omega
  · simp only [inetNtoa, List.mem_append, List.mem_cons] at hc
    rcases hc with ((hc | rfl | hc) | rfl | hc) | rfl | hc
    · exact hc₀ c hc
    · exact hdot
    · exact hc₁ c hc
    · exact hdot
    · exact hc₂ c hc
    · exact hdot
    · exact hc₃ c hc

theorem staLine_eq (addr : UInt32) : (staLine addr).length ≤ 21 ∧ ∀ c ∈ staLine addr, Printable c := by
  obtain ⟨hlen, hc⟩ := inetNtoa_eq addr
  have hhead : ∀ c ∈ ascii "STA : ", Printable c := by decide
  refine ⟨?_, fun c h => (List.mem_append.1 h).elim (hhead c) (hc c)⟩
  show (ascii "STA : " ++ inetNtoa addr).length ≤ 21
  rw [List.length_append]
  exact Nat.add_le_add_left hlen 6

theorem akaLine_eq : akaLine.length ≤ 21 ∧ ∀ c ∈ akaLine, Printable c := by decide

/-- **`msg` has room for every address.** -/
theorem staMsg_eq (addr : UInt32) : staMsg addr = some (staLine addr ++ 0x0A :: akaLine) := by
  have hlen := (staLine_eq addr).1
  have hsum : (staLine addr).length = 6 + (inetNtoa addr).length := List.length_append
  have hip : (ascii "STA : ").length + (inetNtoa addr).length < 43 := by
    show 6 + _ < 43
    omega
  have haka : (staLine addr).length + (ascii "\nAKA : mstdp[.local]").length < 43 := by
    show _ + 20 < 43
    omega
  unfold staMsg
  rw [show strcat 43 [] (ascii "STA : ") = some (ascii "STA : ") from rfl, Option.bind_eq_bind, Option.bind_some,
    strcat, if_pos hip, Option.bind_some]
  exact if_pos haka

/-- **An address is shown whole**: each line fits its row, and the other rows stay. -/
theorem drawSta_rows (addr : UInt32) (o : SSD1306) :
    ∃ d, drawSta addr o = some { o with display := d } ∧ d.page = 4 ∧ d.col = 0 ∧
      ∀ ram row col, row < 8 → col < 128 → screen ram d.writes row col =
        if row = 3 then (lineBytes (staLine addr)).getD col 0
        else if row = 4 then (lineBytes akaLine).getD col 0
        else screen ram o.display.writes row col := by
  obtain ⟨-, hsta⟩ := staLine_eq addr
  obtain ⟨-, haka⟩ := akaLine_eq
  have hfirst := Oled.drawTextImp_eq (3 : Nat) o.display hsta (.inr ⟨akaLine, rfl⟩)
  have hsecond := Oled.drawTextImp_line (4 : Nat)
    ⟨3, 0, o.display.writes ++ Oled.cells 3 0 (lineBytes (staLine addr))⟩ haka
  have hstaLen := Oled.length_lineBytes hsta
  have hakaLen := Oled.length_lineBytes haka
  refine ⟨⟨4, 0, o.display.writes ++ Oled.cells 3 0 (lineBytes (staLine addr)) ++ Oled.cells 4 0 (lineBytes akaLine)⟩,
    ?_, rfl, rfl, fun ram row col hrow hcol => ?_⟩
  · rw [drawSta, staMsg_eq, Option.bind_eq_bind, Option.bind_some, OLED_STA_ROW, Oled.drawText_more hfirst]
    show (Oled.drawText (4 : Nat) akaLine ⟨3, 0, o.display.writes ++ Oled.cells 3 0 (lineBytes (staLine addr))⟩).bind _ = _
    rw [Oled.drawText_last hsecond]
    rfl
  · rw [Oled.screen_append, Oled.screen_append, Oled.screen_cells, Oled.screen_cells, hstaLen, hakaLen, Nat.sub_zero]
    by_cases h4 : row = 4
    · rw [if_pos (by omega), if_neg (by omega), if_pos h4]
    · rw [if_neg (by omega), if_neg h4]
      by_cases h3 : row = 3
      · rw [if_pos (by omega), if_pos h3]
      · rw [if_neg (by omega), if_neg h3]

/-! ## Runs -/

/-- **An event that is no address**: the station is connected again if it has just started, or while it has tries left. -/
theorem step_noIp (w : Station) {e : Event} (he : ∀ addr, e ≠ .staGotIp addr) :
    (w.step e).myIp = w.myIp ∧ (w.step e).oled = w.oled ∧
      ((w.step e).staConnected = if e = .staDisconnected then false else w.staConnected) ∧
      ((w.step e).retryNum = w.retryNum + if e = .staDisconnected ∧ w.retryNum < 10 then 1 else 0) ∧
      (w.step e).connects = w.connects + if e = .staStart ∨ e = .staDisconnected ∧ w.retryNum < 10 then 1 else 0 := by
  cases e with
  | staGotIp addr => exact absurd rfl (he addr)
  | staStart => simp [Station.step, eventHandlerWifi, Station.connect]
  | staDisconnected =>
    by_cases hretry : w.retryNum < 10
    · simp [Station.step, eventHandlerWifi, Station.connect, hretry]
    · simp [Station.step, eventHandlerWifi, hretry]
  | apStaConnected | apStaDisconnected | other => simp [Station.step, eventHandlerWifi]

/-- **Events without an address**: the first disconnects are answered, as long as there are tries. -/
theorem run_noIp : ∀ (es : List Event) (w : Station), (∀ addr, Event.staGotIp addr ∉ es) → w.retryNum ≤ 10 →
    (w.run es).myIp = w.myIp ∧ (w.run es).oled = w.oled ∧
      ((w.run es).staConnected = if Event.staDisconnected ∈ es then false else w.staConnected) ∧
      (w.run es).connects =
        w.connects + es.count .staStart + min (10 - w.retryNum) (es.count .staDisconnected)
  | [], w, _, _             => ⟨rfl, rfl, rfl, by simp [Station.run]⟩
  | e :: es, w, hno, hretry => by
    obtain ⟨hip, holed, hconn, hnum, hcalls⟩ :=
      step_noIp w (e := e) (fun addr h => hno addr (h ▸ List.mem_cons_self ..))
    have hle : (w.step e).retryNum ≤ 10 := by
      rw [hnum]
      split <;> omega
    obtain ⟨hip', holed', hconn', hcalls'⟩ :=
      run_noIp es (w.step e) (fun addr h => hno addr (List.mem_cons_of_mem _ h)) hle
    refine ⟨hip'.trans hip, holed'.trans holed, hconn'.trans ?_, hcalls'.trans ?_⟩
    · rw [hconn]
      by_cases hd : e = .staDisconnected
      · simp [hd]
      · simp [hd, Ne.symm hd]
    · rw [hcalls, hnum, List.count_cons, List.count_cons]
      by_cases hs : e = .staStart
      · simp [hs]
        omega
      · by_cases hd : e = .staDisconnected
        · by_cases hlt : w.retryNum < 10
          · simp [hd, hlt]
            omega
          · simp [hd, hlt]
            omega
        · simp [hs, hd]

/-- The display behind any events: it has a picture, and only rows 3 and 4 of it may be new. -/
theorem run_rows : ∀ (es : List Event) (w : Station) (o : SSD1306), w.oled = some o →
    ∃ o', (w.run es).oled = some o' ∧ ∀ ram row col, row < 8 → col < 128 → row ≠ 3 → row ≠ 4 →
      screen ram o'.display.writes row col = screen ram o.display.writes row col
  | [], _, o, ho      => ⟨o, ho, fun _ _ _ _ _ _ _ => rfl⟩
  | e :: es, w, o, ho => by
    obtain ⟨o₁, ho₁, hrows⟩ : ∃ o₁, (w.step e).oled = some o₁ ∧ ∀ ram row col, row < 8 → col < 128 → row ≠ 3 → row ≠ 4 →
        screen ram o₁.display.writes row col = screen ram o.display.writes row col := by
      by_cases he : ∃ addr, e = .staGotIp addr
      · obtain ⟨addr, rfl⟩ := he
        obtain ⟨d, hdraw, -, -, hscreen⟩ := drawSta_rows addr o
        refine ⟨{ o with display := d }, ?_, fun ram row col hrow hcol h3 h4 => ?_⟩
        · show w.oled.bind (drawSta addr) = _
          rw [ho, Option.bind_some, hdraw]
        · rw [hscreen ram row col hrow hcol, if_neg h3, if_neg h4]
      · have hkeep := (step_noIp w (fun addr h => he ⟨addr, h⟩)).2.1
        exact ⟨o, hkeep.trans ho, fun _ _ _ _ _ _ _ => rfl⟩
    obtain ⟨o', ho', hrows'⟩ := run_rows es (w.step e) o₁ ho₁
    exact ⟨o', ho', fun ram row col hrow hcol h3 h4 =>
      (hrows' ram row col hrow hcol h3 h4).trans (hrows ram row col hrow hcol h3 h4)⟩

/-- **Behind an address**, up to the next one: it is `my_ip`, the station counts as connected up to the first disconnect,
ten disconnects are answered and no more, and the screen shows the address whole, with all other rows as they were at first. -/
theorem station_run (w : Station) {o : SSD1306} (ho : w.oled = some o) (pre : List Event) (addr : UInt32)
    (mid : List Event) (hmid : ∀ a, Event.staGotIp a ∉ mid) :
    ((w.run (pre ++ [.staGotIp addr])).run mid).myIp = addr ∧
      (((w.run (pre ++ [.staGotIp addr])).run mid).staConnected = true ↔ Event.staDisconnected ∉ mid) ∧
      ((w.run (pre ++ [.staGotIp addr])).run mid).connects =
        (w.run (pre ++ [.staGotIp addr])).connects + mid.count .staStart + min 10 (mid.count .staDisconnected) ∧
      (staLine addr).length ≤ 21 ∧
      ∃ o', ((w.run (pre ++ [.staGotIp addr])).run mid).oled = some o' ∧
        ∀ ram row col, row < 8 → col < 128 → screen ram o'.display.writes row col =
          if row = 3 then (lineBytes (staLine addr)).getD col 0
          else if row = 4 then (lineBytes akaLine).getD col 0
          else screen ram o.display.writes row col := by
  have hup : w.run (pre ++ [.staGotIp addr]) = eventHandlerIp addr (w.run pre) := by
    simp only [Station.run, List.foldl_append, List.foldl_cons, List.foldl_nil, Station.step]
  obtain ⟨o₀, ho₀, hrows⟩ := run_rows pre w o ho
  obtain ⟨d, hdraw, -, -, hscreen⟩ := drawSta_rows addr o₀
  have holed : (eventHandlerIp addr (w.run pre)).oled = some { o₀ with display := d } := by
    show (w.run pre).oled.bind (drawSta addr) = _
    rw [ho₀, Option.bind_some, hdraw]
  obtain ⟨hip, hsame, hconn, hcalls⟩ := run_noIp mid (eventHandlerIp addr (w.run pre)) hmid (Nat.zero_le 10)
  rw [hup]
  refine ⟨hip, ?_, hcalls, (staLine_eq addr).1, _, hsame.trans holed, fun ram row col hrow hcol => ?_⟩
  · rw [hconn]
    by_cases hd : Event.staDisconnected ∈ mid
    · simp [hd]
    · simp [hd, eventHandlerIp]
  · rw [hscreen ram row col hrow hcol]
    by_cases h3 : row = 3
    · rw [if_pos h3, if_pos h3]
    · by_cases h4 : row = 4
      · rw [if_neg h3, if_neg h3, if_pos h4, if_pos h4]
      · rw [if_neg h3, if_neg h3, if_neg h4, if_neg h4, hrows ram row col hrow hcol h3 h4]

/-- Twelve disconnects behind an address: ten more calls, and the address stays on the screen. -/
theorem station_run_lost :
    ((Station.run ⟨false, 0, 0, 0, some SSD1306.new⟩ ([.staStart] ++ [.staGotIp 0x0101A8C0])).run
      (List.replicate 12 .staDisconnected)).connects = 1 + 0 + min 10 12 := by
  obtain ⟨-, -, hcalls, -⟩ := station_run ⟨false, 0, 0, 0, some SSD1306.new⟩ rfl [.staStart] 0x0101A8C0
    (List.replicate 12 .staDisconnected) (fun a h => by cases List.eq_of_mem_replicate h)
  exact hcalls

/-! ## An address during a transfer -/

/-- The bar behind `n` calls, when an address has moved the pointer and `j` of the calls went to its last row. -/
structure Displaced (n j : Nat) (o : SSD1306) : Prop where
  bar : Bar n { o with display := { o.display with page := 6 } }
  page : o.display.page = 4
  col : o.display.col = j

variable {n j : Nat} {o : SSD1306}

/-- **A call within the pass** writes the bits of the bar in row 4. -/
theorem Displaced.step (h : Displaced n j o) (hn : n + 1 < 2048) (hk : n % 128 ≠ 127) (hj : j < 127) :
    ∃ o', Oled.incPi o = some o' ∧ Displaced (n + 1) (j + 1) o' ∧
      o'.display.writes = o.display.writes ++ [⟨4, j, ones (n / 128 % 8 + 1)⟩] := by
  have hfull := (Oled.piCount_succ (Nat.mod_lt n (by decide : 0 < 128))).1
  have hlt : ¬ o.piCount + 1 ≥ 128 := fun hc => hk (hfull.1 (h.bar.piCount ▸ hc))
  obtain ⟨t, hnext, -, hbar, -⟩ := h.bar.next hn
  have hsame : Oled.nextPi { o with piCount := o.piCount + 1 } = some { o with piCount := o.piCount + 1 } := if_neg hlt
  rw [Oled.nextPi, if_neg hlt] at hnext
  cases hnext
  refine ⟨_, Oled.incPi_of_next hsame, ⟨⟨hbar.piRow, hbar.piData, hbar.piCount, Nat.le_refl 6⟩, h.page, ?_⟩, ?_⟩
  · simp only [Oled.Display.data, h.col]
    omega
  · have hdata : o.piData = ones (n / 128 % 8 + 1) := h.bar.piData
    simp only [Oled.Display.data, h.page, h.col, hdata]

/-- **The call that ends the pass** brings the bar back. -/
theorem Displaced.home (h : Displaced n j o) (hn : n + 1 < 2048) (hk : n % 128 = 127) :
    ∃ o', Oled.incPi o = some o' ∧ Bar (n + 1) o' ∧
      ∀ ram row col, row < 6 → screen ram o'.display.writes row col = screen ram o.display.writes row col := by
  have hfull := (Oled.piCount_succ (Nat.mod_lt n (by decide : 0 < 128))).1
  have hge : o.piCount + 1 ≥ 128 := h.bar.piCount ▸ hfull.2 hk
  have hpi : o.piRow.toNat = 6 + n / 1024 := by
    have hrow : o.piRow = UInt8.ofNat (6 + n / 1024) := h.bar.piRow
    rw [hrow, UInt8.toNat_ofNat']
    omega
  obtain ⟨o', hinc, hbar, hrows⟩ := h.bar.step hn
  refine ⟨o', ?_, hbar, hrows⟩
  rw [← hinc]
  -- the pointer is set anew, wherever it was
  unfold Oled.incPi Oled.nextPi
  simp only [if_pos hge, hpi]
  by_cases hdata : o.piData ≠ 0xFF
  · rw [if_pos hdata, if_pos hdata, Oled.setupPiRow_of_lt (by omega), Oled.setupPiRow_of_lt (by omega)]
  · have hbits : n / 128 % 8 = 7 := by
      by_contra hne
      exact hdata (h.bar.piData ▸ Oled.ones_ne (by omega))
    rw [if_neg hdata, if_neg hdata, Oled.setupPiRow_of_lt (by omega), Oled.setupPiRow_of_lt (by omega)]

/-- The screen above the bar behind an address, with `j` calls of the bar that went to row 4. -/
def addressAt (addr : UInt32) (bits : UInt8) (j : Nat) (above : Nat → Nat → UInt8) (row col : Nat) : UInt8 :=
  if row = 3 then (lineBytes (staLine addr)).getD col 0
  else if row = 4 then if col < j then bits else (lineBytes akaLine).getD col 0
  else above row col

theorem bar_displaced (h : Bar n o) (addr : UInt32) : ∀ k, n + k < 2048 →
    ∃ o', (drawSta addr o).bind (Oled.ticks k) = some o' ∧
      (k ≤ 127 - n % 128 → Displaced (n + k) k o') ∧ (127 - n % 128 < k → Bar (n + k) o') ∧
      ∀ ram row col, row < 6 → col < 128 → screen ram o'.display.writes row col =
        addressAt addr (ones (n / 128 % 8 + 1)) (min k (127 - n % 128)) (screen ram o.display.writes) row col
  | 0, _      => by
    obtain ⟨d, hdraw, hpage, hcol, hscreen⟩ := drawSta_rows addr o
    refine ⟨{ o with display := d }, ?_, fun _ => ⟨⟨h.piRow, h.piData, h.piCount, Nat.le_refl 6⟩, hpage, hcol⟩,
      fun hlt => absurd hlt (Nat.not_lt_zero _), fun ram row col hrow hcol => ?_⟩
    · rw [hdraw]
      rfl
    · rw [hscreen ram row col (by omega) hcol, addressAt, Nat.zero_min, if_neg (Nat.not_lt_zero col)]
  | k + 1, hn => by
    obtain ⟨t, hticks, haway, hback, hscreen⟩ := bar_displaced h addr k (by omega)
    obtain ⟨o₁, hdraw, hrest⟩ := Option.bind_eq_some_iff.1 hticks
    have hcall : ∀ {o'}, Oled.incPi t = some o' → (drawSta addr o).bind (Oled.ticks (k + 1)) = some o' := by
      intro o' hinc
      rw [hdraw, Option.bind_some, Oled.ticks, hrest]
      exact hinc
    rcases Nat.lt_trichotomy k (127 - n % 128) with hlt | heq | hgt
    · -- within the pass
      obtain ⟨o', hinc, hmore, hwrites⟩ := (haway (Nat.le_of_lt hlt)).step hn (by omega) (by omega)
      refine ⟨o', hcall hinc, fun _ => hmore, fun hc => absurd hc (by omega), fun ram row col hrow hcol => ?_⟩
      have hbits : (n + k) / 128 = n / 128 := by omega
      rw [hwrites, Oled.screen_append, hbits]
      show Oled.overwrite (screen ram t.display.writes) ⟨4, k, ones (n / 128 % 8 + 1)⟩ row col = _
      rw [Oled.overwrite, hscreen ram row col hrow hcol]
      unfold addressAt
      simp only [Nat.min_eq_left (Nat.le_of_lt hlt), Nat.min_eq_left (Nat.succ_le_of_lt hlt)]
      by_cases h4 : row = 4
      · subst h4
        by_cases hc : col = k
        · simp [hc]
        · have hiff : col < k + 1 ↔ col < k := by omega
          simp [hc, hiff]
      · simp [h4]
    · -- the call that ends it
      obtain ⟨o', hinc, hbar, hrows⟩ := (haway (Nat.le_of_eq heq)).home hn (by omega)
      refine ⟨o', hcall hinc, fun hc => absurd hc (by omega), fun _ => hbar, fun ram row col hrow hcol => ?_⟩
      rw [hrows ram row col hrow, hscreen ram row col hrow hcol, heq, Nat.min_self, Nat.min_eq_right (Nat.le_succ _)]
    · -- behind the pass
      obtain ⟨o', hinc, hbar, hrows⟩ := (hback hgt).step hn
      refine ⟨o', hcall hinc, fun hc => absurd hc (by omega), fun _ => hbar, fun ram row col hrow hcol => ?_⟩
      rw [hrows ram row col hrow, hscreen ram row col hrow hcol, Nat.min_eq_right (Nat.le_of_lt hgt),
        Nat.min_eq_right (Nat.le_succ_of_le (Nat.le_of_lt hgt))]

/-- **An address during a transfer**, behind `n` calls of the bar, with `k` more behind it: the rest of the pass goes over
the line in row 4, from its left end on, and no other row above the bar changes; from the next pass on the bar is in its
rows again, where it is without the address. -/
theorem address_in_transfer (o : SSD1306) (addr : UInt32) {n k : Nat} (hn : n + k < 2048) :
    ∃ o₁ o₂ o', (Oled.startPi 6 o).bind (Oled.ticks (n + k)) = some o₁ ∧ (Oled.startPi 6 o).bind (Oled.ticks n) = some o₂ ∧
      (drawSta addr o₂).bind (Oled.ticks k) = some o' ∧
      (o'.piRow = o₁.piRow ∧ o'.piData = o₁.piData ∧ o'.piCount = o₁.piCount) ∧
      (127 - n % 128 < k → Bar (n + k) o') ∧
      ∀ ram row col, row < 6 → col < 128 → screen ram o'.display.writes row col =
        addressAt addr (ones (n / 128 % 8 + 1)) (min k (127 - n % 128)) (screen ram o.display.writes) row col := by
  obtain ⟨o₀, hstart, hbar, hrows⟩ := Oled.bar_of_startPi o
  obtain ⟨o₁, hticks₁, hbar₁, -⟩ := hbar.ticks (n + k) (by omega)
  obtain ⟨o₂, hticks₂, hbar₂, hrows₂⟩ := hbar.ticks n (by omega)
  rw [Nat.zero_add] at hbar₁ hbar₂
  obtain ⟨o', hcalls, haway, hback, hscreen⟩ := bar_displaced hbar₂ addr k hn
  have hcounts : o'.piRow = o₁.piRow ∧ o'.piData = o₁.piData ∧ o'.piCount = o₁.piCount := by
    by_cases hk : k ≤ 127 - n % 128
    · have hb := (haway hk).bar
      exact ⟨hb.piRow.trans hbar₁.piRow.symm, hb.piData.trans hbar₁.piData.symm, hb.piCount.trans hbar₁.piCount.symm⟩
    · have hb := hback (Nat.lt_of_not_le hk)
      exact ⟨hb.piRow.trans hbar₁.piRow.symm, hb.piData.trans hbar₁.piData.symm, hb.piCount.trans hbar₁.piCount.symm⟩
  refine ⟨o₁, o₂, o', ?_, ?_, hcalls, hcounts, hback, fun ram row col hrow hcol => ?_⟩
  · rw [hstart]
    exact hticks₁
  · rw [hstart]
    exact hticks₂
  · have habove : ∀ r c, r < 6 → screen ram o₂.display.writes r c = screen ram o.display.writes r c :=
      fun r c hr => (hrows₂ ram r c hr).trans (hrows ram r c hr)
    rw [hscreen ram row col hrow hcol]
    unfold addressAt
    rw [habove row col hrow]

/-- An address behind 100 calls: 27 columns of the line in row 4 are lost, and 100 calls later the bar is at home. -/
theorem address_in_transfer_early :
    ∃ o₂ o', (Oled.startPi 6 SSD1306.new).bind (Oled.ticks 100) = some o₂ ∧
      (drawSta 0x0101A8C0 o₂).bind (Oled.ticks 100) = some o' ∧ Bar 200 o' ∧
      screen (fun _ _ => 0) o'.display.writes 4 26 = 1 ∧
      screen (fun _ _ => 0) o'.display.writes 4 27 = (lineBytes akaLine).getD 27 0 := by
  obtain ⟨-, o₂, o', -, hbefore, hcalls, -, hback, hscreen⟩ :=
    address_in_transfer SSD1306.new 0x0101A8C0 (n := 100) (k := 100) (by decide)
  exact ⟨o₂, o', hbefore, hcalls, hback (by decide), hscreen _ 4 26 (by decide) (by decide),
    hscreen _ 4 27 (by decide) (by decide)⟩

end Mstd.Wifi
