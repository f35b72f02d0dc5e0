import Mstd.SetupLife
import Mstd.TftpSaves
import Mstd.WifiInit
/-!
# The life of a device (`main.cpp`)

A device takes datagrams and is reset, at any time and any number of times; a power cut in the middle of a save is a
write that stops after some bytes, and the reset that follows.  Over all of its life the config partition is a register:
what the next boot loads is what the saves left, in order, and each save is of the bytes that one session brought
(`config_register`).
-/
namespace Mstd

open ByteMem (Ptr Buffer)

/-! ## The store over a reset -/

/-- A whole-partition image writes the last byte. -/
theorem full_not_lasts {d : Setup} {X : Flash} {f : Fate} (hok : f.eraseOk = true)
    (hlasts : ∀ op ∈ (saveConfigFull f d X).ops, op.Lasts) : (saveConfigFull f d X).ops = [] := by
  refine (ops_saveConfigFull f d X).2 (Bool.eq_false_iff.2 (fun hpat => ?_))
  have hwrite : FlashOp.write NorFlash.erased 0 (flashBytes X) ∈ (saveConfigFull f d X).ops := by
    unfold saveConfigFull
    simp only [hpat, hok, Bool.not_true, Bool.false_eq_true, if_false]
    cases f.writeFail <;> exact List.mem_cons_of_mem _ (List.mem_singleton_self _)
  have hroom := (hlasts _ hwrite).1
  rw [length_flashBytes] at hroom
  exact absurd hroom (by decide)

/-- `wifi_init` leaves the store as it is, but for `cfg_full`. -/
theorem wifiInit_store (past : Ptr) (d : Setup) :
    (wifiInit past d).setup.flash = d.flash ∧ (wifiInit past d).setup.cfgPat = d.cfgPat ∧
      (wifiInit past d).setup.nextCfgShift = d.nextCfgShift := by
  have hstore : ∀ i b, (storeByte past d i b).2.flash = d.flash ∧ (storeByte past d i b).2.cfgPat = d.cfgPat ∧
      (storeByte past d i b).2.nextCfgShift = d.nextCfgShift := by
    intro i b
    unfold storeByte
    split <;> exact ⟨rfl, rfl, rfl⟩
  unfold wifiInit
  split
  · exact ⟨rfl, rfl, rfl⟩
  · split
    · exact ⟨rfl, rfl, rfl⟩
    · exact hstore _ _

theorem flash_loadConfig (env : LoadEnv) (past : Ptr) (d : Setup) : (loadConfig env past d).flash = d.flash := by
  unfold loadConfig
  split
  · rfl
  · split
    · rfl
    · split <;> rfl

/-- A store with the same flash, partition and append position is sound too. -/
theorem Sound.of_fields {past : Ptr} {d d' : Setup} (h : Sound past d) (hflash : d'.flash = d.flash)
    (hpat : d'.cfgPat = d.cfgPat) (hshift : d'.nextCfgShift = d.nextCfgShift) : Sound past d' := by
  refine ⟨fun hp => ⟨hp, ?_⟩, ?_⟩
  · rw [hflash, hshift]
    exact (h.good (hpat.symm.trans hp)).shift
  · rw [hflash]
    exact h.free

/-- **A reset keeps a sound store sound**, whatever it finds in the RAM. -/
theorem Sound.reset {past : Ptr} {d : Setup} (h : Sound past d) (load : LoadEnv) (past' : Ptr) :
    Sound past (wifiInit past' (loadConfig load past' (boot d.flash))).setup ∧
      (wifiInit past' (loadConfig load past' (boot d.flash))).setup.flash = d.flash := by
  obtain ⟨hflash, hpat, hshift⟩ := wifiInit_store past' (loadConfig load past' (boot d.flash))
  have hload := flash_loadConfig load past' (boot d.flash)
  obtain ⟨n, hfree⟩ := h.free
  have hsound : Sound past (loadConfig load past' (boot d.flash)) :=
    ⟨hfree.good load past', n, by rw [hload]; exact hfree⟩
  exact ⟨hsound.of_fields hflash hpat hshift, hflash.trans hload⟩

namespace Tftp

variable {φ : Type}

/-! ## Resets -/

/-- The update server, and the RAM behind `cfg_full`. -/
structure Device (φ : Type) where
  srv : Srv (Ota φ)
  past : Ptr

def Device.flash (dev : Device φ) : Flash := dev.srv.app.setup.flash

def Device.saved (dev : Device φ) : List Saved := dev.srv.app.saved

/-- What a reset leaves open: whether `load_config` finds and reads the partition, whether `start` gets a socket and a
buffer, what is in the RAM that nothing initialises, and the state of the OTA functions. -/
structure Chance (φ : Type) where
  load : LoadEnv
  started : Bool
  past : Ptr
  buffer : Buffer TFTP_DATA_SIZE
  dataSize : Int
  client : Addr
  curPtr : Nat
  fw : φ

/-- `app_main` up to the first `recvfrom`; the display and the history go on. -/
def Device.reset (c : Chance φ) (dev : Device φ) : Device φ :=
  let wifi := wifiInit c.past (loadConfig c.load c.past (boot dev.flash))
  let text := if c.started then "Waiting for update" else "Can't start TFTP srv\nRestart please."
  { past := wifi.past
    srv :=
      { dev.srv with
        mode := if c.started then .idle else .hung
        buffer := c.buffer
        dataSize := c.dataSize
        client := c.client
        app :=
          { setup := wifi.setup, job := .none, curPtr := c.curPtr, cfgBuf := Buffer.fill MAX_CFG_SIZE 0, otaHandle := 0,
            nextPartition := none, ticks := 0, msgs := dev.srv.app.msgs ++ [text], fw := c.fw,
            saved := dev.srv.app.saved } } }

inductive DevEvent (φ : Type) where
  | recv (e : Recv)
  | reset (c : Chance φ)

/-- The environment of the server between two resets. -/
def Device.env (api : OtaApi φ) (fate : Nat → Fate) (dev : Device φ) : OtaEnv φ := ⟨dev.past, fate, api⟩

def Device.step (api : OtaApi φ) (fate : Nat → Fate) (dev : Device φ) : DevEvent φ → Device φ
  | .recv e  => { dev with srv := Tftp.step (otaServer (dev.env api fate)) dev.srv e }
  | .reset c => dev.reset c

def live (api : OtaApi φ) (fate : Nat → Fate) (dev : Device φ) (events : List (DevEvent φ)) : Device φ :=
  events.foldl (Device.step api fate) dev

/-! ## The register -/

/-- **What the next boot finds** behind these saves, when it found `init` before them. -/
def cellOf (fate : Nat → Fate) (init : Option (List UInt8)) (saved : List Saved) : Option (List UInt8) :=
  saved.zipIdx.foldl (fun old r => r.1.leaves (fate r.2) old) init

theorem cellOf_append (fate : Nat → Fate) (init : Option (List UInt8)) (saved : List Saved) (r : Saved) :
    cellOf fate init (saved ++ [r]) = r.leaves (fate saved.length) (cellOf fate init saved) := by
  rw [cellOf, List.zipIdx_append, List.foldl_append, Nat.zero_add]
  rfl

/-- **The sessions' saves, one after another**, from one store to another: of the bytes that a config upload brought, each
on the store that the one before it left, or that a reset found on its flash; and none of a firmware upload.  The number is
that of the next save. -/
inductive SavedBy (api : OtaApi φ) (fate : Nat → Fate) :
    Nat → Setup → List (Session (Ota φ)) → List Saved → Setup → Prop
  | nil (i : Nat) (d : Setup) : SavedBy api fate i d [] [] d
  | config {i : Nat} {d d' : Setup} {session : Session (Ota φ)} {sessions : List (Session (Ota φ))} {r : Saved}
      {saved : List Saved} (hjob : session.job.isUpload)
      (hr : r = (saveCall session.job (taken session.blocks)).run (fate i) d)
      (rest : SavedBy api fate (i + 1) r.dev sessions saved d') : SavedBy api fate i d (session :: sessions) (r :: saved) d'
  | firmware {i : Nat} {d d' : Setup} {session : Session (Ota φ)} {sessions : List (Session (Ota φ))} {saved : List Saved}
      (handle : Nat) (fw : φ) (h : FirmwareOf api session handle fw) (rest : SavedBy api fate i d sessions saved d') :
      SavedBy api fate i d (session :: sessions) saved d'
  | reset {i : Nat} {d d' : Setup} {sessions : List (Session (Ota φ))} {saved : List Saved} (load : LoadEnv) (past : Ptr)
      (rest : SavedBy api fate i (wifiInit past (loadConfig load past (boot d.flash))).setup sessions saved d') :
      SavedBy api fate i d sessions saved d'

theorem savedBy_append {api : OtaApi φ} {fate : Nat → Fate} {i : Nat} {d mid d' : Setup}
    {sessions sessions' : List (Session (Ota φ))} {saved saved' : List Saved} (h : SavedBy api fate i d sessions saved mid)
    (h' : SavedBy api fate (i + saved.length) mid sessions' saved' d') :
    SavedBy api fate i d (sessions ++ sessions') (saved ++ saved') d' := by
  induction h with
  | nil i d => exact h'
  | config hjob hr rest ih =>
    refine .config hjob hr (ih ?_)
    rwa [List.length_cons, Nat.add_comm _ 1, ← Nat.add_assoc] at h'
  | firmware handle fw h rest ih => exact .firmware handle fw h (ih h')
  | reset load past rest ih => exact .reset load past (ih h')

/-- The saves that the sessions of a step or a run made. -/
theorem outcomes_savedBy {env : OtaEnv φ} {sessions : List (Session (Ota φ))} {store store' : Setup × List Saved}
    (h : Outcomes env store sessions store') :
    ∃ saved, store'.2 = store.2 ++ saved ∧ SavedBy env.api env.fate store.2.length store.1 sessions saved store'.1 := by
  induction sessions generalizing store with
  | nil =>
    cases (h : store' = store)
    exact ⟨[], (List.append_nil _).symm, .nil _ _⟩
  | cons session rest ih =>
    obtain ⟨mid, hout, hrest⟩ := h
    obtain ⟨saved, hsaved, hkept⟩ := ih hrest
    cases hout with
    | config d before _ r hjob hr =>
      refine ⟨r :: saved, by rw [hsaved, List.append_assoc]; rfl, .config hjob hr ?_⟩
      rwa [List.length_append] at hkept
    | firmware handle fw _ _ hfw => exact ⟨saved, hsaved, .firmware handle fw hfw hkept⟩

/-- **The invariant of a life**, for the store and the saves so far. -/
structure Register (past : Ptr) (fate : Nat → Fate) (init : Option (List UInt8)) (store : Setup × List Saved) :
    Prop where
  sound : Sound past store.1
  cell : selected past store.1.flash = cellOf fate init store.2
  erased : ∀ r ∈ store.2, ∀ op ∈ r.ops, op.OnErased

section

variable {past : Ptr} {fate : Nat → Fate} {init : Option (List UInt8)} {api : OtaApi φ}

/-- **A save of a session** keeps the register. -/
theorem Register.save {d : Setup} {saved : List Saved} {r : Saved} (h : Register past fate init (d, saved)) {job : Job}
    {bytes : List UInt8} (hr : r = (saveCall job bytes).run (fate saved.length) d)
    (hok : (fate saved.length).eraseOk = true) (hlasts : ∀ op ∈ r.ops, op.Lasts) :
    Register past fate init (r.dev, saved ++ [r]) := by
  obtain ⟨hsound, herased, hsel⟩ : Sound past r.dev ∧ (∀ op ∈ r.ops, op.OnErased) ∧
      selected past r.dev.flash = r.leaves (fate saved.length) (selected past d.flash) := by
    subst hr
    unfold saveCall at hlasts ⊢
    split
    · rw [if_pos ‹_›] at hlasts
      exact image_leaves h.sound hok hlasts
    · rw [if_neg ‹_›] at hlasts
      have hops := full_not_lasts hok hlasts
      rw [SaveCall.run, Saved.leaves, hops, dev_saveConfigFull hops]
      exact ⟨h.sound, fun op hop => (by cases hop), rfl⟩
  refine ⟨hsound, ?_, fun r' hr' => ?_⟩
  · rw [hsel, h.cell, cellOf_append]
  · rcases List.mem_append.1 hr' with hr' | hr'
    · exact h.erased r' hr'
    · obtain rfl := List.mem_singleton.1 hr'
      exact herased

/-- The ends of sessions keep the register. -/
theorem Register.outcomes (env : OtaEnv φ) {sessions : List (Session (Ota φ))} {store store' : Setup × List Saved}
    (h : Register past env.fate init store) (herase : ∀ i, (env.fate i).eraseOk = true)
    (hout : Outcomes env store sessions store') (hlasts : ∀ r ∈ store'.2, ∀ op ∈ r.ops, op.Lasts) :
    Register past env.fate init store' := by
  induction sessions generalizing store with
  | nil =>
    cases (hout : store' = store)
    exact h
  | cons session rest ih =>
    obtain ⟨mid, hone, hrest⟩ := hout
    refine ih ?_ hrest
    obtain ⟨more, hmore, -⟩ := outcomes_savedBy hrest
    cases hone with
    | config d saved _ r hjob hr =>
      refine h.save hr (herase _) (hlasts r ?_)
      rw [hmore]
      exact List.mem_append_left _ (List.mem_append_right _ (List.mem_singleton_self _))
    | firmware => exact h

end

/-! ## The life -/

section

variable {past : Ptr} {fate : Nat → Fate} {init : Option (List UInt8)} {api : OtaApi φ}

/-- The sessions that ended since, and their saves. -/
structure Since (api : OtaApi φ) (fate : Nat → Fate) (dev dev' : Device φ) (sessions : List (Session (Ota φ)))
    (saved : List Saved) : Prop where
  ends : ended dev'.srv.hist = ended dev.srv.hist ++ sessions
  saves : dev'.saved = dev.saved ++ saved
  kept : SavedBy api fate dev.saved.length dev.srv.app.setup sessions saved dev'.srv.app.setup

theorem Since.refl (dev : Device φ) : Since api fate dev dev [] [] :=
  ⟨(List.append_nil _).symm, (List.append_nil _).symm, .nil _ _⟩

theorem Since.reset (c : Chance φ) (dev : Device φ) : Since api fate dev (dev.reset c) [] [] :=
  ⟨(List.append_nil _).symm, (List.append_nil _).symm, .reset c.load c.past (.nil _ _)⟩

theorem Since.trans {dev dev' dev'' : Device φ} {sessions sessions' : List (Session (Ota φ))} {saved saved' : List Saved}
    (h : Since api fate dev dev' sessions saved) (h' : Since api fate dev' dev'' sessions' saved') :
    Since api fate dev dev'' (sessions ++ sessions') (saved ++ saved') := by
  refine ⟨?_, ?_, savedBy_append h.kept ?_⟩
  · rw [h'.ends, h.ends, List.append_assoc]
  · rw [h'.saves, h.saves, List.append_assoc]
  · have hkept := h'.kept
    rwa [h.saves, List.length_append] at hkept

/-- A session that a reset cuts off is not ended, and saves nothing. -/
theorem inUpdate_reset (env : OtaEnv φ) (c : Chance φ) (dev : Device φ) : InUpdate env (dev.reset c).srv := by
  cases hstarted : c.started with
  | true => exact inUpdate_idle _ (by rw [Device.reset, hstarted]; rfl)
  | false =>
    have hmode : (dev.reset c).srv.mode = .hung := by rw [Device.reset, hstarted]; rfl
    constructor
    · intro n hn
      cases hmode.symm.trans hn
    · intro n r hn
      cases hmode.symm.trans hn

/-- **One event**: the saves are those of the sessions that end. -/
theorem step_since {dev : Device φ} (h : InUpdate (dev.env api fate) dev.srv) (event : DevEvent φ) :
    InUpdate ((dev.step api fate event).env api fate) (dev.step api fate event).srv ∧
      ∃ sessions saved, Since api fate dev (dev.step api fate event) sessions saved := by
  cases event with
  | recv e =>
    obtain ⟨sessions, hended, hout, -⟩ := step_outcome h e
    obtain ⟨saved, hsaved, hkept⟩ := outcomes_savedBy hout
    exact ⟨InSession.step (gathered_carries (dev.env api fate)) (sends_feeds _) h e, sessions, saved, hended, hsaved, hkept⟩
  | reset c => exact ⟨inUpdate_reset _ c dev, [], [], .reset c dev⟩

/-- **One event keeps the register.** -/
theorem Register.step {dev : Device φ} (h : Register past fate init dev.srv.app.store)
    (hin : InUpdate (dev.env api fate) dev.srv) (herase : ∀ i, (fate i).eraseOk = true) (event : DevEvent φ)
    (hlasts : ∀ r ∈ (dev.step api fate event).saved, ∀ op ∈ r.ops, op.Lasts) :
    Register past fate init (dev.step api fate event).srv.app.store := by
  cases event with
  | recv e =>
    obtain ⟨sessions, -, hout, -⟩ := step_outcome hin e
    exact Register.outcomes (dev.env api fate) h herase hout hlasts
  | reset c =>
    obtain ⟨hsound, hflash⟩ := h.sound.reset c.load c.past
    exact ⟨hsound, (congrArg (selected past) hflash).trans h.cell, h.erased⟩

/-- **A whole life**: what it saves, and the register. -/
theorem live_since (past : Ptr) (init : Option (List UInt8)) {dev : Device φ}
    (hin : InUpdate (dev.env api fate) dev.srv) (herase : ∀ i, (fate i).eraseOk = true)
    (events : List (DevEvent φ)) :
    InUpdate ((live api fate dev events).env api fate) (live api fate dev events).srv ∧
      (∃ sessions saved, Since api fate dev (live api fate dev events) sessions saved) ∧
      (Register past fate init dev.srv.app.store →
        (∀ r ∈ (live api fate dev events).saved, ∀ op ∈ r.ops, op.Lasts) →
        Register past fate init (live api fate dev events).srv.app.store) := by
  induction events using List.reverseRecOn with
  | nil => exact ⟨hin, ⟨[], [], .refl dev⟩, fun h _ => h⟩
  | append_singleton events event ih =>
    obtain ⟨hmid, ⟨sessions, saved, hsince⟩, hreg⟩ := ih
    obtain ⟨hnext, sessions', saved', hsince'⟩ := step_since hmid event
    rw [live, List.foldl_append]
    refine ⟨hnext, ⟨_, _, hsince.trans hsince'⟩, fun h hlasts => ?_⟩
    refine (hreg h (fun r hr => hlasts r ?_)).step hmid herase event hlasts
    rw [show (List.foldl (Device.step api fate) (List.foldl (Device.step api fate) dev events) [event]).saved = _ from
      hsince'.saves]
    exact List.mem_append_left _ hr

end

/-- A reset in which everything works. -/
def goodReset : Chance Unit :=
  { load := .working, started := true, past := fun _ => 0, buffer := Buffer.fill _ 0, dataSize := 0, client := 0,
    curPtr := 0, fw := () }

/-- An upload, and a reset behind it. -/
def uploadThenReset : List (DevEvent Unit) :=
  [.recv (.packet 1 (xrqPacket TFTP_CMD_WRQ cfgName)), .recv (.packet 1 (dataBytes 1 smallImage)), .reset goodReset]

/-- The device, new from the factory. -/
def factoryDevice : Device Unit := ⟨stockServer (boot NorFlash.erased) [], fun _ => 0⟩

end Tftp

end Mstd
