import Mstd.TftpSession
/-!
# Uploads and downloads between two resets

A download serves `config`, which only `load_config` sets; an upload changes the flash alone.  So the two agree as long
as every upload leaves the config in RAM selected (`reads_back`), and no longer.
-/
namespace Mstd.Tftp

open ByteMem (Ptr Buffer window)
open NorFlash (mem program erased)
open Relation (ReflTransGen)
open StateTransition (Reaches)

variable {φ : Type}

/-- A session of a client without losses. -/
inductive Transfer where
  | upload (c : Addr) (full : Bool) (data : List UInt8)
  | download (c : Addr)

def uploadName (full : Bool) : List UInt8 := if full then ascii "full.cfg" else cfgName

def Transfer.events (d : Setup) : Transfer → List Recv
  | .upload c full data => .packet c (xrqPacket TFTP_CMD_WRQ (uploadName full)) :: dataPackets c 1 data
  | .download c         => downloadEvents c d.cfgSize

def runTransfer (env : OtaEnv φ) (s : Srv (Ota φ)) (t : Transfer) : Srv (Ota φ) :=
  run (otaServer env) s (t.events s.app.setup)

/-- What the client has after the session, when it is a download. -/
def downloaded (env : OtaEnv φ) (s : Srv (Ota φ)) (t : Transfer) : Option (List UInt8) :=
  readResult ((runTransfer env s t).out.drop s.out.length)

/-- The session is an upload whose save returned `NULL`. -/
def Transfer.Stored (env : OtaEnv φ) (s : Srv (Ota φ)) : Transfer → Prop
  | .upload c full data =>
    ∃ r, (runTransfer env s (.upload c full data)).app.saved = s.app.saved ++ [r] ∧ r.err = none
  | .download _ => False

/-- **Read your writes**: a download behind a stored upload brings what `load_config` would select. -/
def ReadsBack (env : OtaEnv φ) (stored : Prop) (s : Srv (Ota φ)) : List Transfer → Prop
  | []      => True
  | t :: ts =>
    (∀ c, t = .download c → stored → downloaded env s t = selected env.past s.app.setup.flash) ∧
      ReadsBack env (stored ∨ t.Stored env s) (runTransfer env s t) ts

/-- The call an upload of `data` ends in. -/
def uploadCall (full : Bool) (data : List UInt8) : SaveCall :=
  saveCall (jobOfName (uploadName full) true) (data.take MAX_CFG_SIZE)

/-- The upload leaves the config in RAM selected. -/
def Transfer.Keeps (env : OtaEnv φ) (s : Srv (Ota φ)) : Transfer → Prop
  | .upload _ full data => (uploadCall full data).Keeps env.past (env.fate s.app.saved.length) s.app.setup
  | .download _         => True

def AllKeep (env : OtaEnv φ) (s : Srv (Ota φ)) : List Transfer → Prop
  | []      => True
  | t :: ts => t.Keeps env s ∧ AllKeep env (runTransfer env s t) ts

/-- **A good server**: it is between sessions, the partition is loaded, and `config` is what the flash selects. -/
structure Serving (env : OtaEnv φ) (s : Srv (Ota φ)) : Prop where
  idle : s.mode = .idle
  loaded : s.app.setup.cfgFullLoaded = true
  fits : s.app.setup.cfgSize ≤ MAX_CFG_SIZE
  agrees : selected env.past s.app.setup.flash = s.app.setup.configBytes env.past

/-- After a load the server is good, whatever the partition holds. -/
theorem serving_reload (env : OtaEnv φ) {s : Srv (Ota φ)} (F : Flash) (hidle : s.mode = .idle)
    (hload : s.app.setup = reload env.past F) : Serving env s := by
  refine ⟨hidle, ?_, ?_, ?_⟩
  · rw [hload]; rfl
  · rw [hload]; exact reload_fits env.past F
  · rw [hload]; rfl

/-! ## One session -/

theorem ram_run (fate : Fate) (d : Setup) (call : SaveCall) :
    (call.run fate d).dev.config = d.config ∧ (call.run fate d).dev.cfgSize = d.cfgSize ∧
      (call.run fate d).dev.cfgFull = d.cfgFull ∧ (call.run fate d).dev.cfgFullLoaded = d.cfgFullLoaded := by
  have hwrite : ∀ (d' : Setup) (image : List UInt8) (ops : List FlashOp),
      (writeImage fate d' image ops).dev.config = d'.config ∧ (writeImage fate d' image ops).dev.cfgSize = d'.cfgSize ∧
        (writeImage fate d' image ops).dev.cfgFull = d'.cfgFull ∧
        (writeImage fate d' image ops).dev.cfgFullLoaded = d'.cfgFullLoaded := by
    intro d' image ops
    unfold writeImage
    split <;> exact ⟨rfl, rfl, rfl, rfl⟩
  cases call with
  | image img =>
    simp only [SaveCall.run, saveConfigImage]
    split
    · exact ⟨rfl, rfl, rfl, rfl⟩
    · split
      · exact ⟨rfl, rfl, rfl, rfl⟩
      · unfold storeImage
        split
        · split
          · exact hwrite _ _ _
          · exact ⟨rfl, rfl, rfl, rfl⟩
        · exact hwrite _ _ _
  | full X =>
    simp only [SaveCall.run, saveConfigFull]
    split
    · exact ⟨rfl, rfl, rfl, rfl⟩
    · split
      · exact ⟨rfl, rfl, rfl, rfl⟩
      · split <;> exact ⟨rfl, rfl, rfl, rfl⟩

theorem configBytes_run (past : Ptr) (fate : Fate) (d : Setup) (call : SaveCall) :
    (call.run fate d).dev.configBytes past = d.configBytes past := by
  obtain ⟨h1, h2, h3, -⟩ := ram_run fate d call
  rw [Setup.configBytes, h1, h2, h3, Setup.configBytes]

section

variable {env : OtaEnv φ} {s : Srv (Ota φ)}

theorem Serving.rests (h : Serving env s) : Rests s s.app.setup s.app.saved := ⟨h.idle, rfl, rfl⟩

/-- The server takes an upload, and makes one save of it. -/
theorem Serving.upload (h : Serving env s) (c : Addr) (full : Bool) (data : List UInt8) :
    Rests (runTransfer env s (.upload c full data))
      ((uploadCall full data).run (env.fate s.app.saved.length) s.app.setup).dev
      (s.app.saved ++ [(uploadCall full data).run (env.fate s.app.saved.length) s.app.setup]) := by
  have haccept : 0 ≤ (onWrite env (uploadName full) s.app).1 := by
    cases full with
    | false => exact Int.le_refl 0
    | true =>
      show 0 ≤ (if s.app.setup.cfgFullLoaded then ((0 : Int), _) else (-1, _)).1
      rw [if_pos h.loaded]
  have hname : 0 ∉ uploadName full ∧ (uploadName full).length ≤ 500 := by
    cases full <;> decide
  have hjob : (jobOfName (uploadName full) true).isUpload := by
    cases full
    · exact Or.inl (by decide)
    · exact Or.inr (by decide)
  exact run_upload h.rests c hname.1 hname.2 haccept hjob data

/-- A download brings the config in RAM. -/
theorem Rests.download (env : OtaEnv φ) {s : Srv (Ota φ)} {d : Setup} {saved : List Saved} (hs : Rests s d saved)
    (hfits : d.cfgSize ≤ MAX_CFG_SIZE) (c : Addr) : Rests (runTransfer env s (.download c)) d saved ∧
      downloaded env s (.download c) = d.configBytes env.past := by
  rw [downloaded, runTransfer, Transfer.events, hs.setup]
  exact run_download env hs hfits c

/-- **One session** keeps the server good, and a download brings what the flash selects. -/
theorem Serving.transfer (h : Serving env s) {t : Transfer} (hkeeps : t.Keeps env s) :
    Serving env (runTransfer env s t) ∧
      ∀ c, t = .download c → downloaded env s t = selected env.past s.app.setup.flash := by
  cases t with
  | upload c full data =>
    have hrest := h.upload c full data
    refine ⟨⟨hrest.idle, ?_, ?_, ?_⟩, fun _ he => nomatch he⟩
    · rw [hrest.setup, (ram_run _ _ _).2.2.2]; exact h.loaded
    · rw [hrest.setup, (ram_run _ _ _).2.1]; exact h.fits
    · rw [hrest.setup, configBytes_run]
      exact (selected_run_iff (Or.inl hkeeps) h.agrees).2 hkeeps
  | download c =>
    obtain ⟨hrest, hresult⟩ := h.rests.download env h.fits c
    refine ⟨⟨hrest.idle, ?_, ?_, ?_⟩, fun c' he => ?_⟩
    · rw [hrest.setup]; exact h.loaded
    · rw [hrest.setup]; exact h.fits
    · rw [hrest.setup]; exact h.agrees
    · rw [hresult, h.agrees]

/-- What a download brings behind an upload: the config from before it. -/
theorem Serving.downloaded_upload (h : Serving env s) (c c' : Addr) (full : Bool) (data : List UInt8) :
    downloaded env (runTransfer env s (.upload c full data)) (.download c') = s.app.setup.configBytes env.past ∧
      (runTransfer env s (.upload c full data)).app.setup.flash =
        ((uploadCall full data).run (env.fate s.app.saved.length) s.app.setup).dev.flash := by
  have hrest := h.upload c full data
  have hfits : ((uploadCall full data).run (env.fate s.app.saved.length) s.app.setup).dev.cfgSize ≤ MAX_CFG_SIZE := by
    rw [(ram_run _ _ _).2.1]; exact h.fits
  refine ⟨?_, by rw [hrest.setup]⟩
  rw [(hrest.download env hfits c').2, configBytes_run]

end

/-! ## Runs -/

theorem AllKeep.readsBack {env : OtaEnv φ} {s : Srv (Ota φ)} (h : Serving env s) (stored : Prop) {ts : List Transfer}
    (hkeep : AllKeep env s ts) : ReadsBack env stored s ts := by
  induction ts generalizing s stored with
  | nil => trivial
  | cons t ts ih =>
    obtain ⟨hserving, hdown⟩ := h.transfer hkeep.1
    exact ⟨fun c hc _ => hdown c hc, ih hserving _ hkeep.2⟩

/-- **When uploads are read back.**  In a run whose uploads all leave the config in RAM selected every download brings
what the flash selects; and behind a single upload to a good store a download does so only if that upload does. -/
theorem reads_back (env : OtaEnv φ) (s : Srv (Ota φ)) (hserving : Serving env s) :
    (∀ ts, AllKeep env s ts → ReadsBack env False s ts) ∧
    ∀ c c' full data, Good env.past s.app.setup →
      (downloaded env (runTransfer env s (.upload c full data)) (.download c') =
          selected env.past (runTransfer env s (.upload c full data)).app.setup.flash ↔
        (Transfer.upload c full data).Keeps env s) := by
  refine ⟨fun ts => AllKeep.readsBack hserving False, fun c c' full data hgood => ?_⟩
  obtain ⟨hdown, hflash⟩ := hserving.downloaded_upload c c' full data
  rw [hdown, hflash, eq_comm]
  exact selected_run_iff (Or.inr hgood) hserving.agrees

/-- A store that has loaded the small image, and the server on it. -/
def servedStore : Setup :=
  { flash := program erased 0 (savedImage smallImage), cfgPat := true, cfgFull := program erased 0 (savedImage smallImage),
    cfgFullLoaded := true, config := some 0, cfgSize := 108, nextCfgShift := 108 }

def servedServer : Srv (Ota Unit) := { stockServer servedStore [] with mode := .idle }

/-- The small image with another version. -/
def otherImage : List UInt8 := [0xFF, 0xFF, 0xFF, 0xFF, 0x1A, 0x00, 0x02] ++ List.replicate 101 0x00

theorem accepted_smallImage : Accepted (savedImage smallImage) :=
  (accepted_savedImage_iff smallImage).2 (by decide)

theorem accepted_otherImage : Accepted (savedImage otherImage) :=
  (accepted_savedImage_iff otherImage).2 (by decide)

theorem length_smallImage : (savedImage smallImage).length = 108 := length_savedImage (by decide)

theorem servedStore_atEnd : AtEnd servedStore (savedImage smallImage) 0 :=
  atEnd_program (NorFlash.erasedFrom_erased 0)
    (ReflTransGen.refl : Reaches (nextFrame (mem erased (fun _ => 0))) 0 0) accepted_smallImage
    (by rw [imageCrc_savedImage]; exact smallImage_crc) (by rw [length_smallImage]; decide) rfl
    (by rw [length_smallImage]; rfl)

theorem servedServer_serving : Serving stockEnv servedServer where
  idle := rfl
  loaded := rfl
  fits := by decide
  agrees := by
    refine (servedStore_atEnd.selected _).1.trans ?_
    have hbytes := servedStore_atEnd.bytes stockEnv.past
    rw [length_smallImage] at hbytes
    exact congrArg some hbytes.symm

/-- What an upload of an image to this store needs to be read back. -/
theorem keeps_image {data : List UInt8} (c : Addr) (hacc : Accepted (savedImage data))
    (hlen : (savedImage data).length = 108) :
    (Transfer.upload c false data).Keeps stockEnv servedServer ↔
      (Selectable (savedImage data) → some (savedImage data) = servedStore.configBytes stockEnv.past) := by
  have htake : data.take MAX_CFG_SIZE = data := by
    refine List.take_of_length_le ?_
    rw [← length_savedImage (four_le_of_accepted hacc)]
    exact hacc.le_max
  have hfit : ¬ (servedStore.nextCfgShift < 0 ∨ servedStore.nextCfgShift + (savedImage data).length > MAX_CFG_SIZE) := by
    rw [hlen]; decide
  show (SaveCall.image (data.take MAX_CFG_SIZE)).Keeps stockEnv.past .working servedStore ↔ _
  rw [htake, SaveCall.Keeps, if_neg hfit]
  exact ⟨fun h => (h rfl hacc).2, fun h _ _ => ⟨servedStore_atEnd.good rfl _, h⟩⟩

theorem stored_image {data : List UInt8} (c : Addr) (hacc : Accepted (savedImage data)) :
    (Transfer.upload c false data).Stored stockEnv servedServer := by
  have htake : data.take MAX_CFG_SIZE = data := by
    refine List.take_of_length_le ?_
    rw [← length_savedImage (four_le_of_accepted hacc)]
    exact hacc.le_max
  refine ⟨_, (servedServer_serving.upload c false data).saved, ?_⟩
  show (saveConfigImage .working servedStore (data.take MAX_CFG_SIZE)).err = none
  rw [htake, saveConfigImage_accepted rfl hacc, storeImage_working]

theorem configBytes_served : servedStore.configBytes stockEnv.past = some (savedImage smallImage) := by
  rw [← show selected stockEnv.past servedStore.flash = servedStore.configBytes stockEnv.past from
    servedServer_serving.agrees]
  exact (servedStore_atEnd.selected _).1

/-- An update of the config is not in the next download. -/
theorem update_not_read_back :
    ¬ ∀ (env : OtaEnv Unit) (s : Srv (Ota Unit)) (ts : List Transfer), Serving env s → Good env.past s.app.setup →
      ReadsBack env False s ts := by
  intro h
  have hread := h stockEnv servedServer [.upload 1 false otherImage, .download 1] servedServer_serving
    (servedStore_atEnd.good rfl _)
  have hdown := hread.2.1 1 rfl (Or.inr (stored_image 1 accepted_otherImage))
  obtain ⟨hold, hflash⟩ := servedServer_serving.downloaded_upload 1 1 false otherImage
  rw [hold, hflash, eq_comm] at hdown
  have hkeeps := (selected_run_iff (Or.inr (servedStore_atEnd.good rfl stockEnv.past)) servedServer_serving.agrees).1 hdown
  have hsame := (keeps_image 1 accepted_otherImage (by decide +kernel)).1 hkeeps (by decide +kernel)
  rw [configBytes_served] at hsame
  exact absurd hsame (by decide +kernel)

/-- An upload of the config in RAM is. -/
theorem reads_back_same :
    downloaded stockEnv (runTransfer stockEnv servedServer (.upload 1 false smallImage)) (.download 1) =
      selected stockEnv.past (runTransfer stockEnv servedServer (.upload 1 false smallImage)).app.setup.flash := by
  have hkeeps := (keeps_image 1 accepted_smallImage (by decide +kernel)).2 (fun _ => configBytes_served.symm)
  exact ((reads_back stockEnv servedServer servedServer_serving).1 [.upload 1 false smallImage, .download 1]
    ⟨hkeeps, trivial, trivial⟩).2.1 1 rfl (Or.inr (stored_image 1 accepted_smallImage))

end Mstd.Tftp
