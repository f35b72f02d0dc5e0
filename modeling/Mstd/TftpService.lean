import Mstd.TftpDownload
import Mstd.TftpReturns
import Mstd.TftpSaves
import Mstd.WifiInit
/-!
# Back in service

Nothing that the server does changes the RAM that it answers read requests from (`ram_keeps`).  So whatever datagrams it
has had, once it is between sessions again it serves what the boot left (`back_in_service`); three timeouts bring it
there, unless it has been stopped by a firmware, or got stuck.
-/
namespace Mstd.Tftp

open ByteMem (Ptr)

variable {φ : Type}

/-- The config in RAM. -/
structure SameRam (d d' : Setup) : Prop where
  config : d'.config = d.config
  cfgSize : d'.cfgSize = d.cfgSize
  cfgFull : d'.cfgFull = d.cfgFull
  cfgFullLoaded : d'.cfgFullLoaded = d.cfgFullLoaded

namespace SameRam

variable {d d' d'' : Setup}

theorem refl (d : Setup) : SameRam d d := ⟨rfl, rfl, rfl, rfl⟩

theorem trans (h : SameRam d d') (h' : SameRam d' d'') : SameRam d d'' :=
  ⟨h'.config.trans h.config, h'.cfgSize.trans h.cfgSize, h'.cfgFull.trans h.cfgFull,
    h'.cfgFullLoaded.trans h.cfgFullLoaded⟩

theorem run (h : SameRam d d') (fate : Fate) (call : SaveCall) : SameRam d (call.run fate d').dev := by
  obtain ⟨h1, h2, h3, h4⟩ := ram_run fate d' call
  exact h.trans ⟨h1, h2, h3, h4⟩

/-- The files are read from RAM. -/
theorem fileOf (h : SameRam d d') (past : Ptr) (job : Job) : fileOf past d' job = fileOf past d job := by
  unfold Tftp.fileOf Job.source
  rw [h.config, h.cfgSize, h.cfgFull, h.cfgFullLoaded]

end SameRam

/-- **The server keeps the config in RAM.** -/
theorem ram_keeps (env : OtaEnv φ) (d : Setup) : (otaServer env).Keeps (fun app => SameRam d app.setup) where
  onRestart _ h _ := h
  onWrite file app h := by
    have hsetup := congrArg Prod.fst ((store_closesOnly env).onWrite file app)
    exact (show ((otaServer env).onWrite file app).2.setup = app.setup from hsetup) ▸ h
  onRead file app h := by
    have hsetup := congrArg Prod.fst ((store_closesOnly env).onRead file app)
    exact (show ((otaServer env).onRead file app).2.setup = app.setup from hsetup) ▸ h
  onWriteData buffer len app ret app' h hw := by
    have hsetup := congrArg Prod.fst ((store_closesOnly env).onWriteData buffer len app ret app' hw)
    exact (show app'.setup = app.setup from hsetup) ▸ h
  onReadData app ret data app' h hr := by
    have hsetup := congrArg Prod.fst ((store_closesOnly env).onReadData app ret data app' hr)
    exact (show app'.setup = app.setup from hsetup) ▸ h
  onClose app app' h hc := by
    have hsaved (call : SaveCall) :
        SameRam d (afterSave (call.run (env.fate app.saved.length) app.setup) app).setup := by
      rw [(afterSave_fields _ _).1]
      exact h.run _ call
    have hclose : onClose env app = some app' := hc
    cases hjob : app.job with
    | loadFW =>
      have hsetup := congrArg Prod.fst (store_firmware hjob hclose)
      exact (show app'.setup = app.setup from hsetup) ▸ h
    | loadCfg =>
      rw [onClose, hjob] at hclose
      cases hclose
      exact hsaved (.image _)
    | loadFCfg =>
      rw [onClose, hjob] at hclose
      cases hclose
      exact hsaved (.full _)
    | none | sendCfg | sendFCfg =>
      rw [onClose, hjob] at hclose
      cases hclose
      exact h

/-- **A server that serves the config in the RAM of `d`**: a loss-free download brings it, no network brings anything
else, and an upload is saved. -/
structure InService (env : OtaEnv φ) (d : Setup) (t : Srv (Ota φ)) : Prop where
  idle : t.mode = .idle
  config : ∀ c, brought env t c cfgName d.cfgSize = d.configBytes env.past
  full : d.cfgFullLoaded = true → ∀ c, brought env t c fullName MAX_CFG_SIZE = some (flashBytes d.cfgFull)
  download : ∀ host device name ds, 0 ∉ name → name.length ≤ 500 →
    (downloadRun env host device t name ds).left.progress = .returned →
      fileOf env.past d (jobOfName name false) = some (downloadRun env host device t name ds).left.result
  upload : ∀ c data,
    let r := (SaveCall.image (data.take MAX_CFG_SIZE)).run (env.fate t.app.saved.length) t.app.setup
    Rests (run (otaServer env) t (.packet c (xrqPacket TFTP_CMD_WRQ cfgName) :: dataPackets c 1 data)) r.dev
      (t.app.saved ++ [r])

theorem inService_of_idle (env : OtaEnv φ) {d : Setup} {t : Srv (Ota φ)} (hidle : t.mode = .idle)
    (hram : SameRam d t.app.setup) (hsize : d.cfgSize ≤ MAX_CFG_SIZE) : InService env d t := by
  have hrests : Rests t t.app.setup t.app.saved := ⟨hidle, rfl, rfl⟩
  have hsize' : t.app.setup.cfgSize ≤ MAX_CFG_SIZE := hram.cfgSize ▸ hsize
  refine ⟨hidle, fun c => ?_, fun hloaded c => ?_, fun host device name ds h0 hlen hret => ?_, fun c data => ?_⟩
  · have hread := (run_download env hrests hsize' c).2
    rw [hram.cfgSize, Setup.configBytes, hram.config, hram.cfgSize, hram.cfgFull] at hread
    exact hread
  · have hfile : fileOf env.past t.app.setup (jobOfName fullName false) = some (flashBytes d.cfgFull) := by
      rw [hram.fileOf, show jobOfName fullName false = .sendFCfg by decide, fileOf, Job.source, if_pos hloaded,
        Option.map_some, window_flashBytes]
    have hread := run_read env hrests fullName (by decide) (by decide) (Nat.le_refl MAX_CFG_SIZE) (fun bytes hb => by
      rw [hfile] at hb
      rw [← Option.some.inj hb, length_flashBytes]) c
    rw [hfile] at hread
    exact hread.2
  · rw [← hram.fileOf]
    exact (downloadRun_file env host device hidle hsize' h0 hlen ds).2 hret
  · have hjob : jobOfName cfgName true = .loadCfg := by decide
    have haccept : 0 ≤ (onWrite env cfgName t.app).1 := Int.le_refl 0
    have hup := run_upload hrests c (show 0 ∉ cfgName by decide) (by decide) haccept
      (show (jobOfName cfgName true).isUpload from .inl hjob) data
    rw [hjob] at hup
    exact hup

/-- **The server comes back into service.**  Whatever datagrams a server had, in any mode, when it neither spun nor left a
buffer: three timeouts later it has been stopped by a firmware, or it serves the config that was in RAM at the start. -/
theorem back_in_service (env : OtaEnv φ) (s : Srv (Ota φ)) (hbounded : Bounded s.app) (hmode : ¬ s.mode.Stuck)
    (es : List Recv)
    (hregular : Throughout (fun s e => ¬ Spins (otaServer env) s e ∧ ¬ Leaves env s e) (otaServer env) s es) (k : Nat) :
    (run (otaServer env) s (es ++ List.replicate (k + 3) .timeout)).mode = .stopped ∨
      InService env s.app.setup (run (otaServer env) s (es ++ List.replicate (k + 3) .timeout)) := by
  have hram : SameRam s.app.setup (run (otaServer env) s (es ++ List.replicate (k + 3) .timeout)).app.setup :=
    run_keeps (I := fun (t : Srv (Ota φ)) => SameRam s.app.setup t.app.setup)
      (fun _ e h => (ram_keeps env s.app.setup).step h e) (SameRam.refl _) _
  have hreturned : (run (otaServer env) s (es ++ List.replicate (k + 3) .timeout)).mode.Returned := by
    rw [run_append]
    refine run_silence _ (fun hstuck => (run_stuck_iff env hbounded hmode es).1 hstuck hregular) ?_
    exact Nat.le_trans (Mode.patience_le _) (Nat.le_add_left 3 k)
  rcases hreturned with hidle | hstopped
  · exact .inr (inService_of_idle env hidle hram hbounded.size)
  · exact .inl hstopped

/-- A download that is given up. -/
theorem back_in_service_read :
    (run (otaServer stockEnv) servedServer
      ([.packet 1 (xrqPacket TFTP_CMD_RRQ cfgName)] ++ List.replicate 3 .timeout)).mode = .stopped ∨
    InService stockEnv servedStore (run (otaServer stockEnv) servedServer
      ([.packet 1 (xrqPacket TFTP_CMD_RRQ cfgName)] ++ List.replicate 3 .timeout)) :=
  back_in_service stockEnv servedServer (bounded_start (by decide) rfl) (by rintro (h | h) <;> cases h)
    [.packet 1 (xrqPacket TFTP_CMD_RRQ cfgName)]
    (by
      refine ⟨⟨?_, ?_⟩, trivial⟩
      · rintro ⟨⟨n, h⟩, -⟩
        cases h
      · unfold Leaves
        decide +kernel) 0

end Mstd.Tftp
