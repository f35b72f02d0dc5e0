import Mstd.TftpBounds
import Mstd.TftpClose
/-!
# What the update server hands on

In every run, whatever the datagrams are, each write session that ends is one save of the bytes that its blocks brought,
or its blocks went to `esp_ota_write` one after another, for the handle that `esp_ota_begin` returned
(`saves_received`).  The device restarts only behind an `esp_ota_end` that accepted such a handle (`restart_verified`).
-/
namespace Mstd.Tftp

variable {φ σ : Type}

/-- The bytes of the blocks that `on_write_data` took. -/
def taken (blocks : List Block) : List UInt8 := blocks.flatMap (fun b => if b.ret = -1 then [] else b.data)

theorem taken_append (blocks : List Block) (b : Block) :
    taken (blocks ++ [b]) = taken blocks ++ if b.ret = -1 then [] else b.data := by
  rw [taken, List.flatMap_append, List.flatMap_singleton]
  rfl

/-- **These blocks went to `esp_ota_write`, one after another**, and `on_write_data` returned what it said. -/
def Flashed (api : OtaApi φ) (handle : Nat) : φ → List Block → φ → Prop
  | fw, [], fw'      => fw' = fw
  | fw, b :: bs, fw' =>
    if handle = 0 then b.ret = -1 ∧ Flashed api handle fw bs fw'
    else
      0 ≤ b.len ∧ b.ret = (if (api.otaWrite handle b.data fw).1 then b.len else -1) ∧
        Flashed api handle (api.otaWrite handle b.data fw).2 bs fw'

theorem flashed_append_iff {api : OtaApi φ} {handle : Nat} {fw fw'' : φ} {bs bs' : List Block} :
    Flashed api handle fw (bs ++ bs') fw'' ↔ ∃ fw', Flashed api handle fw bs fw' ∧ Flashed api handle fw' bs' fw'' := by
  induction bs generalizing fw with
  | nil =>
    refine ⟨fun h => ⟨fw, rfl, h⟩, fun ⟨fw', h, h'⟩ => ?_⟩
    cases (h : fw' = fw)
    exact h'
  | cons b bs ih =>
    rw [List.cons_append, Flashed]
    simp only [Flashed]
    split <;> simp only [ih, exists_and_left, and_assoc]

/-- The job that the session was opened for. -/
def Session.job (session : Session (Ota φ)) : Job := jobOfName session.file true

/-- A firmware upload: `esp_ota_begin` returned the handle when the session was asked for, and the driver is in state
`fw'` behind its blocks. -/
structure FirmwareOf (api : OtaApi φ) (session : Session (Ota φ)) (handle : Nat) (fw' : φ) : Prop where
  job : session.job = .loadFW
  begun : ∃ part fw, api.nextPartition session.asked.fw = some part ∧
    api.otaBegin part session.asked.fw = (some handle, fw) ∧ Flashed api handle fw session.blocks fw'

/-- **What a write session of the update server carries.** -/
structure Gathered (env : OtaEnv φ) (s : Ota φ) (session : Session (Ota φ)) : Prop where
  name : s.job = session.job
  job : s.job.isUpload ∨ s.job = .loadFW
  config : s.job.isUpload → Holds s (taken session.blocks) s
  whole : s.job.isUpload → (∀ b ∈ session.blocks, 0 ≤ b.len) → session.payload.length ≤ MAX_CFG_SIZE →
    taken session.blocks = session.payload
  firmware : s.job = .loadFW → FirmwareOf env.api session s.otaHandle s.fw

/-- A read session has a job that sends. -/
def Job.sends (j : Job) : Prop := j = .sendCfg ∨ j = .sendFCfg

/-- What only a save changes. -/
def Ota.store (s : Ota φ) : Setup × List Saved := (s.setup, s.saved)

/-! ## The methods -/

section

variable {env : OtaEnv φ}

theorem Holds.self {base s : Ota φ} {acc : List UInt8} (h : Holds base acc s) : Holds s acc s :=
  ⟨rfl, rfl, rfl, h.ptr, h.le, h.buf⟩

/-- **The firmware branch of `on_write`** accepts a request behind `esp_ota_begin`. -/
theorem onWrite_firmware {file : List UInt8} {s : Ota φ} (hpos : 0 ≤ (onWrite env file s).1)
    (hjob : (onWrite env file s).2.job = .loadFW) (peer : Addr) :
    FirmwareOf env.api (.start peer file s) (onWrite env file s).2.otaHandle (onWrite env file s).2.fw := by
  rw [job_onWrite] at hjob
  refine ⟨hjob, ?_⟩
  unfold onWrite testFileName at hpos ⊢
  simp only [hjob, beginFirmware] at hpos ⊢
  cases hnext : env.api.nextPartition s.fw with
  | none =>
    rw [hnext] at hpos
    exact absurd (show (0 : Int) ≤ -1 from hpos) (by decide)
  | some part =>
    rw [hnext] at hpos
    rcases hbegin : env.api.otaBegin part s.fw with ⟨handle, fw⟩
    simp only [hbegin] at hpos ⊢
    cases handle with
    | none => exact absurd (show (0 : Int) ≤ -1 from hpos) (by decide)
    | some handle => exact ⟨part, fw, hnext, hbegin, rfl⟩

theorem onWrite_refuses {file : List UInt8} {s : Ota φ} (hpos : 0 ≤ (onWrite env file s).1) :
    (onWrite env file s).2.job.isUpload ∨ (onWrite env file s).2.job = .loadFW := by
  rw [job_onWrite]
  unfold onWrite testFileName at hpos
  cases hjob : jobOfName file true with
  | loadCfg => exact Or.inl (Or.inl rfl)
  | loadFCfg => exact Or.inl (Or.inr rfl)
  | loadFW => exact Or.inr rfl
  | none | sendCfg | sendFCfg =>
    simp only [hjob] at hpos
    exact absurd (show (0 : Int) ≤ -1 from hpos) (by decide)

/-- **`on_write_data` for a firmware** hands the block to `esp_ota_write`. -/
theorem writeFirmware_flashed {buffer : List UInt8} {len ret : Int} {s s' : Ota φ}
    (h : writeFirmware env buffer len s = some (ret, s')) :
    s'.job = s.job ∧ s'.store = s.store ∧ s'.otaHandle = s.otaHandle ∧
      ∀ b : Block, b.len = len → b.data = buffer.take len.toNat → b.ret = ret →
        Flashed env.api s.otaHandle s.fw [b] s'.fw := by
  unfold writeFirmware at h
  by_cases hzero : s.otaHandle = 0
  · rw [if_pos hzero] at h
    cases h
    refine ⟨rfl, rfl, rfl, fun b _ _ hret => ?_⟩
    rw [Flashed, if_pos hzero]
    exact ⟨hret, rfl⟩
  · rw [if_neg hzero] at h
    split at h
    · cases h
    · rename_i hneg
      rcases hw : env.api.otaWrite s.otaHandle (buffer.take len.toNat) s.fw with ⟨ok, fw⟩
      rw [hw] at h
      have hflashed : ∀ b : Block, b.len = len → b.data = buffer.take len.toNat → b.ret = (if ok then len else -1) →
          Flashed env.api s.otaHandle s.fw [b] fw := by
        intro b hlen hdata hret
        rw [Flashed, if_neg hzero, hdata, hw, hlen]
        exact ⟨Int.not_lt.1 hneg, hret, rfl⟩
      cases ok with
      | true =>
        cases h
        obtain ⟨h1, h2, h3, -⟩ := incCurPtr_fields (toSizeT len) { s with fw := fw }
        have hrest : (incCurPtr (toSizeT len) { s with fw := fw }).otaHandle = s.otaHandle ∧
            (incCurPtr (toSizeT len) { s with fw := fw }).fw = fw := by
          unfold incCurPtr
          split <;> exact ⟨rfl, rfl⟩
        refine ⟨h3, Prod.ext h1 h2, hrest.1, fun b hlen hdata hret => ?_⟩
        rw [hrest.2]
        exact hflashed b hlen hdata hret
      | false =>
        cases h
        exact ⟨rfl, rfl, rfl, hflashed⟩

theorem job_onWriteData {buffer : List UInt8} {len ret : Int} {s s' : Ota φ}
    (h : onWriteData env buffer len s = some (ret, s')) : s'.job = s.job ∧ s'.store = s.store := by
  have hcfg : writeCfg buffer len s = some (ret, s') → s'.job = s.job ∧ s'.store = s.store := by
    intro h
    unfold writeCfg at h
    split at h
    · split at h
      · cases h
      · cases h
        obtain ⟨h1, h2, h3, -⟩ := incCurPtr_fields (toSizeT len)
          { s with cfgBuf := s.cfgBuf.put s.curPtr (buffer.take len.toNat) }
        exact ⟨h3, Prod.ext h1 h2⟩
    · cases h
      exact ⟨rfl, rfl⟩
  unfold onWriteData at h
  split at h
  · obtain ⟨hjob, hstore, -⟩ := writeFirmware_flashed h
    exact ⟨hjob, hstore⟩
  · exact hcfg h
  · exact hcfg h
  · cases h
    exact ⟨rfl, rfl⟩

/-- **The update server's write sessions carry what they took.** -/
theorem gathered_carries (env : OtaEnv φ) : (otaServer env).Carries (Gathered env) where
  opens peer file s hpos :=
    ⟨job_onWrite env file s, onWrite_refuses hpos, fun hjob => (onWrite_upload hpos hjob).1, fun _ _ _ => rfl,
      fun hjob => onWrite_firmware hpos hjob peer⟩
  ends _ _ _ h := ⟨h.name, h.job, h.config, h.whole, fun hfw => ⟨(h.firmware hfw).job, (h.firmware hfw).begun⟩⟩
  extend := by
    intro buffer s s' session b h hbuf h4 h512 hdata hw
    have hw' : onWriteData env buffer b.len s = some (b.ret, s') := hw
    obtain ⟨hjob, -⟩ := job_onWriteData hw'
    have htake : b.len.toNat ≤ buffer.length := by omega
    refine ⟨hjob.trans h.name, hjob ▸ h.job, fun hup => ?_, fun hup hlens hsize => ?_, fun hfw => ?_⟩
    · rw [hjob] at hup
      rw [taken_append, hdata]
      obtain ⟨-, -, hret, hh⟩ | ⟨-, hret, hh⟩ := (h.config hup).writeData hup htake ⟨h4, h512⟩ hw'
      · rw [if_neg hret]
        exact hh.self
      · rw [if_pos hret, List.append_nil]
        exact hh.self
    · rw [hjob] at hup
      rw [Session.payload, List.flatMap_append, List.flatMap_singleton] at hsize ⊢
      have hbefore : taken session.blocks = session.blocks.flatMap Block.data := by
        refine h.whole hup (fun b' hb' => hlens b' (List.mem_append_left _ hb')) (Nat.le_trans ?_ hsize)
        rw [List.length_append]
        exact Nat.le_add_right _ _
      have hret : b.ret ≠ -1 := by
        obtain ⟨-, -, hret, -⟩ | ⟨hbad, -, -⟩ := (h.config hup).writeData hup htake ⟨h4, h512⟩ hw'
        · exact hret
        · rw [List.length_append, hdata, ← hbefore] at hsize
          have hlen := hlens b (List.mem_append_right _ (List.mem_singleton_self b))
          omega
      rw [taken_append, if_neg hret, hbefore]
    · rw [hjob] at hfw
      rw [onWriteData, hfw] at hw'
      obtain ⟨-, -, hhandle, hflashed⟩ := writeFirmware_flashed hw'
      obtain ⟨hfile, part, fw, hnext, hbegin, hblocks⟩ := h.firmware hfw
      rw [hhandle]
      exact ⟨hfile, part, fw, hnext, hbegin, flashed_append_iff.2 ⟨_, hblocks, hflashed b rfl hdata rfl⟩⟩

theorem store_onReadData {len : Int} {s s' : Ota φ} {ret : Int} {data : List UInt8}
    (h : onReadData env len s = some (ret, data, s')) : s'.job = s.job ∧ s'.store = s.store := by
  have hread : ∀ base size, readFrom env base size len s = some (ret, data, s') → s'.job = s.job ∧ s'.store = s.store := by
    intro base size h
    obtain ⟨l, hl⟩ : ∃ l, s' = incCurPtr (toSizeT l) s := by
      unfold readFrom at h
      simp only [Option.ite_none_left_eq_some, Option.some.injEq, Prod.mk.injEq] at h
      exact ⟨_, h.2.2.2.symm⟩
    obtain ⟨h1, h2, h3, -⟩ := incCurPtr_fields (toSizeT l) s
    rw [hl]
    exact ⟨h3, Prod.ext h1 h2⟩
  unfold onReadData at h
  split at h
  · split at h
    · cases h
      exact ⟨rfl, rfl⟩
    · exact hread _ _ h
  · split at h
    · exact hread _ _ h
    · cases h
      exact ⟨rfl, rfl⟩
  · cases h
    exact ⟨rfl, rfl⟩

theorem sends_feeds (env : OtaEnv φ) : (otaServer env).Feeds (fun s => s.job.sends) where
  onRead file s hpos := by
    obtain ⟨-, -, hjob, -, hfile⟩ := onRead_file env.past file s
    obtain ⟨bytes, hbytes⟩ := hfile.1 hpos
    show (onRead file s).2.job.sends
    rw [hjob]
    unfold Job.sends
    unfold fileOf at hbytes
    cases hj : jobOfName file false with
    | sendCfg => exact Or.inl rfl
    | sendFCfg => exact Or.inr rfl
    | none | loadFW | loadCfg | loadFCfg =>
      rw [hj] at hbytes
      cases hbytes
  onReadData s ret data s' h hr := by
    rw [(store_onReadData hr).1]
    exact h

/-- **Only the close of a write session touches the store.** -/
theorem store_closesOnly (env : OtaEnv φ) : (otaServer env).ClosesOnly (fun s => s.job.sends) Ota.store where
  onWrite file s := by
    have hfw : ∀ t : Ota φ, (beginFirmware env t).2.store = t.store := by
      intro t
      unfold beginFirmware
      split
      · rfl
      · split <;> rfl
    show (onWrite env file s).2.store = s.store
    unfold onWrite testFileName
    cases jobOfName file true with
    | loadFW => exact hfw _
    | loadFCfg => simp only; split <;> rfl
    | none | loadCfg | sendCfg | sendFCfg => rfl
  onRead file s := by
    obtain ⟨hsetup, hsaved, -⟩ := onRead_file env.past file s
    exact Prod.ext hsetup hsaved
  onWriteData _ _ _ _ _ hw := (job_onWriteData hw).2
  onReadData _ _ _ _ hr := (store_onReadData hr).2
  onRestart _ := rfl
  onClose s h := by
    refine ⟨s, ?_, rfl⟩
    show onClose env s = some s
    unfold onClose
    obtain hj | hj := h <;> rw [hj]

end

/-! ## Runs -/

/-- **What the end of a write session comes to.** -/
inductive Outcome (env : OtaEnv φ) : Setup × List Saved → Session (Ota φ) → Setup × List Saved → Prop
  | config (d : Setup) (saved : List Saved) (session : Session (Ota φ)) (r : Saved) (hjob : session.job.isUpload)
      (hr : r = (saveCall session.job (taken session.blocks)).run (env.fate saved.length) d) :
      Outcome env (d, saved) session (r.dev, saved ++ [r])
  | firmware (handle : Nat) (fw : φ) (store : Setup × List Saved) (session : Session (Ota φ))
      (h : FirmwareOf env.api session handle fw) : Outcome env store session store

/-- The sessions' outcomes, one after another. -/
def Outcomes (env : OtaEnv φ) (store : Setup × List Saved) : List (Session (Ota φ)) → Setup × List Saved → Prop
  | [], store'                  => store' = store
  | session :: rest, store'     => ∃ mid, Outcome env store session mid ∧ Outcomes env mid rest store'

theorem outcomes_append {env : OtaEnv φ} {store mid store' : Setup × List Saved}
    {sessions sessions' : List (Session (Ota φ))} (h : Outcomes env store sessions mid) (h' : Outcomes env mid sessions' store') :
    Outcomes env store (sessions ++ sessions') store' := by
  induction sessions generalizing store with
  | nil =>
    cases (h : mid = store)
    exact h'
  | cons session rest ih =>
    obtain ⟨next, hout, hrest⟩ := h
    exact ⟨next, hout, ih hrest⟩

/-- The last of these sessions was a firmware upload that `esp_ota_end` accepted. -/
def Verified (env : OtaEnv φ) (sessions : List (Session (Ota φ))) : Prop :=
  ∃ before session handle fw, sessions = before ++ [session] ∧ handle ≠ 0 ∧ FirmwareOf env.api session handle fw ∧
    (env.api.otaEnd handle fw).1 = true

/-- The session invariant of the update server. -/
def InUpdate (env : OtaEnv φ) (s : Srv (Ota φ)) : Prop := InSession (Gathered env) (fun s => s.job.sends) s

theorem store_firmware {env : OtaEnv φ} {s s' : Ota φ} (hjob : s.job = .loadFW) (h : onClose env s = some s') :
    s'.store = s.store := by
  unfold onClose at h
  rw [hjob] at h
  simp only at h
  split at h
  · cases h
    rfl
  · split at h
    · cases h
    · cases h
      rfl

/-- **A step ends no session, or one, with its outcome.** -/
theorem step_outcome {env : OtaEnv φ} {s : Srv (Ota φ)} (h : InUpdate env s) (e : Recv) :
    ∃ sessions, ended (step (otaServer env) s e).hist = ended s.hist ++ sessions ∧
      Outcomes env s.app.store sessions (step (otaServer env) s e).app.store ∧
      ((step (otaServer env) s e).mode = .stopped → s.mode = .stopped ∨ Verified env sessions) := by
  obtain ⟨hstore, hended, hstop⟩ | ⟨n, t, session, -, hended, hg, hstore, -, hclose⟩ :=
    step_closes (j := Ota.job) (gathered_carries env) (sends_feeds env) (store_closesOnly env)
      (fun _ _ _ _ _ hw => (job_onWriteData hw).1) h e
  · exact ⟨[], by rw [hended, List.append_nil], hstore, fun hm => Or.inl (hstop hm)⟩
  · refine ⟨[session], hended, ?_⟩
    obtain ⟨hnone, -, happ⟩ | ⟨closed, hsome, happ, hm⟩ := hclose
    · obtain ⟨hjob, hhandle, haccept⟩ := (onClose_none_iff env t).1 hnone
      refine ⟨⟨_, .firmware t.otaHandle t.fw _ session (hg.firmware hjob), ?_⟩, fun _ =>
        Or.inr ⟨[], session, t.otaHandle, t.fw, rfl, hhandle, hg.firmware hjob, haccept⟩⟩
      show (step (otaServer env) s e).app.store = s.app.store
      rw [happ, hstore]
    · refine ⟨?_, fun hm' => absurd hm' hm⟩
      rw [happ, ← hstore]
      obtain hup | hfw := hg.job
      · rw [show (otaServer env).onClose t = onClose env t from rfl, (hg.config hup).onClose env hup] at hsome
        cases hsome
        refine ⟨_, .config t.setup t.saved session (commit env t (taken session.blocks)) (hg.name ▸ hup)
          (by rw [commit, hg.name]), ?_⟩
        obtain ⟨h1, h2⟩ := afterSave_fields (commit env t (taken session.blocks)) t
        exact Prod.ext h1 h2
      · exact ⟨_, .firmware t.otaHandle t.fw _ session (hg.firmware hfw), store_firmware hfw hsome⟩

theorem verified_append {env : OtaEnv φ} (first : List (Session (Ota φ))) {sessions : List (Session (Ota φ))}
    (h : Verified env sessions) : Verified env (first ++ sessions) := by
  obtain ⟨before, session, handle, fw, rfl, hrest⟩ := h
  exact ⟨first ++ before, session, handle, fw, (List.append_assoc _ _ _).symm, hrest⟩

theorem run_stopped (H : Handler σ) {s : Srv σ} (hmode : s.mode = .stopped) (es : List Recv) : run H s es = s := by
  induction es with
  | nil => rfl
  | cons e es ih => rw [run_cons, step, hmode, ih]

theorem run_outcome {env : OtaEnv φ} (es : List Recv) {s : Srv (Ota φ)} (h : InUpdate env s) :
    ∃ sessions, ended (run (otaServer env) s es).hist = ended s.hist ++ sessions ∧
      Outcomes env s.app.store sessions (run (otaServer env) s es).app.store ∧
      ((run (otaServer env) s es).mode = .stopped → s.mode = .stopped ∨ Verified env sessions) := by
  induction es generalizing s with
  | nil => exact ⟨[], (List.append_nil _).symm, rfl, Or.inl⟩
  | cons e es ih =>
    obtain ⟨first, hended, hout, hstop⟩ := step_outcome h e
    obtain ⟨sessions, hended', hout', hstop'⟩ :=
      ih (InSession.step (gathered_carries env) (sends_feeds env) h e)
    refine ⟨first ++ sessions, ?_, outcomes_append hout hout', fun hm => ?_⟩
    · rw [run_cons, hended', hended, List.append_assoc]
    · rw [run_cons] at hm
      obtain hmid | hver := hstop' hm
      · rw [run_stopped (otaServer env) hmid, List.self_eq_append_right] at hended'
        rw [hended', List.append_nil]
        exact hstop hmid
      · exact Or.inr (verified_append first hver)

/-- The server waits for a request: no session is open. -/
theorem inUpdate_idle (env : OtaEnv φ) {s : Srv (Ota φ)} (hmode : s.mode = .idle) : InUpdate env s := by
  constructor
  · intro n hn
    cases hmode.symm.trans hn
  · intro n r hn
    cases hmode.symm.trans hn

/-- **What is saved is what was received.**  Whatever datagrams and timeouts reach a server that waits, each write
session that ends is one save of the bytes its blocks brought, in order, on the store that the save before it left, or a
firmware upload whose blocks went to `esp_ota_write` in order and that leaves the store as it is.  Nothing else changes
the store. -/
theorem saves_received (env : OtaEnv φ) (s : Srv (Ota φ)) (es : List Recv) (hmode : s.mode = .idle) :
    ∃ sessions, ended (run (otaServer env) s es).hist = ended s.hist ++ sessions ∧
      Outcomes env s.app.store sessions (run (otaServer env) s es).app.store := by
  obtain ⟨sessions, hended, hout, -⟩ := run_outcome es (inUpdate_idle env hmode)
  exact ⟨sessions, hended, hout⟩

/-- **A restart is a verified firmware.**  The server stops for the restart only at the end of a session whose blocks
went to `esp_ota_write`, all of them and in order, behind an `esp_ota_begin` whose handle `esp_ota_end` then accepts. -/
theorem restart_verified (env : OtaEnv φ) (s : Srv (Ota φ)) (es : List Recv) (hmode : s.mode = .idle)
    (hstop : (run (otaServer env) s es).mode = .stopped) :
    ∃ sessions, ended (run (otaServer env) s es).hist = ended s.hist ++ sessions ∧ Verified env sessions := by
  obtain ⟨sessions, hended, -, h⟩ := run_outcome es (inUpdate_idle env hmode)
  refine ⟨sessions, hended, (h hstop).resolve_left (fun hm => ?_)⟩
  cases hmode.symm.trans hm

/-- OTA functions that accept everything. -/
def takesAll : OtaApi Unit where
  nextPartition := fun _ => some 1
  otaBegin := fun _ fw => (some 7, fw)
  otaWrite := fun _ _ fw => (true, fw)
  otaEnd := fun _ fw => (true, fw)
  setBoot := fun _ fw => fw

/-- A device that takes firmware, before its first request. -/
def flashable : Srv (Ota Unit) := { stockServer loadedStore [] with dataSize := 0, client := 0 }

theorem saves_received_config :
    let es := [.packet 1 (xrqPacket TFTP_CMD_WRQ (ascii "a.cfg")), .packet 1 (dataBytes 1 [1, 2, 3])]
    ∃ sessions, ended (run (otaServer stockEnv) flashable es).hist = ended flashable.hist ++ sessions ∧
      Outcomes stockEnv flashable.app.store sessions (run (otaServer stockEnv) flashable es).app.store :=
  saves_received stockEnv flashable _ rfl

theorem restart_verified_short :
    let env : OtaEnv Unit := { stockEnv with api := takesAll }
    let es := [.packet 1 (xrqPacket TFTP_CMD_WRQ (ascii "a.bin")), .packet 1 (dataBytes 1 [1, 2, 3])]
    ∃ sessions, ended (run (otaServer env) flashable es).hist = ended flashable.hist ++ sessions ∧ Verified env sessions :=
  restart_verified { stockEnv with api := takesAll } flashable _ rfl (by decide +kernel)

end Mstd.Tftp
