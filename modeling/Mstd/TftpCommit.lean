import Mathlib.Data.List.GetD
import Mstd.SetupSelect
import Mstd.TftpClient
import Mstd.TftpOta
/-!
# Which uploads reach the flash

`received` reads a write session off its datagrams and `collect` says what `ota_cfg_buffer` holds then; `process_write`
over the update server agrees with both (`processWrite_received`).  `parse_rq` closes the session whatever
`process_write` returned, so an upload that failed or lost a block is saved like any other
(`partial_upload_untouched_iff`).
-/
namespace Mstd.Tftp

open ByteMem (Ptr Buffer window)

variable {φ : Type}

/-- The blocks a session passes on, `none` for a datagram of less than four bytes, and whether it ends with a short
DATA packet, which is when `process_write` returns 0. -/
def received (buf : Buffer TFTP_DATA_SIZE) (next : Nat) : List Recv → Option (List (Option (List UInt8)) × Bool)
  | []                      => none
  | .timeout :: _           => some ([], false)
  | .packet _ data :: es    =>
    let buf := buf.put 0 data
    let size := min data.length TFTP_DATA_SIZE
    if word16 buf.bytes 0 = TFTP_CMD_DATA then
      let block := if size < 4 then none else some ((buf.bytes.drop 4).take (size - 4))
      let next' := if word16 buf.bytes 2 < next then next else next + 1
      let rest := if size < TFTP_DATA_SIZE then some ([], true) else received buf next' es
      rest.map (fun (blocks, ok) => (if word16 buf.bytes 2 < next then blocks else block :: blocks, ok))
    else if word16 buf.bytes 0 = TFTP_CMD_WRQ ∧ next = 1 then received buf next es
    else some ([], false)

/-- What the config branch of `on_write_data` collects behind `acc`, and whether it takes every block. -/
def collect (acc : List UInt8) : List (Option (List UInt8)) → List UInt8 × Bool
  | []                => (acc, true)
  | none :: bs        => ((collect acc bs).1, false)
  | some data :: bs   =>
    if acc.length + data.length ≤ MAX_CFG_SIZE then collect (acc ++ data) bs else ((collect acc bs).1, false)

/-- The datagrams bring a whole upload: a short last block, and room for every block. -/
def Complete (buf : Buffer TFTP_DATA_SIZE) (es : List Recv) : Prop :=
  ∃ blocks, received buf 1 es = some (blocks, true) ∧ (collect [] blocks).2 = true

/-- The bytes the datagrams leave in `ota_cfg_buffer`. -/
def content (buf : Buffer TFTP_DATA_SIZE) (es : List Recv) : List UInt8 :=
  match received buf 1 es with
  | none             => []
  | some (blocks, _) => (collect [] blocks).1

/-! ## The buffer during a session -/

/-- **`ota_cfg_buffer` holds `acc` and erased bytes behind it**; the store is as it was. -/
structure Holds (base : Ota φ) (acc : List UInt8) (s : Ota φ) : Prop where
  setup : s.setup = base.setup
  saved : s.saved = base.saved
  job : s.job = base.job
  ptr : s.curPtr = acc.length
  le : acc.length ≤ MAX_CFG_SIZE
  buf : s.cfgBuf.bytes = acc ++ List.replicate (MAX_CFG_SIZE - acc.length) 0xFF

/-- A job that collects a config. -/
def Job.isUpload (j : Job) : Prop := j = .loadCfg ∨ j = .loadFCfg

section

variable {env : OtaEnv φ} {base s : Ota φ} {acc : List UInt8}

theorem onWriteData_upload (hjob : s.job.isUpload) (buffer : List UInt8) (len : Int) :
    onWriteData env buffer len s = writeCfg buffer len s := by
  rcases hjob with h | h <;> simp [onWriteData, h]

theorem Holds.append (h : Holds base acc s) {data : List UInt8} (hfit : acc.length + data.length ≤ MAX_CFG_SIZE) :
    Holds base (acc ++ data) (incCurPtr data.length { s with cfgBuf := s.cfgBuf.put s.curPtr data }) := by
  obtain ⟨h1, h2, h3, h4, h5⟩ := incCurPtr_fields data.length { s with cfgBuf := s.cfgBuf.put s.curPtr data }
  refine ⟨h1.trans h.setup, h2.trans h.saved, h3.trans h.job, ?_, ?_, ?_⟩
  · rw [h5, h.ptr, List.length_append, Nat.mod_eq_of_lt]
    unfold SIZE_T
    unfold MAX_CFG_SIZE at hfit
    omega
  · rwa [List.length_append]
  · rw [h4, h.ptr, ByteMem.Buffer.bytes_put _ hfit, h.buf, List.take_left' rfl, List.length_append, ← List.drop_drop,
      List.drop_left' rfl, List.drop_replicate, Nat.sub_sub]

theorem Holds.refuse (h : Holds base acc s) (text : String) : Holds base acc (s.msg text) :=
  ⟨h.setup, h.saved, h.job, h.ptr, h.le, h.buf⟩

/-- **`on_write_data` for a config** appends the block or refuses it. -/
theorem Holds.writeData (h : Holds base acc s) (hjob : base.job.isUpload) {buffer : List UInt8} {len ret : Int}
    {s' : Ota φ} (hbuf : len.toNat ≤ buffer.length) (hlen : -4 ≤ len ∧ len ≤ 512)
    (hw : onWriteData env buffer len s = some (ret, s')) :
    (0 ≤ len ∧ acc.length + (buffer.take len.toNat).length ≤ MAX_CFG_SIZE ∧ ret ≠ -1 ∧
      Holds base (acc ++ buffer.take len.toNat) s') ∨
    ((len < 0 ∨ MAX_CFG_SIZE < acc.length + (buffer.take len.toNat).length) ∧ ret = -1 ∧ Holds base acc s') := by
  rw [onWriteData_upload (h.job ▸ hjob), writeCfg, h.ptr] at hw
  have htake : (buffer.take len.toNat).length = len.toNat := by rw [List.length_take]; omega
  have hle := h.le
  unfold MAX_CFG_SIZE at hle
  by_cases hneg : len < 0
  · simp only [hneg, if_true] at hw
    split at hw
    · cases hw
    · cases hw
      exact Or.inr ⟨Or.inl hneg, rfl, h.refuse _⟩
  · have hpos : 0 ≤ len := Int.not_lt.1 hneg
    have hsz : toSizeT len = len.toNat := by unfold toSizeT SIZE_T; omega
    have hmod : (toSizeT len + acc.length) % SIZE_T = acc.length + (buffer.take len.toNat).length := by
      rw [hsz, htake, Nat.mod_eq_of_lt (by unfold SIZE_T; omega), Nat.add_comm]
    rw [hmod] at hw
    by_cases hfit : acc.length + (buffer.take len.toNat).length ≤ MAX_CFG_SIZE
    · rw [if_pos hfit, if_neg hneg, hsz, ← htake, ← h.ptr] at hw
      cases hw
      refine Or.inl ⟨hpos, hfit, by omega, ?_⟩
      have ha := h.append hfit
      rw [htake] at ha ⊢
      exact ha
    · rw [if_neg hfit] at hw
      cases hw
      exact Or.inr ⟨Or.inr (Nat.not_le.1 hfit), rfl, h.refuse _⟩

/-- The step of `collect` that a block of `size` bytes behind the header makes. -/
theorem Holds.block (h : Holds base acc s) (hjob : base.job.isUpload) {buffer : List UInt8} {size : Nat} {ret : Int}
    {s' : Ota φ} (hbuf : buffer.length = 512) (hsize : size ≤ TFTP_DATA_SIZE)
    (hw : onWriteData env buffer ((size : Int) - 4) s = some (ret, s')) :
    ∃ acc', Holds base acc' s' ∧ ∀ bs,
      (collect acc ((if size < 4 then none else some (buffer.take (size - 4))) :: bs)).1 = (collect acc' bs).1 ∧
      ((collect acc ((if size < 4 then none else some (buffer.take (size - 4))) :: bs)).2 = false ↔
        ret = -1 ∨ (collect acc' bs).2 = false) := by
  unfold TFTP_DATA_SIZE at hsize
  have hnat : ((size : Int) - 4).toNat = size - 4 := by omega
  obtain ⟨hpos, hfit, hret, hh⟩ | ⟨hbad, hret, hh⟩ := h.writeData hjob (by omega) (by omega) hw
  · rw [hnat] at hfit hh
    rw [if_neg (by omega : ¬ size < 4)]
    refine ⟨_, hh, fun bs => ?_⟩
    simp only [collect, hfit, if_true, hret, false_or, true_and]
  · refine ⟨acc, hh, fun bs => ?_⟩
    rw [hnat] at hbad
    by_cases h4 : size < 4
    · simp only [h4, if_true, collect, hret, true_or, true_and]
    · simp only [h4, if_false, collect, Nat.not_le.2 (hbad.resolve_left (by omega)), hret, true_or, true_and]

end

/-! ## The session -/

theorem length_drop_buffer (buf : Buffer TFTP_DATA_SIZE) : (buf.bytes.drop 4).length = 512 := by
  rw [List.length_drop, buf.size]; rfl

/-- How a session goes on from a state with `acc` collected, when the datagrams to come bring `spec`. -/
def Agrees (base : Ota φ) (acc : List UInt8) (session : Session (Ota φ)) (old : List (Session (Ota φ)))
    (spec : Option (List (Option (List UInt8)) × Bool)) (s' : Srv (Ota φ)) (result : Int) : Prop :=
  ∃ blocks ok bs, spec = some (blocks, ok) ∧ (result = 0 ↔ ok = true) ∧ Holds base (collect acc blocks).1 s'.app ∧
    s'.hist = { session with blocks := session.blocks ++ bs } :: old ∧
    ((∃ b ∈ bs, b.ret = -1) ↔ (collect acc blocks).2 = false)

theorem agrees_finish {base : Ota φ} {acc : List UInt8} {session : Session (Ota φ)} {old : List (Session (Ota φ))}
    {s : Srv (Ota φ)} {result : Int} {ok : Bool} (hb : Holds base acc s.app) (hhist : s.hist = session :: old)
    (hok : result = 0 ↔ ok = true) : Agrees base acc session old (some ([], ok)) s result :=
  ⟨[], ok, [], rfl, hok, hb, by rw [List.append_nil]; exact hhist, by simp [collect]⟩

/-- A session in which a packet with the block `data` comes first. -/
theorem Agrees.cons {base : Ota φ} {acc acc' : List UInt8} {session : Session (Ota φ)} {old : List (Session (Ota φ))}
    {spec : Option (List (Option (List UInt8)) × Bool)} {s' : Srv (Ota φ)} {result : Int} {b : Block}
    {data : Option (List UInt8)} (h : Agrees base acc' { session with blocks := session.blocks ++ [b] } old spec s' result)
    (hcollect : ∀ bs, (collect acc (data :: bs)).1 = (collect acc' bs).1 ∧
      ((collect acc (data :: bs)).2 = false ↔ b.ret = -1 ∨ (collect acc' bs).2 = false)) :
    Agrees base acc session old (spec.map (fun (blocks, ok) => (data :: blocks, ok))) s' result := by
  obtain ⟨blocks, ok, bs, hspec, hres, hfin, hhist, href⟩ := h
  simp only [List.append_assoc] at hhist
  refine ⟨data :: blocks, ok, _, congrArg (Option.map _) hspec, hres, (hcollect blocks).1 ▸ hfin, hhist, ?_⟩
  simp only [List.singleton_append, List.mem_cons, exists_eq_or_imp, href]
  exact (hcollect blocks).2.symm

/-- Behind a DATA packet the loop ends when the packet is short, and goes on with `es` when it is not. -/
theorem agrees_endOfBlock {env : OtaEnv φ} {base : Ota φ} {acc : List UInt8} {session : Session (Ota φ)}
    {old : List (Session (Ota φ))} {e : Recv} {es rest : List Recv} {s t s' : Srv (Ota φ)} {n m size : Nat} {result : Int}
    (hbody : processWriteBody (otaServer env) (recvFrom s e) n = endOfBlock t m) (hsize : t.dataSize = size)
    (hb : Holds base acc t.app) (hhist : t.hist = session :: old)
    (hrest : processWrite (otaServer env) { t with mode := .writing m } m es = some (s', result, rest) →
      Agrees base acc session old (received t.buffer m es) s' result)
    (h : processWrite (otaServer env) s n (e :: es) = some (s', result, rest)) :
    Agrees base acc session old (if size < TFTP_DATA_SIZE then some ([], true) else received t.buffer m es) s'
      result := by
  rw [processWrite, hbody, endOfBlock, hsize] at h
  by_cases hshort : size < TFTP_DATA_SIZE
  · rw [if_pos (Int.ofNat_lt.2 hshort)] at h
    rw [if_pos hshort]
    cases h
    exact agrees_finish hb hhist (by decide)
  · rw [if_neg (mt Int.ofNat_lt.1 hshort)] at h
    rw [if_neg hshort]
    exact hrest h

/-- **What a session stores is what its datagrams say.** -/
theorem processWrite_received {env : OtaEnv φ} {base : Ota φ} (hjob : base.job.isUpload) {old : List (Session (Ota φ))}
    {es rest : List Recv} {s s' : Srv (Ota φ)} {n : Nat} {result : Int} {acc : List UInt8} {session : Session (Ota φ)}
    (hb : Holds base acc s.app) (hhist : s.hist = session :: old)
    (h : processWrite (otaServer env) s n es = some (s', result, rest)) :
    Agrees base acc session old (received s.buffer n es) s' result := by
  induction es generalizing s n acc session with
  | nil => cases h
  | cons e es ih =>
    cases e with
    | timeout =>
      cases h
      exact agrees_finish hb hhist (by decide)
    | packet src data =>
      have hds : (recvFrom s (.packet src data)).dataSize = (min data.length TFTP_DATA_SIZE : Nat) := rfl
      have hsize : 0 ≤ (recvFrom s (.packet src data)).dataSize := by rw [hds]; exact Int.natCast_nonneg _
      simp only [received]
      by_cases hdata : word16 (s.buffer.put 0 data).bytes 0 = TFTP_CMD_DATA
      · rw [if_pos hdata]
        by_cases hdup : word16 (s.buffer.put 0 data).bytes 2 < n
        · obtain ⟨blocks, ok, bs, hrec, hrest⟩ :=
            agrees_endOfBlock (body_dup _ hsize hdata hdup) hds hb hhist (ih hb hhist) h
          simp only [hdup, if_true]
          exact ⟨blocks, ok, bs, congrArg (Option.map _) hrec, hrest⟩
        · have hbody := body_block (otaServer env) hsize hdata (Nat.not_lt.1 hdup)
          simp only [hdup, if_false]
          cases hw : (otaServer env).onWriteData ((recvFrom s (.packet src data)).buffer.bytes.drop 4)
              ((recvFrom s (.packet src data)).dataSize - 4) (recvFrom s (.packet src data)).app with
          | none =>
            rw [hw] at hbody
            rw [processWrite, hbody] at h
            cases h
          | some r =>
            obtain ⟨ret, app⟩ := r
            rw [hw] at hbody
            obtain ⟨acc', hh, hcollect⟩ := hb.block hjob (length_drop_buffer _) (Nat.min_le_right _ _) hw
            have hhist' : ∀ b, recordBlock b s.hist = { session with blocks := session.blocks ++ [b] } :: old :=
              fun b => by rw [hhist]; rfl
            have hrest := agrees_endOfBlock hbody hds hh (hhist' _) (ih hh (hhist' _)) h
            exact hrest.cons hcollect
      · rw [if_neg hdata]
        by_cases hfirst : word16 (s.buffer.put 0 data).bytes 0 = TFTP_CMD_WRQ ∧ n = 1
        · rw [processWrite, body_wrq _ hsize hfirst.1, if_pos hfirst.2] at h
          rw [if_pos hfirst]
          exact ih (s := { sendAck (recvFrom s (.packet src data)) 0 with mode := .writing n }) hb hhist h
        · rw [processWrite, body_foreign _ hsize hdata hfirst] at h
          rw [if_neg hfirst]
          cases h
          exact agrees_finish hb hhist (by decide)

/-! ## The close -/

theorem afterSave_fields (r : Saved) (s : Ota φ) :
    (afterSave r s).setup = r.dev ∧ (afterSave r s).saved = s.saved ++ [r] := by
  unfold afterSave reportError
  split <;> exact ⟨rfl, rfl⟩

theorem flashOps_afterSave (r : Saved) (s : Ota φ) : (afterSave r s).flashOps = s.flashOps ++ r.ops := by
  rw [Ota.flashOps, (afterSave_fields r s).2, List.flatMap_append, List.flatMap_singleton, Ota.flashOps]

/-- The call that `on_close` makes with `acc` collected. -/
def saveCall (job : Job) (acc : List UInt8) : SaveCall :=
  if job = .loadCfg then .image acc else .full (fun i => acc.getD i.val 0xFF)

def commit (env : OtaEnv φ) (s : Ota φ) (acc : List UInt8) : Saved :=
  (saveCall s.job acc).run (env.fate s.saved.length) s.setup

theorem onClose_loadCfg (env : OtaEnv φ) {s : Ota φ} (hjob : s.job = .loadCfg) :
    onClose env s =
      some (afterSave (saveConfigImage (env.fate s.saved.length) s.setup (s.cfgBuf.bytes.take s.curPtr)) s) := by
  rw [onClose, hjob]

theorem onClose_loadFCfg (env : OtaEnv φ) {s : Ota φ} (hjob : s.job = .loadFCfg) :
    onClose env s = some (afterSave (saveConfigFull (env.fate s.saved.length) s.setup (flashImage s.cfgBuf)) s) := by
  rw [onClose, hjob]

theorem Holds.flashImage {base s : Ota φ} {acc : List UInt8} (h : Holds base acc s) (i : Fin MAX_CFG_SIZE) :
    flashImage s.cfgBuf i = acc.getD i.val 0xFF := by
  have hi : i.val < s.cfgBuf.bytes.length := by rw [s.cfgBuf.size]; exact i.isLt
  refine (List.getElem_eq_getD (h := hi) 0xFF).trans ?_
  rw [h.buf]
  by_cases hacc : i.val < acc.length
  · rw [List.getD_append _ _ _ _ hacc]
  · rw [List.getD_append_right _ _ _ _ (Nat.not_lt.1 hacc), List.getD_eq_default acc _ (Nat.not_lt.1 hacc),
      List.getD_eq_getElem?_getD, List.getElem?_replicate]
    split <;> rfl

theorem Holds.onClose (env : OtaEnv φ) {base s : Ota φ} {acc : List UInt8} (h : Holds base acc s)
    (hjob : base.job.isUpload) : onClose env s = some (afterSave (commit env base acc) s) := by
  unfold commit saveCall
  rcases hjob with hb | hb
  · rw [onClose_loadCfg env (h.job.trans hb), if_pos hb, h.saved, h.setup, h.buf, h.ptr, List.take_left' rfl]
    rfl
  · rw [onClose_loadFCfg env (h.job.trans hb), if_neg (by rw [hb]; decide), h.saved, h.setup, funext h.flashImage]
    rfl

theorem ops_commit (env : OtaEnv φ) {base : Ota φ} (hjob : base.job.isUpload) (acc : List UInt8) :
    (commit env base acc).ops = [] ↔
      base.setup.cfgPat = false ∨ (base.job = .loadCfg ∧ ∃ e, checkImage acc = .error e) := by
  unfold commit saveCall
  rcases hjob with hb | hb
  · rw [if_pos hb, SaveCall.run, ops_saveConfigImage, hb]
    simp only [true_and]
  · rw [if_neg (by rw [hb]; decide), SaveCall.run, ops_saveConfigFull, hb]
    simp only [reduceCtorEq, false_and, or_false]

theorem dev_commit {env : OtaEnv φ} {base : Ota φ} {acc : List UInt8} (h : (commit env base acc).ops = []) :
    (commit env base acc).dev = base.setup := by
  unfold commit saveCall at h ⊢
  split at h
  · rw [if_pos ‹_›]; exact dev_saveConfigImage h
  · rw [if_neg ‹_›]; exact dev_saveConfigFull h

theorem job_onWrite (env : OtaEnv φ) (filename : List UInt8) (s : Ota φ) :
    (onWrite env filename s).2.job = jobOfName filename true := by
  have hfw : ∀ t : Ota φ, (beginFirmware env t).2.job = t.job := by
    intro t
    unfold beginFirmware
    split
    · rfl
    · split <;> rfl
  unfold onWrite testFileName
  cases hj : jobOfName filename true with
  | loadFW => exact hfw _
  | loadFCfg => simp only; split <;> rfl
  | _ => rfl

/-- A request that starts an upload clears `ota_cfg_buffer`. -/
theorem onWrite_upload {env : OtaEnv φ} {s : Ota φ} {filename : List UInt8} (hpos : 0 ≤ (onWrite env filename s).1)
    (hjob : (onWrite env filename s).2.job.isUpload) :
    Holds (onWrite env filename s).2 [] (onWrite env filename s).2 ∧ (onWrite env filename s).2.setup = s.setup ∧
      (onWrite env filename s).2.saved = s.saved := by
  have hnew : ∀ t : Ota φ, t.curPtr = 0 → t.cfgBuf = Buffer.fill MAX_CFG_SIZE 0xFF → Holds t [] t :=
    fun t hptr hbuf => ⟨rfl, rfl, rfl, hptr, Nat.zero_le _, by rw [hbuf]; rfl⟩
  rw [job_onWrite] at hjob
  unfold onWrite testFileName at hpos ⊢
  rcases hjob with hj | hj
  · simp only [hj]
    exact ⟨hnew _ rfl rfl, rfl, rfl⟩
  · simp only [hj] at hpos ⊢
    split at hpos
    · rw [if_pos ‹_›]
      exact ⟨hnew _ rfl rfl, rfl, rfl⟩
    · exact absurd hpos (by omega)

/-- A session that is open has collected nothing yet. -/
theorem holds_of_writing {env : OtaEnv φ} {s opened : Srv (Ota φ)} {result : Int}
    (hopen : parseRq (otaServer env) s result = opened) (hmode : opened.mode = .writing 1)
    (hjob : opened.app.job.isUpload) :
    Holds opened.app [] opened.app ∧ opened.app.setup = s.app.setup ∧ opened.app.saved = s.app.saved ∧
      opened.buffer = s.buffer ∧ ∃ file, opened.hist = .start s.client file s.app :: s.hist := by
  subst hopen
  obtain hf | ⟨filename, hneg, hf⟩ | ⟨filename, packet, hpos, -, hf⟩ := parseRq_wrq (wrq_of_writing hmode) result
  · rw [hf] at hmode; cases hmode
  · rw [hf] at hmode; cases hmode
  · rw [hf] at hjob ⊢
    obtain ⟨hh, h1, h2⟩ := onWrite_upload (s := s.app) hpos hjob
    exact ⟨hh, h1, h2, rfl, filename, rfl⟩

/-- **When only complete uploads reach the flash.**  A session whose `process_write` fails or in which a block is
refused leaves the config partition alone exactly when the datagrams brought a whole upload after all, the partition is
unknown, or `save_config_image` refuses what was collected. -/
theorem partial_upload_untouched_iff (env : OtaEnv φ) (s opened s' : Srv (Ota φ)) (entry result : Int)
    (es rest : List Recv) (hopen : parseRq (otaServer env) s entry = opened) (hmode : opened.mode = .writing 1)
    (hjob : opened.app.job.isUpload) (hret : processWrite (otaServer env) opened 1 es = some (s', result, rest)) :
    ∃ app, (otaServer env).onClose s'.app = some app ∧
      (((result ≠ 0 ∨ ∃ b ∈ s'.blocks, b.ret = -1) →
          app.flashOps = s.app.flashOps ∧ app.setup.flash = s.app.setup.flash) ↔
        Complete s.buffer es ∨ s.app.setup.cfgPat = false ∨
          (opened.app.job = .loadCfg ∧ ∃ e, checkImage (content s.buffer es) = .error e)) := by
  obtain ⟨hb, hsetup, hsaved, hbuf, file, hhist⟩ := holds_of_writing hopen hmode hjob
  obtain ⟨blocks, ok, bs, hrec, hres, hend, hhist', href⟩ := processWrite_received hjob hb hhist hret
  rw [hbuf] at hrec
  have hblocks : s'.blocks = bs := by rw [Srv.blocks, hhist']; rfl
  have hcontent : content s.buffer es = (collect [] blocks).1 := by rw [content, hrec]
  have hcomplete : Complete s.buffer es ↔ ok = true ∧ (collect [] blocks).2 = true := by
    unfold Complete
    rw [hrec]
    constructor
    · rintro ⟨_, h, hc⟩
      cases h
      exact ⟨rfl, hc⟩
    · rintro ⟨rfl, hc⟩
      exact ⟨blocks, rfl, hc⟩
  have hbad : (result ≠ 0 ∨ ∃ b ∈ s'.blocks, b.ret = -1) ↔ ¬ Complete s.buffer es := by
    rw [hcomplete, hblocks, href, Ne, hres]
    cases ok <;> cases (collect [] blocks).2 <;> decide
  refine ⟨_, hend.onClose env hjob, ?_⟩
  have htouch : ((afterSave (commit env opened.app (collect [] blocks).1) s'.app).flashOps = s.app.flashOps ∧
      (afterSave (commit env opened.app (collect [] blocks).1) s'.app).setup.flash = s.app.setup.flash) ↔
      (commit env opened.app (collect [] blocks).1).ops = [] := by
    rw [flashOps_afterSave, (afterSave_fields _ _).1, Ota.flashOps, hend.saved, hsaved, ← Ota.flashOps,
      List.append_right_eq_self]
    exact ⟨And.left, fun h => ⟨h, by rw [dev_commit h, hsetup]⟩⟩
  rw [hbad, htouch, ops_commit env hjob, hcontent, ← hsetup]
  exact Classical.or_iff_not_imp_left.symm

/-- A device without a second firmware partition, on a flash that works. -/
def noOta : OtaApi Unit where
  nextPartition := fun _ => none
  otaBegin := fun _ fw => (none, fw)
  otaWrite := fun _ _ fw => (false, fw)
  otaEnd := fun _ fw => (false, fw)
  setBoot := fun _ fw => fw

def stockEnv : OtaEnv Unit := ⟨fun _ => 0, fun _ => .working, noOta⟩

/-- The server behind the `recvfrom` of a first packet. -/
def stockServer (d : Setup) (packet : Datagram) : Srv (Ota Unit) :=
  recvFrom
    { mode := .idle, buffer := Buffer.fill _ 0, dataSize := 0, client := 0, out := [], hist := [],
      app := { setup := d, job := .none, curPtr := 0, cfgBuf := Buffer.fill _ 0, otaHandle := 0, nextPartition := none,
               ticks := 0, msgs := [], fw := (), saved := [] } }
    (.packet 1 packet)

/-- A store whose partition is loaded. -/
def loadedStore : Setup := { boot NorFlash.erased with cfgPat := true, cfgFullLoaded := true }

def openedFull : Srv (Ota Unit) :=
  parseRq (otaServer stockEnv) (stockServer loadedStore (xrqPacket TFTP_CMD_WRQ (ascii "full.cfg"))) (-1)

/-- A `full.cfg` upload that times out after its request erases the partition. -/
theorem timeout_erases :
    ¬ ∀ (env : OtaEnv Unit) (s opened s' : Srv (Ota Unit)) (entry result : Int) (es rest : List Recv),
      parseRq (otaServer env) s entry = opened → opened.mode = .writing 1 → opened.app.job.isUpload →
      processWrite (otaServer env) opened 1 es = some (s', result, rest) →
      (result ≠ 0 ∨ ∃ b ∈ s'.blocks, b.ret = -1) → ∀ app, (otaServer env).onClose s'.app = some app →
        app.flashOps = s.app.flashOps ∧ app.setup.flash = s.app.setup.flash := by
  intro h
  have hmode : openedFull.mode = .writing 1 := by decide +kernel
  have hjob : openedFull.app.job = .loadFCfg := by decide +kernel
  obtain ⟨-, hsetup, hsaved, -⟩ := holds_of_writing
    (show parseRq (otaServer stockEnv) (stockServer loadedStore _) (-1) = openedFull from rfl) hmode (Or.inr hjob)
  have heq := (h stockEnv _ openedFull _ (-1) (-1) [.timeout] [] rfl hmode (Or.inr hjob) rfl (Or.inl (by decide)) _
    (onClose_loadFCfg stockEnv hjob)).1
  rw [flashOps_afterSave, Ota.flashOps, hsaved, ← Ota.flashOps, List.append_right_eq_self, ops_saveConfigFull,
    hsetup] at heq
  cases heq

/-- An upload of a config that times out after its request, where the boot found no partition. -/
theorem timeout_noPartition :
    let opened := parseRq (otaServer stockEnv)
      (stockServer (loadConfig ⟨false, none⟩ (fun _ => 0) (boot NorFlash.erased)) (xrqPacket TFTP_CMD_WRQ (ascii "a.cfg")))
      (-1)
    ∃ app, (otaServer stockEnv).onClose (recvFrom opened .timeout).app = some app ∧
      app.setup.flash = NorFlash.erased := by
  intro opened
  have hmode : opened.mode = .writing 1 := by decide +kernel
  have hjob : opened.app.job = .loadCfg := by decide +kernel
  obtain ⟨app, hclose, hiff⟩ := partial_upload_untouched_iff stockEnv _ opened (recvFrom opened .timeout) (-1) (-1)
    [.timeout] [] rfl hmode (Or.inl hjob) rfl
  exact ⟨app, hclose, (hiff.2 (Or.inr (Or.inl rfl)) (Or.inl (by decide))).2⟩

end Mstd.Tftp
