import Mstd.TftpArrival
import Mstd.TftpSaves
/-!
# An upload is atomic

`send` brings an image to the device over a link that loses packets at will, and the device's sessions end and start
again.  A session that got less than the image saves a part of it, which `save_config_image` refuses; so in every run
the store is as it was, or its log ends with the whole image (`upload_atomic`).  Once `send` has returned and the last
block is there, the image is what the next boot loads (`upload_stored`).
-/
namespace Mstd

open ByteMem (ofList)

/-- **A part of an image is no image**: its header declares the whole. -/
theorem checkImage_part {image part : List UInt8} (himg : Accepted (savedImage image)) (hpart : part <+: image)
    (hne : part ≠ image) : ∃ e, checkImage part = .error e := by
  cases hc : checkImage part with
  | error e => exact ⟨e, rfl⟩
  | ok image' =>
    exfalso
    obtain ⟨-, hacc⟩ := checkImage_eq_ok.1 hc
    obtain ⟨-, -, -, hsize, -⟩ := (accepted_savedImage_iff image).1 himg
    obtain ⟨-, hmin, -, hsize', -⟩ := (accepted_savedImage_iff part).1 hacc
    unfold sizeofConfigV0 at hmin
    obtain ⟨rest, rfl⟩ := hpart
    have hhead : sizeAt (ofList (part ++ rest)) 0 = sizeAt (ofList part) 0 := by
      refine ByteMem.u16_congr (fun i _ hi => ?_)
      show (part ++ rest).getD i 0 = part.getD i 0
      exact List.getD_append _ _ _ _ (by omega)
    rw [recordSize, hhead, ← recordSize, hsize', List.length_append] at hsize
    exact hne (by rw [List.eq_nil_of_length_eq_zero (show rest.length = 0 by omega), List.append_nil])

namespace Tftp

open ByteMem (Ptr)

variable {φ : Type}

/-! ## The server -/

section

variable {env : OtaEnv φ} {s : Srv (Ota φ)} {job : Job}

/-- `parse_wrq` calls `on_write` with the name in the packet. -/
theorem parseWrq_name {σ : Type} {H : Handler σ} {s s' : Srv σ} {ret : Int} (h : parseWrq H s = some (s', ret)) :
    ∃ name ptr, requestStrings s.buffer.bytes = some (name, ptr) ∧ s'.app = (H.onWrite name s.app).2 := by
  unfold parseWrq at h
  obtain ⟨⟨name, ptr⟩, hstr, hrest⟩ := Option.bind_eq_some_iff.1 h
  refine ⟨name, ptr, hstr, ?_⟩
  simp only at hrest
  split at hrest
  · cases hrest
    rfl
  · split at hrest
    · obtain ⟨eq, -, heq⟩ := Option.map_eq_some_iff.1 hrest
      cases eq <;> cases heq <;> rfl
    · cases hrest
      rfl

/-- A session that a request opens is of the file in the packet. -/
theorem parseRq_name {σ : Type} {H : Handler σ} {s : Srv σ} {result : Int} {n : Nat}
    (hmode : (parseRq H s result).mode = .writing n) :
    ∃ name ptr, requestStrings s.buffer.bytes = some (name, ptr) ∧
      (parseRq H s result).app = (H.onWrite name s.app).2 := by
  have hcmd := wrq_of_writing hmode
  unfold parseRq at hmode ⊢
  simp only [hcmd, if_true] at hmode ⊢
  cases hwrq : parseWrq H s with
  | none =>
    rw [hwrq] at hmode
    cases hmode
  | some r =>
    obtain ⟨s', ret⟩ := r
    obtain ⟨name, ptr, hstr, happ⟩ := parseWrq_name hwrq
    refine ⟨name, ptr, hstr, ?_⟩
    simp only
    split <;> exact happ

/-- The job of a server that gets no request but for files of this job. -/
def OnlyJob (job : Job) (s : Srv (Ota φ)) : Prop := ∀ n, s.mode = .writing n → s.app.job = job

/-- A packet that opens a session only for a file with this job. -/
def JobRequest (job : Job) (s : Srv (Ota φ)) : Recv → Prop
  | .timeout         => True
  | .packet src data => word16 (recvFrom s (.packet src data)).buffer.bytes 0 = TFTP_CMD_WRQ → ∃ name ptr,
      requestStrings (recvFrom s (.packet src data)).buffer.bytes = some (name, ptr) ∧ jobOfName name true = job

/-- No session is open behind a timeout. -/
theorem timeout_not_writing (hreading : ∀ n r, s.mode ≠ .reading n r) (n : Nat) :
    (Tftp.step (otaServer env) s .timeout).mode ≠ .writing n := by
  intro hmode
  cases hs : s.mode with
  | idle =>
    have hneg : (recvFrom s .timeout).dataSize < 0 := Int.negSucc_lt_zero 0
    rw [step_idle _ _ hs, if_pos hneg] at hmode
    cases hs.symm.trans hmode
  | writing m =>
    rw [step_writing _ _ hs, body_timeout] at hmode
    obtain ⟨hm | hm, -⟩ := afterWrite_closed (otaServer env) (recvFrom s .timeout) (show (-1 : Int) ≤ 0 by decide)
    · cases hm.symm.trans hmode
    · cases hm.symm.trans hmode
  | reading m r => exact hreading m r hs
  | hung | stopped | fault =>
    rw [Tftp.step, hs] at hmode
    exact absurd (hs.symm.trans hmode) (by simp only [reduceCtorEq, not_false_eq_true])

theorem onlyJob_parseRq {t : Srv (Ota φ)} {src : Addr} {data : Datagram} (hreq : JobRequest job s (.packet src data))
    (hbuf : t.buffer = (recvFrom s (.packet src data)).buffer) (result : Int) :
    OnlyJob job (parseRq (otaServer env) t result) := by
  intro n hmode
  obtain ⟨name', ptr', hstr', hjob⟩ := hreq (hbuf ▸ wrq_of_writing hmode)
  obtain ⟨name, ptr, hstr, happ⟩ := parseRq_name hmode
  rw [hbuf, hstr'] at hstr
  cases hstr
  rw [happ]
  exact (job_onWrite env name' t.app).trans hjob

/-- **The job of an open session** stays, while no packet asks for another file. -/
theorem OnlyJob.packet (h : OnlyJob job s) (hin : InUpdate env s) {src : Addr} {data : Datagram}
    (hreq : JobRequest job s (.packet src data)) : OnlyJob job (Tftp.step (otaServer env) s (.packet src data)) := by
  intro n' hmode
  cases hs : s.mode with
  | idle =>
    obtain ⟨-, hm⟩ | hr := idle_cases (otaServer env) hs (.packet src data)
    · cases hm.symm.trans hmode
    · rw [hr] at hmode ⊢
      exact onlyJob_parseRq hreq rfl (-1) n' hmode
  | writing n =>
    -- the job is carried from the request on
    have hext : (otaServer env).Extends (fun app _ => app.job = job) := by
      intro buffer app app' session b hjob _ _ _ _ hw
      exact (job_onWriteData hw).1.trans hjob
    obtain ⟨cur, rest, hhist, hres, -⟩ := hin.writing n hs
    obtain hr | ⟨-, -, cur', rest', -, -, hjob⟩ | ⟨t, result, hr, -, hbuf, -⟩ :=
      writing_cases hext hs ⟨cur, rest, hhist, hres, h n hs⟩ (.packet src data)
    · rw [hr] at hmode
      cases hmode
    · exact hjob
    · rw [hr] at hmode ⊢
      obtain ⟨-, -, hm⟩ | ⟨app, -, ⟨-, hm⟩ | hm⟩ := afterWrite_cases (otaServer env) t result
      · cases hm.symm.trans hmode
      · cases hm.symm.trans hmode
      · have hbuf' : ({ t with hist := recordResult result t.hist, app := app } : Srv (Ota φ)).buffer =
            (recvFrom s (.packet src data)).buffer := hbuf
        generalize ({ t with hist := recordResult result t.hist, app := app } : Srv (Ota φ)) = u at hm hbuf'
        rw [hm] at hmode ⊢
        exact onlyJob_parseRq hreq hbuf' result n' hmode
  | reading n r => exact absurd hmode ((reading_step_mode (otaServer env) s hs (.packet src data)).not_writing n')
  | hung | stopped | fault =>
    rw [Tftp.step, hs] at hmode
    exact absurd (hs.symm.trans hmode) (by simp only [reduceCtorEq, not_false_eq_true])

/-- **A step of a server that takes configs only** ends no session, or one, with a save of what it took. -/
theorem step_config (hin : InUpdate env s) (hjob : OnlyJob .loadCfg s) (e : Recv) :
    ((Tftp.step (otaServer env) s e).app.store = s.app.store ∧
        ended (Tftp.step (otaServer env) s e).hist = ended s.hist) ∨
      ∃ session r, ended (Tftp.step (otaServer env) s e).hist = ended s.hist ++ [session] ∧
        r = saveConfigImage (env.fate s.app.saved.length) s.app.setup (taken session.blocks) ∧
        (Tftp.step (otaServer env) s e).app.store = (r.dev, s.app.saved ++ [r]) ∧
        ((∀ b ∈ session.blocks, 0 ≤ b.len) → session.payload.length ≤ MAX_CFG_SIZE →
          taken session.blocks = session.payload) := by
  obtain ⟨hstore, hended, -⟩ | ⟨n, t, session, hmode, hended, hg, hstore, hjobt, hclose⟩ :=
    step_closes (j := Ota.job) (gathered_carries env) (sends_feeds env) (store_closesOnly env)
      (fun _ _ _ _ _ hw => (job_onWriteData hw).1) hin e
  · exact Or.inl ⟨hstore, hended⟩
  · have hcfg : t.job = .loadCfg := hjobt.trans (hjob n hmode)
    have hup : t.job.isUpload := Or.inl hcfg
    have hset : t.setup = s.app.setup := congrArg Prod.fst hstore
    have hsav : t.saved = s.app.saved := congrArg Prod.snd hstore
    have honclose : (otaServer env).onClose t = some (afterSave (commit env t (taken session.blocks)) t) :=
      (hg.config hup).onClose env hup
    obtain ⟨hnone, -⟩ | ⟨closed, hsome, happ, -⟩ := hclose
    · rw [honclose] at hnone
      cases hnone
    · rw [honclose] at hsome
      cases hsome
      refine Or.inr ⟨session, commit env t (taken session.blocks), hended, ?_, ?_, hg.whole hup⟩
      · rw [commit, saveCall, if_pos hcfg, SaveCall.run, hset, hsav]
      · obtain ⟨h1, h2⟩ := afterSave_fields (commit env t (taken session.blocks)) t
        rw [happ, Ota.store, h1, h2, hsav]

end

/-! ## The run -/

/-- **The store while an image is on its way**: as it was, with no session that took the image, or with the image at the
end of its log. -/
def HoldsImage (d : Setup) (image : List UInt8) (s : Srv (Ota φ)) : Prop :=
  (s.app.setup = d ∧ ∀ session ∈ ended s.hist, session.payload ≠ image) ∨ ∃ m, AtEnd s.app.setup (savedImage image) m

/-- **The invariant of the run.** -/
structure Atomic (env : OtaEnv φ) (d : Setup) (fname image : List UInt8)
    (n : Link.Net Send (Srv (Ota φ)) Datagram Datagram) : Prop where
  upload : ∃ r, Upload fname image r n
  update : InUpdate env n.right
  config : OnlyJob .loadCfg n.right
  good : ∀ past, Good past n.right.app.setup
  store : HoldsImage d image n.right

section

variable {env : OtaEnv φ} {d : Setup} {fname image : List UInt8} {n : Link.Net Send (Srv (Ota φ)) Datagram Datagram}

/-- **A step with a safe history**: a session that took a part is refused, one that took the image saves it. -/
theorem holdsImage_step {s : Srv (Ota φ)} (hflash : ∀ i, env.fate i = .working) (himg : Accepted (savedImage image))
    (hcrc : imageCrc image ≠ 0xFFFFFFFF) (hin : InUpdate env s) (hjob : OnlyJob .loadCfg s)
    (hgood : ∀ past, Good past s.app.setup) (h : HoldsImage d image s) (e : Recv)
    (hsafe : ∀ session ∈ (Tftp.step (otaServer env) s e).hist, session.Safe image) :
    (∀ past, Good past (Tftp.step (otaServer env) s e).app.setup) ∧
      HoldsImage d image (Tftp.step (otaServer env) s e) := by
  obtain ⟨hstore, hended⟩ | ⟨session, r, hended, hr, hstore, htaken⟩ := step_config hin hjob e
  · have hset : (Tftp.step (otaServer env) s e).app.setup = s.app.setup := congrArg Prod.fst hstore
    unfold HoldsImage
    rw [hset, hended]
    exact ⟨hgood, h⟩
  · have hset : (Tftp.step (otaServer env) s e).app.setup = r.dev := congrArg Prod.fst hstore
    have hmem : session ∈ (Tftp.step (otaServer env) s e).hist := by
      have hlast : session ∈ ended (Tftp.step (otaServer env) s e).hist := by
        rw [hended]
        exact List.mem_append_right _ (List.mem_singleton_self _)
      exact (List.mem_filter.1 (List.mem_reverse.1 hlast)).1
    have hs := hsafe session hmem
    have hfour := four_le_of_accepted himg
    have hmax := himg.le_max
    rw [length_savedImage hfour] at hmax
    have hbytes : taken session.blocks = session.payload :=
      htaken (fun b hb => by rw [hs.len b hb]; exact Int.natCast_nonneg _) (hs.isPrefix.length_le.trans hmax)
    rw [hflash, hbytes] at hr
    unfold HoldsImage
    rw [hset, hended]
    by_cases hwhole : session.payload = image
    · rw [hwhole] at hr
      have hnull : (saveConfigImage .working s.app.setup image).err = none := by
        rw [saveConfigImage_accepted (hgood (fun _ => 0)).pat himg, storeImage_working]
      obtain ⟨hpat, m, hend⟩ := (hgood (fun _ => 0)).save hnull hcrc
      rw [← hr] at hpat hend
      exact ⟨hend.good hpat, Or.inr ⟨m, hend⟩⟩
    · obtain ⟨err, herr⟩ := checkImage_part himg hs.isPrefix hwhole
      have hdev : r.dev = s.app.setup := by
        rw [hr]
        exact dev_saveConfigImage ((ops_saveConfigImage _ _ _).2 (Or.inr ⟨err, herr⟩))
      rw [hdev]
      refine ⟨hgood, h.imp_left (fun ⟨hd, hnone⟩ => ⟨hd, fun session' hs' => ?_⟩)⟩
      rcases List.mem_append.1 hs' with hs' | hs'
      · exact hnone session' hs'
      · rw [List.mem_singleton.1 hs']
        exact hwhole

/-- A packet of the upload asks for its file only. -/
theorem jobRequest_uploadPacket {job : Job} (h0 : 0 ∉ fname) (hlen : fname.length ≤ 500)
    (hjob : jobOfName fname true = job) (s : Srv (Ota φ)) (host : Addr) (k : Nat) :
    JobRequest job s (.packet host (uploadPacket fname image k)) := by
  intro hcmd
  have hcode := code_uploadPacket fname image k
  have hput : word16 (s.buffer.put 0 (uploadPacket fname image k)).bytes 0 = word16 (uploadPacket fname image k) 0 := by
    refine word16_put _ _ ?_
    cases k with
    | zero => simp [uploadPacket, xrqPacket]
    | succ k => simp [uploadPacket, dataBytes, be16]
  rw [show (recvFrom s (.packet host (uploadPacket fname image k))).buffer = s.buffer.put 0 _ from rfl, hput, hcode] at hcmd
  by_cases hk : k = 0
  · subst hk
    exact ⟨fname, fname.length + 9, (requestStrings_xrq s.buffer TFTP_CMD_WRQ h0 hlen).2, hjob⟩
  · rw [if_neg hk] at hcmd
    exact absurd hcmd (by decide)

/-- What the server takes next keeps the invariant. -/
theorem Atomic.right {n' : Link.Net Send (Srv (Ota φ)) Datagram Datagram} (h : Atomic env d fname image n)
    (hflash : ∀ i, env.fate i = .working) (himg : Accepted (savedImage image)) (hcrc : imageCrc image ≠ 0xFFFFFFFF)
    {host : Addr} {e : Option Datagram}
    (hright : n'.right = Tftp.step (otaServer env) { n.right with out := [] } (toRecv host e)) (hupload : ∃ r, Upload fname image r n')
    (hconfig : OnlyJob .loadCfg (Tftp.step (otaServer env) { n.right with out := [] } (toRecv host e))) :
    Atomic env d fname image n' := by
  have hin : InUpdate env { n.right with out := [] } := ⟨h.update.writing, h.update.reading⟩
  obtain ⟨r, hr⟩ := hupload
  have hsafe := hr.server.safe
  rw [hright] at hsafe
  obtain ⟨hgood, hstore⟩ := holdsImage_step hflash himg hcrc hin h.config h.good h.store (toRecv host e) hsafe
  rw [← hright] at hgood hstore hconfig
  refine ⟨⟨r, hr⟩, ?_, hconfig, hgood, hstore⟩
  rw [hright]
  exact InSession.step (gathered_carries env) (sends_feeds env) hin (toRecv host e)

/-- **Every move of the run keeps the invariant.** -/
theorem atomic_preserves (env : OtaEnv φ) (d : Setup) (host device : Addr) (hflash : ∀ i, env.fate i = .working)
    (himg : Accepted (savedImage image)) (hcrc : imageCrc image ≠ 0xFFFFFFFF) (h0 : 0 ∉ fname) (hlen : fname.length ≤ 500)
    (hjob : jobOfName fname true = .loadCfg) :
    Link.Preserves (clientMachine device) (serverMachine (otaServer env) host) (Atomic env d fname image) := by
  have hmax := himg.le_max
  rw [length_savedImage (four_le_of_accepted himg)] at hmax
  have hshort : image.length < 65535 * 512 := by unfold MAX_CFG_SIZE at hmax; omega
  have hup := upload_preserves (otaServer env) host device fname hshort
  refine ⟨fun n h => ?_, fun n m ms h hn => ?_, fun n h => ?_, fun n m ms h hn => ?_, fun n toRight toLeft h hr hl => ?_⟩
  · exact ⟨hup.leftTimeout n h.upload, h.update, h.config, h.good, h.store⟩
  · exact ⟨hup.leftRecv n m ms h.upload hn, h.update, h.config, h.good, h.store⟩
  · obtain ⟨r, hr⟩ := h.upload
    exact h.right hflash himg hcrc rfl (hup.rightTimeout n h.upload)
      (fun k hk => absurd hk (timeout_not_writing (s := { n.right with out := [] }) hr.server.noRead k))
  · obtain ⟨r, hr⟩ := h.upload
    obtain ⟨ks, hks, -⟩ := hr.toServer
    obtain ⟨k, ks', rfl, rfl, rfl⟩ := List.map_eq_cons_iff.1 (hks.symm.trans hn)
    exact h.right hflash himg hcrc rfl (hup.rightRecv n _ _ h.upload hn)
      (OnlyJob.packet (s := { n.right with out := [] }) h.config ⟨h.update.writing, h.update.reading⟩
        (jobRequest_uploadPacket h0 hlen hjob _ host k))
  · exact ⟨hup.lose n toRight toLeft h.upload hr hl, h.update, h.config, h.good, h.store⟩

theorem uploadStart_atomic (env : OtaEnv φ) (s : Srv (Ota φ)) (fname image : List UInt8)
    (hgood : ∀ past, Good past s.app.setup) : Atomic env s.app.setup fname image (uploadStart s fname image) where
  upload := ⟨0, uploadStart_upload s fname image⟩
  update := inUpdate_idle env rfl
  config := fun _ h => by cases h
  good := hgood
  store := Or.inl ⟨rfl, fun _ h => by cases h⟩

end

/-- **A reported upload was received**, when the last block gets through. -/
theorem received_of_returned (env : OtaEnv φ) (host device : Addr) (s : Srv (Ota φ)) {fname image : List UInt8}
    (hlen : image.length < 65535 * 512) {actions : List Link.Action}
    (harr : Link.Along (LastArrives fname image) (clientMachine device) (serverMachine (otaServer env) host)
      (uploadStart s fname image) actions)
    (hret : (uploadRun (otaServer env) host device s fname image actions).left.progress = .returned) :
    Received image (Link.drain (clientMachine device) (serverMachine (otaServer env) host)
      (uploadRun (otaServer env) host device s fname image actions)).right := by
  have hstart : Phase fname image (uploadStart s fname image) :=
    .closed (fun m hm => by cases hm) (fun hp => by cases hp) (fun d hd => by cases hd)
  exact Phase.received (onWriteData_ne_none env) hlen
    (Link.run_along (arrival_step (onWriteData_ne_none env) hlen) actions ⟨⟨0, uploadStart_upload s fname image⟩, hstart⟩
      harr) hret

/-- **An upload is atomic.**  Whatever the link loses, and however often the server's waits run out and sessions are
opened again: at any time the store is good, and it is the one from before, or the next boot loads the image. -/
theorem upload_atomic (env : OtaEnv φ) (host device : Addr) (s : Srv (Ota φ)) (fname image : List UInt8)
    (actions : List Link.Action) (hflash : ∀ i, env.fate i = .working) (hgood : ∀ past, Good past s.app.setup)
    (himg : Accepted (savedImage image)) (hcrc : imageCrc image ≠ 0xFFFFFFFF) (h0 : 0 ∉ fname) (hlen : fname.length ≤ 500)
    (hjob : jobOfName fname true = .loadCfg) :
    let d := (uploadRun (otaServer env) host device s fname image actions).right.app.setup
    (∀ past, Good past d) ∧ (d = s.app.setup ∨ ∀ past, selected past d.flash = some (savedImage image)) := by
  have h := Link.run_preserves (atomic_preserves env s.app.setup host device hflash himg hcrc h0 hlen hjob)
    (uploadStart_atomic env s fname image hgood) actions
  exact ⟨h.good, h.store.imp And.left (fun ⟨m, hend⟩ past => (hend.selected past).1)⟩

/-- **A reported upload is stored.**  When `send` has returned and its last block is not lost, the next boot loads the
image as soon as the server has taken what is in flight. -/
theorem upload_stored (env : OtaEnv φ) (host device : Addr) (s : Srv (Ota φ)) (fname image : List UInt8)
    (actions : List Link.Action) (hflash : ∀ i, env.fate i = .working) (hgood : ∀ past, Good past s.app.setup)
    (himg : Accepted (savedImage image)) (hcrc : imageCrc image ≠ 0xFFFFFFFF) (h0 : 0 ∉ fname) (hlen : fname.length ≤ 500)
    (hjob : jobOfName fname true = .loadCfg)
    (harr : Link.Along (LastArrives fname image) (clientMachine device) (serverMachine (otaServer env) host)
      (uploadStart s fname image) actions)
    (hret : (uploadRun (otaServer env) host device s fname image actions).left.progress = .returned) (past : Ptr) :
    selected past (Link.drain (clientMachine device) (serverMachine (otaServer env) host)
      (uploadRun (otaServer env) host device s fname image actions)).right.app.setup.flash = some (savedImage image) := by
  have hpres := atomic_preserves env s.app.setup host device hflash himg hcrc h0 hlen hjob
  have hrun := Link.run_preserves hpres (uploadStart_atomic env s fname image hgood) actions
  obtain ⟨hend, -, -⟩ := Link.drain_preserves (I := Atomic env s.app.setup fname image)
    (fun _ hn => Link.step_preserves hpres hn .rightRecv) hrun
  have hmax := himg.le_max
  rw [length_savedImage (four_le_of_accepted himg)] at hmax
  obtain ⟨session, hmem, hpay, hres⟩ := received_of_returned env host device s (by unfold MAX_CFG_SIZE at hmax; omega)
    harr hret
  obtain ⟨-, hnone⟩ | ⟨m, hat⟩ := hend.store
  · refine absurd hpay (hnone session (List.mem_reverse.2 (List.mem_filter.2 ⟨hmem, ?_⟩)))
    rw [hres]
    rfl
  · exact (hat.selected past).1

/-- The small image with its CRC filled in, as a store keeps it. -/
def smallRecord : List UInt8 := savedImage smallImage

theorem smallRecord_accepted : Accepted (savedImage smallRecord) :=
  (accepted_savedImage_iff smallRecord).2 (by decide +kernel)

/-- A device with an erased partition that it knows. -/
def freshServer : Srv (Ota Unit) := stockServer freshStore []

theorem upload_atomic_timeout :
    let d := (uploadRun (otaServer stockEnv) 1 2 freshServer cfgName smallRecord [.rightRecv, .rightTimeout]).right.app.setup
    (∀ past, Good past d) ∧ (d = freshServer.app.setup ∨ ∀ past, selected past d.flash = some (savedImage smallRecord)) :=
  upload_atomic stockEnv 1 2 freshServer cfgName smallRecord [.rightRecv, .rightTimeout] (fun _ => rfl) freshStore_good
    smallRecord_accepted (by decide +kernel) (by decide) (by decide) (by decide)

end Tftp

end Mstd
