import Mstd.TftpAtomic
/-!
# A firmware update

`send` brings a firmware to the device over a link that loses packets.  `esp_ota_end` accepts the images that are valid,
and no part of the file is one: then the device restarts exactly when a session has handed the whole file to
`esp_ota_write`, and a reported upload ends in a restart (`firmware_updated`).
-/
namespace Mstd.Tftp

variable {φ : Type}

/-- **The OTA functions work for an image**: handles are not zero, `esp_ota_write` takes what comes next of the image
behind the part of it that it took since `esp_ota_begin`, and `esp_ota_end` then accepts a part that is valid, and no
other. -/
structure Verifies (api : OtaApi φ) (Valid : List UInt8 → Prop) (image : List UInt8) : Prop where
  begins : ∀ part fw handle fw', api.otaBegin part fw = (some handle, fw') → handle ≠ 0
  writes : ∀ session handle fw data, FirmwareOf api session handle fw → taken session.blocks ++ data <+: image →
    (api.otaWrite handle data fw).1 = true
  ends : ∀ session handle fw, FirmwareOf api session handle fw → taken session.blocks <+: image →
    ((api.otaEnd handle fw).1 = true ↔ Valid (taken session.blocks))

/-- A firmware none of whose parts is one. -/
structure SoundImage (Valid : List UInt8 → Prop) (image : List UInt8) : Prop where
  valid : Valid image
  whole : ∀ part, part <+: image → Valid part → part = image

/-- **A session that handed the whole file to `esp_ota_write`**, behind an `esp_ota_begin`, and all of it was taken. -/
def Installs (api : OtaApi φ) (image : List UInt8) (session : Session (Ota φ)) : Prop :=
  session.payload = image ∧ taken session.blocks = image ∧ ∃ handle fw, FirmwareOf api session handle fw

/-- **The invariant of the run.** -/
structure Updating (env : OtaEnv φ) (d : Setup) (fname image : List UInt8)
    (n : Link.Net Send (Srv (Ota φ)) Datagram Datagram) : Prop where
  upload : ∃ r, Upload fname image r n
  update : InUpdate env n.right
  firmware : OnlyJob .loadFW n.right
  setup : n.right.app.setup = d
  restart : n.right.mode = .stopped ∧ (∃ session ∈ ended n.right.hist, Installs env.api image session) ∨
    n.right.mode ≠ .stopped ∧ ∀ session ∈ ended n.right.hist, session.payload ≠ image

section

variable {env : OtaEnv φ} {Valid : List UInt8 → Prop} {d : Setup} {fname image : List UInt8}
  {n : Link.Net Send (Srv (Ota φ)) Datagram Datagram}

/-- **The OTA functions take the blocks of an image**, one after another. -/
theorem FirmwareOf.taken_eq (hver : Verifies env.api Valid image) {session : Session (Ota φ)} {handle : Nat} {fw' : φ}
    (h : FirmwareOf env.api session handle fw') (hpart : session.payload <+: image) :
    taken session.blocks = session.payload := by
  obtain ⟨hjob, part, fw, hnext, hbegin, hflashed⟩ := h
  have hhandle : handle ≠ 0 := hver.begins part _ _ _ hbegin
  unfold Session.payload at hpart ⊢
  generalize session.blocks = blocks at hflashed hpart
  induction blocks using List.reverseRecOn generalizing fw' with
  | nil => rfl
  | append_singleton bs b ih =>
    obtain ⟨mid, hbs, hb⟩ := flashed_append_iff.1 hflashed
    rw [List.flatMap_append, List.flatMap_singleton] at hpart ⊢
    have htaken := ih hbs ((List.prefix_append _ _).trans hpart)
    -- the flash has taken the blocks before this one
    have hok : (env.api.otaWrite handle b.data mid).1 = true :=
      hver.writes { session with blocks := bs } handle mid b.data ⟨hjob, part, fw, hnext, hbegin, hbs⟩
        (by rw [htaken]; exact hpart)
    rw [Flashed, if_neg hhandle, hok, if_pos rfl] at hb
    have htook : b.ret ≠ -1 := by omega
    rw [taken_append, htaken, if_neg htook]

/-- **A step of a server that takes firmware only**: it ends no session, or one, and stops if the part of the image that it
took is valid. -/
theorem step_firmware {s : Srv (Ota φ)} (hver : Verifies env.api Valid image) (hin : InUpdate env s)
    (hjob : OnlyJob .loadFW s) (e : Recv) :
    (Tftp.step (otaServer env) s e).app.setup = s.app.setup ∧
      ((ended (Tftp.step (otaServer env) s e).hist = ended s.hist ∧
          ((Tftp.step (otaServer env) s e).mode = .stopped → s.mode = .stopped)) ∨
        ∃ session handle fw, ended (Tftp.step (otaServer env) s e).hist = ended s.hist ++ [session] ∧
          FirmwareOf env.api session handle fw ∧
          (session.payload <+: image → taken session.blocks = session.payload ∧
            ((Tftp.step (otaServer env) s e).mode = .stopped ↔ Valid session.payload))) := by
  obtain ⟨hstore, hended, hstop⟩ | ⟨n, t, session, hmode, hended, hg, hstore, hjobt, hclose⟩ :=
    step_closes (j := Ota.job) (gathered_carries env) (sends_feeds env) (store_closesOnly env)
      (fun _ _ _ _ _ hw => (job_onWriteData hw).1) hin e
  · exact ⟨congrArg Prod.fst hstore, .inl ⟨hended, hstop⟩⟩
  · have hfw : t.job = .loadFW := hjobt.trans (hjob n hmode)
    have hof := hg.firmware hfw
    have hhandle : t.otaHandle ≠ 0 := by
      obtain ⟨part, fw, -, hbegin, -⟩ := hof.begun
      exact hver.begins part _ _ fw hbegin
    have hends : session.payload <+: image → taken session.blocks = session.payload ∧
        ((env.api.otaEnd t.otaHandle t.fw).1 = true ↔ Valid session.payload) := by
      intro hpart
      have htaken := hof.taken_eq hver hpart
      have hiff := hver.ends session t.otaHandle t.fw hof (htaken.symm ▸ hpart)
      rw [htaken] at hiff
      exact ⟨htaken, hiff⟩
    have hsetup : t.setup = s.app.setup := congrArg Prod.fst hstore
    obtain ⟨hnone, hstopped, happ⟩ | ⟨closed, hsome, happ, hgoes⟩ := hclose
    · refine ⟨(congrArg Prod.fst happ).trans hsetup, .inr ⟨session, t.otaHandle, t.fw, hended, hof, fun hpart => ?_⟩⟩
      obtain ⟨htaken, hiff⟩ := hends hpart
      exact ⟨htaken, fun _ => hiff.1 ((onClose_none_iff env t).1 hnone).2.2, fun _ => hstopped⟩
    · have hkept : closed.setup = t.setup := congrArg Prod.fst (store_firmware hfw hsome)
      refine ⟨(congrArg Prod.fst happ).trans (hkept.trans hsetup),
        .inr ⟨session, t.otaHandle, t.fw, hended, hof, fun hpart => ?_⟩⟩
      obtain ⟨htaken, hiff⟩ := hends hpart
      refine ⟨htaken, fun h => absurd h hgoes, fun hvalid => ?_⟩
      have hnone : onClose env t = none := (onClose_none_iff env t).2 ⟨hfw, hhandle, hiff.2 hvalid⟩
      cases hnone.symm.trans hsome

/-- What the server takes next keeps the invariant. -/
theorem Updating.right {n' : Link.Net Send (Srv (Ota φ)) Datagram Datagram} (h : Updating env d fname image n)
    (hver : Verifies env.api Valid image) (hsound : SoundImage Valid image) {host : Addr} {e : Option Datagram}
    (hright : n'.right = Tftp.step (otaServer env) { n.right with out := [] } (toRecv host e))
    (hupload : ∃ r, Upload fname image r n')
    (hfirmware : OnlyJob .loadFW (Tftp.step (otaServer env) { n.right with out := [] } (toRecv host e))) :
    Updating env d fname image n' := by
  have hin : InUpdate env { n.right with out := [] } := ⟨h.update.writing, h.update.reading⟩
  obtain ⟨r, hr⟩ := hupload
  have hsafe := hr.server.safe
  obtain ⟨hsetup, hstep⟩ := step_firmware hver hin h.firmware (toRecv host e)
  rw [← hright] at hsetup hstep hfirmware
  refine ⟨⟨r, hr⟩, ?_, hfirmware, hsetup.trans h.setup, ?_⟩
  · rw [hright]
    exact InSession.step (gathered_carries env) (sends_feeds env) hin (toRecv host e)
  obtain ⟨hstopped, session, hmem, hinst⟩ | ⟨hgoes, hnone⟩ := h.restart
  · -- a device that restarts takes nothing any more
    have hsame : n'.right = { n.right with out := [] } := by
      rw [hright, Tftp.step]
      simp only [hstopped]
    rw [hsame]
    exact .inl ⟨hstopped, session, hmem, hinst⟩
  · obtain ⟨hended, hstop⟩ | ⟨session, handle, fw, hended, hfw, hinst⟩ := hstep
    · rw [hended]
      exact .inr ⟨fun hm => hgoes (hstop hm), hnone⟩
    · have hlast : session ∈ ended n'.right.hist := by
        rw [hended]
        exact List.mem_append_right _ (List.mem_singleton_self _)
      have hpart := (hsafe session (List.mem_filter.1 (List.mem_reverse.1 hlast)).1).isPrefix
      obtain ⟨htaken, hiff⟩ := hinst hpart
      by_cases hwhole : session.payload = image
      · refine .inl ⟨hiff.2 (hwhole.symm ▸ hsound.valid), session, hlast, hwhole, ?_, handle, fw, hfw⟩
        rw [htaken, hwhole]
      · refine .inr ⟨fun hm => hwhole (hsound.whole _ hpart (hiff.1 hm)), fun other hother => ?_⟩
        rw [hended] at hother
        rcases List.mem_append.1 hother with hother | hother
        · exact hnone other hother
        · rw [List.mem_singleton.1 hother]
          exact hwhole

/-- **Every move of the run keeps the invariant.** -/
theorem updating_preserves (hver : Verifies env.api Valid image) (hsound : SoundImage Valid image) (d : Setup)
    (host device : Addr) (hshort : image.length < 65535 * 512) (h0 : 0 ∉ fname) (hlen : fname.length ≤ 500)
    (hjob : jobOfName fname true = .loadFW) :
    Link.Preserves (clientMachine device) (serverMachine (otaServer env) host) (Updating env d fname image) := by
  have hup := upload_preserves (otaServer env) host device fname hshort
  refine ⟨fun n h => ?_, fun n m ms h hn => ?_, fun n h => ?_, fun n m ms h hn => ?_, fun n toRight toLeft h hr hl => ?_⟩
  · exact ⟨hup.leftTimeout n h.upload, h.update, h.firmware, h.setup, h.restart⟩
  · exact ⟨hup.leftRecv n m ms h.upload hn, h.update, h.firmware, h.setup, h.restart⟩
  · obtain ⟨r, hr⟩ := h.upload
    exact h.right hver hsound rfl (hup.rightTimeout n h.upload)
      (fun k hk => absurd hk (timeout_not_writing (s := { n.right with out := [] }) hr.server.noRead k))
  · obtain ⟨r, hr⟩ := h.upload
    obtain ⟨ks, hks, -⟩ := hr.toServer
    obtain ⟨k, ks', rfl, rfl, rfl⟩ := List.map_eq_cons_iff.1 (hks.symm.trans hn)
    exact h.right hver hsound rfl (hup.rightRecv n _ _ h.upload hn)
      (OnlyJob.packet (s := { n.right with out := [] }) h.firmware ⟨h.update.writing, h.update.reading⟩
        (jobRequest_uploadPacket h0 hlen hjob _ host k))
  · exact ⟨hup.lose n toRight toLeft h.upload hr hl, h.update, h.firmware, h.setup, h.restart⟩

theorem uploadStart_updating (env : OtaEnv φ) (s : Srv (Ota φ)) (fname image : List UInt8) :
    Updating env s.app.setup fname image (uploadStart s fname image) where
  upload := ⟨0, uploadStart_upload s fname image⟩
  update := inUpdate_idle env rfl
  firmware := fun _ h => by cases h
  setup := rfl
  restart := .inr ⟨fun h => (by cases h), fun _ h => by cases h⟩

end

/-- **A firmware update.**  Whatever the link loses, and however often sessions end and are opened again: the device
restarts exactly when a session has installed the whole file, and keeps its config.  When `send` has returned and its last
block is not lost, the device restarts as soon as it has taken what is in flight. -/
theorem firmware_updated (env : OtaEnv φ) (Valid : List UInt8 → Prop) (host device : Addr) (s : Srv (Ota φ))
    (fname image : List UInt8) (actions : List Link.Action) (hver : Verifies env.api Valid image)
    (hsound : SoundImage Valid image) (hshort : image.length < 65535 * 512) (h0 : 0 ∉ fname) (hlen : fname.length ≤ 500)
    (hjob : jobOfName fname true = .loadFW) :
    let n := uploadRun (otaServer env) host device s fname image actions
    ((n.right.mode = .stopped ↔ ∃ session ∈ ended n.right.hist, Installs env.api image session) ∧
      n.right.app.setup = s.app.setup) ∧
    (Link.Along (LastArrives fname image) (clientMachine device) (serverMachine (otaServer env) host)
        (uploadStart s fname image) actions →
      n.left.progress = .returned →
      (Link.drain (clientMachine device) (serverMachine (otaServer env) host) n).right.mode = .stopped) := by
  have hpres := updating_preserves hver hsound s.app.setup host device hshort h0 hlen hjob
  have hrun := Link.run_preserves hpres (uploadStart_updating env s fname image) actions
  refine ⟨⟨?_, hrun.setup⟩, fun harr hret => ?_⟩
  · obtain ⟨hstopped, hinst⟩ | ⟨hgoes, hnone⟩ := hrun.restart
    · exact iff_of_true hstopped hinst
    · refine iff_of_false hgoes ?_
      rintro ⟨session, hmem, hwhole, -⟩
      exact hnone session hmem hwhole
  · obtain ⟨hend, -, -⟩ := Link.drain_preserves (I := Updating env s.app.setup fname image)
      (fun _ hn => Link.step_preserves hpres hn .rightRecv) hrun
    obtain ⟨session, hmem, hpay, hres⟩ := received_of_returned env host device s hshort harr hret
    obtain ⟨hstopped, -⟩ | ⟨-, hnone⟩ := hend.restart
    · exact hstopped
    · refine absurd hpay (hnone session (List.mem_reverse.2 (List.mem_filter.2 ⟨hmem, ?_⟩)))
      rw [hres]
      rfl

/-! ## A device that checks a length -/

/-- Images that say their length in the byte behind the magic one. -/
def SaysLength (bytes : List UInt8) : Prop := bytes.head? = some 0xE9 ∧ bytes.length = (bytes.getD 1 0).toNat

instance (bytes : List UInt8) : Decidable (SaysLength bytes) := inferInstanceAs (Decidable (_ ∧ _))

/-- A partition of 4 KiB that collects what it is to hold; its first byte is the magic one. -/
def listOta : OtaApi (List UInt8) where
  nextPartition _ := some 0
  otaBegin _ _ := (some 1, [])
  otaWrite _ data fw :=
    if (fw ++ data).length ≤ 4096 ∧ (fw ++ data).headD 0xE9 = 0xE9 then (true, fw ++ data) else (false, fw)
  otaEnd _ fw := (decide (SaysLength fw), fw)
  setBoot _ fw := fw

theorem flashed_listOta {handle : Nat} (hhandle : handle ≠ 0) : ∀ {blocks : List Block} {fw fw' : List UInt8},
    Flashed listOta handle fw blocks fw' → fw' = fw ++ taken blocks
  | [], fw, fw', h      => by
    rw [show fw' = fw from h]
    exact (List.append_nil fw).symm
  | b :: bs, fw, fw', h => by
    rw [Flashed, if_neg hhandle] at h
    obtain ⟨hpos, hret, hrest⟩ := h
    have ih := flashed_listOta hhandle hrest
    unfold listOta at hret ih
    simp only at hret ih
    rw [taken, List.flatMap_cons, ← taken]
    split at hret
    · rw [if_pos ‹_›] at ih
      rw [if_pos rfl] at hret
      rw [if_neg (by omega), ← List.append_assoc]
      exact ih
    · rw [if_neg ‹_›] at ih
      rw [if_neg Bool.false_ne_true] at hret
      rw [if_pos hret, List.nil_append]
      exact ih

def smallFirmware : List UInt8 := [0xE9, 4, 7, 8]

theorem smallFirmware_sound : SoundImage SaysLength smallFirmware where
  valid := by decide
  whole part hpart hvalid := by
    obtain ⟨hhead, hlength⟩ := hvalid
    refine hpart.eq_of_length ?_
    obtain ⟨rest, hrest⟩ := hpart
    match part, hhead, hlength with
    | [_], _, hlength => cases hlength
    | _ :: b :: more, _, hlength =>
      simp only [List.cons_append, smallFirmware, List.cons.injEq] at hrest
      rw [hrest.2.1] at hlength
      exact hlength

theorem listOta_verifies : Verifies listOta SaysLength smallFirmware where
  begins _ _ handle _ h := by
    rw [← Option.some.inj (congrArg Prod.fst h)]
    exact Nat.one_ne_zero
  writes session handle fw data h hpart := by
    obtain ⟨-, part, before, -, hbegin, hflashed⟩ := h
    cases hbegin
    rw [flashed_listOta Nat.one_ne_zero hflashed, List.nil_append]
    have hlen : (taken session.blocks ++ data).length ≤ 4096 := Nat.le_trans hpart.length_le (by decide)
    have hmagic : (taken session.blocks ++ data).headD 0xE9 = 0xE9 := by
      obtain ⟨rest, hrest⟩ := hpart
      match taken session.blocks ++ data, hrest with
      | [], _ => rfl
      | b :: _, hrest => exact (List.cons.inj hrest).1
    simp only [listOta]
    rw [if_pos ⟨hlen, hmagic⟩]
  ends session handle fw h _ := by
    obtain ⟨-, part, before, -, hbegin, hflashed⟩ := h
    cases hbegin
    rw [flashed_listOta Nat.one_ne_zero hflashed, List.nil_append]
    exact decide_eq_true_iff

def listEnv : OtaEnv (List UInt8) := { past := fun _ => 0, fate := fun _ => .working, api := listOta }

/-- A device before its first request. -/
def listServer : Srv (Ota (List UInt8)) where
  mode := .idle
  buffer := .fill _ 0
  dataSize := 0
  client := 0
  out := []
  hist := []
  app := { setup := loadedStore, job := .none, curPtr := 0, cfgBuf := .fill _ 0, otaHandle := 0, nextPartition := none,
           ticks := 0, msgs := [], fw := [], saved := [] }

/-- The first ACK is lost, and the request sent again. -/
theorem firmware_updated_again :
    (Link.drain (clientMachine 2) (serverMachine (otaServer listEnv) 1) (uploadRun (otaServer listEnv) 1 2 listServer
      (ascii "fw.bin") smallFirmware [.rightRecv, .loseToLeft 0, .leftTimeout, .rightRecv, .leftRecv])).right.mode =
        .stopped :=
  (firmware_updated listEnv SaysLength 1 2 listServer (ascii "fw.bin") smallFirmware
    [.rightRecv, .loseToLeft 0, .leftTimeout, .rightRecv, .leftRecv] listOta_verifies smallFirmware_sound (by decide)
    (by decide) (by decide) (by decide)).2 ⟨trivial, trivial, trivial, trivial, trivial, trivial⟩ (by decide +kernel)

end Mstd.Tftp
