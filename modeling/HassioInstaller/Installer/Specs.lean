import HassioInstaller.Installer.Main

/-! # What the functions of the installer may issue

One lemma for each function that later proofs only need to know the commands of: the log
collection, the flash drive dialog, the network setup and the marker scan keep to `Cmd.passive`,
`_reboot` and the failure side of `isok ... reboot` to `Cmd.passiveOrReboot`, and the latter two do
not return; the stages before a drive is chosen keep to `Cmd.choosing`. What erases and writes is
stated for any class that has the commands in question. -/

namespace HassioInstaller

/-- The commands that only look or log, the messages other than the final report, and those of the
log collection and the network setup. -/
def Cmd.passive : Cmd → Bool
  | .log _ | .run _ | .infobox _ | .isFile _ | .isDir _ | .isBlock _ | .testEmpty _ | .cat _ | .glob _
  | .fdiskList | .gitTags | .mount _
  | .grepMarker | .umount | .blkid | .evalWords .. | .mountType .. | .touch _ | .copyLog .. => true
  | .menu .flashdrive _ => true
  | .msgbox (.success _) | .msgbox .failure => false
  | .msgbox _ => true
  | _ => false

/-- The commands of the dialog that saves the log to a flash drive, and of the marker scan. -/
def Cmd.scans : Cmd → Bool
  | .log _ | .run _ | .isFile _ | .isBlock _ | .cat _ | .glob _ | .mount _ | .grepMarker | .umount
  | .blkid | .evalWords .. | .mountType .. | .touch _ | .copyLog .. | .menu .flashdrive _
  | .msgbox (.fileSaved _) => true
  | _ => false

/-- Those of the marker scan alone. -/
def Cmd.seeks : Cmd → Bool
  | .log _ | .isFile _ | .isBlock _ | .glob _ | .mount _ | .grepMarker | .umount => true
  | _ => false

theorem Cmd.seeks.scans {c : Cmd} (h : c.seeks) : c.scans := by
  cases c <;> first | rfl | cases h

theorem Cmd.scans.passive {c : Cmd} (h : c.scans) : c.passive := by
  cases c with
  | menu d => cases d <;> first | rfl | cases h
  | msgbox d => cases d <;> first | rfl | cases h
  | _ => first | rfl | cases h

/-- The passive commands, the network check and the reboot. -/
def Cmd.passiveOrReboot (c : Cmd) : Bool := c.passive || c == .gitPing || c == .reboot

theorem Cmd.passive.orReboot {c : Cmd} (h : c.passive) : c.passiveOrReboot := by
  simp [passiveOrReboot, h]

/-- The commands up to the choice of a drive. -/
def Cmd.choosing (c : Cmd) : Bool :=
  c.passiveOrReboot || match c with
    | .yesno .welcome | .menu .version _ | .menu .drive _ => true
    | _ => false

/-- The commands of the erase methods on a drive. -/
def Cmd.erases (disk : String) (c : Cmd) : Bool :=
  c.passiveOrReboot || match c with
    | .yesno .unfreeze | .menu .nvmeFallback _ | .menu .ssdFallback _ | .hdparmFrozen _
    | .partedPrint _ | .nvmeIdCtrl _ | .nvmeSanitize _ => true
    | c => c.target == some disk

theorem Cmd.passiveOrReboot.erases {c : Cmd} (h : c.passiveOrReboot) (disk : String) :
    c.erases disk := by
  simp [Cmd.erases, h]

theorem Cmd.erases_of_target {c : Cmd} (h : c.target = some disk) : c.erases disk := by
  cases c <;> simp_all [Cmd.erases, Cmd.target]

/-- The commands that look at the pidfile and at the process it names. -/
def Cmd.looks : Cmd → Bool
  | .pidfileExists | .catPidfile | .procExists _ => true
  | _ => false

/-- The commands of `--kill`. -/
def Cmd.kills (c : Cmd) : Bool :=
  c.looks || match c with
    | .rmPidfile | .kill .. => true
    | _ => false

theorem Cmd.looks.kills {c : Cmd} (h : c.looks) : c.kills := by simp [Cmd.kills, h]

theorem Cmd.passiveOrReboot.choosing {c : Cmd} (h : c.passiveOrReboot) : c.choosing := by
  simp [Cmd.choosing, h]

theorem Cmd.passive.choosing {c : Cmd} (h : c.passive) : c.choosing :=
  Cmd.passiveOrReboot.choosing (Cmd.passive.orReboot h)

theorem Cmd.passiveOrReboot.target {c : Cmd} (h : c.passiveOrReboot) : c.target = none := by
  cases c <;> first | rfl | simp [passiveOrReboot, passive] at h

namespace Installer
open Script

variable {E : Prop} {A : Cmd → Prop}

@[simp] theorem within_exec {B : PUnit → Prop} : Within E A (exec c) B ↔ A c ∧ B ⟨⟩ := by
  rw [exec, within_call]
  exact and_congr_right fun _ => ⟨fun h => within_ret.mp (h ⟨0, ""⟩), fun h _ => within_ret.mpr h⟩

@[simp] theorem within_status {B : Nat → Prop} :
    Within E A (status c) B ↔ A c ∧ ∀ r : Answer, B r.status := by
  simp [status]

@[simp] theorem within_output {B : String → Prop} :
    Within E A (output c) B ↔ A c ∧ ∀ r : Answer, B r.out := by
  simp [output]

@[simp] theorem within_dialogMenu {B : Answer → Prop} :
    Within E A (dialogMenu d content) B ↔ A (.menu d content) ∧ ∀ r, B r := by
  simp [dialogMenu]

theorem within_when {p : Sh PUnit} {B : PUnit → Prop} (h : b = true → Within E A p B) (hB : B ⟨⟩) :
    Within E A (Script.when b p) B := by
  cases b with
  | true => exact h rfl
  | false => exact within_ret.mpr hB

theorem within_foldlM {f : σ → ι → Sh σ} (h : ∀ s i, Within E A (f s i) fun _ => True) (is : List ι)
    (s : σ) : Within E A (is.foldlM f s) fun _ => True :=
  wp_foldlM (fun _ _ => True) (fun s i _ _ _ => h s i) trivial

/-! ## Log collection -/

theorem only_isok (log : ∀ text, A (.log text)) (st : Nat) :
    Within E A (isok st) fun a => a = 0 ↔ st = 0 := by
  unfold isok isokWith
  split <;> simp only [bind_eq, pure_eq, within_bind, within_exec, within_ret]
  · exact ⟨log _, by simpa⟩
  · exact ⟨log _, by simpa⟩

theorem scans_probe (env : Env) (s : Scan) (part : String) (ec : Nat) :
    Within E (fun c => c.scans) (probe env s part ec) fun _ => True := by
  unfold probe
  split
  · exact within_ret.mpr trivial
  simp only [bind_eq, pure_eq, within_bind, within_status]
  refine ⟨rfl, fun touched => ?_⟩
  split <;> simp only [within_bind, within_exec, within_output, within_ret]
  · exact ⟨rfl, trivial⟩
  · exact ⟨rfl, rfl, rfl, fun _ => ⟨rfl, fun _ => ⟨rfl, fun _ => ⟨rfl, fun _ => trivial⟩⟩⟩⟩

theorem scans_remount (TYPE part : String) (ec : Nat) :
    Within E (fun c => c.scans) (remount TYPE part ec) fun _ => True := by
  unfold remount
  split
  · simp only [bind_eq, within_bind, within_exec, within_status]
    exact ⟨rfl, rfl, rfl, fun _ => trivial⟩
  · exact within_ret.mpr trivial

theorem scans_scanPart (env : Env) (s : Scan) (part type : String) :
    Within E (fun c => c.scans) (scanPart env s part type) fun _ => True := by
  unfold scanPart
  split
  · exact within_ret.mpr trivial
  simp only [bind_eq, within_bind, within_output, within_status]
  exact ⟨rfl, fun evaled => ⟨rfl, fun ec => (scans_remount _ part _).mono fun ec _ =>
    scans_probe env _ part ec⟩⟩

theorem scans_uploadToFlashdrive (env : Env) :
    Within E (fun c => c.scans) (uploadToFlashdrive env) fun _ => True := by
  refine within_loop fun s => ?_
  simp only [bind_eq, pure_eq, within_bind, within_output]
  refine ⟨rfl, fun listing => ?_⟩
  apply (within_foldlM (fun s _ => scans_scanPart env s _ _) _ _).mono
  intro s _
  rw [within_dialogMenu]
  refine ⟨rfl, fun r => (only_isok (fun _ => rfl) r.status).mono fun st _ => ?_⟩
  split
  · refine within_ret.mpr fun _ h => ?_
    cases h
  · split <;> simp only [within_bind, within_exec, within_output, within_ret]
    · intro _ h
      cases h
    · exact ⟨rfl, rfl, fun _ => ⟨rfl, rfl, rfl, fun _ _ => trivial⟩⟩

theorem passive_pingPastebin : Within E (fun c => c.passive) pingPastebin fun _ => True := by
  refine within_loop fun (count, alive) => ?_
  simp only [bind_eq, pure_eq]
  split <;> simp only [within_bind, within_exec, within_status, within_ret]
  · exact fun _ _ => trivial
  · exact ⟨rfl, rfl, fun _ => ⟨rfl, fun _ _ => trivial⟩⟩

theorem passive_collectSection (what cmd : String) :
    Within E (fun c => c.passive) (collectSection what cmd) fun _ => True := by
  simp only [collectSection, bind_eq, within_bind, within_exec]
  exact ⟨rfl, rfl, rfl, trivial⟩

theorem passive_shareLog (env : Env) (url : String) :
    Within E (fun c => c.passive) (shareLog env url) fun _ => True := by
  unfold shareLog
  split
  · rw [bind_eq, within_bind, within_exec, within_exec]
    exact ⟨rfl, rfl, trivial⟩
  split
  · rw [bind_eq, within_bind, within_exec]
    exact ⟨rfl, (scans_uploadToFlashdrive env).weaken fun _ => Cmd.scans.passive⟩
  · rw [bind_eq, within_bind, within_exec, within_exec]
    exact ⟨rfl, rfl, trivial⟩

theorem passive_uploadLog (env : Env) :
    Within E (fun c => c.passive) (uploadLog env) fun _ => True := by
  simp only [uploadLog, bind_eq, within_bind, within_exec, within_output]
  exact ⟨rfl, rfl, fun url => passive_shareLog env _⟩

theorem passive_collectlogs (env : Env) :
    Within E (fun c => c.passive) (collectlogs env) fun _ => True := by
  simp only [collectlogs, bind_eq, within_bind, within_exec, within_output]
  refine ⟨rfl, rfl, rfl, fun listing => ⟨rfl, passive_pingPastebin.mono fun alive _ => ?_⟩⟩
  refine within_each (fun i _ => ?_) ⟨rfl, fun _ => ⟨rfl, fun _ => ⟨rfl, fun _ => ⟨rfl, fun _ =>
    ⟨rfl, fun _ => within_each (fun i _ => ?_) ?_⟩⟩⟩⟩⟩
  · simp only [within_bind, within_exec]
    exact ⟨rfl, passive_collectSection i i⟩
  · simp only [within_bind, within_status]
    refine ⟨rfl, fun st => within_when (fun _ => ?_) trivial⟩
    simp only [within_bind, within_exec]
    exact ⟨rfl, passive_collectSection i _⟩
  · split
    · exact passive_uploadLog env
    · simp only [within_bind, within_exec]
      exact ⟨rfl, rfl, trivial⟩

/-! ## Leaving and the network -/

/-- The exit menu returns unless the installer is to be restarted. -/
theorem only_exitChoice (passive : ∀ c, c.passiveOrReboot → A c) (rm : A .rmPidfile) (env : Env)
    {B : PUnit → Prop} (hB : opt ≠ "3" → B ⟨⟩) : Only A (exitChoice env opt) B := by
  have reboot : A .reboot := passive _ rfl
  unfold exitChoice
  split
  · exact within_exec.mpr ⟨reboot, hB (by simp [*])⟩
  split
  · refine within_bind.mpr ?_
    exact ((passive_collectlogs env).weaken fun c hc => passive c (Cmd.passive.orReboot hc)).mono
      fun _ _ => within_exec.mpr ⟨reboot, hB (by simp [*])⟩
  split
  · simp only [bind_eq, within_bind, within_exec]
    exact ⟨passive _ rfl, rm, only_exit⟩
  · exact within_exec.mpr ⟨reboot, hB ‹_›⟩

theorem only_countdown (passive : ∀ c, c.passive → A c) (env : Env)
    (reboot : env.HOSTNAME = "hassio-installer" → A .reboot) (msg : String) :
    Only A (countdown env msg) fun _ => False := by
  refine within_bind.mpr (within_each (fun i _ => ?_) ?_)
  · simp only [bind_eq, within_bind, within_exec]
    exact ⟨passive _ rfl, passive _ rfl, trivial⟩
  · split
    · simp only [bind_eq, within_bind, within_exec]
      exact ⟨reboot ‹_›, only_exit⟩
    · exact only_exit

theorem only_leave (passive : ∀ c, c.passive → A c) (env : Env)
    (reboot : env.HOSTNAME = "hassio-installer" → A .reboot) (msg : String) :
    Only A (Installer.reboot env msg) fun _ => False := by
  simp only [Installer.reboot, bind_eq, within_bind, within_exec]
  refine ⟨passive _ rfl, within_when (fun _ => ?_) (only_countdown passive env reboot _)⟩
  simp only [within_bind, within_exec]
  exact ⟨passive _ rfl, ((passive_collectlogs env).weaken passive).mono
    fun _ _ => only_countdown passive env reboot _⟩

/-- `_reboot` does not return. -/
theorem only_reboot (env : Env) (msg : String) :
    Only (fun c => c.passiveOrReboot) (reboot env msg) fun _ => False :=
  only_leave (fun _ => Cmd.passive.orReboot) env (fun _ => rfl) msg

/-- `isok $? reboot` returns only if the status was 0. -/
theorem only_isokReboot (env : Env) (st : Nat) (msg : String) :
    Only (fun c => c.passiveOrReboot) (isokReboot env st msg) fun _ => st = 0 := by
  unfold isokReboot isokWith
  split <;> simp only [bind_eq, pure_eq, within_bind, within_exec, within_ret]
  · exact ⟨rfl, ‹_›⟩
  · refine ⟨rfl, rfl, ?_⟩
    split
    · exact (only_reboot env msg).mono fun _ => False.elim
    · exact only_exit

theorem only_gitping : Within E (fun c => c.passiveOrReboot) gitping fun _ => True := by
  simp only [gitping, bind_eq, pure_eq, within_bind, within_exec, within_status]
  refine ⟨rfl, rfl, rfl, fun st => ?_⟩
  split <;> simp only [within_bind, within_exec, within_ret]
  exact ⟨rfl, trivial⟩

theorem passive_wiredInterfaces (is : List String) :
    Within E (fun c => c.passive) (wiredInterfaces is) fun _ => True := by
  induction is with
  | nil => exact within_ret.mpr trivial
  | cons i is ih =>
    simp only [wiredInterfaces, bind_eq, pure_eq, within_bind, within_status]
    refine ⟨rfl, fun wireless => ?_⟩
    split
    · exact ih
    · simp only [within_bind, within_exec, within_ret]
      exact ⟨rfl, rfl, ih⟩

theorem only_tryInterfaces (is : List String) :
    Within E (fun c => c.passiveOrReboot) (tryInterfaces is) fun _ => True := by
  induction is with
  | nil => exact within_ret.mpr trivial
  | cons int is ih =>
    simp only [tryInterfaces, trydhcp, bind_eq, pure_eq, within_bind, within_exec]
    refine ⟨rfl, rfl, rfl, only_gitping.mono fun st _ => ?_⟩
    split
    · exact within_ret.mpr trivial
    · exact ih

theorem only_checkconnection (env : Env) :
    Only (fun c => c.passiveOrReboot) (checkconnection env) fun _ => True := by
  simp only [checkconnection, bind_eq, pure_eq, within_bind, within_exec, within_output]
  refine ⟨rfl, rfl, rfl, fun nets => ?_⟩
  refine ((passive_wiredInterfaces _).weaken fun _ => Cmd.passive.orReboot).mono fun is _ =>
    ⟨rfl, (only_tryInterfaces is).mono fun b _ => ?_⟩
  split
  · exact within_ret.mpr trivial
  · simp only [within_bind, within_exec]
    exact ⟨rfl, (only_reboot env "").mono fun _ => False.elim⟩

/-! ## Menus and the marker scan -/

theorem passive_collectVersions (vers : List String) (count : Int) (m : VersionMenu) :
    Within E (fun c => c.passive) (collectVersions vers count m) fun _ => True := by
  induction vers generalizing count m with
  | nil => exact within_ret.mpr trivial
  | cons ver vers ih =>
    rw [collectVersions, bind_eq, within_bind, within_exec]
    exact ⟨rfl, ih _ _⟩

theorem passive_versionMenu (env : Env) :
    Within E (fun c => c.passive) (versionMenu env) fun _ => True := by
  simp only [versionMenu, bind_eq, pure_eq, within_bind, within_exec, within_output]
  refine ⟨rfl, rfl, fun listing => (passive_collectVersions _ _ _).mono fun m _ => ?_⟩
  split
  · rw [within_bind, within_status]
    refine ⟨rfl, fun st => ?_⟩
    split <;> exact within_ret.mpr trivial
  · exact within_ret.mpr trivial

theorem passive_diskEntries (names : List String) (disks : String) :
    Within E (fun c => c.passive) (diskEntries names disks) fun _ => True := by
  induction names generalizing disks with
  | nil => exact within_ret.mpr trivial
  | cons disk names ih =>
    simp only [diskEntries, bind_eq, within_bind, within_exec, within_output, within_status]
    exact ⟨rfl, fun _ => ⟨rfl, fun _ => ⟨rfl, fun _ => ⟨rfl, ih _⟩⟩⟩⟩

theorem passive_getDisks : Within E (fun c => c.passive) getDisks fun _ => True := by
  simp only [getDisks, bind_eq, within_bind, within_output]
  exact ⟨rfl, fun _ => passive_diskEntries _ _⟩

theorem seeks_checkMarker (disk : String) :
    Within E (fun c => c.seeks) (checkMarker disk) fun _ => True := by
  have report : ∀ marker : Nat, Within E (fun c => c.seeks) (if marker = 0 then do
      exec (.log ("Marker found on " ++ disk))
      exec .umount
      return true
    else do
      exec (.log "Marker not found, moving on...")
      exec .umount
      return false) fun _ : Bool => True := by
    intro marker
    split <;> simp only [bind_eq, pure_eq, within_bind, within_exec, within_ret] <;>
      exact ⟨rfl, rfl, trivial⟩
  simp only [checkMarker]
  rw [bind_eq, within_bind, within_status]
  refine ⟨rfl, fun release => ?_⟩
  rw [bind_eq, within_bind]
  split
  · exact within_status.mpr ⟨rfl, fun _ => report _⟩
  · exact within_ret.mpr (report 1)

theorem seeks_scanMarker (nodes : List String) :
    Within E (fun c => c.seeks) (scanMarker nodes) fun _ => True := by
  induction nodes with
  | nil => exact within_ret.mpr trivial
  | cons node nodes ih =>
    simp only [scanMarker, bind_eq, pure_eq, within_bind, within_status]
    refine ⟨rfl, fun block => ?_⟩
    split
    · exact ih
    simp only [within_bind, within_exec, within_status]
    refine ⟨rfl, rfl, fun mounted => ?_⟩
    split
    · exact ih
    rw [within_bind]
    refine (seeks_checkMarker node).mono fun found _ => ?_
    split
    · exact within_ret.mpr trivial
    · exact ih

theorem seeks_findMarker (disk : String) :
    Within E (fun c => c.seeks) (findMarker disk) fun _ => True := by
  simp only [findMarker, bind_eq, within_bind, within_output]
  exact ⟨rfl, fun _ => ⟨rfl, fun _ => seeks_scanMarker _⟩⟩

theorem scans_findMarker (disk : String) :
    Within E (fun c => c.scans) (findMarker disk) fun _ => True :=
  (seeks_findMarker disk).weaken fun _ => Cmd.seeks.scans

/-! ## The stages before a drive is chosen -/

theorem only_welcome (env : Env) : Only (fun c => c.choosing) (welcome env) fun _ => True := by
  simp only [welcome, bind_eq, pure_eq, within_bind, within_exec, within_status]
  exact ⟨rfl, rfl, fun r => ((only_isokReboot env r.status "").weaken fun _ =>
    Cmd.passiveOrReboot.choosing).mono fun _ _ => within_ret.mpr trivial⟩

theorem only_selectVersion (env : Env) :
    Only (fun c => c.choosing) (selectVersion env) fun _ => True := by
  simp only [selectVersion, bind_eq, pure_eq, within_bind, within_exec, within_dialogMenu]
  exact ((passive_versionMenu env).weaken fun _ => Cmd.passive.choosing).mono
    fun m _ => ⟨rfl, fun r => ((only_isokReboot env r.status _).weaken fun _ =>
      Cmd.passiveOrReboot.choosing).mono fun _ _ => ⟨rfl, within_ret.mpr trivial⟩⟩

theorem only_selectDrive (env : Env) :
    Only (fun c => c.choosing) (selectDrive env) fun _ => True := by
  simp only [selectDrive, bind_eq, pure_eq, within_bind, within_exec, within_dialogMenu]
  exact (passive_getDisks.weaken fun _ => Cmd.passive.choosing).mono
    fun m _ => ⟨rfl, fun r => ((only_isokReboot env r.status _).weaken fun _ =>
      Cmd.passiveOrReboot.choosing).mono fun _ _ => ⟨rfl, within_ret.mpr trivial⟩⟩

/-! ## Erasing and writing -/

theorem only_quickErase (print : A (.partedPrint disk)) (log : ∀ text, A (.log text))
    (rm : ∀ part, A (.partedRm disk part)) : Within E A (quickErase disk) fun _ => True := by
  simp only [quickErase, bind_eq, within_bind, within_output]
  refine ⟨print, fun table => within_each (fun part _ => ?_) trivial⟩
  simp only [within_bind, within_exec]
  exact ⟨log _, rm part, trivial⟩

theorem only_fullErase (log : ∀ text, A (.log text)) (cat : ∀ path, A (.cat path))
    (zero : ∀ size msg, A (.zeroFill disk size msg)) (msg : String) :
    Within E A (fullErase disk msg) fun _ => True := by
  simp only [fullErase, bind_eq, within_bind, within_exec, within_output]
  exact ⟨log _, cat _, fun _ => ⟨zero _ _, trivial⟩⟩

theorem only_secureEraseSsd (passive : ∀ c, c.passive → A c) (setPass : A (.securitySetPass disk))
    (erase : A (.securityErase disk)) : Within E A (secureEraseSsd disk) fun st => st = 0 := by
  simp only [secureEraseSsd, stage, bind_eq, pure_eq, within_bind, within_exec, within_ret]
  refine ⟨passive _ rfl, passive _ rfl, setPass,
    (only_isok (fun _ => passive _ rfl) 0).mono fun st hst => ?_⟩
  rw [if_neg (not_not.mpr (hst.mpr rfl))]
  simp only [within_bind, within_exec, within_status, within_ret]
  exact ⟨erase, fun _ => ⟨passive _ rfl, passive _ rfl, passive _ rfl, passive _ rfl, trivial⟩⟩

theorem erases_quickErase (disk : String) :
    Within E (fun c => c.erases disk) (quickErase disk) fun _ => True :=
  only_quickErase rfl (fun _ => rfl) fun _ => Cmd.erases_of_target rfl

theorem erases_fullErase (disk msg : String) :
    Within E (fun c => c.erases disk) (fullErase disk msg) fun _ => True :=
  only_fullErase (fun _ => rfl) (fun _ => rfl) (fun _ _ => Cmd.erases_of_target rfl) msg

theorem erases_reboot (disk : String) (env : Env) (msg : String) :
    Only (fun c => c.erases disk) (reboot env msg) fun _ => False :=
  (only_reboot env msg).weaken fun _ h => Cmd.passiveOrReboot.erases h disk

theorem erases_isok (disk : String) (st : Nat) :
    Within E (fun c => c.erases disk) (isok st) fun a => a = 0 ↔ st = 0 :=
  only_isok (fun _ => rfl) st

theorem erases_secureEraseSsd (disk : String) :
    Within E (fun c => c.erases disk) (secureEraseSsd disk) fun st => st = 0 :=
  only_secureEraseSsd (fun _ h => Cmd.passiveOrReboot.erases (Cmd.passive.orReboot h) disk)
    (Cmd.erases_of_target rfl) (Cmd.erases_of_target rfl)

theorem erases_fallbackChoice (env : Env) (disk opt msg : String) (rc : Nat) {rest : Sh Nat} :
    Only (fun c => c.erases disk) (if opt = "1" then return rc
      else if opt = "2" then do
        quickErase disk
        return 0
      else do
        reboot env msg
        rest) fun _ => True := by
  split
  · exact within_ret.mpr trivial
  split <;> refine within_bind.mpr ?_
  · exact (erases_quickErase disk).mono fun _ _ => within_ret.mpr trivial
  · exact (erases_reboot disk env msg).mono fun _ => False.elim

theorem erases_secureErase (env : Env) (disk : String) :
    Only (fun c => c.erases disk) (secureErase env disk) fun _ => True := by
  have ssd : Only (fun c => c.erases disk) (secureEraseSsd disk) fun _ => True :=
    (erases_secureEraseSsd disk).mono fun _ _ => trivial
  unfold secureErase secureEraseNvme
  split
  · simp only [bind_eq, within_bind, within_exec, within_dialogMenu]
    exact ⟨rfl, rfl, fun r => ⟨rfl, erases_fallbackChoice env disk _ _ _⟩⟩
  simp only [bind_eq, within_bind, within_exec, within_status]
  refine ⟨rfl, rfl, fun f => (erases_isok disk _).mono fun st _ => ?_⟩
  split
  · exact ssd
  simp only [within_bind, within_exec, within_status]
  refine ⟨rfl, rfl, fun y => (erases_isok disk _).mono fun agreed _ => ?_⟩
  split
  · simp only [within_bind, within_exec, within_status]
    refine ⟨rfl, rfl, rfl, rfl, rfl, fun f => (erases_isok disk _).mono fun st _ => ?_⟩
    split
    · exact ssd
    simp only [within_bind, within_exec, within_dialogMenu]
    exact ⟨rfl, rfl, fun r => ⟨rfl, erases_fallbackChoice env disk _ _ _⟩⟩
  · simp only [within_bind, within_exec]
    exact ⟨rfl, (erases_reboot disk env _).mono fun _ => False.elim⟩

theorem only_eraseWith (erases : ∀ c : Cmd, c.erases disk → A c) (env : Env) (FORMAT : String) :
    Only A (eraseWith env disk FORMAT) fun _ => True := by
  have full : ∀ msg, Only A (fullErase disk msg) fun _ => True := fun msg =>
    (erases_fullErase disk msg).weaken erases
  unfold eraseWith
  split
  · exact (erases_quickErase disk).weaken erases
  split
  · refine within_bind.mpr (within_output.mpr ⟨erases _ rfl, fun rotational => ?_⟩)
    split
    · exact full _
    refine within_bind.mpr (((erases_secureErase env disk).weaken erases).mono fun rc _ => ?_)
    split
    · exact full _
    split
    · exact ((erases_reboot disk env _).weaken erases).mono fun _ => False.elim
    split
    · exact full _
    split
    · exact full _
    · exact within_ret.mpr trivial
  · exact within_ret.mpr trivial

theorem only_eraseDrive (erases : ∀ c : Cmd, c.erases disk → A c) (ls : A (.lsPartitions disk))
    (warning : A (.yesno (.warning disk))) (menu : ∀ content, A (.menu .erase content))
    (env : Env) : Only A (eraseDrive env disk) fun _ => True := by
  have passive : ∀ c : Cmd, c.passiveOrReboot → A c := fun c hc =>
    erases c (Cmd.passiveOrReboot.erases hc disk)
  refine within_bind.mpr (within_status.mpr ⟨ls, fun listed => ?_⟩)
  split
  · simp only [bind_eq, within_bind, within_exec, within_status, within_dialogMenu]
    exact ⟨passive _ rfl, warning, fun answer =>
      ((only_isokReboot env _ _).weaken passive).mono fun _ _ => ⟨menu _, fun m =>
        ((only_isokReboot env _ _).weaken passive).mono fun _ _ =>
          ⟨passive _ rfl, only_eraseWith erases env m.out⟩⟩⟩
  · exact within_ret.mpr trivial

theorem only_report (passive : ∀ c, c.passive → A c) (reboot : A .reboot)
    (success : ∀ debug, A (.msgbox (.success debug))) (failure : A (.msgbox .failure)) (env : Env)
    (found : Bool) : Within E A (report env found) fun _ => True := by
  have logs : Within E A (collectlogs env) fun _ => True :=
    (passive_collectlogs env).weaken passive
  unfold report
  split <;> simp only [bind_eq, within_bind, within_exec]
  · exact ⟨passive _ rfl, success _,
      within_when (fun _ => logs.mono fun _ _ => ⟨reboot, trivial⟩) ⟨reboot, trivial⟩⟩
  · exact ⟨passive _ rfl, failure, logs.mono fun _ _ => ⟨reboot, trivial⟩⟩

/-- The marker scan and the report. -/
theorem only_conclude (passive : ∀ c, c.passive → A c) (reboot : A .reboot)
    (success : ∀ debug, A (.msgbox (.success debug))) (failure : A (.msgbox .failure)) (env : Env)
    (disk : String) : Within E A ((findMarker disk).bind (report env)) fun _ => True :=
  within_bind.mpr (((scans_findMarker disk).weaken fun c hc => passive c
    (Cmd.scans.passive hc)).mono fun found _ => only_report passive reboot success failure env
      found)

theorem only_install (passive : ∀ c, c.passive → A c) (image : A (.writeImage url disk))
    (probe : A .partprobe) (reboot : A .reboot) (success : ∀ debug, A (.msgbox (.success debug)))
    (failure : A (.msgbox .failure)) (env : Env) :
    Within E A (install env url disk) fun _ => True := by
  simp only [install, writeData, bind_eq, within_bind, within_exec]
  exact ⟨passive _ rfl, image, passive _ rfl, passive _ rfl, probe,
    within_bind.mp (only_conclude passive reboot success failure env disk)⟩

theorem only_mainFlow (choosing : ∀ c : Cmd, c.choosing → A c)
    (erases : ∀ disk, ∀ c : Cmd, c.erases disk → A c) (ls : ∀ disk, A (.lsPartitions disk))
    (warning : ∀ disk, A (.yesno (.warning disk))) (menu : ∀ content, A (.menu .erase content))
    (probe : A .partprobe) (success : ∀ debug, A (.msgbox (.success debug)))
    (failure : A (.msgbox .failure)) (env : Env) : Only A (mainFlow env) fun _ => True := by
  simp only [mainFlow, bind_eq, within_bind]
  refine ((only_welcome env).weaken choosing).mono fun _ _ => ?_
  refine ((only_checkconnection env).weaken fun c hc => choosing c
    (Cmd.passiveOrReboot.choosing hc)).mono fun _ _ => ?_
  refine ((only_selectVersion env).weaken choosing).mono fun url _ => ?_
  refine ((only_selectDrive env).weaken choosing).mono fun disk _ => ?_
  refine (only_eraseDrive (erases disk) (ls disk) (warning disk) menu env).mono fun _ _ => ?_
  exact only_install (fun c hc => choosing c (Cmd.passive.choosing hc))
    (erases disk _ (Cmd.erases_of_target rfl)) probe (choosing _ rfl) success failure env

/-- Frame rule for the main flow: what the stages before a drive is chosen leave alone still holds
when the drive is dealt with. -/
theorem wp_mainFlow_of {K : Contract S Cmd Answer} {Q : PUnit → S → Prop} (I : S → Prop)
    (guard : ∀ s c, I s → c.choosing → K.guard s c)
    (next : ∀ s c r s', I s → c.choosing → K.next s c r s' → I s') (exit : ∀ s, I s → K.exit s)
    (rest : ∀ url disk s, I s →
      wp K (eraseDrive env disk) (fun _ s => wp K (install env url disk) Q s) s)
    (h : I s) : wp K (mainFlow env) Q s := by
  have stage : ∀ {α s} {p : Sh α}, Only (fun c => c.choosing) p (fun _ => True) → I s →
      wp K p (fun _ s => I s) s := by
    intro α s p hp h
    have hframe := hp.frame (K := K) I (guard _ _) (next _ _ _ _) (fun _ => exit _) h
    exact hframe.mono fun _ _ ha => ha.2
  simp only [mainFlow, bind_eq, wp_bind]
  apply (stage (only_welcome env) h).mono
  intro _ s h
  apply (stage ((only_checkconnection env).weaken fun _ => Cmd.passiveOrReboot.choosing) h).mono
  intro _ s h
  apply (stage (only_selectVersion env) h).mono
  intro url s h
  apply (stage (only_selectDrive env) h).mono
  intro disk s h
  exact rest url disk s h

/-! ## The pidfile and the other options -/

theorem only_pidfileAlive (looks : ∀ c : Cmd, c.looks → A c) :
    Within E A pidfileAlive fun _ => True := by
  simp only [pidfileAlive, bind_eq, pure_eq, within_bind, within_status]
  refine ⟨looks _ rfl, fun r => ?_⟩
  split <;> simp only [within_bind, within_output, within_status, within_ret]
  exact ⟨looks _ rfl, fun _ => ⟨looks _ rfl, fun _ => trivial⟩⟩

theorem only_acquire (looks : ∀ c : Cmd, c.looks → A c) (refuse : A .alreadyRunning) (env : Env)
    (write : A (.writePidfile env.pid)) : Only A (acquire env) fun _ => True := by
  simp only [acquire, bind_eq, within_bind]
  refine (only_pidfileAlive looks).mono fun running _ => ?_
  split <;> simp only [within_bind, within_exec]
  · exact ⟨refuse, only_exit⟩
  · exact ⟨write, trivial⟩

theorem only_killLoop (kills : ∀ c : Cmd, c.kills → A c) (run : ∀ line, A (.run line))
    (pid : String) (signals : List Nat) : Within E A (killLoop pid signals) fun _ => True := by
  induction signals with
  | nil => exact within_ret.mpr trivial
  | cons i is ih =>
    simp only [killLoop, bind_eq, pure_eq, within_bind, within_exec, within_status]
    refine ⟨run _, kills _ rfl, run _, kills _ rfl, fun st => ?_⟩
    split
    · exact within_ret.mpr trivial
    · exact ih

theorem only_kill (kills : ∀ c : Cmd, c.kills → A c) (run : ∀ line, A (.run line)) :
    Within E A kill fun _ => True := by
  simp only [kill, bind_eq, within_bind]
  refine (only_pidfileAlive fun c hc => kills c (Cmd.looks.kills hc)).mono fun alive _ => ?_
  split <;> simp only [within_bind, within_exec, within_output]
  · exact ⟨kills _ rfl, fun pid => (only_killLoop kills run pid.out _).mono
      fun _ _ => ⟨kills _ rfl, trivial⟩⟩
  · exact ⟨run _, kills _ rfl, trivial⟩

theorem only_addRepos (run : ∀ line, A (.run line)) : Within E A addRepos fun _ => True := by
  simp only [addRepos, bind_eq, within_bind, within_exec]
  exact ⟨run _, run _, trivial⟩

theorem only_addRepo (passive : ∀ c, c.passiveOrReboot → A c) (env : Env) :
    Only A (addRepo env) fun _ => True := by
  simp only [addRepo, bind_eq, within_bind, within_exec]
  exact ⟨passive _ rfl, ((only_checkconnection env).weaken passive).mono fun _ _ =>
    ⟨passive _ rfl, (only_addRepos fun _ => passive _ rfl).mono fun _ _ =>
      ⟨passive _ rfl, only_exit⟩⟩⟩

theorem only_addSsh (passive : ∀ c, c.passiveOrReboot → A c) (env : Env) :
    Only A (addSsh env) fun _ => True := by
  simp only [addSsh, bind_eq, within_bind, within_exec, within_status]
  have run : ∀ line, A (.run line) := fun _ => passive _ rfl
  refine ⟨run _, ((only_checkconnection env).weaken passive).mono fun _ _ => ⟨run _, run _,
    fun known => within_when (fun _ => ?_) ?_⟩⟩
  · simp only [within_bind, within_exec]
    exact ⟨run _, (only_addRepos run).mono fun _ _ =>
      ⟨run _, run _, run _, run _, run _, only_exit⟩⟩
  · exact ⟨run _, run _, run _, run _, run _, only_exit⟩

/-- The log entry of a debug boot. -/
theorem only_note (log : ∀ text, A (.log text)) :
    Within E A (Script.when b (exec (.log text))) fun _ => True :=
  within_when (fun _ => within_exec.mpr ⟨log _, trivial⟩) trivial

/-- The options that do not lead into the main flow. -/
def Mode.helper : Mode → Bool
  | .test | .plain => false
  | _ => true

theorem only_helper (passive : ∀ c, c.passiveOrReboot → A c)
    (kills : arg = .kill → ∀ c : Cmd, c.kills → A c) (env : Env) (h : arg.helper) :
    Only A (installer env arg) fun _ => True := by
  unfold installer
  refine within_bind.mpr ((only_note fun _ => passive _ rfl).mono fun _ _ => ?_)
  cases arg with
  | test | plain => cases h
  | help => exact within_bind.mpr (within_exec.mpr ⟨passive _ rfl, only_exit⟩)
  | addRepo => exact only_addRepo passive env
  | addSsh => exact only_addSsh passive env
  | collectLogs =>
    exact within_bind.mpr (((passive_collectlogs env).weaken fun _ hc => passive _
      (Cmd.passive.orReboot hc)).mono fun _ _ => only_exit)
  | kill =>
    exact within_bind.mpr ((only_kill (kills rfl) fun _ => passive _ rfl).mono fun _ _ => only_exit)

/-! ## A machine to run the installer on -/

/-- One wired interface and one SSD with a partition; every command succeeds and every dialog is
answered with its first entry. -/
def sample : Cmd → Answer
  | .glob "/sys/class/net/*" => ⟨0, "/sys/class/net/eth0"⟩
  | .isDir _ => ⟨1, ""⟩
  | .gitTags => ⟨0, "5a1f\trefs/tags/9.5"⟩
  | .menu .version _ => ⟨0, "9.5"⟩
  | .fdiskList => ⟨0, "Disk /dev/sda: 8 GiB"⟩
  | .menu .drive _ => ⟨0, "/dev/sda"⟩
  | .menu .. => ⟨0, "1"⟩
  | .partedPrint _ => ⟨0, "1 1049kB"⟩
  | .cat "/sys/block/sda/size" => ⟨0, "16777216"⟩
  | .cat "/sys/block/sda/queue/rotational" => ⟨0, "0"⟩
  | .glob "/dev/sda[0-9]" => ⟨0, "/dev/sda1"⟩
  | .glob pattern => ⟨0, pattern⟩
  | .isBlock "/dev/sda1" => ⟨0, ""⟩
  | .isBlock _ => ⟨1, ""⟩
  | .pidfileExists => ⟨1, ""⟩
  | _ => ⟨0, ""⟩

/-- The same with Full Erase chosen in the erase menu. -/
def thorough : Cmd → Answer
  | .menu .erase _ => ⟨0, "2"⟩
  | c => sample c

/-- A real boot of the image, without the debug and test switches. -/
def booted : Env := ⟨"hassio-installer", false, false, false, "7"⟩

/-- The run of the main flow on a machine whose commands answer so, with the point it comes to. -/
def trial (answers : Cmd → Answer) : List Event × Sh PUnit :=
  play (fun _ => answers) 200 [] (mainFlow booted)

theorem trial_run (answers : Cmd → Answer) :
    Run (mainFlow booted) (trial answers).1 (trial answers).2 :=
  run_play _ _ _

end Installer
end HassioInstaller
