import HassioInstaller.Installer.Specs

/-! # The stages as ways out

A stage of the main flow hands on to the next one or leaves the script, through `_reboot` or, in a
test, by a plain `exit`. `Frame K env A I` says that the commands of `A` keep `I` and that the script
may leave wherever `I` holds; then each stage keeps `I` as far as it is handed on. What `_reboot` does
on its way, its log collection above all, is taken as a whole. With the log collection and the search
for the marker as the two parts that are not plain, the rule extends to every option of the script. -/

namespace HassioInstaller

/-- The commands of the stages that neither ask nor touch a drive. -/
def Cmd.plain : Cmd → Bool
  | .log _ | .run _ | .infobox _ | .isFile _ | .isDir _ | .testEmpty _ | .cat _ | .glob _
  | .fdiskList | .gitTags | .gitPing | .msgbox .networkFailed => true
  | _ => false

/-- Those, and the dialogs up to the choice of a drive. -/
def Cmd.selects (c : Cmd) : Bool :=
  c.plain || match c with
    | .yesno .welcome | .menu .version _ | .menu .drive _ => true
    | _ => false

/-- The commands that deal with what is on `disk`. -/
def Cmd.prepares (disk : String) (c : Cmd) : Bool :=
  c.plain || match c with
    | .yesno (.warning _) | .yesno .unfreeze | .menu .erase _ | .menu .nvmeFallback _
    | .menu .ssdFallback _ | .lsPartitions _ | .partedPrint _ | .hdparmFrozen _ | .nvmeIdCtrl _
    | .nvmeSanitize _ => true
    | .writeImage .. => false
    | c => c.target == some disk

/-- The commands of a run but for its log collections, its search for the marker and what prepares the
drive. -/
def Cmd.outer (c : Cmd) : Bool :=
  c.selects || c.kills || match c with
    | .alreadyRunning | .writePidfile _ | .writeImage .. | .partprobe | .msgbox (.success _)
    | .msgbox .failure | .reboot => true
    | _ => false

/-- The commands of the log collection but for its dialog about flash drives. -/
def Cmd.collects (c : Cmd) : Bool :=
  c.plain || match c with
    | .msgbox (.logUrl _) | .msgbox .insertFlash | .msgbox (.noUrl _) | .msgbox .noInternet => true
    | _ => false

theorem Cmd.plain.collects {c : Cmd} (h : c.plain) : c.collects := by simp [Cmd.collects, h]

theorem Cmd.selects.outer {c : Cmd} (h : c.selects) : c.outer := by simp [Cmd.outer, h]

theorem Cmd.kills.outer {c : Cmd} (h : c.kills) : c.outer := by simp [Cmd.outer, h]

theorem Cmd.plain.selects {c : Cmd} (h : c.plain) : c.selects := by simp [Cmd.selects, h]

theorem Cmd.plain.prepares {c : Cmd} (h : c.plain) (disk : String) : c.prepares disk := by
  simp [Cmd.prepares, h]

theorem Cmd.prepares_rm (disk part : String) : (Cmd.partedRm disk part).prepares disk := by
  simp [prepares, target]

theorem Cmd.prepares_zero (disk size msg : String) : (Cmd.zeroFill disk size msg).prepares disk := by
  simp [prepares, target]

theorem Cmd.prepares_setPass (disk : String) : (Cmd.securitySetPass disk).prepares disk := by
  simp [prepares, target]

theorem Cmd.prepares_erase (disk : String) : (Cmd.securityErase disk).prepares disk := by
  simp [prepares, target]

namespace Installer
open Script

/-- The variables a start goes on with. -/
def Mode.env (arg : Mode) (env : Env) : Env :=
  match arg with
  | .test => { env with HOSTNAME := "test" }
  | _ => env

variable {E : Prop} {A : Cmd → Prop}

/-! ## Plain commands -/

theorem plain_isok (st : Nat) : Within E (fun c => c.plain) (isok st) fun a => a = 0 ↔ st = 0 :=
  only_isok (fun _ => rfl) st

theorem plain_gitping : Within E (fun c => c.plain) gitping fun _ => True := by
  simp only [gitping, bind_eq, pure_eq, within_bind, within_exec, within_status]
  refine ⟨rfl, rfl, rfl, fun st => ?_⟩
  split <;> simp only [within_bind, within_exec, within_ret]
  exact ⟨rfl, trivial⟩

theorem plain_pingPastebin : Within E (fun c => c.plain) pingPastebin fun _ => True := by
  refine within_loop fun (count, alive) => ?_
  simp only [bind_eq, pure_eq]
  split <;> simp only [within_bind, within_exec, within_status, within_ret]
  · exact fun _ _ => trivial
  · exact ⟨rfl, rfl, fun _ => ⟨rfl, fun _ _ => trivial⟩⟩

theorem plain_collectSection (what cmd : String) :
    Within E (fun c => c.plain) (collectSection what cmd) fun _ => True := by
  simp only [collectSection, bind_eq, within_bind, within_exec]
  exact ⟨rfl, rfl, rfl, trivial⟩

/-- The sections of `/debug.log` that are made of what commands print. -/
theorem within_commands (log : ∀ i, A (.log ("Collecting output from command " ++ i)))
    (collect : ∀ what cmd, Within E A (collectSection what cmd) fun _ => True) (is : List String) :
    Within E A (Script.each is fun i => do
      exec (.log ("Collecting output from command " ++ i))
      collectSection i i) fun _ => True := by
  refine within_each (fun i _ => ?_) trivial
  simp only [bind_eq, within_bind, within_exec]
  exact ⟨log i, collect i i⟩

/-- Those that are made of files. -/
theorem within_files (isFile : ∀ i, A (.isFile i))
    (log : ∀ i, A (.log ("Collecting output from file " ++ i)))
    (collect : ∀ what cmd, Within E A (collectSection what cmd) fun _ => True) (is : List String) :
    Within E A (Script.each is fun i => do
      let st ← status (.isFile i)
      Script.when (st == 0) do
        exec (.log ("Collecting output from file " ++ i))
        collectSection i ("cat " ++ i)) fun _ => True := by
  refine within_each (fun i _ => ?_) trivial
  simp only [bind_eq, within_bind, within_status]
  refine ⟨isFile i, fun st => within_when (fun _ => ?_) trivial⟩
  simp only [within_bind, within_exec]
  exact ⟨log i, collect i _⟩

/-- The log collection up to its upload, with whether pastebin.com was reached. -/
def collecting : Sh Bool := do
  exec (.log "Collecting logs...")
  exec (.infobox "Collecting logs, please wait...")
  let listing ← output .fdiskList
  exec (.log "Checking internet connection...")
  let alive ← pingPastebin
  Script.each ["env", "export", "ip a", "ip r", "/etc/init.d/networking status", "fdisk -l",
      "hdparm -I " ++ "\n".intercalate (fdiskDisks listing)] fun i => do
    exec (.log ("Collecting output from command " ++ i))
    collectSection i i
  let netStates ← output (.glob "/sys/class/net/*/operstate")
  let sdSizes ← output (.glob "/sys/block/sd*/size")
  let nvmSizes ← output (.glob "/sys/block/nvm*/size")
  let sdRotational ← output (.glob "/sys/block/sd*/queue/rotational")
  let nvmRotational ← output (.glob "/sys/block/nvm*/queue/rotational")
  Script.each (["/proc/cpuinfo", "/proc/meminfo"] ++ Text.words netStates ++ Text.words sdSizes ++
      Text.words nvmSizes ++ Text.words sdRotational ++ Text.words nvmRotational ++
      ["/var/log/messages"]) fun i => do
    let st ← status (.isFile i)
    Script.when (st == 0) do
      exec (.log ("Collecting output from file " ++ i))
      collectSection i ("cat " ++ i)
  return alive

theorem collectlogs_eq (env : Env) : collectlogs env = collecting.bind (fun alive =>
    if alive then uploadLog env
    else do
      exec (.log "Internet connection does not appear to be established in order to upload logs")
      exec (.msgbox .noInternet)) := by
  simp only [collectlogs, collecting, bind_eq, bind_assoc, pure_eq, ret_bind]

theorem plain_collecting : Within E (fun c => c.plain) collecting fun _ => True := by
  simp only [collecting, bind_eq, pure_eq, within_bind, within_exec, within_output]
  refine ⟨rfl, rfl, rfl, fun listing => ⟨rfl, plain_pingPastebin.mono fun alive _ => ?_⟩⟩
  refine (within_commands (fun _ => rfl) plain_collectSection _).mono fun _ _ => ?_
  refine ⟨rfl, fun _ => ⟨rfl, fun _ => ⟨rfl, fun _ => ⟨rfl, fun _ => ⟨rfl, fun _ => ?_⟩⟩⟩⟩⟩
  exact (within_files (fun _ => rfl) (fun _ => rfl) plain_collectSection _).mono fun _ _ =>
    within_ret.mpr trivial

/-- The log collection keeps what its dialog about flash drives keeps. -/
theorem wp_collectlogs_of {K : Contract S Cmd Answer} {env : Env} {I : S → Prop} {s : S}
    (guard : ∀ c s, c.collects → I s → K.guard s c)
    (next : ∀ c s r s', c.collects → I s → K.next s c r s' → I s')
    (upload : ∀ s, I s → wp K (uploadToFlashdrive env) (fun _ s => I s) s) (hs : I s) :
    wp K (collectlogs env) (fun _ s => I s) s := by
  have call : ∀ {α c s Q} {k : Answer → Sh α}, c.collects → I s → (∀ r s, I s → wp K (k r) Q s) →
      wp K (.call c k) Q s := fun hc hs hk =>
    wp_call.mpr ⟨guard _ _ hc hs, fun r _ hn => hk r _ (next _ _ _ _ hc hs hn)⟩
  have message : ∀ {text d s}, (Cmd.msgbox d).collects → I s → wp K (do
      exec (.log text)
      exec (.msgbox d)) (fun _ s => I s) s := fun hd hs =>
    call rfl hs fun _ _ hs => call hd hs fun _ _ hs => wp_ret.mpr hs
  have collects : Within False (fun c => c.collects) collecting fun _ => True :=
    plain_collecting.weaken fun _ => Cmd.plain.collects
  have share : ∀ url s, I s → wp K (shareLog env url) (fun _ s => I s) s := by
    intro url s hs
    unfold shareLog
    split
    · exact message (d := .logUrl url) rfl hs
    split
    · exact call (c := .msgbox .insertFlash) rfl hs fun _ s hs => upload s hs
    · exact message (d := .noUrl url) rfl hs
  rw [collectlogs_eq, wp_bind]
  refine (collects.frame I (fun hI hc => guard _ _ hc hI) (fun hI hc hn => next _ _ _ _ hc hI hn)
    False.elim hs).mono fun alive s hs => ?_
  cases alive with
  | false => exact message (d := .noInternet) rfl hs.2
  | true => exact call rfl hs.2 fun _ s hs => call rfl hs fun url s hs => share _ s hs

theorem plain_wiredInterfaces (is : List String) :
    Within E (fun c => c.plain) (wiredInterfaces is) fun _ => True := by
  induction is with
  | nil => exact within_ret.mpr trivial
  | cons i is ih =>
    simp only [wiredInterfaces, bind_eq, pure_eq, within_bind, within_status]
    refine ⟨rfl, fun wireless => ?_⟩
    split
    · exact ih
    · simp only [within_bind, within_exec, within_ret]
      exact ⟨rfl, rfl, ih⟩

theorem plain_tryInterfaces (is : List String) :
    Within E (fun c => c.plain) (tryInterfaces is) fun _ => True := by
  induction is with
  | nil => exact within_ret.mpr trivial
  | cons int is ih =>
    simp only [tryInterfaces, trydhcp, bind_eq, pure_eq, within_bind, within_exec]
    refine ⟨rfl, rfl, rfl, plain_gitping.mono fun st _ => ?_⟩
    split
    · exact within_ret.mpr trivial
    · exact ih

theorem plain_collectVersions (vers : List String) (count : Int) (m : VersionMenu) :
    Within E (fun c => c.plain) (collectVersions vers count m) fun _ => True := by
  induction vers generalizing count m with
  | nil => exact within_ret.mpr trivial
  | cons ver vers ih =>
    rw [collectVersions, bind_eq, within_bind, within_exec]
    exact ⟨rfl, ih _ _⟩

theorem plain_versionMenu (env : Env) :
    Within E (fun c => c.plain) (versionMenu env) fun _ => True := by
  simp only [versionMenu, bind_eq, pure_eq, within_bind, within_exec, within_output]
  refine ⟨rfl, rfl, fun listing => (plain_collectVersions _ _ _).mono fun m _ => ?_⟩
  split
  · rw [within_bind, within_status]
    refine ⟨rfl, fun st => ?_⟩
    split <;> exact within_ret.mpr trivial
  · exact within_ret.mpr trivial

theorem plain_getDisks : Within E (fun c => c.plain) getDisks fun _ => True := by
  have entries : ∀ (names : List String) (disks : String),
      Within E (fun c => c.plain) (diskEntries names disks) fun _ => True := by
    intro names
    induction names with
    | nil => exact fun _ => within_ret.mpr trivial
    | cons disk names ih =>
      intro disks
      simp only [diskEntries, bind_eq, within_bind, within_exec, within_output, within_status]
      exact ⟨rfl, fun _ => ⟨rfl, fun _ => ⟨rfl, fun _ => ⟨rfl, ih _⟩⟩⟩⟩
  simp only [getDisks, bind_eq, within_bind, within_output]
  exact ⟨rfl, fun _ => entries _ _⟩

/-- The countdown before the reboot. -/
theorem plain_countdown (msg : String) : Within E (fun c => c.plain)
    (Script.each ["5", "4", "3", "2", "1"] fun i => do
      exec (.infobox (msg ++ "Will reboot in: " ++ i))
      exec (.run "sleep 1")) fun _ => True := by
  refine within_each (fun i _ => ?_) trivial
  simp only [bind_eq, within_bind, within_exec]
  exact ⟨rfl, rfl, trivial⟩

theorem prepares_secureEraseSsd (disk : String) :
    Within E (fun c => c.prepares disk) (secureEraseSsd disk) fun st => st = 0 := by
  simp only [secureEraseSsd, stage, bind_eq, pure_eq, within_bind, within_exec, within_ret]
  refine ⟨rfl, rfl, Cmd.prepares_setPass disk,
    ((plain_isok 0).weaken fun c hc => Cmd.plain.prepares hc disk).mono fun st hst => ?_⟩
  rw [if_neg (not_not.mpr (hst.mpr rfl))]
  simp only [within_bind, within_exec, within_status, within_ret]
  exact ⟨Cmd.prepares_erase disk, fun _ => ⟨rfl, rfl, rfl, rfl, trivial⟩⟩

/-! ## The frame rule -/

/-- The commands of `A` keep `I`, and the script may leave where `I` holds. -/
structure Frame (K : Contract S Cmd Answer) (env : Env) (A : Cmd → Prop) (I : S → Prop) : Prop where
  guard : ∀ c s, A c → I s → K.guard s c
  next : ∀ c s r s', A c → I s → K.next s c r s' → I s'
  leaves : ∀ msg s, I s → wp K (reboot env msg) (fun _ _ => False) s
  exits : env.HOSTNAME ≠ "hassio-installer" → ∀ s, I s → K.exit s

section
variable {K : Contract S Cmd Answer} {env : Env} {I : S → Prop} (F : Frame K env A I) {s : S}
include F

theorem Frame.within {p : Sh α} {B : α → Prop} (h : Within False A p B) (hs : I s) :
    wp K p (fun a s => B a ∧ I s) s :=
  h.frame I (fun hI hc => F.guard _ _ hc hI) (fun hI hc hn => F.next _ _ _ _ hc hI hn)
    False.elim hs

theorem Frame.call {k : Answer → Sh α} {Q : α → S → Prop} (hc : A c) (hs : I s)
    (hk : ∀ r s, I s → wp K (k r) Q s) : wp K (.call c k) Q s :=
  wp_call.mpr ⟨F.guard _ _ hc hs, fun r _ hn => hk r _ (F.next _ _ _ _ hc hs hn)⟩

/-- What `_reboot` is followed by is not reached. -/
theorem Frame.reboot {f : PUnit → Sh α} {Q : α → S → Prop} (msg : String) (hs : I s) :
    wp K ((Installer.reboot env msg).bind f) Q s :=
  wp_bind.mpr ((F.leaves msg s hs).mono fun _ _ => False.elim)

theorem Frame.isokReboot (log : ∀ text, A (.log text)) (st : Nat) (msg : String) (hs : I s) :
    wp K (isokReboot env st msg) (fun _ s => st = 0 ∧ I s) s := by
  unfold Installer.isokReboot isokWith
  split
  · next hst => exact F.call (log _) hs fun _ _ hs => wp_ret.mpr ⟨hst, hs⟩
  · refine F.call (log _) hs fun _ s hs => F.call (log _) hs fun _ s hs => ?_
    split
    · exact F.reboot msg hs
    · next hhost => exact wp_exit.mpr (F.exits hhost s hs)

theorem Frame.checkconnection (plain : ∀ c, c.plain → A c) (hs : I s) :
    wp K (checkconnection env) (fun _ s => I s) s := by
  refine F.call (plain _ rfl) hs fun _ s hs => F.call (plain _ rfl) hs fun _ s hs =>
    F.call (plain _ rfl) hs fun nets s hs => ?_
  rw [ret_bind, bind_eq, wp_bind]
  refine (F.within ((plain_wiredInterfaces _).weaken plain) hs).mono fun is s ⟨_, hs⟩ => ?_
  refine F.call (plain _ rfl) hs fun _ s hs => ?_
  rw [ret_bind, bind_eq, wp_bind]
  refine (F.within ((plain_tryInterfaces _).weaken plain) hs).mono fun connected s ⟨_, hs⟩ => ?_
  split
  · exact wp_ret.mpr hs
  · refine F.call (plain _ rfl) hs fun _ s hs => ?_
    exact (F.leaves "" s hs).mono fun _ _ => False.elim

theorem Frame.welcome (log : ∀ text, A (.log text)) (ask : A (.yesno .welcome)) (hs : I s) :
    wp K (welcome env) (fun _ s => I s) s := by
  refine F.call (log _) hs fun _ s hs => F.call ask hs fun r s hs => ?_
  rw [ret_bind, bind_eq, wp_bind]
  exact (F.isokReboot log r.status "" hs).mono fun _ s hs => wp_ret.mpr hs.2

theorem Frame.selectVersion (selects : ∀ c, c.selects → A c) (hs : I s) :
    wp K (selectVersion env) (fun _ s => I s) s := by
  have plain : ∀ c, c.plain → A c := fun c hc => selects c (Cmd.plain.selects hc)
  refine wp_bind.mpr ((F.within ((plain_versionMenu env).weaken plain) hs).mono fun m s ⟨_, hs⟩ => ?_)
  refine F.call (selects _ rfl) hs fun r s hs => ?_
  rw [ret_bind, bind_eq, wp_bind]
  refine (F.isokReboot (fun _ => selects _ rfl) r.status _ hs).mono fun _ s hs => ?_
  exact F.call (selects _ rfl) hs.2 fun _ s hs => wp_ret.mpr hs

theorem Frame.selectDrive (selects : ∀ c, c.selects → A c) (hs : I s) :
    wp K (selectDrive env) (fun _ s => I s) s := by
  have plain : ∀ c, c.plain → A c := fun c hc => selects c (Cmd.plain.selects hc)
  refine wp_bind.mpr ((F.within (plain_getDisks.weaken plain) hs).mono fun m s ⟨_, hs⟩ => ?_)
  refine F.call (selects _ rfl) hs fun r s hs => ?_
  rw [ret_bind, bind_eq, wp_bind]
  refine (F.isokReboot (fun _ => selects _ rfl) r.status _ hs).mono fun _ s hs => ?_
  exact F.call (selects _ rfl) hs.2 fun _ s hs => wp_ret.mpr hs

/-- The stages up to the choice of a drive. -/
theorem Frame.mainFlow (selects : ∀ c, c.selects → A c) {Q : PUnit → S → Prop}
    (rest : ∀ url disk s, I s →
      wp K (Installer.eraseDrive env disk) (fun _ s => wp K (install env url disk) Q s) s)
    (hs : I s) : wp K (mainFlow env) Q s := by
  have plain : ∀ c, c.plain → A c := fun c hc => selects c (Cmd.plain.selects hc)
  simp only [Installer.mainFlow, bind_eq, wp_bind]
  refine (F.welcome (fun _ => selects _ rfl) (selects _ rfl) hs).mono fun _ s hs => ?_
  refine (F.checkconnection plain hs).mono fun _ s hs => ?_
  refine (F.selectVersion selects hs).mono fun url s hs => ?_
  exact (F.selectDrive selects hs).mono fun disk s hs => rest url disk s hs

/-! ## Erasing -/

variable (prepares : ∀ c : Cmd, c.prepares disk → A c)
include prepares

theorem Frame.quickErase (hs : I s) : wp K (quickErase disk) (fun _ s => I s) s :=
  (F.within (only_quickErase (prepares _ rfl) (fun _ => prepares _ rfl) fun part => prepares _
    (Cmd.prepares_rm disk part)) hs).mono fun _ _ h => h.2

theorem Frame.fullErase (msg : String) (hs : I s) : wp K (fullErase disk msg) (fun _ s => I s) s :=
  (F.within (only_fullErase (fun _ => prepares _ rfl) (fun _ => prepares _ rfl) (fun size text =>
    prepares _ (Cmd.prepares_zero disk size text)) msg) hs).mono fun _ _ h => h.2

theorem Frame.fallbackChoice (opt msg : String) (rc : Nat) {rest : Sh Nat} (hs : I s) :
    wp K (if opt = "1" then return rc
      else if opt = "2" then do
        Installer.quickErase disk
        return 0
      else do
        Installer.reboot env msg
        rest) (fun _ s => I s) s := by
  split
  · exact wp_ret.mpr hs
  split
  · exact wp_bind.mpr ((F.quickErase prepares hs).mono fun _ s hs => wp_ret.mpr hs)
  · exact F.reboot msg hs

theorem Frame.secureEraseSsd (hs : I s) : wp K (secureEraseSsd disk) (fun _ s => I s) s :=
  (F.within ((prepares_secureEraseSsd disk).weaken prepares) hs).mono fun _ _ h => h.2

theorem Frame.isok (st : Nat) (hs : I s) : wp K (isok st) (fun _ s => I s) s :=
  (F.within ((plain_isok st).weaken fun c hc => prepares c (Cmd.plain.prepares hc disk)) hs).mono
    fun _ _ h => h.2

theorem Frame.secureErase (hs : I s) : wp K (secureErase env disk) (fun _ s => I s) s := by
  unfold Installer.secureErase secureEraseNvme
  split
  · exact F.call (prepares _ rfl) hs fun _ s hs => F.call (prepares _ rfl) hs fun r s hs =>
      F.call (prepares _ rfl) hs fun _ s hs => F.fallbackChoice prepares _ _ _ hs
  refine F.call (prepares _ rfl) hs fun _ s hs => F.call (prepares _ rfl) hs fun frozen s hs => ?_
  rw [ret_bind, bind_eq, wp_bind]
  refine (F.isok prepares _ hs).mono fun st s hs => ?_
  split
  · exact F.secureEraseSsd prepares hs
  refine F.call (prepares _ rfl) hs fun _ s hs => F.call (prepares _ rfl) hs fun r s hs => ?_
  rw [ret_bind, bind_eq, wp_bind]
  refine (F.isok prepares _ hs).mono fun agreed s hs => ?_
  split
  · refine F.call (prepares _ rfl) hs fun _ s hs => F.call (prepares _ rfl) hs fun _ s hs =>
      F.call (prepares _ rfl) hs fun _ s hs => F.call (prepares _ rfl) hs fun _ s hs =>
        F.call (prepares _ rfl) hs fun frozen s hs => ?_
    rw [ret_bind, bind_eq, wp_bind]
    refine (F.isok prepares _ hs).mono fun st s hs => ?_
    split
    · exact F.secureEraseSsd prepares hs
    · exact F.call (prepares _ rfl) hs fun _ s hs => F.call (prepares _ rfl) hs fun r s hs =>
        F.call (prepares _ rfl) hs fun _ s hs => F.fallbackChoice prepares _ _ _ hs
  · exact F.call (prepares _ rfl) hs fun _ s hs => F.reboot _ hs

theorem Frame.eraseWith (FORMAT : String) (hs : I s) :
    wp K (eraseWith env disk FORMAT) (fun _ s => I s) s := by
  unfold Installer.eraseWith
  split
  · exact F.quickErase prepares hs
  split
  · refine F.call (prepares _ rfl) hs fun rotational s hs => ?_
    rw [ret_bind]
    split
    · exact F.fullErase prepares _ hs
    refine wp_bind.mpr ((F.secureErase prepares hs).mono fun st s hs => ?_)
    split
    · exact F.fullErase prepares _ hs
    split
    · exact (F.leaves _ s hs).mono fun _ _ => False.elim
    split
    · exact F.fullErase prepares _ hs
    split
    · exact F.fullErase prepares _ hs
    · exact wp_ret.mpr hs
  · exact wp_ret.mpr hs

theorem Frame.eraseDrive (hs : I s) : wp K (eraseDrive env disk) (fun _ s => I s) s := by
  refine F.call (prepares _ rfl) hs fun listed s hs => ?_
  rw [ret_bind]
  split
  · refine F.call (prepares _ rfl) hs fun _ s hs => F.call (prepares _ rfl) hs fun r s hs => ?_
    rw [ret_bind, bind_eq, wp_bind]
    refine (F.isokReboot (fun _ => prepares _ rfl) _ _ hs).mono fun _ s hs => ?_
    refine F.call (prepares _ rfl) hs.2 fun r s hs => ?_
    rw [ret_bind, bind_eq, wp_bind]
    refine (F.isokReboot (fun _ => prepares _ rfl) _ _ hs).mono fun _ s hs => ?_
    exact F.call (prepares _ rfl) hs.2 fun _ s hs => F.eraseWith prepares _ hs
  · exact wp_ret.mpr hs

end

/-! ## The whole run -/

section
variable {K : Contract S Cmd Answer} {env : Env} {I : S → Prop}

/-- `_reboot` keeps what its log collection keeps. -/
theorem Frame.of_logs (guard : ∀ c s, A c → I s → K.guard s c)
    (next : ∀ c s r s', A c → I s → K.next s c r s' → I s') (outer : ∀ c : Cmd, c.outer → A c)
    (logs : ∀ s, I s → wp K (collectlogs env) (fun _ s => I s) s) (ends : ∀ s, I s → K.exit s) :
    Frame K env A I where
  guard := guard
  next := next
  exits _ := ends
  leaves msg s hs := by
    have call : ∀ {α c s Q} {k : Answer → Sh α}, A c → I s → (∀ r s, I s → wp K (k r) Q s) →
        wp K (.call c k) Q s := fun hc hs hk =>
      wp_call.mpr ⟨guard _ _ hc hs, fun r _ hn => hk r _ (next _ _ _ _ hc hs hn)⟩
    have hcount : ∀ s, I s → wp K (countdown env (if msg = "" then "" else msg ++ "\n"))
        (fun _ _ => False) s := by
      intro s hs
      refine wp_bind.mpr ((((plain_countdown _).weaken fun c hc => outer c
        (Cmd.selects.outer (Cmd.plain.selects hc))).frame I (fun hs hc => guard _ _ hc hs)
        (fun hs hc hn => next _ _ _ _ hc hs hn) False.elim hs).mono fun _ s hs => ?_)
      split
      · exact call (outer _ rfl) hs.2 fun _ s hs => wp_exit.mpr (ends s hs)
      · exact wp_exit.mpr (ends s hs.2)
    refine call (outer _ rfl) hs fun _ s hs => wp_bind.mpr (wp_ret.mpr (wp_bind.mpr ?_))
    cases env.DEBUG with
    | false => exact wp_ret.mpr (hcount s hs)
    | true =>
      refine call (outer _ rfl) hs fun _ s hs => wp_bind.mpr (wp_ret.mpr ?_)
      exact (logs s hs).mono fun _ s hs => hcount s hs

/-- The parts of a run that are not plain keep `I`, and so does all around them. -/
structure Frame.Whole (K : Contract S Cmd Answer) (env : Env) (A : Cmd → Prop) (I : S → Prop) : Prop
    extends Frame K env A I where
  outer : ∀ c : Cmd, c.outer → A c
  prepares : ∀ disk (c : Cmd), c.prepares disk → A c
  logs : ∀ s, I s → wp K (collectlogs env) (fun _ s => I s) s
  marker : ∀ disk s, I s → wp K (findMarker disk) (fun _ s => I s) s
  ends : ∀ s, I s → K.exit s

section
variable (F : Frame.Whole K env A I) {s : S}
include F

theorem Frame.Whole.within {p : Sh α} {B : α → Prop} (h : Within False (fun c => c.outer) p B)
    (hs : I s) : wp K p (fun a s => B a ∧ I s) s :=
  F.toFrame.within (h.weaken F.outer) hs

theorem Frame.Whole.call {k : Answer → Sh α} {Q : α → S → Prop} (hc : c.outer) (hs : I s)
    (hk : ∀ r s, I s → wp K (k r) Q s) : wp K (.call c k) Q s :=
  F.toFrame.call (F.outer c hc) hs hk

theorem Frame.Whole.after {f : PUnit → Sh α} {Q : α → S → Prop} (hc : c.outer) (hs : I s)
    (hf : ∀ s, I s → wp K (f ⟨⟩) Q s) : wp K ((exec c).bind f) Q s :=
  F.call hc hs fun _ s hs => hf s hs

theorem Frame.Whole.report (found : Bool) (hs : I s) :
    wp K (report env found) (fun _ s => I s) s := by
  have hreboot : ∀ s, I s → wp K (exec .reboot) (fun _ s => I s) s := fun s hs =>
    F.call rfl hs fun _ s hs => wp_ret.mpr hs
  have hsuccess : (Cmd.msgbox (.success env.DEBUG)).outer := by cases env.DEBUG <;> rfl
  unfold Installer.report
  split
  · refine F.after rfl hs fun s hs => F.after hsuccess hs fun s hs => wp_bind.mpr ?_
    cases env.DEBUG with
    | false => exact wp_ret.mpr (hreboot s hs)
    | true => exact (F.logs s hs).mono fun _ s hs => hreboot s hs
  · refine F.after rfl hs fun s hs => F.after rfl hs fun s hs => wp_bind.mpr ?_
    exact (F.logs s hs).mono fun _ s hs => hreboot s hs

theorem Frame.Whole.install (url disk : String) (hs : I s) :
    wp K (install env url disk) (fun _ s => I s) s := by
  have hwrite : Within False (fun c => c.outer) (writeData url disk) fun _ => True := by
    simp only [writeData, bind_eq, within_bind, within_exec]
    exact ⟨rfl, rfl, rfl, rfl, rfl, trivial⟩
  refine wp_bind.mpr ((F.within hwrite hs).mono fun _ s hs => ?_)
  exact wp_bind.mpr ((F.marker disk s hs.2).mono fun found s hs => F.report found hs)

theorem Frame.Whole.mainFlow (hs : I s) : wp K (Installer.mainFlow env) (fun _ s => I s) s :=
  F.toFrame.mainFlow (fun c hc => F.outer c (Cmd.selects.outer hc)) (fun url disk _ hs =>
    (F.eraseDrive (F.prepares disk) hs).mono fun _ _ hs => F.install url disk hs) hs

theorem Frame.Whole.start (hs : I s) : wp K (start env) (fun _ s => I s) s := by
  have hlooks : ∀ c : Cmd, c.looks → c.outer := fun _ hc => Cmd.kills.outer (Cmd.looks.kills hc)
  refine wp_bind.mpr (wp_bind.mpr ((F.within (only_pidfileAlive hlooks) hs).mono ?_))
  rintro running s ⟨-, hs⟩
  split
  · exact F.after rfl hs fun s hs => wp_exit.mpr (F.ends s hs)
  · exact F.call rfl hs fun _ s hs => wp_ret.mpr (F.mainFlow hs)

theorem Frame.Whole.checked {f : PUnit → Sh α} {Q : α → S → Prop} (hs : I s)
    (hf : ∀ s, I s → wp K (f ⟨⟩) Q s) : wp K ((Installer.checkconnection env).bind f) Q s :=
  wp_bind.mpr ((F.checkconnection (fun c hc => F.outer c (Cmd.selects.outer (Cmd.plain.selects hc)))
    hs).mono fun _ s hs => hf s hs)

theorem Frame.Whole.addRepo (hs : I s) : wp K (addRepo env) (fun _ s => I s) s := by
  refine F.after rfl hs fun s hs => F.checked hs fun s hs => F.after rfl hs fun s hs => ?_
  refine wp_bind.mpr ((F.within (only_addRepos fun _ => rfl) hs).mono fun _ s hs => ?_)
  exact F.after rfl hs.2 fun s hs => wp_exit.mpr (F.ends s hs)

theorem Frame.Whole.addSsh (hs : I s) : wp K (addSsh env) (fun _ s => I s) s := by
  have hrepos : ∀ known : Nat, Within False (fun c => c.outer) (Script.when (known != 0) do
      exec (.run "echo \"Repoes are missing, adding them now...\"")
      addRepos) fun _ => True := by
    refine fun known => within_when (fun _ => ?_) trivial
    simp only [bind_eq, within_bind, within_exec]
    exact ⟨rfl, only_addRepos fun _ => rfl⟩
  refine F.after rfl hs fun s hs => F.checked hs fun s hs => F.after rfl hs fun s hs => ?_
  refine F.call rfl hs fun known s hs => ?_
  rw [ret_bind, bind_eq, wp_bind]
  refine (F.within (hrepos _) hs).mono fun _ s hs => F.after rfl hs.2 fun s hs => ?_
  exact F.after rfl hs fun s hs => F.after rfl hs fun s hs => F.after rfl hs fun s hs =>
    F.after rfl hs fun s hs => wp_exit.mpr (F.ends s hs)

end

/-- Every option of the script keeps what the parts of its run keep. -/
theorem Frame.Whole.installer (F : Frame.Whole K (arg.env env) A I) (hs : I s) :
    wp K (installer env arg) (fun _ s => I s) s := by
  have hnote : Within False (fun c => c.outer) (Script.when env.DEBUG (exec (.log
      "Booted in debug mode. Verbose logging will be in /var/log/messages"))) fun _ => True :=
    only_note fun _ => rfl
  refine wp_bind.mpr ((F.within hnote hs).mono fun _ s ⟨_, hs⟩ => ?_)
  cases arg with
  | help => exact F.after rfl hs fun s hs => wp_exit.mpr (F.ends s hs)
  | addRepo => exact F.addRepo hs
  | addSsh => exact F.addSsh hs
  | collectLogs => exact wp_bind.mpr ((F.logs s hs).mono fun _ s hs => wp_exit.mpr (F.ends s hs))
  | test => exact F.start hs
  | kill =>
    refine wp_bind.mpr ((F.within (only_kill (fun _ => Cmd.kills.outer) fun _ => rfl) hs).mono ?_)
    exact fun _ s hs => wp_exit.mpr (F.ends s hs.2)
  | plain => exact F.start hs

end

end Installer
end HassioInstaller
