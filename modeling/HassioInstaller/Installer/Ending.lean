import HassioInstaller.Installer.Effects
import HassioInstaller.Script.Halts

/-! # No run goes on for ever

The only loop of the installer without a bound is the menu of the flash drives, which is shown again
after "Re-scan drives" and after an answer that is none. Everything else settles: the pings end after
three, and all other loops go through a list. -/

namespace HassioInstaller

/-- The menu of the flash drives is answered with a drive. -/
def GotDrive : Cmd → Answer → Prop
  | .menu .flashdrive _, r => r.ok ∧ r.out ≠ "r"
  | _, _ => True

theorem eq_menu_of_not_gotDrive (h : ¬GotDrive c r) :
    ∃ content, c = .menu .flashdrive content ∧ (¬r.ok ∨ r.out = "r") := by
  unfold GotDrive at h
  split at h
  next content => exact ⟨content, rfl, by rwa [not_and_or, not_not] at h⟩
  next => exact absurd trivial h

namespace Installer
open Script

section
variable {answers : Cmd → Answer → Prop}

theorem settles_exec (c : Cmd) : Settles answers (exec c) := settles_call fun _ => settles_ret _

theorem settles_status (c : Cmd) : Settles answers (status c) := settles_call fun _ => settles_ret _

theorem settles_output (c : Cmd) : Settles answers (output c) := settles_call fun _ => settles_ret _

theorem settles_isokWith (st : Nat) {action : Option (Sh PUnit)}
    (h : ∀ act ∈ action, Settles answers act) : Settles answers (isokWith st action) := by
  unfold isokWith
  split
  · exact (settles_exec _).bind fun _ => settles_ret _
  refine (settles_exec _).bind fun _ => ?_
  cases action with
  | none => exact settles_ret _
  | some act =>
    exact (settles_exec _).bind fun _ => (h act rfl).bind fun _ => settles_ret _

theorem settles_isok (st : Nat) : Settles answers (isok st) :=
  settles_isokWith st fun _ h => by cases h

/-! ## The log collection -/

/-- At most three pings. -/
theorem settles_pingPastebin : Settles answers pingPastebin := by
  have hpass : ∀ s : Nat × Bool, s.1 ≤ 3 → Only (fun _ => True)
      (if s.1 = 3 ∨ s.2 then (return .inr s.2 : Sh ((Nat × Bool) ⊕ Bool)) else do
        exec (.log ("Try: " ++ toString s.1))
        let st ← status (.run "ping -c1 pastebin.com > /dev/null 2>&1")
        exec (.run "sleep 1")
        return .inl (s.1 + 1, st == 0))
      fun y => ∀ s', y = .inl s' → s'.1 ≤ 3 ∧ 3 - s'.1 < 3 - s.1 := by
    rintro ⟨count, alive⟩ hle
    dsimp only at hle ⊢
    split
    · exact within_ret.mpr fun _ h => by cases h
    simp only [bind_eq, pure_eq, within_bind, within_exec, within_status, within_ret]
    refine ⟨trivial, trivial, fun st => ⟨trivial, fun s' hs' => ?_⟩⟩
    cases hs'
    dsimp only
    omega
  refine settles_loop (fun s => s.1 ≤ 3) (fun s => 3 - s.1) (fun s _ => ?_)
    (fun s hs => (hpass s hs).mono fun y hy s' hs' => (hy s' hs').1)
    (fun s hs => ?_) settles_ret (by decide)
  · dsimp only
    split
    · exact settles_ret _
    · exact (settles_exec _).bind fun _ => (settles_status _).bind fun _ =>
        (settles_exec _).bind fun _ => settles_ret _
  · exact ((hpass s hs).mono fun y hy s' hs' => (hy s' hs').2).answering

theorem settles_remount (TYPE part : String) (ec : Nat) :
    Settles answers (remount TYPE part ec) := by
  unfold remount
  split
  · exact (settles_exec _).bind fun _ => (settles_exec _).bind fun _ => settles_status _
  · exact settles_ret _

theorem settles_probe (env : Env) (s : Scan) (part : String) (ec : Nat) :
    Settles answers (probe env s part ec) := by
  unfold probe
  split
  · exact settles_ret _
  refine (settles_status _).bind fun touched => ?_
  split
  · exact (settles_exec _).bind fun _ => settles_ret _
  · exact (settles_exec _).bind fun _ => (settles_exec _).bind fun _ =>
      (settles_output _).bind fun _ => (settles_output _).bind fun _ =>
        (settles_output _).bind fun _ => (settles_output _).bind fun _ => settles_ret _

theorem settles_scanPart (env : Env) (s : Scan) (part type : String) :
    Settles answers (scanPart env s part type) := by
  unfold scanPart
  split
  · exact settles_ret _
  · exact (settles_output _).bind fun _ => (settles_status _).bind fun _ =>
      (settles_remount _ _ _).bind fun _ => settles_probe _ _ _ _

/-- A drive that is picked ends the menu. -/
theorem settles_uploadToFlashdrive (env : Env) : Settles GotDrive (uploadToFlashdrive env) := by
  refine settles_loop (fun _ => True) (fun _ => 0) (fun s _ => ?_) (fun s _ => ?_) (fun s _ => ?_)
    settles_ret trivial
  · refine (settles_output _).bind fun listing =>
      (settles_foldlM (fun s _ => settles_scanPart env s _ _) _ _).bind fun s =>
        settles_call fun r => (settles_isok _).bind fun st => ?_
    split
    · exact settles_ret _
    split
    · exact settles_ret _
    · exact (settles_exec _).bind fun _ => (settles_output _).bind fun _ =>
        (settles_exec _).bind fun _ => (settles_exec _).bind fun _ =>
          (settles_exec _).bind fun _ => settles_ret _
  · exact (only_true _).mono fun _ _ _ _ => trivial
  · refine wp_call_answering fun listing _ => ?_
    rw [ret_bind, bind_eq, wp_bind]
    refine (only_true _).answering.mono fun s _ _ => ?_
    refine wp_call_answering fun r hgot => ?_
    rw [ret_bind, bind_eq, wp_bind]
    have hisok : Only (fun _ => True) (isok r.status) fun st => st = 0 ↔ r.status = 0 :=
      only_isok (fun _ => trivial) r.status
    refine hisok.answering.mono fun st _ hst => ?_
    rw [if_neg (not_not.mpr (hst.mpr hgot.1)), if_neg hgot.2]
    refine wp_call_answering fun _ _ => wp_call_answering fun _ _ => wp_call_answering fun _ _ =>
      wp_call_answering fun _ _ => wp_call_answering fun _ _ => wp_ret.mpr fun _ h => ?_
    cases h

theorem settles_collectSection (what cmd : String) : Settles answers (collectSection what cmd) :=
  (settles_exec _).bind fun _ => (settles_exec _).bind fun _ => settles_exec _

theorem settles_shareLog (env : Env) (url : String) : Settles GotDrive (shareLog env url) := by
  unfold shareLog
  split
  · exact (settles_exec _).bind fun _ => settles_exec _
  split
  · exact (settles_exec _).bind fun _ => settles_uploadToFlashdrive env
  · exact (settles_exec _).bind fun _ => settles_exec _

theorem settles_collectlogs (env : Env) : Settles GotDrive (collectlogs env) := by
  have files : ∀ is : List String, Settles GotDrive (each is fun i => do
      let st ← status (.isFile i)
      Script.when (st == 0) do
        exec (.log ("Collecting output from file " ++ i))
        collectSection i ("cat " ++ i)) := fun is =>
    settles_each fun i _ => (settles_status _).bind fun st => settles_when fun _ =>
      (settles_exec _).bind fun _ => settles_collectSection _ _
  unfold collectlogs
  refine (settles_exec _).bind fun _ => (settles_exec _).bind fun _ => (settles_output _).bind
    fun _ => (settles_exec _).bind fun _ => settles_pingPastebin.bind fun alive => ?_
  refine (settles_each fun i _ => (settles_exec _).bind fun _ => settles_collectSection i i).bind
    fun _ => ?_
  refine (settles_output _).bind fun _ => (settles_output _).bind fun _ => (settles_output _).bind
    fun _ => (settles_output _).bind fun _ => (settles_output _).bind fun _ => (files _).bind
      fun _ => ?_
  split
  · exact (settles_exec _).bind fun _ => (settles_output _).bind fun _ => settles_shareLog env _
  · exact (settles_exec _).bind fun _ => settles_exec _

/-! ## Leaving and the network -/

theorem settles_countdown (env : Env) (msg : String) : Settles answers (countdown env msg) := by
  refine (settles_each fun i _ => (settles_exec _).bind fun _ => settles_exec _).bind fun _ => ?_
  split
  · exact (settles_exec _).bind fun _ => settles_exit
  · exact settles_exit

theorem settles_reboot (env : Env) (msg : String) : Settles GotDrive (reboot env msg) :=
  (settles_exec _).bind fun _ => (settles_when fun _ => (settles_exec _).bind fun _ =>
    settles_collectlogs env).bind fun _ => settles_countdown env _

theorem settles_isokReboot (env : Env) (st : Nat) (msg : String) :
    Settles GotDrive (isokReboot env st msg) := by
  refine settles_isokWith st fun act hact => ?_
  cases hact
  split
  · exact settles_reboot env msg
  · exact settles_exit

theorem settles_gitping : Settles answers gitping := by
  refine (settles_exec _).bind fun _ => (settles_exec _).bind fun _ => (settles_status _).bind
    fun st => ?_
  split
  · exact (settles_exec _).bind fun _ => settles_ret _
  · exact settles_ret _

theorem settles_wiredInterfaces (is : List String) : Settles answers (wiredInterfaces is) := by
  induction is with
  | nil => exact settles_ret _
  | cons i is ih =>
    refine (settles_status _).bind fun wireless => ?_
    split
    · exact ih
    · exact (settles_exec _).bind fun _ => (settles_exec _).bind fun _ => ih.bind fun _ =>
        settles_ret _

theorem settles_tryInterfaces (is : List String) : Settles answers (tryInterfaces is) := by
  induction is with
  | nil => exact settles_ret _
  | cons int is ih =>
    refine (settles_exec _).bind fun _ => (settles_exec _).bind fun _ =>
      ((settles_exec _).bind fun _ => settles_gitping).bind fun st => ?_
    split
    · exact settles_ret _
    · exact ih

theorem settles_checkconnection (env : Env) : Settles GotDrive (checkconnection env) := by
  refine (settles_exec _).bind fun _ => (settles_exec _).bind fun _ => (settles_output _).bind
    fun _ => (settles_wiredInterfaces _).bind fun _ => (settles_exec _).bind fun _ =>
      (settles_tryInterfaces _).bind fun connected => ?_
  split
  · exact settles_ret _
  · exact (settles_exec _).bind fun _ => settles_reboot env ""

/-! ## Erasing and writing -/

theorem settles_quickErase (DISK : String) : Settles answers (quickErase DISK) :=
  (settles_output _).bind fun _ => settles_each fun _ _ => (settles_exec _).bind fun _ =>
    settles_exec _

theorem settles_fullErase (DISK msg : String) : Settles answers (fullErase DISK msg) :=
  (settles_exec _).bind fun _ => (settles_output _).bind fun _ => settles_exec _

theorem settles_secureEraseSsd (DISK : String) : Settles answers (secureEraseSsd DISK) := by
  refine (settles_exec _).bind fun _ => (settles_exec _).bind fun _ => (settles_exec _).bind
    fun _ => (settles_ret 0).bind fun st => (settles_isok st).bind fun prepared => ?_
  split
  · exact settles_ret _
  · exact (settles_status _).bind fun _ => (settles_exec _).bind fun _ => (settles_exec _).bind
      fun _ => (settles_exec _).bind fun _ => (settles_exec _).bind fun _ => settles_ret _

/-- The answer to a fallback menu. -/
theorem settles_fallbackChoice (env : Env) (DISK opt msg : String) (rc : Nat) {rest : Sh Nat}
    (hrest : Settles GotDrive rest) : Settles GotDrive (if opt = "1" then return rc
      else if opt = "2" then do
        quickErase DISK
        return 0
      else do
        reboot env msg
        rest) := by
  split
  · exact settles_ret _
  split
  · exact (settles_quickErase DISK).bind fun _ => settles_ret _
  · exact (settles_reboot env msg).bind fun _ => hrest

theorem settles_secureErase (env : Env) (DISK : String) :
    Settles GotDrive (secureErase env DISK) := by
  unfold secureErase secureEraseNvme
  split
  · refine (settles_exec _).bind fun _ => settles_call fun r => (settles_exec _).bind fun _ =>
      settles_fallbackChoice env DISK _ _ _ ?_
    refine (settles_status _).bind fun st => (settles_isok st).bind fun ok => ?_
    split
    · exact settles_ret _
    · exact settles_status _
  refine (settles_exec _).bind fun _ => (settles_status _).bind fun frozen =>
    (settles_isok _).bind fun st => ?_
  split
  · exact settles_secureEraseSsd DISK
  refine (settles_exec _).bind fun _ => (settles_status _).bind fun r =>
    (settles_isok _).bind fun agreed => ?_
  split
  · refine (settles_exec _).bind fun _ => (settles_exec _).bind fun _ => (settles_exec _).bind
      fun _ => (settles_exec _).bind fun _ => (settles_status _).bind fun frozen =>
        (settles_isok _).bind fun st => ?_
    split
    · exact settles_secureEraseSsd DISK
    · exact (settles_exec _).bind fun _ => settles_call fun r => (settles_exec _).bind fun _ =>
        settles_fallbackChoice env DISK _ _ _ (settles_secureEraseSsd DISK)
  · exact (settles_exec _).bind fun _ => (settles_reboot env _).bind fun _ =>
      settles_secureEraseSsd DISK

theorem settles_eraseWith (env : Env) (DISK FORMAT : String) :
    Settles GotDrive (eraseWith env DISK FORMAT) := by
  unfold eraseWith
  split
  · exact settles_quickErase DISK
  split
  · refine (settles_output _).bind fun rotational => ?_
    split
    · exact settles_fullErase DISK _
    refine (settles_secureErase env DISK).bind fun st => ?_
    split
    · exact settles_fullErase DISK _
    split
    · exact settles_reboot env _
    split
    · exact settles_fullErase DISK _
    split
    · exact settles_fullErase DISK _
    · exact settles_ret _
  · exact settles_ret _

theorem settles_eraseDrive (env : Env) (DISK : String) : Settles GotDrive (eraseDrive env DISK) := by
  refine (settles_status _).bind fun listed => ?_
  split
  · exact (settles_exec _).bind fun _ => (settles_status _).bind fun _ =>
      (settles_isokReboot env _ _).bind fun _ => settles_call fun _ =>
        (settles_isokReboot env _ _).bind fun _ => (settles_exec _).bind fun _ =>
          settles_eraseWith env DISK _
  · exact settles_ret _

/-! ## The main flow -/

theorem settles_collectVersions (vers : List String) (count : Int) (m : VersionMenu) :
    Settles answers (collectVersions vers count m) := by
  induction vers generalizing count m with
  | nil => exact settles_ret _
  | cons ver vers ih => exact (settles_exec _).bind fun _ => ih _ _

theorem settles_selectVersion (env : Env) : Settles GotDrive (selectVersion env) := by
  have menu : Settles GotDrive (versionMenu env) := by
    refine (settles_exec _).bind fun _ => (settles_output _).bind fun _ =>
      (settles_collectVersions _ _ _).bind fun m => ?_
    split
    · refine (settles_status _).bind fun st => ?_
      split <;> exact settles_ret _
    · exact settles_ret _
  exact menu.bind fun m => settles_call fun r => (settles_isokReboot env _ _).bind fun _ =>
    (settles_exec _).bind fun _ => settles_ret _

theorem settles_diskEntries (names : List String) (disks : String) :
    Settles answers (diskEntries names disks) := by
  induction names generalizing disks with
  | nil => exact settles_ret _
  | cons disk names ih =>
    exact (settles_output _).bind fun _ => (settles_output _).bind fun _ => (settles_status _).bind
      fun _ => (settles_exec _).bind fun _ => ih _

theorem settles_selectDrive (env : Env) : Settles GotDrive (selectDrive env) :=
  ((settles_output _).bind fun _ => settles_diskEntries _ _).bind fun _ => settles_call fun _ =>
    (settles_isokReboot env _ _).bind fun _ => (settles_exec _).bind fun _ => settles_ret _

theorem settles_checkMarker (disk : String) : Settles answers (checkMarker disk) := by
  have marker : ∀ release : Nat, Settles answers
      (if release = 0 then status .grepMarker else pure 1) := by
    intro release
    split
    · exact settles_status _
    · exact settles_ret _
  refine (settles_status _).bind fun release => (marker release).bind fun found => ?_
  split
  · exact (settles_exec _).bind fun _ => (settles_exec _).bind fun _ => settles_ret _
  · exact (settles_exec _).bind fun _ => (settles_exec _).bind fun _ => settles_ret _

theorem settles_scanMarker (nodes : List String) : Settles answers (scanMarker nodes) := by
  induction nodes with
  | nil => exact settles_ret _
  | cons node nodes ih =>
    refine (settles_status _).bind fun block => ?_
    split
    · exact ih
    refine (settles_exec _).bind fun _ => (settles_status _).bind fun mounted => ?_
    split
    · exact ih
    refine (settles_checkMarker node).bind fun found => ?_
    split
    · exact settles_ret _
    · exact ih

theorem settles_report (env : Env) (found : Bool) : Settles GotDrive (report env found) := by
  unfold report
  split
  · exact (settles_exec _).bind fun _ => (settles_exec _).bind fun _ =>
      (settles_when fun _ => settles_collectlogs env).bind fun _ => settles_exec _
  · exact (settles_exec _).bind fun _ => (settles_exec _).bind fun _ =>
      (settles_collectlogs env).bind fun _ => settles_exec _

theorem settles_install (env : Env) (url DISK : String) : Settles GotDrive (install env url DISK) := by
  have write : Settles GotDrive (writeData url DISK) :=
    (settles_exec _).bind fun _ => (settles_exec _).bind fun _ => (settles_exec _).bind fun _ =>
      (settles_exec _).bind fun _ => settles_exec _
  have find : Settles GotDrive (findMarker DISK) :=
    (settles_output _).bind fun _ => (settles_output _).bind fun _ => settles_scanMarker _
  exact write.bind fun _ => find.bind fun _ => settles_report env _

theorem settles_mainFlow (env : Env) : Settles GotDrive (mainFlow env) :=
  ((settles_exec _).bind fun _ => (settles_status _).bind fun _ =>
    (settles_isokReboot env _ _).bind fun _ => settles_ret _).bind fun _ =>
      (settles_checkconnection env).bind fun _ => (settles_selectVersion env).bind fun _ =>
        (settles_selectDrive env).bind fun _ => (settles_eraseDrive env _).bind fun _ =>
          settles_install env _ _

/-! ## The options -/

theorem settles_pidfileAlive : Settles answers pidfileAlive := by
  refine (settles_status _).bind fun st => ?_
  split
  · exact (settles_output _).bind fun _ => (settles_status _).bind fun _ => settles_ret _
  · exact settles_ret _

theorem settles_start (env : Env) : Settles GotDrive (start env) := by
  have acquire : Settles GotDrive (acquire env) := by
    refine settles_pidfileAlive.bind fun running => ?_
    split
    · exact (settles_exec _).bind fun _ => settles_exit
    · exact settles_exec _
  exact acquire.bind fun _ => settles_mainFlow env

theorem settles_killLoop (pid : String) (signals : List Nat) :
    Settles answers (killLoop pid signals) := by
  induction signals with
  | nil => exact settles_ret _
  | cons i is ih =>
    refine (settles_exec _).bind fun _ => (settles_exec _).bind fun _ => (settles_exec _).bind
      fun _ => (settles_status _).bind fun st => ?_
    split
    · exact settles_ret _
    · exact ih

theorem settles_kill : Settles answers kill := by
  refine settles_pidfileAlive.bind fun alive => ?_
  split
  · exact (settles_output _).bind fun _ => (settles_killLoop _ _).bind fun _ => settles_exec _
  · exact (settles_exec _).bind fun _ => settles_exec _

theorem settles_addRepos : Settles answers addRepos := (settles_exec _).bind fun _ => settles_exec _

theorem settles_addRepo (env : Env) : Settles GotDrive (addRepo env) :=
  (settles_exec _).bind fun _ => (settles_checkconnection env).bind fun _ => (settles_exec _).bind
    fun _ => settles_addRepos.bind fun _ => (settles_exec _).bind fun _ => settles_exit

theorem settles_addSsh (env : Env) : Settles GotDrive (addSsh env) :=
  (settles_exec _).bind fun _ => (settles_checkconnection env).bind fun _ => (settles_exec _).bind
    fun _ => (settles_status _).bind fun _ => (settles_when fun _ => (settles_exec _).bind fun _ =>
      settles_addRepos).bind fun _ => (settles_exec _).bind fun _ => (settles_exec _).bind fun _ =>
        (settles_exec _).bind fun _ => (settles_exec _).bind fun _ => (settles_exec _).bind fun _ =>
          settles_exit

end

theorem settles_installer (env : Env) (arg : Mode) : Settles GotDrive (installer env arg) := by
  refine (settles_when fun _ => settles_exec _).bind fun _ => ?_
  cases arg with
  | help => exact (settles_exec _).bind fun _ => settles_exit
  | addRepo => exact settles_addRepo env
  | addSsh => exact settles_addSsh env
  | collectLogs => exact (settles_collectlogs env).bind fun _ => settles_exit
  | kill => exact settles_kill.bind fun _ => settles_exit
  | test | plain => exact settles_start _

/-- A run that goes on for ever is in the menu of the flash drives again and again, and gets no drive
out of it. -/
theorem rescans_for_ever (env : Env) (arg : Mode) (F : Forever (installer env arg)) (n : Nat) :
    ∃ m ≥ n, ∃ content r, (.menu .flashdrive content, r) ∈ F.trace m ∧ (¬r.ok ∨ r.out = "r") := by
  obtain ⟨m, hm, hnot⟩ := (settles_installer env arg).infinitely_often F n
  obtain ⟨⟨c, r⟩, he, hgot⟩ := by simpa only [Admissible, not_forall, exists_prop] using hnot
  obtain ⟨content, rfl, hr⟩ := eq_menu_of_not_gotDrive hgot
  exact ⟨m, hm, content, r, he, hr⟩

/-- Such a run: the logs are collected, no partition is found, and the drives are scanned again. -/
theorem nonempty_forever_collectLogs (env : Env) : Nonempty (Forever (installer env .collectLogs)) := by
  have hcycle : Run (uploadToFlashdrive env) [(.blkid, ⟨0, ""⟩),
      (.menu .flashdrive "r|No drives found. Re-scan drives", ⟨0, "r"⟩),
      (.log "Previous command finished successfully.", ⟨0, ""⟩)] (uploadToFlashdrive env) :=
    .loop (.call _ (.call _ (.call _ .refl)))
  obtain ⟨t, hr, -⟩ : ∃ t, Run (collectlogs env) t (uploadToFlashdrive env) ∧
      Admissible (fun _ _ => True) t := comes_to_upload (fun _ _ _ => trivial) env
  have hstart : ∃ t, Run (installer env .collectLogs) t
      ((uploadToFlashdrive env).bind fun _ => .exit) := by
    have hcollect := hr.bind fun _ => (.exit : Sh PUnit)
    unfold installer
    cases env.DEBUG with
    | true => exact ⟨_, .call (⟨0, ""⟩ : Answer) hcollect⟩
    | false => exact ⟨_, hcollect⟩
  obtain ⟨t₀, hstart⟩ := hstart
  exact nonempty_forever_of_cycle hstart (List.cons_ne_nil _ _) (hcycle.bind _)

theorem rescans_for_ever_collecting : ∃ F : Forever (installer booted .collectLogs), ∀ n, ∃ m ≥ n,
    ∃ content r, (.menu .flashdrive content, r) ∈ F.trace m ∧ (¬r.ok ∨ r.out = "r") := by
  obtain ⟨F⟩ := nonempty_forever_collectLogs booted
  exact ⟨F, rescans_for_ever booted .collectLogs F⟩

end Installer
end HassioInstaller
