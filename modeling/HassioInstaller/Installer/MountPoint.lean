import HassioInstaller.Installer.Leaving

/-! # What is mounted on `/mnt`

The marker scan and the log upload share the mount point `/mnt` and do not look at what its unmount
answers. `held t` is the partition that was mounted there last and that no unmount has been asked for
since. While it is there the script only tests it, writes to it and asks for its unmount; it mounts
another one, asks the user, deals with a drive, reboots and ends only when nothing is held. -/

namespace HassioInstaller

/-- The commands about `/mnt`. -/
def Cmd.mounts : Cmd → Bool
  | .mount _ | .mountType .. | .umount | .grepMarker | .touch _ | .copyLog .. => true
  | _ => false

/-- What may be run while `dev` is mounted. -/
def Cmd.Below (pid dev : String) : Cmd → Prop
  | .umount | .grepMarker | .log _ => True
  | .isFile path => path = "/mnt/etc/os-release"
  | .touch path => path = "/mnt/test." ++ pid
  | .run line => line = "rm -rf /mnt/test." ++ pid ∨ line = "date +\"debug.%Y-%m-%dT%H%M%S.log\""
  | .copyLog _ part => part = dev
  | _ => False

/-- What is run only while something is mounted. -/
def Cmd.needsMount : Cmd → Bool
  | .grepMarker | .touch _ => true
  | _ => false

theorem Cmd.collects.mounts {c : Cmd} (h : c.collects) : c.mounts = false := by
  cases c <;> first | rfl | cases h

theorem Cmd.prepares.mounts {c : Cmd} (h : c.prepares disk) : c.mounts = false := by
  cases c <;> first | rfl | cases h

theorem Cmd.outer.mounts {c : Cmd} (h : c.outer) : c.mounts = false := by
  cases c <;> first | rfl | cases h

namespace Installer
open Script Text

/-- The partition on `/mnt` after a command. -/
def hold (held : Option String) : Cmd → Answer → Option String
  | .mount dev, r | .mountType _ dev, r => if r.status = 0 then some dev else held
  | .umount, _ => none
  | _, _ => held

/-- The partition that a trace has left mounted. -/
def held (t : List Event) : Option String := t.foldl (fun held e => hold held e.1 e.2) none

/-- The command fits what is mounted. -/
def Fits (pid : String) : Option String → Cmd → Prop
  | none, c => c.needsMount = false
  | some dev, c => c.Below pid dev

abbrev mountContract (pid : String) : Contract (Option String) Cmd Answer :=
  .monitor (fun _ _ => True) hold (Fits pid) (· = none)

variable {pid dev : String} {c : Cmd}

theorem fits_of_mounts (hc : c.mounts = false) : Fits pid none c := by
  cases c <;> first | rfl | cases hc

theorem hold_of_mounts (hc : c.mounts = false) (s : Option String) (r : Answer) :
    hold s c r = s := by
  cases c <;> first | rfl | cases hc

section
variable {Q : α → Option String → Prop} {k : Answer → Sh α}

theorem wp_unmounted (hc : c.mounts = false) (hk : ∀ r, wp (mountContract pid) (k r) Q none) :
    wp (mountContract pid) (.call c k) Q none := by
  refine wp_call_monitor.mpr ⟨fits_of_mounts hc, fun r _ => ?_⟩
  rw [hold_of_mounts hc]
  exact hk r

theorem wp_unmounted_exec {f : PUnit → Sh α} (hc : c.mounts = false)
    (hf : wp (mountContract pid) (f ⟨⟩) Q none) :
    wp (mountContract pid) ((exec c).bind f) Q none :=
  wp_unmounted hc fun _ => hf

theorem wp_below (hc : c.Below pid dev) (hum : c ≠ .umount)
    (hk : ∀ r, wp (mountContract pid) (k r) Q (some dev)) :
    wp (mountContract pid) (.call c k) Q (some dev) := by
  refine wp_call_monitor.mpr ⟨hc, fun r _ => ?_⟩
  have hkeep : hold (some dev) c r = some dev := by
    cases c with
    | mount | mountType => cases hc
    | umount => exact absurd rfl hum
    | _ => rfl
  rw [hkeep]
  exact hk r

theorem wp_umount (hk : ∀ r, wp (mountContract pid) (k r) Q none) :
    wp (mountContract pid) (.call .umount k) Q (some dev) :=
  wp_call_monitor.mpr ⟨trivial, fun r _ => hk r⟩

theorem unmounted_of_within {p : Sh α} {B : α → Prop}
    (hp : Within False (fun c => c.mounts = false) p B) :
    wp (mountContract pid) p (fun a s => B a ∧ s = none) none := by
  refine hp.frame (· = none) ?_ ?_ False.elim rfl
  · rintro _ c rfl hc
    change Fits pid none c
    exact fits_of_mounts hc
  · rintro _ c r _ rfl hc ⟨-, rfl⟩
    exact hold_of_mounts hc none r

end

/-! ## The log collection -/

/-- `part` is mounted if the last mount answered 0. -/
theorem mounted_remount (type part : String) (ec : Nat) : wp (mountContract pid)
    (remount type part ec) (fun ec s => s = if ec = 0 then some part else none)
    (if ec = 0 then some part else none) := by
  unfold remount
  split
  · next hec =>
    have hfailed : ec ≠ 0 := by rw [hec.1]; decide
    rw [if_neg hfailed]
    refine wp_unmounted rfl fun _ => wp_unmounted rfl fun _ => ?_
    exact wp_call_monitor.mpr ⟨rfl, fun r _ => wp_ret.mpr rfl⟩
  · exact wp_ret.mpr rfl

/-- The probe takes off again what it finds mounted. -/
theorem mounted_probe (env : Env) (s : Scan) (part : String) (ec : Nat) :
    wp (mountContract env.pid) (probe env s part ec) (fun _ h => h = none)
      (if ec = 0 then some part else none) := by
  unfold probe
  split
  · exact wp_ret.mpr rfl
  next hec =>
  rw [if_pos (not_not.mp hec)]
  refine wp_below rfl Cmd.noConfusion fun touched => ?_
  rw [ret_bind]
  split
  · exact wp_umount fun _ => wp_ret.mpr rfl
  · refine wp_below (.inl rfl) Cmd.noConfusion fun _ => wp_umount fun _ => ?_
    exact wp_unmounted rfl fun _ => wp_unmounted rfl fun _ => wp_unmounted rfl fun _ =>
      wp_unmounted rfl fun _ => wp_ret.mpr rfl

theorem mounted_scanPart (env : Env) (s : Scan) (part type : String) :
    wp (mountContract env.pid) (scanPart env s part type) (fun _ h => h = none) none := by
  unfold scanPart
  split
  · exact wp_ret.mpr rfl
  refine wp_unmounted rfl fun evaled => ?_
  refine wp_call_monitor.mpr ⟨rfl, fun ec _ => ?_⟩
  simp only [ret_bind, bind_eq]
  refine wp_bind.mpr ((mounted_remount _ part ec.status).mono ?_)
  rintro ec _ rfl
  exact mounted_probe env _ part ec

theorem mounted_uploadToFlashdrive (env : Env) :
    wp (mountContract env.pid) (uploadToFlashdrive env) (fun _ h => h = none) none := by
  refine wp_loop (fun _ h => h = none) ?_ rfl
  rintro s _ rfl
  refine wp_unmounted rfl fun listing => ?_
  rw [ret_bind]
  have hscan : wp (mountContract env.pid)
      ((lines listing.out).foldlM (scanLine env) { s with parts := [] }) (fun _ h => h = none) none := by
    refine wp_foldlM (fun _ h => h = none) ?_ rfl
    rintro s line _ _ rfl
    exact mounted_scanPart env s _ _
  refine wp_bind.mpr (hscan.mono ?_)
  rintro s _ rfl
  refine wp_unmounted rfl fun r => ?_
  rw [ret_bind]
  refine wp_bind.mpr ((unmounted_of_within (only_isok (fun _ => rfl) r.status)).mono ?_)
  rintro st _ ⟨-, rfl⟩
  split
  · exact wp_ret.mpr rfl
  split
  · exact wp_ret.mpr rfl
  refine wp_call_monitor.mpr ⟨rfl, fun mounted _ => ?_⟩
  have hhold : ∀ type, hold none (.mountType type r.out) mounted =
      if mounted.status = 0 then some r.out else none := fun _ => rfl
  rw [hhold]
  have hsaved : ∀ fname, wp (mountContract env.pid) (do
      exec (.msgbox (.fileSaved fname))
      return Sum.inr ⟨⟩ : Sh (Scan ⊕ PUnit)) (fun y h => y.elim (fun _ => h = none) fun b =>
        wp (mountContract env.pid) (.ret b : Sh PUnit) (fun _ h => h = none) h) none := fun fname =>
    wp_unmounted rfl fun _ => wp_ret.mpr (wp_ret.mpr rfl)
  split
  · refine wp_below (.inr rfl) Cmd.noConfusion fun fname => ?_
    refine wp_below rfl Cmd.noConfusion fun _ => wp_umount fun _ => hsaved fname.out
  -- a mount that fails is not noticed: the log is copied to the empty directory
  · refine wp_unmounted rfl fun fname => ?_
    refine wp_call_monitor.mpr ⟨rfl, fun _ _ => ?_⟩
    exact wp_call_monitor.mpr ⟨rfl, fun _ _ => hsaved fname.out⟩

theorem mounted_collectlogs (env : Env) :
    wp (mountContract env.pid) (collectlogs env) (fun _ h => h = none) none := by
  refine wp_collectlogs_of (I := (· = none)) ?_ ?_ ?_ rfl
  · rintro c _ hc rfl
    exact (fits_of_mounts (Cmd.collects.mounts hc) : Fits env.pid none c)
  · rintro c _ r _ hc rfl ⟨-, rfl⟩
    exact hold_of_mounts (Cmd.collects.mounts hc) none r
  · rintro _ rfl
    exact mounted_uploadToFlashdrive env

/-! ## The marker scan -/

/-- The partition is taken off whether the marker is found or not. -/
theorem mounted_checkMarker (disk : String) :
    wp (mountContract pid) (checkMarker disk) (fun _ h => h = none) (some disk) := by
  have marked : ∀ marker : Nat, wp (mountContract pid) (if marker = 0 then do
      exec (.log ("Marker found on " ++ disk))
      exec .umount
      return true
    else do
      exec (.log "Marker not found, moving on...")
      exec .umount
      return false) (fun (_ : Bool) h => h = none) (some disk) := by
    intro marker
    split
    · exact wp_below trivial Cmd.noConfusion fun _ => wp_umount fun _ => wp_ret.mpr rfl
    · exact wp_below trivial Cmd.noConfusion fun _ => wp_umount fun _ => wp_ret.mpr rfl
  refine wp_below rfl Cmd.noConfusion fun release => ?_
  rw [ret_bind, bind_eq, wp_bind]
  split
  · exact wp_below trivial Cmd.noConfusion fun r => wp_ret.mpr (marked r.status)
  · exact wp_ret.mpr (marked 1)

theorem mounted_scanMarker (nodes : List String) :
    wp (mountContract pid) (scanMarker nodes) (fun _ h => h = none) none := by
  induction nodes with
  | nil => exact wp_ret.mpr rfl
  | cons node nodes ih =>
    refine wp_unmounted rfl fun block => ?_
    rw [ret_bind]
    split
    · exact ih
    refine wp_unmounted_exec rfl (wp_call_monitor.mpr ⟨rfl, fun mounted _ => ?_⟩)
    have hhold : hold none (.mount node) mounted = if mounted.status = 0 then some node else none := rfl
    rw [hhold, ret_bind]
    by_cases hm : mounted.status = 0
    · rw [if_pos hm, if_neg (not_not.mpr hm), bind_eq, wp_bind]
      refine (mounted_checkMarker node).mono ?_
      rintro found _ rfl
      split
      · exact wp_ret.mpr rfl
      · exact ih
    · rw [if_neg hm, if_pos hm]
      exact ih

/-! ## The whole run -/

/-- Nothing is held between the parts of a run. -/
theorem whole_unmounted (env : Env) :
    Frame.Whole (mountContract env.pid) env (fun c => c.mounts = false) (· = none) where
  toFrame := by
    refine Frame.of_logs ?_ ?_ (fun _ => Cmd.outer.mounts) ?_ fun _ hs => hs
    · intro c s hc hs
      subst hs
      change Fits env.pid none c
      exact fits_of_mounts hc
    · rintro _ c r _ hc rfl ⟨-, rfl⟩
      exact hold_of_mounts hc none r
    · rintro _ rfl
      exact mounted_collectlogs env
  outer _ := Cmd.outer.mounts
  prepares _ _ := Cmd.prepares.mounts
  logs := by
    rintro _ rfl
    exact mounted_collectlogs env
  marker := by
    rintro disk _ rfl
    exact wp_unmounted rfl fun direct => wp_unmounted rfl fun withP => mounted_scanMarker _
  ends _ hs := hs

theorem mounted_installer (env : Env) (arg : Mode) :
    wp (mountContract env.pid) (installer env arg) (fun _ h => h = none) none := by
  have hpid : (arg.env env).pid = env.pid := by cases arg <;> rfl
  exact (hpid ▸ whole_unmounted (arg.env env)).installer rfl

/-- Nothing is held when the script mounts, asks, deals with a drive, reboots or ends, whatever is
answered; what it runs while a partition is held is about that partition. -/
theorem held_of_run (hr : Run (installer env arg) t q) :
    (∀ c, q.next = some c → Fits env.pid (held t) c) ∧ (q.Ended → held t = none) := by
  have hat := mounted_installer env arg t q (held t) hr (path_monitor_iff.mpr ⟨rfl, fun _ _ => trivial⟩)
  cases q with
  | ret => exact ⟨fun _ h => (by cases h), fun _ => hat⟩
  | exit => exact ⟨fun _ h => (by cases h), fun _ => hat⟩
  | call => exact ⟨fun c hc => Option.some.inj hc ▸ hat, False.elim⟩
  | loop => exact ⟨fun _ h => (by cases h), False.elim⟩

/-- A start on a machine on which all goes well, up to the search for the marker. -/
def scanTrial : List Event × Sh PUnit :=
  play (fun _ => sample) 54 [] (installer booted .plain)

theorem held_of_run_scan :
    (∀ c, scanTrial.2.next = some c → Fits booted.pid (held scanTrial.1) c) ∧
      (scanTrial.2.Ended → held scanTrial.1 = none) :=
  held_of_run (run_play (fun _ => sample) 54 (installer booted .plain))

end Installer
end HassioInstaller
