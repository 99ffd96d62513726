import HassioInstaller.Installer.Interrupt

/-! # The ATA password

`lockAfter` follows the user password of a drive through a trace, and with it whether a dialog was
shown since it was set. A run leaves a drive locked when the secure erase fails on a drive that took the
password, and when SIGINT comes between the two and the exit menu is not answered with "Restart
Installer". No dialog of the script is shown between the two, so it does not matter which of them would
count as telling the user. -/

namespace HassioInstaller

/-- The commands that show a dialog. -/
def Cmd.dialog : Cmd → Bool
  | .yesno _ | .menu .. | .exitMenu | .msgbox _ | .infobox _ => true
  | _ => false

/-- The commands that start writing the image, report a result or reboot. -/
def Cmd.reports : Cmd → Bool
  | .writeImage .. | .msgbox (.success _) | .msgbox .failure | .reboot => true
  | _ => false

/-- The user password of a drive: is it set, and has the user been told since? -/
structure Lock where
  locked : Bool
  told : Bool
  deriving DecidableEq

/-- A successful `--security-set-pass` sets the password, a successful `--security-erase` clears it,
and a failed command changes nothing. -/
def Lock.step (tells : Cmd → Bool) (disk : String) (s : Lock) (e : Event) : Lock :=
  if e.1 = .securitySetPass disk then if e.2.ok then ⟨true, false⟩ else s
  else if e.1 = .securityErase disk then if e.2.ok then ⟨false, s.told⟩ else s
  else ⟨s.locked, s.told || tells e.1⟩

theorem Lock.locked_step (tells : Cmd → Bool) (disk : String) (s : Lock) (c : Cmd) (r : Answer) :
    (s.step tells disk (c, r)).locked =
      if c = .securitySetPass disk then if r.ok then true else s.locked
      else if c = .securityErase disk then if r.ok then false else s.locked
      else s.locked := by
  unfold Lock.step
  split_ifs <;> rfl

def lockAfter (tells : Cmd → Bool) (disk : String) (t : List Event) : Lock :=
  t.foldl (Lock.step tells disk) ⟨false, false⟩

/-- At every report, also by a label that `eval` runs, `disk` is unlocked, or the user has been told that
it is not. -/
def NotLeftLocked (B : Bash) (tells : Cmd → Bool) (disk : String) : List Event → Prop :=
  Script.Throughout fun pre e => (∃ c ∈ B.does e.1, c.reports) →
    (lockAfter tells disk pre).locked = false ∨ (lockAfter tells disk pre).told = true

/-- No secure erase of `disk` fails while it is locked. -/
def ErasedWhenLocked (tells : Cmd → Bool) (disk : String) : List Event → Prop :=
  Script.Throughout fun pre e => e.1 = .securityErase disk →
    (lockAfter tells disk pre).locked = true → e.2.ok

/-- While `disk` is locked the exit menu is answered with "Restart Installer" only. -/
def RestartedWhenLocked (tells : Cmd → Bool) (disk : String) : List Event → Prop :=
  Script.Throughout fun pre e => e.1 = .exitMenu → (lockAfter tells disk pre).locked = true →
    e.2.out = "3"

/-- A command that is no `hdparm`, shows nothing, reports nothing and runs no label. -/
structure Quiet (c : Cmd) : Prop where
  target : c.target = none
  dialog : c.dialog = false
  reports : c.reports = false
  evals : c.evals = false

theorem Quiet.ne {c : Cmd} (hc : Quiet c) :
    c ≠ .securitySetPass disk ∧ c ≠ .securityErase disk ∧ c ≠ .exitMenu := by
  refine ⟨?_, ?_, ?_⟩ <;> rintro rfl
  · cases hc.target
  · cases hc.target
  · cases hc.dialog

/-! ## The phases of a drive -/

/-- How far a run has come with the password of a drive. -/
inductive LockPhase
  | unlocked
  | locked
  /-- The secure erase has failed on the locked drive. -/
  | stuck
  /-- After that there was a report. -/
  | left
  /-- The locked drive came to an exit menu that goes on to a reboot. -/
  | abandoned
  deriving DecidableEq

namespace LockPhase

def step (disk : String) : LockPhase → Cmd → Answer → LockPhase
  | .unlocked, c, r => if c = .securitySetPass disk ∧ r.ok then .locked else .unlocked
  | .locked, c, r =>
    if c = .securityErase disk then if r.ok then .unlocked else .stuck
    else if c = .exitMenu ∧ r.out ≠ "3" then .abandoned
    else .locked
  | .stuck, c, _ => if c = .exitMenu then .abandoned else if c.reports then .left else .stuck
  | s, _, _ => s

/-- What the installer does with a drive in this phase. -/
def Fits (disk : String) : LockPhase → Cmd → Prop
  | .locked, c => c = .securityErase disk ∨ c = .exitMenu ∨ Quiet c
  | .stuck, c => c.reports ∨ c = .exitMenu ∨ Quiet c
  | _, _ => True

theorem step_unlocked (h : c ≠ .securitySetPass disk) (r : Answer) :
    LockPhase.unlocked.step disk c r = .unlocked := if_neg fun ⟨hc, _⟩ => h hc

theorem step_setPass (disk : String) (r : Answer) :
    LockPhase.unlocked.step disk (.securitySetPass disk) r = if r.ok then .locked else .unlocked := by
  simp only [step, true_and]

theorem step_erase (disk : String) (r : Answer) :
    LockPhase.locked.step disk (.securityErase disk) r = if r.ok then .unlocked else .stuck :=
  if_pos rfl

theorem step_quiet (hc : Quiet c) (s : LockPhase) (r : Answer) : s.step disk c r = s := by
  obtain ⟨hset, herase, hexit⟩ : c ≠ .securitySetPass disk ∧ c ≠ .securityErase disk ∧ c ≠ .exitMenu :=
    hc.ne
  cases s with
  | unlocked => exact step_unlocked hset r
  | locked => rw [step, if_neg herase, if_neg fun ⟨h, _⟩ => hexit h]
  | stuck => rw [step, if_neg hexit, hc.reports]; rfl
  | left | abandoned => rfl

theorem fits_quiet (hc : Quiet c) (s : LockPhase) : s.Fits disk c := by
  cases s with
  | locked | stuck => exact .inr (.inr hc)
  | unlocked | left | abandoned => trivial

/-- Where nothing matters any more. -/
def Spent (s : LockPhase) : Prop := s = .left ∨ s = .abandoned

theorem Spent.step (hs : Spent s) (c : Cmd) (r : Answer) : s.step disk c r = s := by
  obtain rfl | rfl := hs <;> rfl

theorem Spent.fits (hs : Spent s) (c : Cmd) : s.Fits disk c := by
  obtain rfl | rfl := hs <;> trivial

theorem Spent.ne (hs : Spent s) : s ≠ .stuck := by
  obtain rfl | rfl := hs <;> decide

end LockPhase

namespace Installer
open Script

/-- The phases of a drive in a run, at whose end it is not left stuck. -/
abbrev lockContract (disk : String) : Contract LockPhase Cmd Answer :=
  .monitor (fun _ _ => True) (LockPhase.step disk) (LockPhase.Fits disk) (· ≠ .stuck)

section
variable {disk : String}

theorem wp_unlocked {k : Answer → Sh α} {Q : α → LockPhase → Prop} (hset : c ≠ .securitySetPass disk)
    (hk : ∀ r, wp (lockContract disk) (k r) Q .unlocked) :
    wp (lockContract disk) (.call c k) Q .unlocked :=
  wp_call_monitor.mpr ⟨trivial, fun r _ => (LockPhase.step_unlocked hset r).symm ▸ hk r⟩

theorem wp_quiet {k : Answer → Sh α} {Q : α → LockPhase → Prop} (hc : Quiet c)
    (hk : ∀ r, wp (lockContract disk) (k r) Q s) : wp (lockContract disk) (.call c k) Q s :=
  wp_call_monitor.mpr ⟨LockPhase.fits_quiet hc s, fun r _ => (LockPhase.step_quiet hc s r).symm ▸ hk r⟩

/-- A script that sets no password on `disk` leaves it unlocked. -/
theorem wp_of_unlocked {p : Sh α} {B : α → Prop} (hp : Only (· ≠ .securitySetPass disk) p B) :
    wp (lockContract disk) p (fun a s => B a ∧ s = .unlocked) .unlocked := by
  refine hp.frame (· = LockPhase.unlocked) ?_ ?_ ?_ rfl
  · rintro _ c rfl -
    trivial
  · rintro _ c r _ rfl hset ⟨-, rfl⟩
    exact LockPhase.step_unlocked hset r
  · rintro _ - rfl
    exact nofun

/-- Where nothing matters any more anything may run. -/
theorem wp_of_spent (p : Sh α) (hs : s.Spent) :
    wp (lockContract disk) p (fun _ s' => s' = s) s := by
  refine ((only_true p).frame (· = s) ?_ ?_ ?_ rfl).mono fun _ _ h => h.2
  · rintro _ c rfl -
    exact hs.fits c
  · rintro _ c r _ rfl - ⟨-, rfl⟩
    exact hs.step c r
  · rintro _ - rfl
    exact hs.ne

/-- Unlocked, or stuck without a report yet. -/
def Settled (s : LockPhase) : Prop := s = .unlocked ∨ s = .stuck

theorem lock_secureEraseSsd (disk' : String) : wp (lockContract disk) (secureEraseSsd disk')
    (fun rc s => Settled s ∧ rc = 0) .unlocked := by
  by_cases hd : disk' = disk
  · subst hd
    refine wp_unlocked nofun fun _ => wp_unlocked nofun fun _ => ?_
    refine wp_call_monitor.mpr ⟨trivial, fun p _ => ?_⟩
    have hfits : (LockPhase.unlocked.step disk' (.securitySetPass disk') p).Fits disk'
        (.securityErase disk') := by
      rw [LockPhase.step_setPass]
      split
      · exact .inl rfl
      · trivial
    have hsettled : ∀ e, Settled ((LockPhase.unlocked.step disk' (.securitySetPass disk') p).step disk'
        (.securityErase disk') e) := by
      intro e
      rw [LockPhase.step_setPass]
      split
      · rw [LockPhase.step_erase]
        split
        · exact .inl rfl
        · exact .inr rfl
      · exact .inl (LockPhase.step_unlocked (c := .securityErase disk') nofun e)
    -- `isok` sees the 0 of the assignment to `STAGE` and only logs
    refine wp_quiet ⟨rfl, rfl, rfl, rfl⟩ fun _ => wp_call_monitor.mpr ⟨hfits, fun e _ => ?_⟩
    refine wp_quiet ⟨rfl, rfl, rfl, rfl⟩ fun _ => wp_quiet ⟨rfl, rfl, rfl, rfl⟩ fun _ => ?_
    exact wp_quiet ⟨rfl, rfl, rfl, rfl⟩ fun _ => wp_quiet ⟨rfl, rfl, rfl, rfl⟩ fun _ =>
      wp_ret.mpr ⟨hsettled e, rfl⟩
  · refine (wp_of_unlocked (only_secureEraseSsd (fun c hc hs => ?_) (fun hs => ?_) nofun)).mono
      fun _ _ h => ⟨.inl h.2, h.1⟩
    · subst hs
      cases hc
    · cases hs
      exact hd rfl

theorem passiveOrReboot_ne (disk : String) (c : Cmd) (h : c.passiveOrReboot) :
    c ≠ .securitySetPass disk := by
  rintro rfl
  cases h

/-- `_reboot` does not return. -/
theorem unlocked_reboot (env : Env) (msg : String) {Q : PUnit → LockPhase → Prop} :
    wp (lockContract disk) (reboot env msg) Q .unlocked :=
  (wp_of_unlocked ((only_reboot env msg).weaken (passiveOrReboot_ne disk))).mono
    fun _ _ h => h.1.elim

theorem unlocked_isok {f : Nat → Sh α} {Q : α → LockPhase → Prop} (st : Nat)
    (hf : ∀ a, wp (lockContract disk) (f a) Q .unlocked) :
    wp (lockContract disk) ((isok st).bind f) Q .unlocked := by
  refine wp_bind.mpr ((wp_of_unlocked (only_isok (fun _ => nofun) st)).mono ?_)
  rintro a _ ⟨-, rfl⟩
  exact hf a

theorem unlocked_isokReboot {f : Nat → Sh α} {Q : α → LockPhase → Prop} (env : Env) (st : Nat)
    (msg : String) (hf : ∀ a, wp (lockContract disk) (f a) Q .unlocked) :
    wp (lockContract disk) ((isokReboot env st msg).bind f) Q .unlocked := by
  refine wp_bind.mpr ((wp_of_unlocked ((only_isokReboot env st msg).weaken
    (passiveOrReboot_ne disk))).mono ?_)
  rintro a _ ⟨-, rfl⟩
  exact hf a

theorem unlocked_quickErase (disk' : String) :
    wp (lockContract disk) (quickErase disk') (fun _ s => s = .unlocked) .unlocked :=
  (wp_of_unlocked (only_quickErase nofun (fun _ => nofun) fun _ => nofun)).mono fun _ _ h => h.2

theorem unlocked_fullErase (disk' msg : String) :
    wp (lockContract disk) (fullErase disk' msg) (fun _ s => s = .unlocked) .unlocked :=
  (wp_of_unlocked (only_fullErase (fun _ => nofun) (fun _ => nofun) (fun _ _ => nofun) msg)).mono
    fun _ _ h => h.2

theorem unlocked_fallbackChoice (env : Env) {opt msg : String} {rc : Nat} {rest : Sh Nat}
    {disk' : String} : wp (lockContract disk) (if opt = "1" then return rc
      else if opt = "2" then do
        quickErase disk'
        return 0
      else do
        reboot env msg
        rest) (fun rc s => s = .unlocked ∨ s = .stuck ∧ rc = 0) .unlocked := by
  split
  · exact wp_ret.mpr (.inl rfl)
  split
  · exact wp_bind.mpr ((unlocked_quickErase disk').mono fun _ _ h => wp_ret.mpr (.inl h))
  · exact wp_bind.mpr (unlocked_reboot env msg)

theorem lock_secureErase (env : Env) (disk' : String) : wp (lockContract disk) (secureErase env disk')
    (fun rc s => s = .unlocked ∨ s = .stuck ∧ rc = 0) .unlocked := by
  have ssd : wp (lockContract disk) (secureEraseSsd disk')
      (fun rc s => s = .unlocked ∨ s = .stuck ∧ rc = 0) .unlocked :=
    (lock_secureEraseSsd disk').mono fun _ _ h => h.1.imp_right fun hs => ⟨hs, h.2⟩
  unfold secureErase
  split
  · refine wp_unlocked nofun fun _ => wp_unlocked nofun fun r => ?_
    exact wp_unlocked nofun fun _ => unlocked_fallbackChoice env
  refine wp_unlocked nofun fun _ => wp_unlocked nofun fun f => unlocked_isok _ fun st => ?_
  split
  · exact ssd
  refine wp_unlocked nofun fun _ => wp_unlocked nofun fun y => unlocked_isok _ fun agreed => ?_
  split
  · refine wp_unlocked nofun fun _ => wp_unlocked nofun fun _ => wp_unlocked nofun fun _ =>
      wp_unlocked nofun fun _ => wp_unlocked nofun fun f => unlocked_isok _ fun st => ?_
    split
    · exact ssd
    refine wp_unlocked nofun fun _ => wp_unlocked nofun fun r => ?_
    exact wp_unlocked nofun fun _ => unlocked_fallbackChoice env
  · exact wp_unlocked nofun fun _ => (wp_bind (p := reboot env _)).mpr (unlocked_reboot env _)

theorem lock_eraseWith (env : Env) (disk' FORMAT : String) :
    wp (lockContract disk) (eraseWith env disk' FORMAT) (fun _ => Settled) .unlocked := by
  have full : ∀ msg, wp (lockContract disk) (fullErase disk' msg) (fun _ => Settled) .unlocked :=
    fun msg => (unlocked_fullErase disk' msg).mono fun _ _ => .inl
  unfold eraseWith
  split
  · exact (unlocked_quickErase disk').mono fun _ _ => .inl
  split
  · refine wp_unlocked nofun fun rotational => ?_
    rw [ret_bind]
    split
    · exact full _
    refine (wp_bind (p := secureErase env disk')).mpr ((lock_secureErase env disk').mono ?_)
    rintro rc _ (rfl | ⟨rfl, rfl⟩)
    · split
      · exact full _
      split
      · exact unlocked_reboot env _
      split
      · exact full _
      split
      · exact full _
      · exact wp_ret.mpr (.inl rfl)
    · exact wp_ret.mpr (.inr rfl)
  · exact wp_ret.mpr (.inl rfl)

theorem lock_eraseDrive (env : Env) (disk' : String) :
    wp (lockContract disk) (eraseDrive env disk') (fun _ => Settled) .unlocked := by
  refine wp_unlocked nofun fun listed => ?_
  rw [ret_bind]
  split
  · refine wp_unlocked nofun fun _ => wp_unlocked nofun fun answer => ?_
    refine unlocked_isokReboot env answer.status _ fun _ => wp_unlocked nofun fun m => ?_
    refine unlocked_isokReboot env m.status _ fun _ => ?_
    exact wp_unlocked nofun fun _ => lock_eraseWith env disk' m.out
  · exact wp_ret.mpr (.inl rfl)

theorem lock_install (env : Env) (url disk' : String) (h : Settled s) :
    wp (lockContract disk) (install env url disk') (fun _ s => s ≠ .stuck) s := by
  rcases h with rfl | rfl
  · refine (wp_of_unlocked (only_install (fun c hc hs => by subst hs; cases hc) nofun nofun nofun
      (fun _ => nofun) nofun env)).mono ?_
    rintro _ _ ⟨-, rfl⟩
    exact nofun
  · refine wp_quiet ⟨rfl, rfl, rfl, rfl⟩ fun _ => wp_call_monitor.mpr ⟨.inl rfl, fun r _ => ?_⟩
    have hleft : LockPhase.Spent (LockPhase.stuck.step disk (.writeImage url disk') r) := .inl rfl
    exact (wp_of_spent _ hleft).mono fun _ _ hs => hs ▸ hleft.ne

theorem lock_mainFlow (env : Env) :
    wp (lockContract disk) (mainFlow env) (fun _ s => s ≠ .stuck) .unlocked := by
  refine wp_mainFlow_of (· = .unlocked) ?_ ?_ ?_ ?_ rfl
  · rintro _ c rfl -
    trivial
  · rintro _ c r _ rfl hchoosing ⟨-, rfl⟩
    exact LockPhase.step_unlocked (by rintro rfl; cases hchoosing) r
  · rintro _ rfl
    exact nofun
  · rintro url disk' _ rfl
    exact (lock_eraseDrive env disk').mono fun _ _ h => lock_install env url disk' h

theorem lock_installer (env : Env) (arg : Mode) :
    wp (lockContract disk) (installer env arg) (fun _ s => s ≠ .stuck) .unlocked := by
  have start : ∀ env, wp (lockContract disk) (start env) (fun _ s => s ≠ .stuck) .unlocked := by
    intro env
    refine (wp_bind (p := acquire env)).mpr ((wp_of_unlocked (only_acquire
      (fun c hc hs => by subst hs; cases hc) nofun env nofun)).mono ?_)
    rintro _ _ ⟨-, rfl⟩
    exact lock_mainFlow env
  cases hm : arg.helper with
  | true =>
    refine (wp_of_unlocked (only_helper (passiveOrReboot_ne disk)
      (fun _ c hc hs => by subst hs; cases hc) env hm)).mono ?_
    rintro _ _ ⟨-, rfl⟩
    exact nofun
  | false =>
    unfold installer
    rw [bind_eq, wp_bind]
    refine (wp_of_unlocked (only_note fun _ => nofun)).mono ?_
    rintro _ _ ⟨-, rfl⟩
    cases arg with
    | test => exact start _
    | plain => exact start _
    | _ => cases hm

/-- The exit menu leaves the phase as it is, or the drive is abandoned. -/
theorem lock_exit (env : Env) (s : LockPhase) :
    wp (lockContract disk) (exit env) (fun _ s' => s' = s ∨ s' = .abandoned) s := by
  have spent : ∀ opt, wp (lockContract disk) (exitChoice env opt)
      (fun _ s' => s' = s ∨ s' = .abandoned) .abandoned := fun opt =>
    (wp_of_spent _ (.inr rfl)).mono fun _ _ => .inr
  cases s with
  | unlocked =>
    refine wp_unlocked nofun fun r => ?_
    have honly : Only (· ≠ .securitySetPass disk) (exitChoice env r.out) fun _ => True :=
      only_exitChoice (passiveOrReboot_ne disk) nofun env fun _ => trivial
    exact (wp_of_unlocked honly).mono fun _ _ h => .inl h.2
  | locked =>
    refine wp_call_monitor.mpr ⟨.inr (.inl rfl), fun r _ => ?_⟩
    by_cases h3 : r.out = "3"
    · have hstep : LockPhase.locked.step disk .exitMenu r = .locked := by
        rw [LockPhase.step, if_neg nofun, if_neg fun h => h.2 h3]
      rw [hstep, ret_bind, h3]
      exact wp_quiet ⟨rfl, rfl, rfl, rfl⟩ fun _ => wp_quiet ⟨rfl, rfl, rfl, rfl⟩ fun _ =>
        wp_exit.mpr nofun
    · have hstep : LockPhase.locked.step disk .exitMenu r = .abandoned := by
        rw [LockPhase.step, if_neg nofun, if_pos ⟨rfl, h3⟩]
      rw [hstep]
      exact spent r.out
  | stuck => exact wp_call_monitor.mpr ⟨.inr (.inl rfl), fun r _ => spent r.out⟩
  | left => exact (wp_of_spent _ (.inl rfl)).mono fun _ _ => .inl
  | abandoned => exact (wp_of_spent _ (.inr rfl)).mono fun _ _ => .inl

end

/-! ## What the phases say about a trace -/

section
variable {B : Bash} {tells : Cmd → Bool} {disk : String}

/-- The phase after a trace. -/
def phaseAfter (disk : String) (t : List Event) : LockPhase :=
  t.foldl (fun s e => s.step disk e.1 e.2) .unlocked

theorem path_phase : Path (lockContract disk).next .unlocked t (phaseAfter disk t) :=
  path_monitor_iff.mpr ⟨rfl, fun _ _ => trivial⟩

@[simp] theorem phaseAfter_concat (t : List Event) (e : Event) :
    phaseAfter disk (t ++ [e]) = (phaseAfter disk t).step disk e.1 e.2 := by
  simp [phaseAfter]

@[simp] theorem lockAfter_concat (t : List Event) (e : Event) :
    lockAfter tells disk (t ++ [e]) = (lockAfter tells disk t).step tells disk e := by
  simp [lockAfter]

/-- Where no secure erase has failed on the locked drive and no exit menu has led on from there, the
phase is that of the password. -/
theorem phaseAfter_of_met (he : ErasedWhenLocked tells disk t) (hx : RestartedWhenLocked tells disk t) :
    phaseAfter disk t = if (lockAfter tells disk t).locked then .locked else .unlocked := by
  induction t using List.reverseRecOn with
  | nil => rfl
  | append_singleton t e ih =>
    obtain ⟨c, r⟩ := e
    obtain ⟨he, he'⟩ := throughout_concat.mp he
    obtain ⟨hx, hx'⟩ := throughout_concat.mp hx
    rw [phaseAfter_concat, lockAfter_concat, ih he hx, Lock.locked_step]
    cases hl : (lockAfter tells disk t).locked with
    | false =>
      rw [if_neg Bool.false_ne_true, LockPhase.step]
      by_cases hset : c = .securitySetPass disk
      · by_cases hr : r.status = 0
        · rw [if_pos ⟨hset, hr⟩, if_pos hset, if_pos hr, if_pos rfl]
        · rw [if_neg fun h => hr h.2, if_pos hset, if_neg hr, if_neg Bool.false_ne_true]
      · rw [if_neg fun h => hset h.1, if_neg hset]
        simp only [ite_self, Bool.false_eq_true, if_false]
    | true =>
      rw [if_pos rfl, LockPhase.step]
      by_cases hset : c = .securitySetPass disk
      · subst hset
        rw [if_neg nofun, if_neg (fun h => nomatch h.1), if_pos rfl]
        simp only [ite_self, if_true]
      by_cases herase : c = .securityErase disk
      · have hr : r.status = 0 := he' herase hl
        rw [if_pos herase, if_pos hr, if_neg hset, if_pos herase, if_pos hr, if_neg Bool.false_ne_true]
      · have hexit : ¬ (c = .exitMenu ∧ r.out ≠ "3") := fun ⟨hc, hr⟩ => hr (hx' hc hl)
        rw [if_neg herase, if_neg hexit, if_neg hset, if_neg herase, if_pos rfl]

/-- Until its exit, a run that no signal reaches has had no exit menu. -/
theorem only_installer_ne_exitMenu (env : Env) (arg : Mode) :
    Only (· ≠ .exitMenu) (installer env arg) fun _ => True := by
  have start : ∀ env, Only (· ≠ .exitMenu) (start env) fun _ => True := by
    intro env
    refine within_bind.mpr ((only_acquire (fun c hc he => by subst he; cases hc) nofun env
      nofun).mono fun _ _ => ?_)
    exact only_mainFlow (fun c hc he => by subst he; cases hc) (fun _ c hc he => by subst he; cases hc)
      (fun _ => nofun) (fun _ => nofun) (fun _ => nofun) nofun (fun _ => nofun) nofun env
  cases hm : arg.helper with
  | true =>
    exact only_helper (fun c hc he => by subst he; cases hc) (fun _ c hc he => by subst he; cases hc) env
      hm
  | false =>
    unfold installer
    refine within_bind.mpr ((only_note fun _ => nofun).mono fun _ _ => ?_)
    cases arg with
    | test => exact start _
    | plain => exact start _
    | _ => cases hm

/-- What a phase means for a trace without an exit menu. -/
def Tracked (B : Bash) (tells : Cmd → Bool) (disk : String) (t : List Event) : LockPhase → Prop
  | .unlocked => ErasedWhenLocked tells disk t ∧ (lockAfter tells disk t).locked = false
  | .locked => ErasedWhenLocked tells disk t ∧ lockAfter tells disk t = ⟨true, false⟩
  | .stuck => lockAfter tells disk t = ⟨true, false⟩
  | .left => ¬ NotLeftLocked B tells disk t
  | .abandoned => False

theorem lockAfter_quiet (htells : ∀ c, c.dialog = false → tells c = false) (hc : Quiet c)
    (h : lockAfter tells disk t = ⟨true, false⟩) (r : Answer) :
    lockAfter tells disk (t ++ [(c, r)]) = ⟨true, false⟩ := by
  rw [lockAfter_concat, Lock.step, if_neg hc.ne.1, if_neg hc.ne.2.1, h, htells c hc.dialog]
  rfl

/-- The password is set from here on, or the drive stays as it is. -/
theorem Tracked.of_unlocked (h : Tracked B tells disk t .unlocked) (c : Cmd) (r : Answer) :
    Tracked B tells disk (t ++ [(c, r)]) (LockPhase.unlocked.step disk c r) := by
  obtain ⟨he, hl⟩ := h
  have he' : ErasedWhenLocked tells disk (t ++ [(c, r)]) :=
    throughout_concat.mpr ⟨he, fun _ hl' => by rw [hl] at hl'; cases hl'⟩
  by_cases hset : c = .securitySetPass disk ∧ r.ok
  · rw [LockPhase.step, if_pos hset]
    refine ⟨he', ?_⟩
    rw [lockAfter_concat, Lock.step, if_pos hset.1, if_pos hset.2]
  · rw [LockPhase.step, if_neg hset]
    refine ⟨he', ?_⟩
    rw [lockAfter_concat, Lock.locked_step, hl]
    split_ifs with h₁ h₂
    · exact absurd ⟨h₁, h₂⟩ hset
    all_goals rfl

/-- The secure erase clears the password or fails; nothing else that comes has to do with it. -/
theorem Tracked.of_locked (htells : ∀ c, c.dialog = false → tells c = false)
    (h : Tracked B tells disk t .locked) (hfits : LockPhase.locked.Fits disk c) (hexit : c ≠ .exitMenu)
    (r : Answer) : Tracked B tells disk (t ++ [(c, r)]) (LockPhase.locked.step disk c r) := by
  obtain ⟨he, hl⟩ := h
  obtain rfl | rfl | hquiet := hfits
  · rw [LockPhase.step_erase]
    split
    next hr =>
      refine ⟨throughout_concat.mpr ⟨he, fun _ _ => hr⟩, ?_⟩
      rw [lockAfter_concat, Lock.locked_step, if_neg nofun, if_pos rfl, if_pos hr]
    next hr =>
      show lockAfter tells disk _ = _
      rw [lockAfter_concat, Lock.step, if_neg nofun, if_pos rfl, if_neg hr, hl]
  · exact absurd rfl hexit
  · rw [LockPhase.step_quiet hquiet]
    exact ⟨throughout_concat.mpr ⟨he, fun hc => absurd hc hquiet.ne.2.1⟩,
      lockAfter_quiet htells hquiet hl r⟩

/-- A report on a drive that is stuck leaves it locked. -/
theorem Tracked.of_stuck (htells : ∀ c, c.dialog = false → tells c = false)
    (h : Tracked B tells disk t .stuck) (hfits : LockPhase.stuck.Fits disk c) (hexit : c ≠ .exitMenu)
    (r : Answer) : Tracked B tells disk (t ++ [(c, r)]) (LockPhase.stuck.step disk c r) := by
  have hl : lockAfter tells disk t = ⟨true, false⟩ := h
  rw [LockPhase.step, if_neg hexit]
  split
  next hreports =>
    intro hn
    have hn := (throughout_concat.mp hn).2 ⟨c, B.self_mem_does c, hreports⟩
    rw [hl] at hn
    rcases hn with hn | hn <;> cases hn
  next hreports =>
    obtain hr | rfl | hquiet := hfits
    · exact absurd hr hreports
    · exact absurd rfl hexit
    · exact lockAfter_quiet htells hquiet hl r

theorem Tracked.step (htells : ∀ c, c.dialog = false → tells c = false)
    (h : Tracked B tells disk t s) (hfits : s.Fits disk c) (hexit : c ≠ .exitMenu) (r : Answer) :
    Tracked B tells disk (t ++ [(c, r)]) (s.step disk c r) := by
  cases s with
  | unlocked => exact h.of_unlocked c r
  | locked => exact Tracked.of_locked htells h hfits hexit r
  | stuck => exact Tracked.of_stuck htells h hfits hexit r
  | left => exact fun hn => h (throughout_concat.mp hn).1
  | abandoned => exact h.elim

theorem tracked_of_run (htells : ∀ c, c.dialog = false → tells c = false) {q : Sh PUnit}
    (hr : Run (installer env arg) t q) : Tracked B tells disk t (phaseAfter disk t) := by
  induction t using List.reverseRecOn generalizing q with
  | nil => exact ⟨throughout_nil, rfl⟩
  | append_singleton t e ih =>
    obtain ⟨k, hk, -⟩ := hr.split
    have hexit : e.1 ≠ .exitMenu := hr.keeps (only_installer_ne_exitMenu env arg) e (by simp)
    rw [phaseAfter_concat]
    exact (ih hk).step htells ((lock_installer env arg).guard hr path_phase) hexit e.2

/-- A run in which no secure erase fails on the locked drive and no exit menu leads on from there leaves no
drive locked, whatever signals come. -/
theorem notLeftLocked_of_met {q : Sh PUnit} (hr : Signalled (exit env) (installer env arg) t q)
    (he : ErasedWhenLocked tells disk t) (hx : RestartedWhenLocked tells disk t) :
    NotLeftLocked B tells disk t := by
  rintro pre ⟨c, r⟩ post rfl ⟨c', hdo, hreports⟩
  refine or_iff_not_imp_left.mpr fun hl => absurd hreports ?_
  obtain ⟨k, hk⟩ := hr.split
  have keeps : ∀ s, wp (lockContract disk) (exit env) (fun _ s' => ∀ p : Sh PUnit,
      wp (lockContract disk) p (fun _ s => s ≠ .stuck) s →
        wp (lockContract disk) p (fun _ s => s ≠ .stuck) s') s := by
    refine fun s => (lock_exit env s).mono ?_
    rintro _ _ (rfl | rfl) p hp
    · exact hp
    · exact (wp_of_spent p (.inr rfl)).mono fun _ _ h => h ▸ nofun
  have hfits := (wp_call.mp (wp.signalled hk keeps (lock_installer env arg) path_phase)).1
  have hlocked : phaseAfter disk pre = .locked := by
    rw [phaseAfter_of_met (Throughout.left he) (Throughout.left hx), if_pos (by simpa using hl)]
  rw [hlocked] at hfits
  obtain rfl | rfl | hquiet := hfits
  · cases List.mem_singleton.mp hdo
    exact nofun
  · cases List.mem_singleton.mp hdo
    exact nofun
  · rw [Bash.does_of_evals hquiet.evals] at hdo
    rw [List.mem_singleton.mp hdo, hquiet.reports]
    exact nofun

end

/-- Whatever counts as telling the user, no drive is left locked, also when signals come, as long as no
secure erase fails on a drive that took the password and no exit menu leads on from there; and without
signals just if none fails. -/
theorem notLeftLocked_iff (B : Bash) (tells : Cmd → Bool)
    (htells : ∀ c, c.dialog = false → tells c = false) (disk : String) (env : Env) (arg : Mode) :
    (∀ t q, Signalled (exit env) (installer env arg) t q → ErasedWhenLocked tells disk t →
        RestartedWhenLocked tells disk t → NotLeftLocked B tells disk t) ∧
      ∀ t (q : Sh PUnit), Run (installer env arg) t q → q.Ended → NotLeftLocked B tells disk t →
        ErasedWhenLocked tells disk t := by
  refine ⟨fun t q => notLeftLocked_of_met, fun t q hr hq hn => ?_⟩
  have hend : phaseAfter disk t ≠ .stuck := by
    have hp : Path (lockContract disk).next .unlocked t (phaseAfter disk t) := path_phase
    have h := lock_installer env arg t q _ hr hp
    cases q with
    | ret | exit => exact h
    | call | loop => cases hq
  have htracked : Tracked B tells disk t (phaseAfter disk t) := tracked_of_run htells hr
  cases hs : phaseAfter disk t with
  | unlocked => exact (hs ▸ htracked : Tracked B tells disk t .unlocked).1
  | locked => exact (hs ▸ htracked : Tracked B tells disk t .locked).1
  | stuck => exact absurd hs hend
  | left => exact absurd hn (hs ▸ htracked : Tracked B tells disk t .left)
  | abandoned => exact (hs ▸ htracked : Tracked B tells disk t .abandoned).elim

/-- The run of the whole installer with no option, on a machine whose commands answer so. -/
def plainRun (answers : Cmd → Answer) : List Event × Sh PUnit :=
  play (fun _ => answers) 200 [] (installer booted .plain)

theorem plainRun_quiet : ∀ e ∈ (plainRun thorough).1, e.1 ≠ .exitMenu := by decide +kernel

theorem notLeftLocked_iff_thorough : NotLeftLocked busybox Cmd.dialog "/dev/sda" (plainRun thorough).1 ↔
    ErasedWhenLocked Cmd.dialog "/dev/sda" (plainRun thorough).1 := by
  have hr : Run (installer booted .plain) (plainRun thorough).1 (plainRun thorough).2 := run_play _ _ _
  have h := notLeftLocked_iff busybox Cmd.dialog (fun _ h => h) "/dev/sda" booted .plain
  refine ⟨h.2 _ _ hr (by decide +kernel), fun he => h.1 _ _ (.of_run hr) he ?_⟩
  exact fun pre e post hsplit hexit => absurd hexit (plainRun_quiet e (by rw [hsplit]; simp))

/-- A drive that takes the password and then fails the secure erase. -/
def locking : Cmd → Answer
  | .securityErase _ => ⟨1, ""⟩
  | c => thorough c

/-- The image is written to a drive that is still locked, and no dialog was shown since. -/
theorem image_written_locked :
    ∃ t q, Run (installer booted .plain) t q ∧ q.Ended ∧
      ¬ NotLeftLocked busybox Cmd.dialog "/dev/sda" t := by
  refine ⟨_, _, run_play (fun _ => locking) 200 _, ?_, fun h => ?_⟩
  · decide +kernel
  · have hsplit : (plainRun locking).1 = (plainRun locking).1.take 54 ++
        (.writeImage (imageUrl "9.5") "/dev/sda", ⟨0, ""⟩) :: (plainRun locking).1.drop 55 := by
      decide +kernel
    exact absurd (h _ _ _ hsplit ⟨_, List.mem_cons_self, rfl⟩) (by decide +kernel)

end Installer
end HassioInstaller
