import HassioInstaller.Installer.PidfileLock

/-! # Helper invocations next to an installation

`--help`, `--add-repo`, `--add-ssh` and `--collect-logs` are dispatched before the pidfile test, so
they run while another instance writes a drive. Two of them share the network setup of the main
flow, which reboots the host when no interface reaches github.com, and the log collection runs what
stands in the labels of flash drives. -/

namespace HassioInstaller
open Installer Script

/-- The options that are for use beside an installation. -/
def Installer.Mode.invocation : Mode → Bool
  | .help | .addRepo | .addSsh | .collectLogs => true
  | _ => false

/-- The options that set up the network. -/
def Installer.Mode.connects : Mode → Bool
  | .addRepo | .addSsh => true
  | _ => false

/-- The host was rebooted. -/
def Rebooted (t : List Event) : Prop := ∃ r, (.reboot, r) ∈ t

/-- No check reached github.com. -/
def Unreached (t : List Event) : Prop := ∀ r, (.gitPing, r) ∈ t → ¬ r.ok

/-- An invocation on a real boot has given up the network. -/
structure NetworkLost (env : Env) (arg : Mode) (t : List Event) : Prop where
  option : arg.connects
  hostname : env.HOSTNAME = "hassio-installer"
  told : ∃ r, (.msgbox .networkFailed, r) ∈ t
  unreached : Unreached t

/-- What a whole invocation amounts to. -/
def RebootsIffLost (env : Env) (arg : Mode) (t : List Event) : Prop :=
  Rebooted t ↔ arg.connects ∧ env.HOSTNAME = "hassio-installer" ∧ Unreached t

/-- No reboot so far, and no successful check. -/
structure Offline (t : List Event) : Prop where
  up : ¬ Rebooted t
  unreached : Unreached t

/-- No reboot so far, and a successful check. -/
structure Online (t : List Event) : Prop where
  up : ¬ Rebooted t
  reached : ¬ Unreached t

theorem rebooted_concat : Rebooted (t ++ [e]) ↔ Rebooted t ∨ e.1 = .reboot := by
  constructor
  · rintro ⟨r, hm⟩
    rcases List.mem_append.mp hm with hm | hm
    · exact .inl ⟨r, hm⟩
    · rw [← List.mem_singleton.mp hm]
      exact .inr rfl
  · rintro (⟨r, hm⟩ | he)
    · exact ⟨r, List.mem_append_left _ hm⟩
    · obtain ⟨c, r⟩ := e
      cases he
      exact ⟨r, by simp⟩

theorem unreached_concat : Unreached (t ++ [(c, r)]) ↔ Unreached t ∧ (c = .gitPing → ¬ r.ok) := by
  constructor
  · intro h
    exact ⟨fun r' hm => h r' (List.mem_append_left _ hm), fun hc => h r (by simp [hc])⟩
  · rintro ⟨ht, hc⟩ r' hm
    rcases List.mem_append.mp hm with hm | hm
    · exact ht r' hm
    · cases List.mem_singleton.mp hm
      exact hc rfl

/-- The commands that neither reboot nor check the network. -/
structure Calm (c : Cmd) : Prop where
  reboot : c ≠ .reboot
  ping : c ≠ .gitPing

theorem Calm.of_passive {c : Cmd} (h : c.passive) : Calm c where
  reboot := by rintro rfl; cases h
  ping := by rintro rfl; cases h

theorem Offline.concat (h : Offline t) (hc : Calm c) (r : Answer) : Offline (t ++ [(c, r)]) where
  up hr := (rebooted_concat.mp hr).elim h.up hc.reboot
  unreached := unreached_concat.mpr ⟨h.unreached, fun he => absurd he hc.ping⟩

theorem Online.concat (h : Online t) (hc : c ≠ .reboot) (r : Answer) : Online (t ++ [(c, r)]) where
  up hr := (rebooted_concat.mp hr).elim h.up hc
  reached hu := h.reached (unreached_concat.mp hu).1

theorem Offline.nil : Offline [] :=
  ⟨fun ⟨_, hm⟩ => (nomatch hm), fun _ hm => (nomatch hm)⟩

namespace Installer

/-- The history of an invocation: it reboots only once the network is lost, and whether it did is
settled at its end. -/
abbrev invocationContract (env : Env) (arg : Mode) : Contract (List Event) Cmd Answer :=
  .history (fun _ _ => True) (fun h c => c = .reboot → NetworkLost env arg h)
    (RebootsIffLost env arg)

section
variable {env : Env} {arg : Mode}

theorem offline_ends (h : Offline t) (hc : ¬ (arg.connects ∧ env.HOSTNAME = "hassio-installer")) :
    RebootsIffLost env arg t :=
  iff_of_false h.up fun ⟨ha, hh, _⟩ => hc ⟨ha, hh⟩

theorem online_ends (h : Online t) : RebootsIffLost env arg t :=
  iff_of_false h.up fun ⟨_, _, hu⟩ => h.reached hu

/-- A calm script that does not end early keeps an invocation offline. -/
theorem wp_of_offline {p : Sh α} {B : α → Prop} (hp : Within False Calm p B) (h : Offline hist) :
    wp (invocationContract env arg) p (fun a h => B a ∧ Offline h) hist := by
  refine hp.frame Offline (fun _ hc he => absurd he hc.reboot) ?_ (fun hf => hf.elim) h
  rintro s c r _ hs hc ⟨-, rfl⟩
  exact hs.concat hc r

theorem wp_of_online {p : Sh α} {B : α → Prop} (hp : Only (· ≠ .reboot) p B) (h : Online hist) :
    wp (invocationContract env arg) p (fun a h => B a ∧ Online h) hist := by
  refine hp.frame Online (fun _ hc he => absurd he hc) ?_ (fun _ => online_ends) h
  rintro s c r _ hs hc ⟨-, rfl⟩
  exact hs.concat hc r

theorem wp_calm {k : Answer → Sh α} {Q : α → List Event → Prop} (hc : Calm c) (h : Offline hist)
    (hk : ∀ r hist, Offline hist → wp (invocationContract env arg) (k r) Q hist) :
    wp (invocationContract env arg) (.call c k) Q hist :=
  wp_call_monitor.mpr ⟨fun he => absurd he hc.reboot, fun r _ => hk r _ (h.concat hc r)⟩

theorem checked_gitping (h : Offline hist) :
    wp (invocationContract env arg) gitping
      (fun st h => (st = 0 → Online h) ∧ (st ≠ 0 → Offline h)) hist := by
  refine wp_calm (.of_passive rfl) h fun _ hist h => wp_calm (.of_passive rfl) h fun _ hist h => ?_
  refine wp_call_monitor.mpr ⟨nofun, fun r _ => ?_⟩
  rw [ret_bind]
  have hup : ¬ Rebooted (hist ++ [(.gitPing, r)]) := fun hr =>
    (rebooted_concat.mp hr).elim h.up nofun
  split
  · have hon : Online (hist ++ [(.gitPing, r)]) :=
      ⟨hup, fun hu => (unreached_concat.mp hu).2 rfl ‹r.status = 0›⟩
    refine wp_call_monitor.mpr ⟨nofun, fun r' _ => wp_ret.mpr ⟨fun _ => ?_, fun h => absurd rfl h⟩⟩
    exact hon.concat (c := .log _) nofun r'
  · have hoff : Offline (hist ++ [(.gitPing, r)]) :=
      ⟨hup, unreached_concat.mpr ⟨h.unreached, fun _ => ‹¬ r.status = 0›⟩⟩
    exact wp_ret.mpr ⟨nofun, fun _ => hoff⟩

/-- The interfaces are tried one after the other until a check succeeds. -/
theorem checked_tryInterfaces (is : List String) (h : Offline hist) :
    wp (invocationContract env arg) (tryInterfaces is)
      (fun b h => if b then Online h else Offline h) hist := by
  induction is generalizing hist with
  | nil => exact wp_ret.mpr h
  | cons int is ih =>
    refine wp_calm (.of_passive rfl) h fun _ hist h => wp_calm (.of_passive rfl) h fun _ hist h =>
      wp_calm (.of_passive rfl) h fun _ hist h => ?_
    refine (wp_bind (p := gitping)).mpr ((checked_gitping h).mono fun st hist ⟨hon, hoff⟩ => ?_)
    split
    · exact wp_ret.mpr (hon ‹_›)
    · exact ih (hoff ‹_›)

/-- The network is given up, and the user has been told. -/
structure GivenUp (t : List Event) : Prop where
  offline : Offline t
  told : ∃ r, (.msgbox .networkFailed, r) ∈ t

theorem GivenUp.concat (h : GivenUp t) (hc : Calm c) (r : Answer) : GivenUp (t ++ [(c, r)]) :=
  ⟨h.offline.concat hc r, let ⟨r', hm⟩ := h.told; ⟨r', List.mem_append_left _ hm⟩⟩

theorem wp_of_givenUp {p : Sh α} {B : α → Prop} (hp : Within False Calm p B) (h : GivenUp hist) :
    wp (invocationContract env arg) p (fun a h => B a ∧ GivenUp h) hist := by
  refine hp.frame GivenUp (fun _ hc he => absurd he hc.reboot) ?_ (fun hf => hf.elim) h
  rintro s c r _ hs hc ⟨-, rfl⟩
  exact hs.concat hc r

theorem lost_countdown (hconn : arg.connects) (msg : String) (h : GivenUp hist) :
    wp (invocationContract env arg) (countdown env msg) (fun _ _ => False) hist := by
  have calm : Within False Calm (Script.each ["5", "4", "3", "2", "1"] fun i => do
      exec (.infobox (msg ++ "Will reboot in: " ++ i))
      exec (.run "sleep 1")) fun _ => True := by
    refine within_each (fun i _ => ?_) trivial
    simp only [bind_eq, within_bind, within_exec]
    exact ⟨.of_passive rfl, .of_passive rfl, trivial⟩
  refine wp_bind.mpr ((wp_of_givenUp calm h).mono ?_)
  rintro _ hist ⟨-, h⟩
  split
  · have hlost : NetworkLost env arg hist := ⟨hconn, ‹_›, h.told, h.offline.unreached⟩
    refine wp_call_monitor.mpr ⟨fun _ => hlost, fun r _ => wp_exit.mpr ?_⟩
    have hunreached : Unreached (hist ++ [(.reboot, r)]) :=
      unreached_concat.mpr ⟨h.offline.unreached, fun he => by cases he⟩
    exact iff_of_true (rebooted_concat.mpr (.inr rfl)) ⟨hconn, ‹_›, hunreached⟩
  · exact wp_exit.mpr (offline_ends h.offline fun hc => ‹¬ _› hc.2)

theorem lost_reboot (hconn : arg.connects) (msg : String) (h : GivenUp hist) :
    wp (invocationContract env arg) (reboot env msg) (fun _ _ => False) hist := by
  have logs : Within False Calm (Script.when env.DEBUG do
      exec (.log "Collecting logs before reboot due to DEBUG=true")
      collectlogs env) fun _ => True := by
    refine within_when (fun _ => within_bind.mpr (within_exec.mpr ⟨.of_passive rfl, ?_⟩)) trivial
    exact (passive_collectlogs env).weaken fun _ => .of_passive
  refine wp_call_monitor.mpr ⟨nofun, fun r _ => ?_⟩
  refine (wp_bind (p := Script.when env.DEBUG _)).mpr ?_
  refine (wp_of_givenUp logs (h.concat (c := .log _) (.of_passive rfl) r)).mono ?_
  rintro _ hist ⟨-, h⟩
  exact lost_countdown hconn _ h

/-- The network setup returns online, or does not return. -/
theorem checked_checkconnection (hconn : arg.connects) (h : Offline hist) :
    wp (invocationContract env arg) (checkconnection env) (fun _ => Online) hist := by
  have calm : ∀ is, Within False Calm (wiredInterfaces is) fun _ => True := fun is =>
    (passive_wiredInterfaces is).weaken fun _ => .of_passive
  refine wp_calm (.of_passive rfl) h fun _ hist h => wp_calm (.of_passive rfl) h fun _ hist h =>
    wp_calm (.of_passive rfl) h fun nets hist h => ?_
  rw [ret_bind]
  refine wp_bind.mpr ((wp_of_offline (calm _) h).mono ?_)
  rintro is hist ⟨-, h⟩
  refine wp_calm (.of_passive rfl) h fun _ hist h => ?_
  refine (wp_bind (p := tryInterfaces is)).mpr ((checked_tryInterfaces is h).mono ?_)
  intro connected hist h
  cases connected with
  | true => exact wp_ret.mpr h
  | false =>
    have h : Offline hist := h
    refine wp_call_monitor.mpr ⟨nofun, fun r _ => ?_⟩
    have hgiven : GivenUp (hist ++ [(.msgbox .networkFailed, r)]) :=
      ⟨h.concat (.of_passive rfl) r, r, by simp⟩
    exact (lost_reboot hconn "" hgiven).mono fun _ _ hf => hf.elim

/-- What follows the network setup neither reboots nor returns. -/
theorem online_only {p : Sh PUnit} (hp : Only (fun c => c.passive) p fun _ => True)
    (h : Online hist) :
    wp (invocationContract env arg) p (fun _ => RebootsIffLost env arg) hist := by
  have hne : Only (· ≠ .reboot) p fun _ => True := hp.weaken fun c hc he => by subst he; cases hc
  exact (wp_of_online hne h).mono fun _ _ h => online_ends h.2

theorem checked_addRepo (hconn : arg.connects) (h : Offline hist) :
    wp (invocationContract env arg) (addRepo env) (fun _ => RebootsIffLost env arg) hist := by
  refine wp_calm (.of_passive rfl) h fun _ hist h => ?_
  refine (wp_bind (p := checkconnection env)).mpr ((checked_checkconnection hconn h).mono ?_)
  intro _ hist h
  refine online_only ?_ h
  refine within_bind.mpr (within_exec.mpr ⟨rfl, within_bind.mpr ?_⟩)
  refine (only_addRepos fun _ => rfl).mono fun _ _ => ?_
  exact within_bind.mpr (within_exec.mpr ⟨rfl, only_exit⟩)

theorem checked_addSsh (hconn : arg.connects) (h : Offline hist) :
    wp (invocationContract env arg) (addSsh env) (fun _ => RebootsIffLost env arg) hist := by
  refine wp_calm (.of_passive rfl) h fun _ hist h => ?_
  refine (wp_bind (p := checkconnection env)).mpr ((checked_checkconnection hconn h).mono ?_)
  intro _ hist h
  refine online_only ?_ h
  simp only [bind_eq, within_bind, within_exec, within_status]
  refine ⟨rfl, rfl, fun known => within_when (fun _ => ?_) ?_⟩
  · simp only [within_bind, within_exec]
    exact ⟨rfl, (only_addRepos fun _ => rfl).mono fun _ _ => ⟨rfl, rfl, rfl, rfl, rfl, only_exit⟩⟩
  · exact ⟨rfl, rfl, rfl, rfl, rfl, only_exit⟩

/-- An invocation reboots only once the network is lost, and at its end it is settled whether it
did. -/
theorem checked_installer (h : arg.invocation) :
    wp (invocationContract env arg) (installer env arg) (fun _ => RebootsIffLost env arg) [] := by
  have note : ∀ text, Calm (.log text) := fun _ => .of_passive rfl
  have ends : ∀ {hist}, arg.connects = false → Offline hist →
      wp (invocationContract env arg) .exit (fun (_ : PUnit) => RebootsIffLost env arg) hist := by
    intro hist hc h
    exact wp_exit.mpr (offline_ends h fun ha => by rw [hc] at ha; cases ha.1)
  unfold installer
  refine wp_bind.mpr ((wp_of_offline (only_note note) .nil).mono ?_)
  rintro _ hist ⟨-, hoff⟩
  cases arg with
  | help => exact wp_calm (.of_passive rfl) hoff fun _ hist h => ends rfl h
  | collectLogs =>
    have logs := (passive_collectlogs (E := False) env).weaken fun _ => Calm.of_passive
    exact wp_bind.mpr ((wp_of_offline logs hoff).mono fun _ hist h => ends rfl h.2)
  | addRepo => exact checked_addRepo rfl hoff
  | addSsh => exact checked_addSsh rfl hoff
  | test | kill | plain => cases h

end
end Installer
/-! ## Beside an installation -/

namespace Host

/-- A live instance that has begun to erase or write a drive. -/
def Installing (s : Host) (pid : String) : Prop :=
  ∃ p c, s.procs pid = some p ∧ (p.busy = some c ∨ ∃ r, (c, r) ∈ p.hist) ∧ c.destructive

/-- No invocation is at a command that reboots the host while another instance is installing. -/
def Undisturbed (B : Bash) (s : Host) : Prop :=
  ∀ pid p c q, s.procs pid = some p → p.arg.invocation → p.code.next = some c → .reboot ∈ B.does c →
    pid ≠ q → ¬ s.Installing q

/-- While an instance is installing, the invocations beside it have not been interrupted, have not lost
the network, and have not found a label that reboots the host. -/
def Steady (B : Bash) (s : Host) : Prop :=
  ∀ pid p q, s.procs pid = some p → p.arg.invocation → pid ≠ q → s.Installing q →
    p.interrupted = false ∧ ¬ NetworkLost p.env p.arg p.hist ∧
      ∀ r, (.blkid, r) ∈ p.hist → .reboot ∉ B.labelled r.out

/-- Every instance that was not interrupted is somewhere in its script. -/
def Underway (s : Host) : Prop :=
  ∀ pid p, s.procs pid = some p → p.interrupted = false →
    Run (installer p.env p.arg) p.hist p.code

theorem Underway.set {s : Host} (h : Underway s)
    (hp : p.interrupted = false → Run (installer p.env p.arg) p.hist p.code) :
    Underway (s.set pid (some p)) := by
  intro q p' hq hint
  rcases set_procs_eq_some hq with ⟨-, rfl⟩ | ⟨-, hq⟩
  · exact hp hint
  · exact h q p' hq hint

theorem Underway.step {s : Host} (h : Underway s) (hs : Step s a s') : Underway s' := by
  cases hs with
  | start => exact h.set fun _ => .refl
  | issue hp =>
    have hcode := h _ _ hp
    exact h.set hcode
  | @answer pid p c k r hp hb hc hans =>
    have heffect : Underway (s.effect c) := fun q p' hq => h q p' (procs_of_effect hq)
    have hnext : p.interrupted = false →
        Run (installer p.env p.arg) (p.hist ++ [(c, r)]) (k r) := by
      intro hint
      have hrun := h _ _ hp hint
      rw [hc] at hrun
      exact hrun.trans (.call r .refl)
    unfold resume
    split
    · exact heffect.set hnext
    · exact heffect
  | unroll hp hc =>
    refine h.set fun hint => ?_
    have hrun := h _ _ hp hint
    rw [hc] at hrun
    have hunrolled := hrun.trans (.loop .refl)
    rwa [List.append_nil] at hunrolled
  | interrupt => exact h.set fun hint => nomatch hint
  | finish => exact fun q p' hq => h q p' (set_none_eq_some hq).2
  | orphanEnds => exact h

/-- An invocation at a command that reboots was interrupted, has lost the network, or has found a label
that does. -/
theorem Underway.reboots {B : Bash} {s : Host} (h : Underway s) (hp : s.procs pid = some p)
    (harg : p.arg.invocation) (hint : p.interrupted = false) (hnext : p.code.next = some c)
    (hc : .reboot ∈ B.does c) : NetworkLost p.env p.arg p.hist ∨
      ∃ r, (.blkid, r) ∈ p.hist ∧ .reboot ∈ B.labelled r.out := by
  obtain ⟨k, hk⟩ := eq_call_of_next hnext
  have hrun := h _ _ hp hint
  rw [hk] at hrun
  have hdone : Run (installer p.env p.arg) (p.hist ++ (c, ⟨0, ""⟩) :: []) (k ⟨0, ""⟩) :=
    hrun.trans (.call _ .refl)
  rcases Bash.labelled_of_does (listed_of_installer hdone) hc with rfl | hlabel
  · have hguard := (checked_installer harg).guard hdone (path_history_iff.mpr ⟨rfl, fun _ _ => trivial⟩)
    exact .inl (hguard rfl)
  · exact .inr hlabel

end Host

namespace Host

/-- A host on which the first instance is writing the image, and an invocation beside it. -/
theorem runs_beside (arg : Mode) : ∃ s, Runs (fun _ _ => True) quiet s ∧ s.Writing "7" ∧
    s.procs "8" = some (.fresh second arg) ∧
    ∀ pid p, s.procs pid = some p → p.arg.invocation → pid = "8" := by
  obtain ⟨t, url, k, hr, ht⟩ := run_to_image booted (.inl rfl)
  have start : Runs (fun _ _ => True) quiet _ :=
    (runs_to_starting booted rfl rfl (idle_quiet.procs _)).mono fun _ _ _ => trivial
  have write := runs_to_writing (P := fun _ _ => True) (set_procs_self quiet "7" _)
    (fun _ _ _ => trivial) trivial hr ht
  generalize hs : ({ quiet.set "7" (some (starting booted)) with pidfile := some booted.pid } :
    Host).set booted.pid (some (writing booted t (.writeImage url "/dev/sda") k)) = s at write
  have hprocs : s.procs = Function.update (fun _ => none) "7"
      (some (writing booted t (.writeImage url "/dev/sda") k)) := by
    rw [← hs]
    exact Function.update_idem ..
  have hnone : s.procs "8" = none := by
    rw [hprocs, Function.update_of_ne (by decide)]
  have begun : Step s (.start second arg) _ := .start hnone
  refine ⟨_, (start.trans write).tail ⟨_, begun, trivial⟩, ?_, set_procs_self .., ?_⟩
  · refine ⟨writing booted t (.writeImage url "/dev/sda") k, _, ?_, rfl, rfl⟩
    rw [set_procs_of_ne _ (by decide), hprocs, Function.update_self]
  · intro pid p hp harg
    rcases set_procs_eq_some hp with ⟨rfl, -⟩ | ⟨-, hp⟩
    · rfl
    rw [hprocs] at hp
    by_cases h7 : pid = "7"
    · subst h7
      rw [Function.update_self] at hp
      cases hp
      cases harg
    · rw [Function.update_of_ne h7] at hp
      cases hp

/-- A machine that does not reach github.com. -/
def cutOff : Cmd → Answer
  | .gitPing => ⟨1, ""⟩
  | c => sample c

end Host

end HassioInstaller
