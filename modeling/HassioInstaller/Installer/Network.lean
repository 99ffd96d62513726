import HassioInstaller.Installer.Leaving

/-! # The network check

`_checkconnection` goes through the interfaces twice. It first sets aside those with a wireless
directory, and `lo`, and writes the others down. Then it tries DHCP on one of these after the other,
until GitHub answers. What comes after it, a version to choose and a drive to erase, is only come to
by a GitHub that answered. -/

namespace HassioInstaller
open Installer Text

/-- The commands of the check but for the log and its information windows. -/
def Cmd.nets : Cmd → Bool
  | .run _ | .isDir _ | .glob _ | .gitPing | .msgbox _ => true
  | _ => false

/-- The dialogs behind the check, and what erases or writes the drive of an installation. A flash drive
for the log is asked for and written to without a check, as in `--collect-logs`. -/
def Cmd.beyond : Cmd → Bool
  | .menu .flashdrive _ | .yesno .welcome => false
  | .menu .. | .yesno _ => true
  | c => c.target.isSome

theorem Cmd.passiveOrReboot.beyond {c : Cmd} (h : c.passiveOrReboot) : c.beyond = false := by
  cases c with
  | menu d => cases d <;> first | rfl | cases h
  | _ => first | rfl | cases h

theorem Cmd.kills.beyond {c : Cmd} (h : c.kills) : c.beyond = false := by
  cases c <;> first | rfl | cases h

/-- `auto int` in `/etc/network/interfaces` -/
abbrev Cmd.auto (int : String) : Cmd :=
  .run ("echo -e \"auto " ++ int ++ "\\n\" >> /etc/network/interfaces")

abbrev Cmd.networking : Cmd := .run "service networking start > /dev/null 2>&1"

abbrev Cmd.dhcp (int : String) : Cmd :=
  .run ("udhcpc -A 5 -T 5 -t 2 -n -S -p /tmp/dhcp.pid -i " ++ int ++ " &>/dev/null")

/-- The first round: the interfaces that are looked at, those of them that are wired, and what is done
about them. -/
inductive Probed : List String → List String → List Event → Prop
  | nil : Probed [] [] []
  | skipped : r.ok ∨ basename i = "lo" → Probed is ints es →
    Probed (i :: is) ints ((.isDir (i ++ "/wireless"), r) :: es)
  | wired : ¬ (r.ok ∨ basename i = "lo") → Probed is ints es → Probed (i :: is) (basename i :: ints)
    ((.isDir (i ++ "/wireless"), r) :: (.auto (basename i), r') :: es)

/-- The second round, and whether GitHub has answered at its end. -/
inductive Attempts : Bool → List String → List Event → Prop
  | none : Attempts false [] []
  | up : r'.ok → Attempts true (int :: ints) [(.dhcp int, r), (.gitPing, r')]
  | down : ¬ r'.ok → Attempts b ints es →
    Attempts b (int :: ints) ((.dhcp int, r) :: (.gitPing, r') :: es)

/-- Both rounds of the check. -/
def Link (connected : Bool) (h : List Event) : Prop :=
  ∃ nets ints probes r es, Probed (words nets.out) ints probes ∧ Attempts connected ints es ∧
    h = [(.glob "/sys/class/net/*", nets)] ++ probes ++ [(.networking, r)] ++ es

/-- GitHub was reached by a check, before which there was nothing of what comes after it. -/
def Checked (t : List Event) : Prop :=
  ∃ t₀ t₁ t₂, t = t₀ ++ t₁ ++ t₂ ∧ (∀ e ∈ t₀ ++ t₁, e.1.beyond = false) ∧
    Link true (t₁.filter (Cmd.nets ·.1))

theorem Checked.after (h₀ : ∀ e ∈ t₀, e.1.beyond = false) (h : Checked t) : Checked (t₀ ++ t) := by
  obtain ⟨t₁, t₂, t₃, rfl, h₁, hlink⟩ := h
  refine ⟨t₀ ++ t₁, t₂, t₃, by simp only [List.append_assoc], ?_, hlink⟩
  rw [List.append_assoc]
  exact List.forall_mem_append.mpr ⟨h₀, h₁⟩

namespace Installer
open Script Text

/-- The record of the check. The failure of the network is reported when all is tried. -/
abbrev linkContract : Contract (List Event) Cmd Answer :=
  .record Cmd.nets (fun _ _ => True)
    (fun h c => c = .msgbox .networkFailed → (∀ e ∈ h, e.1 ≠ .msgbox .networkFailed) → Link false h)
    fun _ => True

section
variable {Q : α → List Event → Prop} {k : Answer → Sh α}

theorem wp_chatter (hc : c.nets = false) (hk : ∀ r, wp linkContract (k r) Q h) :
    wp linkContract (.call c k) Q h :=
  (wp_record_skip hc).mpr ⟨(fun he => by subst he; cases hc), fun r _ => hk r⟩

theorem wp_net (hc : c.nets = true) (hne : c ≠ .msgbox .networkFailed)
    (hk : ∀ r, wp linkContract (k r) Q (h ++ [(c, r)])) : wp linkContract (.call c k) Q h :=
  (wp_record_keep hc).mpr ⟨fun he => absurd he hne, fun r _ => hk r⟩

end

theorem link_wiredInterfaces (is : List String) (h : List Event) :
    wp linkContract (wiredInterfaces is)
      (fun ints h' => ∃ probes, Probed is ints probes ∧ h' = h ++ probes) h := by
  induction is generalizing h with
  | nil => exact wp_ret.mpr ⟨[], .nil, (List.append_nil h).symm⟩
  | cons i is ih =>
    refine wp_net rfl (by rintro ⟨⟩) fun wireless => ?_
    rw [ret_bind]
    split
    next hskip =>
      refine (ih _).mono ?_
      rintro ints _ ⟨probes, hp, rfl⟩
      exact ⟨_, .skipped hskip hp, List.append_assoc ..⟩
    next hwired =>
      refine wp_chatter rfl fun _ => wp_net rfl (by rintro ⟨⟩) fun r => ?_
      refine wp_bind.mpr (wp_ret.mpr (wp_bind.mpr ((ih _).mono ?_)))
      rintro ints _ ⟨probes, hp, rfl⟩
      have hprobed : Probed (i :: is) (basename i :: ints)
          ((.isDir (i ++ "/wireless"), wireless) :: (.auto (basename i), r) :: probes) :=
        .wired hwired hp
      refine wp_ret.mpr ⟨_, hprobed, ?_⟩
      rw [List.append_assoc, List.append_assoc]
      rfl

theorem link_tryInterfaces (ints : List String) (h : List Event) :
    wp linkContract (tryInterfaces ints)
      (fun connected h' => ∃ es, Attempts connected ints es ∧ h' = h ++ es) h := by
  induction ints generalizing h with
  | nil => exact wp_ret.mpr ⟨[], .none, (List.append_nil h).symm⟩
  | cons int ints ih =>
    refine wp_chatter rfl fun _ => wp_chatter rfl fun _ => wp_net rfl (by rintro ⟨⟩) fun r => ?_
    refine wp_chatter rfl fun _ => wp_chatter rfl fun _ => wp_net rfl (by rintro ⟨⟩) fun r' => ?_
    refine wp_bind.mpr (wp_bind.mpr (wp_ret.mpr ?_))
    split
    next hup =>
      refine wp_chatter rfl fun _ => wp_ret.mpr (wp_ret.mpr ?_)
      exact ⟨_, .up hup, List.append_assoc ..⟩
    next hdown =>
      refine wp_ret.mpr ?_
      rw [if_neg (by decide)]
      refine (ih _).mono ?_
      rintro connected _ ⟨es, hes, rfl⟩
      refine ⟨_, .down (r := r) hdown hes, ?_⟩
      rw [List.append_assoc, List.append_assoc]
      rfl

/-- The check returns when GitHub has answered, and reports a failure when all is tried. -/
theorem link_checkconnection (env : Env) :
    wp linkContract (checkconnection env) (fun _ h => Link true h) [] := by
  refine wp_chatter rfl fun _ => wp_chatter rfl fun _ => wp_net rfl (by rintro ⟨⟩) fun nets => ?_
  rw [ret_bind, bind_eq, wp_bind]
  refine (link_wiredInterfaces _ _).mono ?_
  rintro ints _ ⟨probes, hprobes, rfl⟩
  refine wp_net rfl (by rintro ⟨⟩) fun r => ?_
  rw [ret_bind, bind_eq, wp_bind]
  refine (link_tryInterfaces _ _).mono ?_
  rintro connected _ ⟨es, hes, rfl⟩
  cases connected with
  | true => exact wp_ret.mpr ⟨nets, ints, probes, r, es, hprobes, hes, rfl⟩
  | false =>
    refine (wp_record_keep rfl).mpr
      ⟨fun _ _ => ⟨nets, ints, probes, r, es, hprobes, hes, rfl⟩, fun r' _ => ?_⟩
    have hnext : ∀ {s c s'} {r'' : Answer}, (Cmd.msgbox .networkFailed, r') ∈ s →
        c.passiveOrReboot → linkContract.next s c r'' s' → (Cmd.msgbox .networkFailed, r') ∈ s' := by
      rintro s c _ r'' hmem - ⟨-, rfl⟩
      dsimp only
      split
      · exact List.mem_append_left _ hmem
      · exact hmem
    refine ((only_reboot env "").frame (fun h => (Cmd.msgbox .networkFailed, r') ∈ h)
      (fun hmem _ _ hnone => absurd rfl (hnone _ hmem)) hnext (fun _ _ => trivial) ?_).mono
      fun _ _ ha => ha.1.elim
    exact List.mem_append_right _ (List.mem_singleton.mpr rfl)

/-- Every run of the check: it returns when GitHub has answered over a wired interface, and the
network is first said to have failed when all of these have been tried. -/
theorem check_of_run (hr : Run (checkconnection env) t q) :
    ((∃ a, q = .ret a) → Link true (t.filter (Cmd.nets ·.1))) ∧
    ∀ pre r post, t = pre ++ (.msgbox .networkFailed, r) :: post →
      (∀ e ∈ pre, e.1 ≠ .msgbox .networkFailed) → Link false (pre.filter (Cmd.nets ·.1)) := by
  have hpath : ∀ t : List Event, Path linkContract.next [] t (t.filter (Cmd.nets ·.1)) :=
    fun t => path_record_iff.mpr ⟨rfl, fun _ _ => trivial⟩
  constructor
  · rintro ⟨a, rfl⟩
    exact link_checkconnection env t _ _ hr (hpath t)
  · rintro pre r post rfl hnone
    exact (link_checkconnection env).guard hr (hpath pre) rfl fun e he =>
      hnone e (List.mem_filter.mp he).1

/-! ## The whole run -/

theorem only_before (env : Env) :
    Only (fun c => c.beyond = false) (welcome env) fun _ => True := by
  simp only [welcome, bind_eq, pure_eq, within_bind, within_exec, within_status]
  exact ⟨rfl, rfl, fun r => ((only_isokReboot env r.status "").weaken fun _ =>
    Cmd.passiveOrReboot.beyond).mono fun _ _ => within_ret.mpr trivial⟩

section
variable {c : Cmd} {k : Answer → Sh PUnit} (hc : ¬ c.beyond = false)
include hc

theorem checked_mainFlow (hr : Run (mainFlow env) t (.call c k)) : Checked t := by
  have hcheck : Only (fun c => c.beyond = false) (checkconnection env) fun _ => True :=
    (only_checkconnection env).weaken fun _ => Cmd.passiveOrReboot.beyond
  obtain ⟨t₀, t', _, rfl, h₀, -, hr⟩ := hr.past_only (only_before env) hc
  obtain ⟨t₁, t₂, a, rfl, h₁, hret, -⟩ := hr.past_only hcheck hc
  refine ⟨t₀, t₁, t₂, (List.append_assoc ..).symm, ?_, (check_of_run hret).1 ⟨_, rfl⟩⟩
  exact List.forall_mem_append.mpr ⟨h₀, h₁⟩

theorem checked_start (hr : Run (start env) t (.call c k)) : Checked t := by
  have hacquire : Only (fun c => c.beyond = false) (acquire env) fun _ => True :=
    only_acquire (fun _ hl => Cmd.kills.beyond (Cmd.looks.kills hl)) rfl env rfl
  obtain ⟨t₀, t', _, rfl, h₀, -, hmain⟩ := hr.past_only hacquire hc
  exact (checked_mainFlow hc hmain).after h₀

end

/-- In every run, no version and no drive to install on is offered, and none is erased or written, before
GitHub has answered over one of the wired interfaces. -/
theorem network_of_run (hr : Run (installer env arg) (pre ++ (c, r) :: post) q) (hc : c.beyond) :
    Checked pre := by
  have hc' : ¬ c.beyond = false := by simp [hc]
  obtain ⟨k, hk, -⟩ := hr.split
  cases harg : arg.helper with
  | true =>
    have hhelper : Only (fun c => c.beyond = false) (installer env arg) fun _ => True :=
      only_helper (fun _ => Cmd.passiveOrReboot.beyond) (fun _ _ => Cmd.kills.beyond) env harg
    exact absurd (only_iff_issues.mp hhelper pre c ⟨k, hk⟩) hc'
  | false =>
    have hnote : Only (fun c => c.beyond = false) (Script.when env.DEBUG (exec (.log
        "Booted in debug mode. Verbose logging will be in /var/log/messages"))) fun _ => True :=
      only_note fun _ => rfl
    obtain ⟨t₀, t', _, rfl, h₀, -, hstart⟩ := hk.past_only hnote hc'
    have hchecked : Checked t' := by
      cases arg with
      | test | plain => exact checked_start hc' hstart
      | help | addRepo | addSsh | collectLogs | kill => cases harg
    exact hchecked.after h₀

/-- A wireless interface before two wired ones, of which only the second gets to GitHub. -/
def cabled (hist : List Event) : Cmd → Answer
  | .glob "/sys/class/net/*" =>
    ⟨0, "/sys/class/net/eth0\n/sys/class/net/eth1\n/sys/class/net/lo\n/sys/class/net/wlan0"⟩
  | .isDir path => ⟨if path = "/sys/class/net/wlan0/wireless" then 0 else 1, ""⟩
  | .gitPing => ⟨if hist.any fun e => e.1 = .dhcp "eth1" then 0 else 1, ""⟩
  | c => sample c

def cabledTrial : List Event × Sh PUnit := play cabled 200 [] (installer booted .plain)

theorem network_of_run_second : ∃ pre post, cabledTrial.1 =
    pre ++ (.writeImage (imageUrl "9.5") "/dev/sda", ⟨0, ""⟩) :: post ∧ Checked pre := by
  have hmem : (.writeImage (imageUrl "9.5") "/dev/sda", ⟨0, ""⟩) ∈ cabledTrial.1 := by decide +kernel
  obtain ⟨pre, post, ht⟩ := List.append_of_mem hmem
  have hr := run_play cabled 200 (installer booted .plain)
  exact ⟨pre, post, ht, network_of_run (ht ▸ hr) rfl⟩

end Installer
end HassioInstaller
