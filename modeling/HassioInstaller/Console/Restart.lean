import HassioInstaller.Console.Profile

/-! # Restarts on tty1

`init` starts a login shell on tty1 again whenever the last one has ended, and with it the installer.
A shell logs out by itself because "Restart Installer" was chosen: in the exit menu of the installer,
which leaves the file `/tmp/_reload_installer`, or in the menu of `.profile`. The file is removed before
the shell logs out, so that it restarts the installer once. -/

namespace HassioInstaller.Console
open Script

/-- A run of the installer, where SIGINT may come between any two commands, and that may be killed. -/
inductive Serves (env : Env) :
    HassioInstaller.Sh PUnit → List HassioInstaller.Event → HassioInstaller.Sh PUnit → Prop
  | refl : Serves env p [] p
  | step : Step p t p' → Serves env p' t' q → Serves env p (t ++ t') q
  | interrupt : Serves env (Installer.interrupted env p) t q → Serves env p t q

theorem Serves.of_run {p q : HassioInstaller.Sh PUnit} (h : Run p t q) : Serves env p t q := by
  induction h with
  | refl => exact .refl
  | step hs _ ih => exact .step hs ih

/-- `touch /tmp/_reload_installer`, by which an exit menu asks for a restart. -/
def asks (e : HassioInstaller.Event) : Bool := e.1 == .run "touch /tmp/_reload_installer"

/-- A boot, as far as restarts go. -/
structure Boot where
  /-- `/tmp/_reload_installer` exists. -/
  flag : Bool
  /-- How often "Restart Installer" was chosen. -/
  asked : Nat
  /-- How often a shell on tty1 ended otherwise: it was left from the prompt, or killed. -/
  ended : Nat

namespace Boot

/-- The exit menus of installers have asked for `n` restarts. -/
def ask (s : Boot) (n : Nat) : Boot := { s with flag := s.flag || n != 0, asked := s.asked + n }

/-- What a command on tty1 does, and how it may be answered. -/
inductive Command (s : Boot) : Cmd → Answer → Boot → Prop
  | installer : Serves (x.env pid) (Installer.installer (x.env pid) .plain) t q →
    Command s (.installer x) r (s.ask (t.countP asks))
  | collectLogs : Serves (x.env pid) (Installer.installer (x.env pid) .collectLogs) t q →
    Command s (.collectLogs x) r (s.ask (t.countP asks))
  | exitMenu : Command s .exitMenu r (if r.out = "3" then { s with asked := s.asked + 1 } else s)
  | reloadExists : (r.ok ↔ s.flag = true) → Command s .reloadExists r s
  | rmReload : Command s .rmReload r { s with flag := false }
  | log : Command s (.log text) r s
  | run : Command s (.run line) r s
  | grep : Command s (.grep name) r s
  | tty : Command s .tty r s
  | reboot : Command s .reboot r s

/-- Installers on other terminals may ask for restarts at any time. -/
def next (s : Boot) (c : Cmd) (r : Answer) (s' : Boot) : Prop :=
  ∃ s₁ n, Command s c r s₁ ∧ s' = s₁.ask n

/-- What the shells on tty1 have done that have come and gone since the boot. -/
inductive Shells (HOSTNAME : String) : List Event → Boot → Prop
  | boot : Shells HOSTNAME [] ⟨false, 0, 0⟩
  /-- The shell has logged out by itself. -/
  | logout : Shells HOSTNAME l s → Run (profile HOSTNAME) t .exit → Path next s t s' →
    Shells HOSTNAME (l ++ t) s'
  /-- The shell has ended at the prompt, or was killed anywhere. -/
  | ended : Shells HOSTNAME l s → Run (profile HOSTNAME) t q → Path next s t s' →
    Shells HOSTNAME (l ++ t) { s' with ended := s'.ended + 1 }

/-- How often an installation was started on tty1. -/
def starts (l : List Event) : Nat := l.countP (·.1.installs)

/-- The logs are collected right after "Upload Logs" was chosen in the menu of `.profile`. -/
def CollectsOnDemand (pre : List Event) (e : Event) : Prop :=
  ∀ x, e.1 = .collectLogs x → ∃ r, pre.getLast? = some (.exitMenu, r) ∧ r.out = "2"

/-- Of the starts, all but the first were asked for, and so is the one that the file stands for. -/
def Covered (n : Nat) (s : Boot) : Prop := n + s.flag.toNat ≤ s.asked + s.ended + 1

/-- One more start is asked for. -/
def Due (n : Nat) (s : Boot) : Prop := n + s.flag.toNat ≤ s.asked + s.ended

variable {s s' : Boot} {n : Nat}

@[simp] theorem ask_zero (s : Boot) : s.ask 0 = s := by
  simp [ask]

theorem ask_flag (h : s.flag = true) (k : Nat) : (s.ask k).flag = true := by
  simp [ask, h]

theorem toNat_ask (s : Boot) (k : Nat) : (s.ask k).flag.toNat ≤ s.flag.toNat + k := by
  cases k with
  | zero => rw [ask_zero, Nat.add_zero]
  | succ k =>
    have hle := Bool.toNat_le (s.ask (k + 1)).flag
    omega

theorem Covered.ask (h : Covered n s) (k : Nat) : Covered n (s.ask k) := by
  have hle := toNat_ask s k
  simp only [Covered, Boot.ask] at h hle ⊢
  omega

theorem Due.ask (h : Due n s) (k : Nat) : Due n (s.ask k) := by
  have hle := toNat_ask s k
  simp only [Due, Boot.ask] at h hle ⊢
  omega

/-- No command on tty1 leaves a shell uncovered. -/
theorem Covered.next (h : Covered n s) (hn : next s c r s') : Covered n s' := by
  obtain ⟨s₁, k, hc, rfl⟩ := hn
  refine Covered.ask ?_ k
  cases hc with
  | installer | collectLogs => exact h.ask _
  | exitMenu =>
    split
    · simp only [Covered] at h ⊢
      omega
    · exact h
  | rmReload =>
    simp only [Covered, Bool.toNat_false] at h ⊢
    omega
  | reloadExists | log | run | grep | tty | reboot => exact h

theorem Covered.path (h : Covered n s) (hp : Path Boot.next s t s') : Covered n s' := by
  induction hp with
  | nil => exact h
  | cons hn _ ih => exact ih (h.next hn)

/-- Only the shell takes the file away. -/
theorem flag_next (h : s.flag = true) (hc : c ≠ .rmReload) (hn : next s c r s') : s'.flag = true := by
  obtain ⟨s₁, k, hcmd, rfl⟩ := hn
  refine ask_flag ?_ k
  cases hcmd with
  | installer | collectLogs => exact ask_flag h _
  | exitMenu =>
    split
    · exact h
    · exact h
  | rmReload => exact absurd rfl hc
  | reloadExists | log | run | grep | tty | reboot => exact h

/-- The file was there, and is taken away: a shell is due. -/
theorem due_rmReload (h : Covered n s) (hf : s.flag = true) (hn : next s .rmReload r s') :
    Due n s' := by
  obtain ⟨s₁, k, hc, rfl⟩ := hn
  refine Due.ask ?_ k
  cases hc with
  | rmReload =>
    simp only [Covered, Due, hf, Bool.toNat_true, Bool.toNat_false] at h ⊢
    omega

/-- "Restart Installer" was chosen in the menu of `.profile`: a shell is due. -/
theorem due_exitMenu (h : Covered n s) (hout : r.out = "3") (hn : next s .exitMenu r s') :
    Due n s' := by
  obtain ⟨s₁, k, hc, rfl⟩ := hn
  refine Due.ask ?_ k
  cases hc with
  | exitMenu =>
    rw [if_pos hout]
    simp only [Covered, Due] at h ⊢
    omega

theorem reloadExists_next (hn : next s .reloadExists r s') :
    (r.ok → s'.flag = true) ∧ (s.flag = true → r.ok) := by
  obtain ⟨s₁, k, hc, rfl⟩ := hn
  cases hc with
  | reloadExists hok => exact ⟨fun hr => ask_flag (hok.mp hr) k, hok.mpr⟩

/-! ## One shell -/

/-- A shell logs out by itself where another is due. -/
abbrev restartContract (n : Nat) : Contract Boot Cmd Answer := ⟨next, fun _ _ => True, Due n⟩

section
variable {Q : α → Boot → Prop} {k : Answer → Sh α}

theorem wp_covered (h : Covered n s)
    (hk : ∀ r s', Covered n s' → wp (restartContract n) (k r) Q s') :
    wp (restartContract n) (.call c k) Q s :=
  wp_call.mpr ⟨trivial, fun r _ hn => hk r _ (h.next hn)⟩

/-- The file stays where it is. -/
theorem wp_flagged (h : Covered n s) (hf : s.flag = true) (hc : c ≠ .rmReload)
    (hk : ∀ r s', Covered n s' → s'.flag = true → wp (restartContract n) (k r) Q s') :
    wp (restartContract n) (.call c k) Q s :=
  wp_call.mpr ⟨trivial, fun r _ hn => hk r _ (h.next hn) (flag_next hf hc hn)⟩

end

/-- With the file in place the shell takes it away and logs out. -/
theorem covered_reload (h : Covered n s) :
    wp (restartContract n) reload (fun _ s' => s.flag = false ∧ Covered n s') s := by
  refine wp_call.mpr ⟨trivial, fun r s₁ hn => ?_⟩
  obtain ⟨hflag, hok⟩ := reloadExists_next hn
  have hs₁ := h.next hn
  rw [ret_bind]
  by_cases hr : r.status = 0
  · have hf := hflag hr
    rw [hr]
    refine wp_flagged hs₁ hf Cmd.noConfusion fun _ s₂ hs₂ hf => ?_
    refine wp_flagged hs₂ hf Cmd.noConfusion fun _ s₃ hs₃ hf => ?_
    refine wp_call.mpr ⟨trivial, fun _ s₄ hn => ?_⟩
    exact wp_exit.mpr (due_rmReload hs₃ hf hn)
  · have hst : (r.status == 0) = false := beq_eq_false_iff_ne.mpr hr
    rw [hst]
    refine wp_ret.mpr ⟨?_, hs₁⟩
    cases hf : s.flag with
    | false => rfl
    | true => exact absurd (hok hf) hr

/-- The menu of `.profile` ends the shell only with "Restart Installer". -/
theorem covered_exit (x : Exports) (h : Covered n s) (f : Bool) (hf : f = true → s.flag = true) :
    wp (restartContract n) (exit x)
      (fun _ s' => Covered n s' ∧ (f = true → s'.flag = true)) s := by
  have keeps : ∀ {c r s s'}, c ≠ .rmReload → (f = true → s.flag = true) → next s c r s' →
      (f = true → s'.flag = true) := fun hc hf hn hft => flag_next (hf hft) hc hn
  have hreboot : ∀ {s}, Covered n s → (f = true → s.flag = true) →
      wp (restartContract n) (exec .reboot)
        (fun _ s' => Covered n s' ∧ (f = true → s'.flag = true)) s := fun hs hf =>
    wp_call.mpr ⟨trivial, fun _ _ hn =>
      wp_ret.mpr ⟨hs.next hn, keeps Cmd.noConfusion hf hn⟩⟩
  refine wp_call.mpr ⟨trivial, fun r s₁ hn => ?_⟩
  have hs₁ := h.next hn
  have hf₁ := keeps Cmd.noConfusion hf hn
  rw [ret_bind]
  split
  · exact hreboot hs₁ hf₁
  split
  · refine wp_call.mpr ⟨trivial, fun _ s₂ hn => ?_⟩
    exact hreboot (hs₁.next hn) (keeps Cmd.noConfusion hf₁ hn)
  split
  · next hout => exact wp_exit.mpr (due_exitMenu h hout hn)
  · exact hreboot hs₁ hf₁

/-- The shell goes on to its prompt only if there was no file when the installer had ended. -/
theorem covered_afterInstaller (x : Exports) (ec : Nat) (h : Covered n s) :
    wp (restartContract n) (afterInstaller x ec) (fun _ s' => s.flag = false ∧ Covered n s') s := by
  have hreload : ∀ s', Covered n s' ∧ (s.flag = true → s'.flag = true) →
      wp (restartContract n) reload (fun _ s' => s.flag = false ∧ Covered n s') s' := by
    rintro s' ⟨hs', hf⟩
    refine (covered_reload hs').mono fun _ _ ⟨hno, hc⟩ => ⟨?_, hc⟩
    rw [← Bool.not_eq_true]
    exact fun hflag => by rw [hf hflag] at hno; cases hno
  refine wp_call.mpr ⟨trivial, fun _ s₁ hn => ?_⟩
  have hs₁ := h.next hn
  have hf₁ : s.flag = true → s₁.flag = true := fun hf => flag_next hf Cmd.noConfusion hn
  rw [ret_bind, bind_eq, wp_bind]
  cases x.DEBUG with
  | false => exact wp_ret.mpr (hreload s₁ ⟨hs₁, hf₁⟩)
  | true =>
    simp only [Script.when, if_true]
    split
    · exact (covered_exit x hs₁ _ hf₁).mono fun _ s₂ hs₂ => hreload s₂ hs₂
    · refine wp_call.mpr ⟨trivial, fun _ s₂ hn₂ => wp_call.mpr ⟨trivial, fun _ s₃ hn₃ => ?_⟩⟩
      refine wp_ret.mpr (hreload s₃ ⟨(hs₁.next hn₂).next hn₃, fun hf => ?_⟩)
      exact flag_next (flag_next (hf₁ hf) Cmd.noConfusion hn₂) Cmd.noConfusion hn₃

theorem covered_switch (name : Switch) (h : Covered n s) :
    wp (restartContract n) (switch name) (fun _ s' => Covered n s') s :=
  wp_covered h fun _ _ hs' => wp_ret.mpr hs'

theorem covered_exports (HOSTNAME : String) (h : Covered n s) :
    wp (restartContract n) (exports HOSTNAME) (fun _ s' => Covered n s') s := by
  simp only [exports, bind_eq, pure_eq, wp_bind]
  refine (covered_switch .debug h).mono fun _ _ hs => ?_
  refine (covered_switch .test hs).mono fun _ _ hs => ?_
  refine (covered_switch .fakeUrl hs).mono fun _ _ hs => ?_
  exact (covered_switch .fakeImage hs).mono fun _ _ hs => wp_ret.mpr hs

theorem covered_profile (HOSTNAME : String) (h : Covered n s) :
    wp (restartContract n) (profile HOSTNAME) (fun _ s' => Covered n s') s := by
  refine wp_bind.mpr ((covered_exports HOSTNAME h).mono fun x _ hs => ?_)
  refine wp_covered hs fun r _ hs => ?_
  rw [ret_bind]
  cases r.out == "/dev/tty1" with
  | false => exact wp_ret.mpr hs
  | true => exact wp_covered hs fun ec _ hs =>
      (covered_afterInstaller x ec.status hs).mono fun _ _ hc => hc.2

/-- The shell starts the installer once, and this is what it goes on with. -/
theorem of_installer {k : Answer → Sh PUnit}
    (hr : Run (profile HOSTNAME) t (.call (.installer x) k)) :
    k = fun r => afterInstaller x r.status := by
  have hexports : Only (· ≠ .installer x) (exports HOSTNAME) fun _ => True := by
    simp [exports, switch, status]
  obtain ⟨t₁, t₂, y, -, -, hr⟩ := hr.past hexports
  obtain ⟨t₃, t₄, tty, -, -, hr⟩ := Run.past (p := output .tty) (by simp [output]) hr
  cases htty : tty == "/dev/tty1" with
  | false =>
    rw [htty] at hr
    cases hr with
    | step hs => cases hs
  | true =>
    rw [htty] at hr
    cases hr with
    | refl => rfl
    | step hs hr =>
      cases hs with
      | call r =>
        have honly : Only (· ≠ .installer x) (afterInstaller y r.status) fun _ => True :=
          only_afterInstaller Cmd.noConfusion (by rintro c hc rfl; cases hc) r.status
        exact absurd rfl (only_iff_issues.mp honly _ _ ⟨k, hr⟩)

/-! ## What a shell starts -/

/-- A shell starts one installation, and collects the logs when it was told to. -/
def Guarded (h : List Event) : Cmd → Prop
  | .installer _ => starts h = 0
  | .collectLogs _ => ∃ r, h.getLast? = some (.exitMenu, r) ∧ r.out = "2"
  | _ => True

abbrev startContract : Contract (List Event) Cmd Answer :=
  .history (fun _ _ => True) Guarded fun _ => True

theorem guarded_of_other {c : Cmd} (hc : c.starts = false) (h : List Event) : Guarded h c := by
  cases c with
  | installer | collectLogs => cases hc
  | _ => trivial

theorem starts_append (l t : List Event) : starts (l ++ t) = starts l + starts t := List.countP_append

theorem starts_of_other {c : Cmd} (hc : c.starts = false) (h : List Event) (r : Answer) :
    starts (h ++ [(c, r)]) = starts h := by
  have hno : c.installs = false := by cases c <;> first | rfl | cases hc
  simp [starts, hno]

/-- A script that starts nothing. -/
theorem guarded_of_only {p : Sh α} {B : α → Prop} (hp : Only (fun c => c.starts = false) p B)
    (h : List Event) : wp startContract p (fun _ h' => starts h' = starts h) h := by
  refine (hp.frame (fun h' => starts h' = starts h) (fun _ hc => guarded_of_other hc _) ?_
    (fun _ _ => trivial) rfl).mono fun _ _ hs => hs.2
  rintro h' c r _ hs hc ⟨-, rfl⟩
  exact (starts_of_other hc h' r).trans hs

theorem guarded_exit (x : Exports) (h : List Event) :
    wp startContract (exit x) (fun _ _ => True) h := by
  have hreboot : ∀ h, wp startContract (exec .reboot) (fun _ _ => True) h := fun h =>
    wp_call_monitor.mpr ⟨trivial, fun _ _ => wp_ret.mpr trivial⟩
  refine wp_call_monitor.mpr ⟨trivial, fun r _ => ?_⟩
  rw [ret_bind]
  split_ifs with h1 h2
  · exact hreboot _
  · refine wp_call_monitor.mpr ⟨⟨r, List.getLast?_concat, h2⟩, fun _ _ => hreboot _⟩
  · exact wp_exit.mpr trivial
  · exact hreboot _

theorem guarded_afterInstaller (x : Exports) (ec : Nat) (h : List Event) :
    wp startContract (afterInstaller x ec) (fun _ _ => True) h := by
  have hreload : ∀ h, wp startContract reload (fun _ _ => True) h := fun h => by
    have honly : Only (fun c => c.starts = false) reload fun _ => True := by
      simp only [reload, bind_eq, within_bind, within_status]
      refine ⟨rfl, fun r => ?_⟩
      cases r.status == 0 <;> simp [Script.when, Cmd.starts]
    exact (guarded_of_only honly h).mono fun _ _ _ => trivial
  refine wp_call_monitor.mpr ⟨trivial, fun _ _ => ?_⟩
  rw [ret_bind, bind_eq, wp_bind]
  cases x.DEBUG with
  | false => exact wp_ret.mpr (hreload _)
  | true =>
    simp only [Script.when, if_true]
    split
    · exact (guarded_exit x _).mono fun _ _ _ => hreload _
    · exact wp_call_monitor.mpr ⟨trivial, fun _ _ => wp_call_monitor.mpr ⟨trivial, fun _ _ =>
        wp_ret.mpr (hreload _)⟩⟩

theorem guarded_profile (HOSTNAME : String) :
    wp startContract (profile HOSTNAME) (fun _ _ => True) [] := by
  have hexports : Only (fun c => c.starts = false) (exports HOSTNAME) fun _ => True := by
    simp [exports, switch, Cmd.starts]
  refine wp_bind.mpr ((guarded_of_only hexports []).mono fun x h hs => ?_)
  refine wp_call_monitor.mpr ⟨trivial, fun r _ => ?_⟩
  rw [ret_bind]
  cases r.out == "/dev/tty1" with
  | false => exact wp_ret.mpr trivial
  | true =>
    have hfirst : Guarded (h ++ [(.tty, r)]) (.installer x) := (starts_of_other rfl h r).trans hs
    exact wp_call_monitor.mpr ⟨hfirst, fun ec _ => guarded_afterInstaller x ec.status _⟩

theorem guarded_of_run (hr : Run (profile HOSTNAME) t q) :
    Throughout (fun pre e => Guarded pre e.1) t := by
  rintro pre ⟨c, r⟩ post rfl
  exact (guarded_profile HOSTNAME).guard hr (path_history_iff.mpr ⟨rfl, fun _ _ => trivial⟩)

/-- A shell starts the installer at most once. -/
theorem starts_of_run (hr : Run (profile HOSTNAME) t q) : starts t ≤ 1 := by
  have hg := guarded_of_run hr
  clear hr
  induction t using List.reverseRecOn with
  | nil => exact Nat.zero_le 1
  | append_singleton t e ih =>
    obtain ⟨hpre, he⟩ := throughout_concat.mp hg
    have hle := ih hpre
    have hlast : starts [e] ≤ 1 := List.countP_le_length
    rw [starts_append]
    cases hc : e.1 with
    | installer x =>
      rw [hc] at he
      have hnone : starts t = 0 := he
      omega
    | _ =>
      have hzero : starts [e] = 0 := by simp [starts, Cmd.installs, hc]
      omega

/-! ## A boot -/

/-- Every start but that of the current shell was asked for. -/
theorem Shells.due (h : Shells HOSTNAME l s) : Due (starts l) s := by
  induction h with
  | boot => exact Nat.le_refl 0
  | @logout l s t s' _ hr hp ih =>
    have hdue : Due (starts l + 1) s' := covered_profile HOSTNAME (by
      simp only [Due, Covered] at ih ⊢
      omega) _ _ _ hr hp
    have hone := starts_of_run hr
    simp only [Due, starts_append] at hdue ⊢
    omega
  | @ended l s t q s' _ hr hp ih =>
    have hs : Covered (starts l + 1) s := by
      simp only [Due, Covered] at ih ⊢
      omega
    have hs' := hs.path hp
    have hone := starts_of_run hr
    simp only [Due, Covered, starts_append] at hs' ⊢
    omega

theorem collects_append (hl : Throughout CollectsOnDemand l) (hr : Run (profile HOSTNAME) t q) :
    Throughout CollectsOnDemand (l ++ t) := by
  refine throughout_append hl fun pre e post ht x hx => ?_
  have hg : Guarded pre e.1 := guarded_of_run hr pre e post ht
  rw [hx] at hg
  obtain ⟨r, hlast, hout⟩ := hg
  exact ⟨r, by rw [List.getLast?_append, hlast, Option.some_or], hout⟩

theorem Shells.collects (h : Shells HOSTNAME l s) : Throughout CollectsOnDemand l := by
  induction h with
  | boot => exact throughout_nil
  | logout _ hr _ ih | ended _ hr _ ih => exact collects_append ih hr

/-- In a boot the installer is started on tty1 once, and once more for every "Restart Installer" and
every shell that was left or killed: never on its own, and never twice for one request; otherwise it is
only told to collect the logs, by "Upload Logs" in the menu of `.profile`. A request that is there when
an installer has ended is served: its shell logs out and does not come to the prompt. -/
theorem restarts_of_boot (h : Shells HOSTNAME l s) (hr : Run (profile HOSTNAME) t q)
    (hp : Path next s t s') :
    starts (l ++ t) ≤ s'.asked + s'.ended + 1 ∧ Throughout CollectsOnDemand (l ++ t) ∧
    ∀ t x k r s₁ t' q s', Run (profile HOSTNAME) t (.call (.installer x) k) → s₁.flag = true →
      Run (k r) t' q → Path next s₁ t' s' → q.Ended → q = .exit := by
  refine ⟨?_, collects_append h.collects hr, ?_⟩
  · have hdue := h.due
    have hs : Covered (starts l + 1) s := by
      simp only [Due, Covered] at hdue ⊢
      omega
    have hs' := hs.path hp
    have hone := starts_of_run hr
    rw [starts_append]
    simp only [Covered] at hs'
    omega
  intro t x k r s₁ t' q s' hr hf hr' hp hq
  rw [of_installer hr] at hr'
  have hcovered : Covered 0 s₁ := by
    simp only [Covered, hf, Bool.toNat_true]
    omega
  have hat := covered_afterInstaller x r.status hcovered _ _ _ hr' hp
  cases q with
  | ret =>
    have hno : s₁.flag = false := hat.1
    rw [hf] at hno
    cases hno
  | exit => rfl
  | call | loop => cases hq

/-! ## A restart -/

/-- SIGINT before the first command, and "Restart Installer". -/
def restartMenu : List HassioInstaller.Event :=
  [(.exitMenu, ⟨0, "3"⟩), (.run "touch /tmp/_reload_installer", ⟨0, ""⟩), (.rmPidfile, ⟨0, ""⟩)]

theorem serves_restart (env : Env) (p : HassioInstaller.Sh PUnit) : Serves env p restartMenu .exit :=
  .interrupt (.of_run (.call _ (.call _ (.call _ .refl))))

/-- A shell on tty1 in a boot without parameters, whose installer has left the file. -/
def restartTrace : List Event :=
  [(.grep .debug, ⟨1, ""⟩), (.grep .test, ⟨1, ""⟩), (.grep .fakeUrl, ⟨1, ""⟩),
    (.grep .fakeImage, ⟨1, ""⟩), (.tty, ⟨0, "/dev/tty1"⟩),
    (.installer ⟨"hassio-installer", false, false, false⟩, ⟨0, ""⟩), (.run "clear", ⟨0, ""⟩),
    (.reloadExists, ⟨0, ""⟩), (.run "echo \"Restarting installer...\"", ⟨0, ""⟩),
    (.run "sleep 2", ⟨0, ""⟩), (.rmReload, ⟨0, ""⟩)]

theorem run_restart : Run (profile "hassio-installer") restartTrace .exit :=
  .call _ (.call _ (.call _ (.call _ (.call _ (.call _ (.call _ (.call _ (.call _ (.call _ (.call _
    .refl))))))))))

theorem next_of_command {c : Cmd} {r : Answer} (h : Command s c r s') : next s c r s' :=
  ⟨s', 0, h, (ask_zero s').symm⟩

theorem path_restart : Path next ⟨false, 0, 0⟩ restartTrace ⟨false, 1, 0⟩ := by
  have hinstaller : Command ⟨false, 0, 0⟩ (.installer ⟨"hassio-installer", false, false, false⟩)
      ⟨0, ""⟩ ⟨true, 1, 0⟩ := .installer (serves_restart (Exports.env _ "7") _)
  refine .cons (next_of_command .grep) (.cons (next_of_command .grep) (.cons (next_of_command .grep)
    (.cons (next_of_command .grep) (.cons (next_of_command .tty)
      (.cons (next_of_command hinstaller) ?_)))))
  refine .cons (next_of_command .run) (.cons (next_of_command (.reloadExists (by decide))) ?_)
  exact .cons (next_of_command .run) (.cons (next_of_command .run)
    (.cons (next_of_command .rmReload) .nil))

theorem restarts_of_boot_again : starts (([] ++ restartTrace) ++ []) ≤ 1 + 0 + 1 ∧
    Throughout CollectsOnDemand (([] ++ restartTrace) ++ []) ∧
    ∀ t x k r s₁ t' q s', Run (profile "hassio-installer") t (.call (.installer x) k) →
      s₁.flag = true → Run (k r) t' q → Path next s₁ t' s' → q.Ended → q = .exit :=
  restarts_of_boot (.logout .boot run_restart path_restart) .refl .nil

end Boot
end HassioInstaller.Console
