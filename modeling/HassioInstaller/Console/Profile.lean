import HassioInstaller.Installer.Interrupt

/-! # The login shell

`init` runs `/bin/login -f root` on tty1, again whenever it has ended, and the shell reads
`/root/.profile`, which turns kernel parameters into variables and starts the installer. A script that
returns has come to the prompt of the shell, and one that exits has logged out. -/

namespace HassioInstaller.Console
open Text

/-- The variables that `.profile` sets for the installer. -/
structure Exports where
  HOSTNAME : String
  DEBUG : Bool
  FAKE_URL : Bool
  FAKE_IMAGE : Bool
  deriving DecidableEq, Repr

/-- They are all that the installer starts with, next to the number of its shell. -/
def Exports.env (x : Exports) (pid : String) : Env := ⟨x.HOSTNAME, x.DEBUG, x.FAKE_URL, x.FAKE_IMAGE, pid⟩

/-- The kernel parameters that `.profile` looks for. -/
inductive Switch
  | debug
  | test
  | fakeUrl
  | fakeImage
  deriving DecidableEq, Repr

def Switch.name : Switch → String
  | .debug => "debug"
  | .test => "test"
  | .fakeUrl => "fake_url"
  | .fakeImage => "fake_image"

inductive Cmd
  /-- `l main-login-shell d text` -/
  | log (text : String)
  /-- A command with no part in what is proved here, by its command line. -/
  | run (line : String)
  /-- `grep -q 'hass.name=1' /proc/cmdline` -/
  | grep (s : Switch)
  | tty
  /-- `/bin/bash /installer.sh` -/
  | installer (x : Exports)
  /-- `/installer.sh --collect-logs` -/
  | collectLogs (x : Exports)
  /-- The menu of `_exit`. -/
  | exitMenu
  | reboot
  /-- `[ -f /tmp/_reload_installer ]` -/
  | reloadExists
  | rmReload
  deriving DecidableEq, Repr

abbrev Sh := Script Cmd Answer

abbrev Event := Cmd × Answer

def status (c : Cmd) : Sh Nat := .call c fun r => .ret r.status

def output (c : Cmd) : Sh String := .call c fun r => .ret r.out

def exec (c : Cmd) : Sh PUnit := .call c fun _ => .ret ⟨⟩

/-- `if grep -q ... ; then export ...=true; else export ...=false; fi` -/
def switch (s : Switch) : Sh Bool := do
  let st ← status (.grep s)
  return st == 0

/-- "HANDLE KERNEL PARAMETERS" -/
def exports (HOSTNAME : String) : Sh Exports := do
  let DEBUG ← switch .debug
  let test ← switch .test
  let FAKE_URL ← switch .fakeUrl
  let FAKE_IMAGE ← switch .fakeImage
  return ⟨if test then "test" else HOSTNAME, DEBUG, FAKE_URL, FAKE_IMAGE⟩

/-- `_exit` -/
def exit (x : Exports) : Sh PUnit := do
  let opt ← output .exitMenu
  if opt = "1" then exec .reboot
  else if opt = "2" then do
    exec (.collectLogs x)
    exec .reboot
  else if opt = "3" then .exit
  else exec .reboot

/-- "Handle Installer Reload" -/
def reload : Sh PUnit := do
  let st ← status .reloadExists
  Script.when (st == 0) do
    exec (.run "echo \"Restarting installer...\"")
    exec (.run "sleep 2")
    exec .rmReload
    .exit

/-- What follows the installer, which has ended with status `ec`. -/
def afterInstaller (x : Exports) (ec : Nat) : Sh PUnit := do
  exec (.run "clear")
  Script.when x.DEBUG (if ec = 141 then exit x else do
    exec (.log ("Exit code: " ++ toString ec))
    exec (.run ("echo Exit Code: " ++ toString ec)))
  reload

/-- `.profile`. The installer is started on tty1 only. -/
def profile (HOSTNAME : String) : Sh PUnit := do
  let x ← exports HOSTNAME
  let tty ← output .tty
  Script.when (tty == "/dev/tty1") do
    let ec ← status (.installer x)
    afterInstaller x ec

/-- The commands that start the script of the installer. -/
def Cmd.starts : Cmd → Bool
  | .installer _ | .collectLogs _ => true
  | _ => false

/-- The start of an installation. -/
def Cmd.installs : Cmd → Bool
  | .installer _ => true
  | _ => false

section
open Script
variable {E : Prop} {A : Cmd → Prop} {x : Exports}

@[simp] theorem within_exec {B : PUnit → Prop} : Within E A (exec c) B ↔ A c ∧ B ⟨⟩ := by
  rw [exec, within_call]
  exact and_congr_right fun _ => ⟨fun h => within_ret.mp (h ⟨0, ""⟩), fun h _ => within_ret.mpr h⟩

@[simp] theorem within_status {B : Nat → Prop} :
    Within E A (status c) B ↔ A c ∧ ∀ r : Answer, B r.status := by
  simp [status]

@[simp] theorem within_output {B : String → Prop} :
    Within E A (output c) B ↔ A c ∧ ∀ r : Answer, B r.out := by
  simp [output]

/-- After the installer the shell starts it again only to collect the logs. -/
theorem only_afterInstaller (collect : A (.collectLogs x)) (other : ∀ c, c.starts = false → A c)
    (ec : Nat) : Only A (afterInstaller x ec) fun _ => True := by
  have hexit : Only A (exit x) fun _ => True := by
    simp only [exit, bind_eq, within_bind, within_output]
    refine ⟨other _ rfl, fun r => ?_⟩
    have hreboot : Only A (exec .reboot) fun _ => True := within_exec.mpr ⟨other _ rfl, trivial⟩
    split_ifs
    · exact hreboot
    · exact within_bind.mpr (within_exec.mpr ⟨collect, hreboot⟩)
    · exact only_exit
    · exact hreboot
  have hreload : Only A reload fun _ => True := by
    simp only [reload, bind_eq, within_bind, within_status]
    refine ⟨other _ rfl, fun r => ?_⟩
    cases r.status == 0 with
    | false => exact within_ret.mpr trivial
    | true =>
      simp only [Script.when, if_true, within_bind, within_exec, within_exit]
      exact ⟨other _ rfl, other _ rfl, other _ rfl, trivial⟩
  simp only [afterInstaller, bind_eq, within_bind, within_exec]
  refine ⟨other _ rfl, ?_⟩
  cases x.DEBUG with
  | false => exact within_ret.mpr hreload
  | true =>
    simp only [Script.when, if_true]
    split
    · exact hexit.mono fun _ _ => hreload
    · rw [within_bind, within_exec, within_exec]
      exact ⟨other _ rfl, other _ rfl, hreload⟩

end

/-! ## Kernel parameters -/

/-- `grep -q 'hass.name=1'`, where the point stands for any character. -/
def Switch.on (s : Switch) (cmdline : String) : Bool :=
  cmdline.toList.tails.any fun t =>
    "hass".toList.isPrefixOf t && (s.name ++ "=1").toList.isPrefixOf (t.drop 5)

/-- The variables that `.profile` makes of a command line. -/
def Exports.of (HOSTNAME cmdline : String) : Exports where
  HOSTNAME := if Switch.test.on cmdline then "test" else HOSTNAME
  DEBUG := Switch.debug.on cmdline
  FAKE_URL := Switch.fakeUrl.on cmdline
  FAKE_IMAGE := Switch.fakeImage.on cmdline

end HassioInstaller.Console
