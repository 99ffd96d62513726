import HassioInstaller.Installer.Host

/-! # The pidfile lock

An instance holds the lock from the moment it writes the pidfile. It starts a pipeline only while it
holds the lock (`Phase`, a property of the script alone), so two pipelines need two holders or a
holder next to an orphan. The invariant `Locked` says that neither exists; it survives every step
but the three in which the script gives the lock away, which `Orderly` describes. -/

namespace HassioInstaller
open Installer Script

/-- Where an instance stands with the lock. -/
inductive Phase
  | before
  | holding
  | released
  deriving DecidableEq, Repr

def Phase.step (s : Phase) : Cmd → Phase
  | .writePidfile _ => .holding
  | .rmPidfile => .released
  | _ => s

def phase (h : List Event) : Phase := h.foldl (fun s e => s.step e.1) .before

theorem phase_concat (h : List Event) (e : Event) : phase (h ++ [e]) = (phase h).step e.1 := by
  simp [phase]

/-- The commands that leave the lock as it is. -/
structure Lockless (c : Cmd) : Prop where
  write : ∀ pid, c ≠ .writePidfile pid
  rm : c ≠ .rmPidfile

theorem Lockless.step {c : Cmd} (h : Lockless c) (s : Phase) : s.step c = s := by
  cases c with
  | writePidfile pid => exact absurd rfl (h.write pid)
  | rmPidfile => exact absurd rfl h.rm
  | _ => rfl

theorem Lockless.of_choosing {c : Cmd} (h : c.choosing) : Lockless c where
  write := by rintro _ rfl; cases h
  rm := by rintro rfl; cases h

theorem Lockless.of_looks {c : Cmd} (h : c.looks) : Lockless c where
  write := by rintro _ rfl; cases h
  rm := by rintro rfl; cases h

theorem Lockless.of_erases {c : Cmd} (h : c.erases disk) : Lockless c where
  write := by rintro _ rfl; cases h
  rm := by rintro rfl; cases h

/-- The commands that neither start a pipeline nor take the lock. -/
structure Modest (c : Cmd) : Prop where
  pipeline : c.pipeline = false
  write : ∀ pid, c ≠ .writePidfile pid

theorem Modest.of_choosing {c : Cmd} (h : c.choosing) : Modest c where
  pipeline := by cases c <;> first | rfl | cases h
  write := by rintro _ rfl; cases h

theorem Modest.of_kills {c : Cmd} (h : c.kills) : Modest c where
  pipeline := by cases c <;> first | rfl | cases h
  write := by rintro _ rfl; cases h

namespace Installer

/-- The script with the number `pid` starts pipelines only while it holds the lock, and writes no
other number into the pidfile. -/
abbrev phaseContract (pid : String) : Contract Phase Cmd Answer :=
  .monitor (fun _ _ => True) (fun s c _ => s.step c)
    (fun s c => (c.pipeline → s = .holding) ∧ ∀ x, c = .writePidfile x → x = pid) fun _ => True

section
variable {pid : String} {s : Phase}

/-- A script that does not touch the lock stays in its phase. -/
theorem phase_of_lockless {p : Sh α} {B : α → Prop} (hp : Only Lockless p B) (hs : s = .holding) :
    wp (phaseContract pid) p (fun a s' => B a ∧ s' = s) s := by
  refine hp.frame (· = s) ?_ ?_ (fun _ _ => trivial) rfl
  · rintro _ c rfl hc
    exact ⟨fun _ => hs, fun x hx => absurd hx (hc.write x)⟩
  · rintro _ c r _ rfl hc ⟨-, rfl⟩
    exact hc.step _

/-- A script that starts no pipeline and takes no lock may run in any phase. -/
theorem phase_of_modest {p : Sh α} {B : α → Prop} (hp : Only Modest p B) :
    wp (phaseContract pid) p (fun a _ => B a) s := by
  refine hp.anywhere ?_ fun _ _ => trivial
  intro s c hc
  refine ⟨fun hpl => ?_, fun x hx => absurd hx (hc.write x)⟩
  rw [hc.pipeline] at hpl
  cases hpl

/-- One that does not touch the lock either keeps its phase as well. -/
theorem phase_of_passive {p : Sh α} {B : α → Prop}
    (hp : Only (fun c => Modest c ∧ Lockless c) p B) :
    wp (phaseContract pid) p (fun a s' => B a ∧ s' = s) s := by
  refine hp.frame (· = s) ?_ ?_ (fun _ _ => trivial) rfl
  · rintro _ c rfl ⟨hc, -⟩
    refine ⟨fun hpl => ?_, fun x hx => absurd hx (hc.write x)⟩
    rw [hc.pipeline] at hpl
    cases hpl
  · rintro _ c r _ rfl ⟨-, hc⟩ ⟨-, rfl⟩
    exact hc.step _

theorem phase_mainFlow (env : Env) :
    wp (phaseContract pid) (mainFlow env) (fun _ _ => True) .holding := by
  have hmain : Only Lockless (mainFlow env) fun _ => True :=
    only_mainFlow (fun _ => .of_choosing) (fun _ _ => .of_erases) (fun _ => ⟨nofun, nofun⟩)
      (fun _ => ⟨nofun, nofun⟩) (fun _ => ⟨nofun, nofun⟩) ⟨nofun, nofun⟩ (fun _ => ⟨nofun, nofun⟩)
      ⟨nofun, nofun⟩ env
  exact (phase_of_lockless hmain rfl).mono fun _ _ _ => trivial

/-- The lock is taken between the test and the main flow. -/
theorem phase_acquire (env : Env) :
    wp (phaseContract env.pid) (acquire env) (fun _ s => s = .holding) .before := by
  have look : ∀ c : Cmd, c.looks → Modest c ∧ Lockless c := fun c hc =>
    ⟨.of_kills (Cmd.looks.kills hc), .of_looks hc⟩
  rw [acquire, bind_eq, wp_bind]
  apply (phase_of_passive (only_pidfileAlive look)).mono
  rintro running _ ⟨-, rfl⟩
  split
  · refine wp_call_monitor.mpr ⟨⟨fun hpl => ?_, fun x hx => ?_⟩, fun _ _ => wp_exit.mpr trivial⟩
    · cases hpl
    · cases hx
  · refine wp_call_monitor.mpr ⟨⟨fun hpl => ?_, fun x hx => ?_⟩, fun _ _ => wp_ret.mpr rfl⟩
    · cases hpl
    · cases hx
      rfl

theorem phase_start (env : Env) :
    wp (phaseContract env.pid) (start env) (fun _ _ => True) .before := by
  refine wp_bind.mpr ((phase_acquire env).mono ?_)
  rintro _ s rfl
  exact phase_mainFlow env

theorem phase_installer (env : Env) (arg : Mode) :
    wp (phaseContract env.pid) (installer env arg) (fun _ _ => True) .before := by
  cases hm : arg.helper with
  | true =>
    exact phase_of_modest (only_helper (fun _ hc => .of_choosing (Cmd.passiveOrReboot.choosing hc))
      (fun _ _ => .of_kills) env hm)
  | false =>
    have log : ∀ text, Modest (.log text) ∧ Lockless (.log text) := fun _ =>
      ⟨.of_choosing rfl, .of_choosing rfl⟩
    unfold installer
    rw [bind_eq, wp_bind]
    apply (phase_of_passive (only_note log)).mono
    rintro _ _ ⟨-, rfl⟩
    cases arg with
    | test => exact phase_start { env with HOSTNAME := "test" }
    | plain => exact phase_start env
    | _ => cases hm

/-- The exit menu returns to the script in the phase it was in, or releases the lock and ends. -/
theorem phase_interrupted (env : Env) {q : Sh PUnit}
    (h : wp (phaseContract pid) q (fun _ _ => True) s) :
    wp (phaseContract pid) (interrupted env q) (fun _ _ => True) s := by
  have passive : ∀ c : Cmd, c.passiveOrReboot → Modest c ∧ Lockless c := fun c hc =>
    ⟨.of_choosing (Cmd.passiveOrReboot.choosing hc), .of_choosing (Cmd.passiveOrReboot.choosing hc)⟩
  have reboot : Only (fun c => Modest c ∧ Lockless c) (exec .reboot) fun _ => True :=
    within_exec.mpr ⟨passive _ rfl, trivial⟩
  have logs : Only (fun c => Modest c ∧ Lockless c) ((collectlogs env).bind fun _ => exec .reboot)
      fun _ => True :=
    within_bind.mpr (((passive_collectlogs env).weaken fun c hc => passive c
      (Cmd.passive.orReboot hc)).mono fun _ _ => reboot)
  have back : ∀ {p : Sh PUnit}, Only (fun c => Modest c ∧ Lockless c) p (fun _ => True) →
      wp (phaseContract pid) (p.bind fun _ => q) (fun _ _ => True) s := fun hp =>
    wp_bind.mpr ((phase_of_passive hp).mono fun _ _ hs => hs.2 ▸ h)
  refine wp_call_monitor.mpr ⟨⟨nofun, nofun⟩, fun r _ => ?_⟩
  show wp _ ((exitChoice env r.out).bind fun _ => q) _ _
  unfold exitChoice
  split
  · exact back reboot
  split
  · exact back logs
  split
  · refine wp_call_monitor.mpr ⟨⟨nofun, nofun⟩, fun _ _ => ?_⟩
    refine wp_call_monitor.mpr ⟨⟨nofun, nofun⟩, fun _ _ => ?_⟩
    exact wp_exit.mpr trivial
  · exact back reboot

end
end Installer

/-! ## The lock among all instances -/

namespace Host

/-- A live instance that has written the pidfile and not removed it. -/
def Holds (s : Host) (pid : String) : Prop :=
  ∃ p, s.procs pid = some p ∧ phase p.hist = .holding

/-- The pidfile names another instance that is alive and holds the lock. -/
def NamesOther (s : Host) (pid : String) : Prop := ∃ q, s.pidfile = some q ∧ q ≠ pid ∧ s.Holds q

/-- The pidfile is written or removed only if it names no other holder, and written only if no
orphan of a killed instance is still running. -/
structure Orderly (s : Host) (a : Action) : Prop where
  write : a = .answer pid r → s.procs pid = some p → p.busy = some (.writePidfile x) →
    ¬ s.NamesOther pid ∧ s.orphans = []
  rm : a = .answer pid r → s.procs pid = some p → p.busy = some .rmPidfile → ¬ s.NamesOther pid

/-- Every holder is named in the pidfile, and there is none next to an orphan. -/
structure Locked (s : Host) : Prop where
  code : s.procs pid = some p → wp (phaseContract pid) p.code (fun _ _ => True) (phase p.hist)
  busy : s.procs pid = some p → p.busy = some c → ∃ k, p.code = .call c k
  named : s.procs pid = some p → phase p.hist = .holding → s.pidfile = some pid
  orphaned : s.orphans ≠ [] → s.procs pid = some p → phase p.hist ≠ .holding
  orphan : s.orphans.length ≤ 1

theorem Idle.locked (h : Idle s) : Locked s where
  code hp := by rw [h.procs] at hp; cases hp
  busy hp := by rw [h.procs] at hp; cases hp
  named hp := by rw [h.procs] at hp; cases hp
  orphaned ho := absurd h.orphans ho
  orphan := by rw [h.orphans]; exact Nat.zero_le 1

section
variable {s : Host}

/-- A pipeline in flight belongs to a holder. -/
theorem Locked.holding (h : Locked s) (hp : s.procs pid = some p) (hb : p.busy = some c)
    (hc : c.pipeline) : phase p.hist = .holding := by
  obtain ⟨k, hk⟩ := h.busy hp hb
  have hwp := h.code hp
  rw [hk] at hwp
  exact (wp_call.mp hwp).1.1 hc

theorem Locked.holds_unique (h : Locked s) (hp : s.Holds pid) (hq : s.Holds q) : pid = q := by
  obtain ⟨p, hp, hh⟩ := hp
  obtain ⟨p', hq, hh'⟩ := hq
  exact Option.some.inj ((h.named hp hh).symm.trans (h.named hq hh'))

/-- The invariant gives mutual exclusion. -/
theorem Locked.oneWriter (h : Locked s) : OneWriter s where
  unique := by
    rintro pid pid' ⟨p, c, hp, hb, hc⟩ ⟨p', c', hp', hb', hc'⟩
    exact h.holds_unique ⟨p, hp, h.holding hp hb hc⟩ ⟨p', hp', h.holding hp' hb' hc'⟩
  alone := by
    rintro pid ⟨p, c, hp, hb, hc⟩
    by_contra ho
    exact h.orphaned ho hp (h.holding hp hb hc)
  orphan := h.orphan

/-- One instance changes, and with it the pidfile. -/
theorem Locked.update (h : Locked s) (pf : Option String)
    (hcode : wp (phaseContract pid) p.code (fun _ _ => True) (phase p.hist))
    (hbusy : ∀ c, p.busy = some c → ∃ k, p.code = .call c k)
    (hself : phase p.hist = .holding → pf = some pid ∧ s.orphans = [])
    (hothers : ∀ q, q ≠ pid → s.Holds q → pf = some q) :
    Locked { s.set pid (some p) with pidfile := pf } where
  code hq := by
    rcases set_procs_eq_some hq with ⟨rfl, rfl⟩ | ⟨-, hq⟩
    · exact hcode
    · exact h.code hq
  busy hq hb := by
    rcases set_procs_eq_some hq with ⟨rfl, rfl⟩ | ⟨-, hq⟩
    · exact hbusy _ hb
    · exact h.busy hq hb
  named hq hh := by
    rcases set_procs_eq_some hq with ⟨rfl, rfl⟩ | ⟨hne, hq⟩
    · exact (hself hh).1
    · exact hothers _ hne ⟨_, hq, hh⟩
  orphaned ho hq hh := by
    rcases set_procs_eq_some hq with ⟨rfl, rfl⟩ | ⟨-, hq⟩
    · exact ho (hself hh).2
    · exact h.orphaned ho hq hh
  orphan := h.orphan

/-- One instance changes without a change of its phase. -/
theorem Locked.keep (h : Locked s) (hp : s.procs pid = some p₀)
    (hcode : wp (phaseContract pid) p.code (fun _ _ => True) (phase p.hist))
    (hbusy : ∀ c, p.busy = some c → ∃ k, p.code = .call c k)
    (hphase : phase p.hist = phase p₀.hist) :
    Locked (s.set pid (some p)) := by
  refine h.update s.pidfile hcode hbusy (fun hh => ?_) fun q _ ⟨p', hq, hh⟩ => h.named hq hh
  rw [hphase] at hh
  refine ⟨h.named hp hh, ?_⟩
  by_contra ho
  exact h.orphaned ho hp hh

theorem Locked.remove (h : Locked s) (pid : String) : Locked (s.set pid none) where
  code hq := h.code (set_none_eq_some hq).2
  busy hq := h.busy (set_none_eq_some hq).2
  named hq := h.named (set_none_eq_some hq).2
  orphaned ho hq := h.orphaned ho (set_none_eq_some hq).2
  orphan := h.orphan

/-- What a killed holder leaves in flight is the only orphan, and no holder is left. -/
theorem Locked.killed (h : Locked s) (pid : String) : Locked (s.killed pid) := by
  have hremoved := h.remove pid
  by_cases hnil : s.inFlight pid = []
  · have hk : s.killed pid = s.set pid none := by rw [Host.killed, hnil, List.append_nil]; rfl
    rw [hk]
    exact hremoved
  obtain ⟨c, hc⟩ := List.exists_mem_of_ne_nil _ hnil
  obtain ⟨hmem, hpl⟩ := List.mem_filter.mp hc
  obtain ⟨p, hp, hb⟩ := Option.bind_eq_some_iff.mp (Option.mem_toList.mp hmem)
  have hh := h.holding hp hb hpl
  have horphans : s.orphans = [] := by
    by_contra ho
    exact h.orphaned ho hp hh
  refine ⟨hremoved.code, hremoved.busy, hremoved.named, fun _ hq hh' => ?_, ?_⟩
  · obtain ⟨hne, hq⟩ := set_none_eq_some hq
    exact hne (h.holds_unique ⟨_, hq, hh'⟩ ⟨_, hp, hh⟩)
  · show (s.orphans ++ s.inFlight pid).length ≤ 1
    rw [horphans, List.nil_append, inFlight, hp]
    refine (List.length_filter_le _ _).trans ?_
    rw [Option.bind_some, hb]
    rfl

theorem Locked.effect (h : Locked s) {c : Cmd} (hc : Lockless c) : Locked (s.effect c) := by
  cases c with
  | kill signal x => exact h.killed x
  | writePidfile x => exact absurd rfl (hc.write x)
  | rmPidfile => exact absurd rfl hc.rm
  | _ => exact h

/-- An instance takes the answer of its command. -/
theorem Locked.answer (h : Locked s) (hp : s.procs pid = some p) (hb : p.busy = some c)
    (hc : p.code = .call c k) (ho : Orderly s (.answer pid r)) :
    Locked ((s.effect c).resume pid
      { p with code := k r, hist := p.hist ++ [(c, r)], busy := none }) := by
  have hwp := h.code hp
  rw [hc] at hwp
  obtain ⟨⟨-, hown⟩, hnext⟩ := wp_call.mp hwp
  have hcode : wp (phaseContract pid) (k r) (fun _ _ => True) (phase (p.hist ++ [(c, r)])) := by
    rw [phase_concat]
    exact hnext r _ ⟨trivial, rfl⟩
  have hbusy : ∀ c', none = some c' → ∃ k', k r = .call c' k' := fun _ h => nomatch h
  have other : ∀ q, ¬ s.NamesOther pid → q ≠ pid → ¬ s.Holds q := by
    rintro q hno hne ⟨p', hq, hh⟩
    exact hno ⟨q, h.named hq hh, hne, p', hq, hh⟩
  by_cases hw : ∃ x, c = .writePidfile x
  · obtain ⟨x, rfl⟩ := hw
    obtain rfl : x = pid := hown x rfl
    obtain ⟨hno, horphans⟩ := ho.write rfl hp hb
    rw [resume_of_some (show (s.effect (.writePidfile x)).procs x = some p from hp)]
    exact h.update (some x) hcode hbusy (fun _ => ⟨rfl, horphans⟩)
      fun q hne hh => absurd hh (other q hno hne)
  by_cases hr : c = .rmPidfile
  · subst hr
    have hno := ho.rm rfl hp hb
    have hreleased : phase (p.hist ++ [(.rmPidfile, r)]) = .released := by rw [phase_concat]; rfl
    rw [resume_of_some (show (s.effect .rmPidfile).procs pid = some p from hp)]
    refine h.update none hcode hbusy (fun hh => ?_)
      fun q hne hh => absurd hh (other q hno hne)
    cases hreleased.symm.trans hh
  · have hless : Lockless c := ⟨fun x hx => hw ⟨x, hx⟩, hr⟩
    have heffect := h.effect hless
    cases hlive : (s.effect c).procs pid with
    | none =>
      rw [resume_of_none hlive]
      exact heffect
    | some p₁ =>
      rw [resume_of_some hlive]
      have hsame : p₁ = p := Option.some.inj ((procs_of_effect hlive).symm.trans hp)
      refine heffect.keep hlive hcode hbusy ?_
      rw [hsame, phase_concat]
      exact hless.step _

/-- Every orderly step keeps the invariant. -/
theorem Locked.step (h : Locked s) (hs : Step s a s') (ho : Orderly s a) : Locked s' := by
  cases hs with
  | @start env arg hnone =>
    exact h.update s.pidfile (phase_installer env arg) (fun _ h => nomatch h)
      (fun h => nomatch h) fun q _ ⟨_, hq, hh⟩ => h.named hq hh
  | issue hp hb hc =>
    have hcode := h.code hp
    refine h.keep hp hcode (fun c' hc' => ?_) rfl
    cases hc'
    exact ⟨_, hc⟩
  | answer hp hb hc hans => exact h.answer hp hb hc ho
  | unroll hp hc =>
    have hwp := h.code hp
    rw [hc] at hwp
    refine h.keep hp (hwp.step .loop .nil) (fun c' hc' => ?_) rfl
    obtain ⟨k, hk⟩ := h.busy hp hc'
    rw [hc] at hk
    cases hk
  | interrupt hp hb hne =>
    refine h.keep hp (phase_interrupted _ (h.code hp)) (fun c' hc' => ?_) rfl
    have hc' := hb.symm.trans hc'
    cases hc'
  | finish hp he => exact h.remove _
  | @orphanEnds c hc =>
    refine ⟨h.code, h.busy, h.named, fun hne => h.orphaned fun hnil => ?_, ?_⟩
    · rw [hnil] at hc
      cases hc
    · exact (List.length_erase_le).trans h.orphan

end

/-! ## Two starts -/

theorem orderly_of_alone {s : Host} (h : Alone pid s a) : Orderly s a := by
  have unshared : ∀ {pid' r p c}, a = .answer pid' r → s.procs pid' = some p → p.busy = some c →
      unshared c := by
    rintro pid' r p c rfl hp hb
    cases h with
    | answer hp' hb' hun =>
      cases hp.symm.trans hp'
      cases hb.symm.trans hb'
      exact hun
  constructor
  · intro _ _ _ _ ha hp hb
    cases unshared ha hp hb
  · intro _ _ _ ha hp hb
    cases unshared ha hp hb

theorem orderly_of_look {s : Host} (hp : s.procs pid = some p) (hb : p.busy = some .pidfileExists)
    (r : Answer) : Orderly s (.answer pid r) where
  write ha hp' hb' := by
    cases ha
    cases hp.symm.trans hp'
    cases hb.symm.trans hb'
  rm ha hp' hb' := by
    cases ha
    cases hp.symm.trans hp'
    cases hb.symm.trans hb'

/-- An instance about to write the pidfile, after it found none. -/
def starting (e : Env) : Proc :=
  ⟨e, .plain, .call (.writePidfile e.pid) fun _ => mainFlow e, [(.pidfileExists, ⟨1, ""⟩)],
    some (.writePidfile e.pid), false⟩

/-- An instance with the pipeline `c` in flight. -/
def writing (e : Env) (t : List Event) (c : Cmd) (k : Answer → Sh PUnit) : Proc :=
  ⟨e, .plain, .call c k, [(.pidfileExists, ⟨1, ""⟩)] ++ [(.writePidfile e.pid, ⟨0, ""⟩)] ++ t,
    some c, false⟩

theorem runs_to_starting {s : Host} (e : Env) (hd : e.DEBUG = false) (hfile : s.pidfile = none)
    (hnone : s.procs e.pid = none) : Runs Orderly s (s.set e.pid (some (starting e))) := by
  obtain ⟨k, hcode, hnext⟩ : ∃ k, installer e .plain = .call .pidfileExists k ∧
      k ⟨1, ""⟩ = .call (.writePidfile e.pid) fun _ => mainFlow e := by
    unfold installer
    rw [hd]
    exact ⟨_, rfl, rfl⟩
  have start : Step s (.start e .plain) _ := .start hnone
  have issue := Step.issue (set_procs_self s e.pid (some (.fresh e .plain))) rfl hcode
  generalize hs₁ : s.set e.pid
    (some ⟨e, .plain, installer e .plain, [], some .pidfileExists, false⟩) = s₁
  have hp : s₁.procs e.pid =
      some ⟨e, .plain, installer e .plain, [], some .pidfileExists, false⟩ := by
    rw [← hs₁, set_procs_self]
  have hans : s₁.Answers .pidfileExists ⟨1, ""⟩ := by
    subst hs₁
    simp [Answers, hfile]
  have answer := Step.answer hp rfl hcode hans
  rw [show s₁.effect .pidfileExists = s₁ from rfl, resume_of_some hp, hnext] at answer
  have write := Step.issue (set_procs_self s₁ e.pid (some ⟨e, .plain, .call (.writePidfile e.pid)
    fun _ => mainFlow e, [(.pidfileExists, ⟨1, ""⟩)], none, false⟩)) rfl rfl
  rw [set_set] at issue write
  have hend : s₁.set e.pid (some (starting e)) = s.set e.pid (some (starting e)) := by
    rw [← hs₁, set_set]
  rw [← hend]
  exact .head ⟨_, start, ⟨nofun, nofun⟩⟩ (.head ⟨_, hs₁ ▸ issue, orderly_of_alone .issue⟩
    (.head ⟨_, answer, orderly_of_look hp rfl _⟩ (.head ⟨_, write, orderly_of_alone .issue⟩ .refl)))

theorem runs_to_writing {P : Host → Action → Prop} {s : Host} {e : Env}
    (hp : s.procs e.pid = some (starting e)) (hP : ∀ s a, Orderly s a → P s a)
    (hwrite : P s (.answer e.pid ⟨0, ""⟩)) (hr : Run (mainFlow e) t (.call c k))
    (ht : ∀ ev ∈ t, unshared ev.1) :
    Runs P s ({ s with pidfile := some e.pid }.set e.pid (some (writing e t c k))) := by
  have answer := Step.answer (r := ⟨0, ""⟩) hp rfl rfl trivial
  rw [resume_of_some (show (s.effect (.writePidfile e.pid)).procs e.pid = some (starting e) from hp)]
    at answer
  have hp₁ := set_procs_self (s.effect (.writePidfile e.pid)) e.pid (some ⟨e, .plain, mainFlow e,
    [(.pidfileExists, ⟨1, ""⟩)] ++ [(.writePidfile e.pid, ⟨0, ""⟩)], none, false⟩)
  have alone := (runs_alone hr ht hp₁ rfl).mono fun s a h => hP s a (orderly_of_alone h)
  have issue := Step.issue (set_procs_self (s.effect (.writePidfile e.pid)) e.pid (some ⟨e, .plain,
    .call c k, [(.pidfileExists, ⟨1, ""⟩)] ++ [(.writePidfile e.pid, ⟨0, ""⟩)] ++ t, none, false⟩))
    rfl rfl
  rw [set_set] at alone issue
  exact .head ⟨_, answer, hwrite⟩ (alone.tail ⟨_, issue, hP _ _ (orderly_of_alone .issue)⟩)

/-- Two erase or image-write pipelines never run at the same time, as long as the pidfile is
written and removed in an orderly way. -/
theorem orderly_oneWriter (hr : Runs Orderly s s') (h : Idle s) : OneWriter s' := by
  have hlocked : Locked s' := hr.invariant (fun h hs ho => h.step hs ho) h.locked
  exact hlocked.oneWriter

/-- A host on which nothing runs and no pidfile is left. -/
def quiet : Host := ⟨none, fun _ => none, []⟩

theorem idle_quiet : Idle quiet := ⟨fun _ => rfl, rfl⟩

/-- The shell of a second start. -/
def second : Env := { booted with pid := "8" }

theorem run_to_image (e : Env) (h : e = booted ∨ e = second) :
    ∃ t url k, Run (mainFlow e) t (.call (.writeImage url "/dev/sda") k) ∧
      ∀ ev ∈ t, unshared ev.1 := by
  have image : ∀ e, (play (fun _ => sample) 42 [] (mainFlow e)).2.next =
      some (.writeImage (imageUrl "9.5") "/dev/sda") →
      (∀ ev ∈ (play (fun _ => sample) 42 [] (mainFlow e)).1, unshared ev.1) →
      ∃ t url k, Run (mainFlow e) t (.call (.writeImage url "/dev/sda") k) ∧
        ∀ ev ∈ t, unshared ev.1 := by
    intro e hn ht
    obtain ⟨k, hk⟩ := eq_call_of_next hn
    exact ⟨_, _, k, hk ▸ run_play _ _ _, ht⟩
  rcases h with rfl | rfl
  · exact image booted (by decide +kernel) (by decide +kernel)
  · exact image second (by decide +kernel) (by decide +kernel)

theorem orderly_oneWriter_single : ∃ s, s.Writing "7" ∧ OneWriter s := by
  obtain ⟨t, url, k, hr, ht⟩ := run_to_image booted (.inl rfl)
  have start := runs_to_starting booted rfl rfl (idle_quiet.procs _)
  have hp := set_procs_self quiet "7" (some (starting booted))
  have hwrite : Orderly (quiet.set "7" (some (starting booted))) (.answer "7" ⟨0, ""⟩) := by
    refine ⟨fun _ _ _ => ⟨?_, rfl⟩, fun _ _ _ => ?_⟩ <;> exact fun ⟨_, hf, _⟩ => nomatch hf
  have write := runs_to_writing hp (fun _ _ h => h) hwrite hr ht
  exact ⟨_, ⟨_, _, set_procs_self .., rfl, rfl⟩, orderly_oneWriter (start.trans write) idle_quiet⟩

/-- Both starts find no pidfile before either has written it. -/
theorem two_starts_two_writers :
    ∃ s s', Idle s ∧ Runs (fun _ _ => True) s s' ∧ ¬ OneWriter s' := by
  obtain ⟨t, url, k, hr, ht⟩ := run_to_image booted (.inl rfl)
  obtain ⟨t', url', k', hr', ht'⟩ := run_to_image second (.inr rfl)
  have free : ∀ {s s'}, Runs Orderly s s' → Runs (fun _ _ => True) s s' := fun h =>
    h.mono fun _ _ _ => trivial
  have start₁ := free (runs_to_starting booted rfl rfl (idle_quiet.procs _))
  have start₂ := free (runs_to_starting (s := quiet.set "7" (some (starting booted))) second rfl rfl
    (set_procs_of_ne quiet (by decide) _))
  generalize hs : (quiet.set "7" (some (starting booted))).set second.pid
    (some (starting second)) = s at start₂
  have hp₁ : s.procs "7" = some (starting booted) := by
    subst hs
    rw [set_procs_of_ne _ (by decide), set_procs_self]
  have hp₂ : s.procs "8" = some (starting second) := by
    subst hs
    exact set_procs_self ..
  have write₁ := runs_to_writing (P := fun _ _ => True) hp₁ (fun _ _ _ => trivial) trivial hr ht
  generalize hs' : { s with pidfile := some booted.pid }.set booted.pid
    (some (writing booted t _ k)) = s' at write₁
  have hp₁' : s'.procs "7" = some (writing booted t (.writeImage url "/dev/sda") k) := by
    subst hs'
    exact set_procs_self ..
  have hp₂' : s'.procs "8" = some (starting second) := by
    subst hs'
    rw [set_procs_of_ne _ (by decide)]
    exact hp₂
  have write₂ := runs_to_writing (P := fun _ _ => True) hp₂' (fun _ _ _ => trivial) trivial hr' ht'
  refine ⟨quiet, _, idle_quiet, ((start₁.trans start₂).trans write₁).trans write₂, fun h => ?_⟩
  have hw₁ : Writing ({ s' with pidfile := some "8" }.set "8" (some (writing second t'
      (.writeImage url' "/dev/sda") k'))) "7" :=
    ⟨_, _, (set_procs_of_ne _ (by decide) _).trans hp₁', rfl, rfl⟩
  have hw₂ : Writing ({ s' with pidfile := some "8" }.set "8" (some (writing second t'
      (.writeImage url' "/dev/sda") k'))) "8" :=
    ⟨_, _, set_procs_self .., rfl, rfl⟩
  exact absurd (h.unique hw₁ hw₂) (by decide)

end Host
end HassioInstaller
