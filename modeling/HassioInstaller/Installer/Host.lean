import HassioInstaller.Installer.Interrupt
import Mathlib.Logic.Relation
import Mathlib.Logic.Function.Basic

/-! # Installers on one host

Any number of instances of the script run side by side and share the pidfile. One step of the host
starts an instance, or lets one of them issue a command or take its answer, unroll a loop, be
interrupted or end. A command is in flight between the two, and a killed instance leaves the
pipeline it had in flight behind as an orphan. -/

namespace HassioInstaller
open Installer Script

/-- A running instance. -/
structure Proc where
  env : Env
  arg : Mode
  /-- What it still has to do. -/
  code : Sh PUnit
  /-- What it has done. -/
  hist : List Event
  /-- The command in flight. -/
  busy : Option Cmd
  /-- SIGINT has been delivered to it. -/
  interrupted : Bool

/-- A fresh instance. -/
def Proc.fresh (env : Env) (arg : Mode) : Proc := ⟨env, arg, installer env arg, [], none, false⟩

structure Host where
  /-- What is written in `/tmp/installer.pid`, if it exists. -/
  pidfile : Option String
  /-- The live instances by the numbers of their shells. -/
  procs : String → Option Proc
  /-- The pipelines left behind by killed instances and still running. -/
  orphans : List Cmd

inductive Action
  | start (env : Env) (arg : Mode)
  | issue (pid : String)
  | answer (pid : String) (r : Answer)
  | unroll (pid : String)
  | interrupt (pid : String)
  | finish (pid : String)
  | orphanEnds (c : Cmd)

namespace Host

def set (s : Host) (pid : String) (p : Option Proc) : Host :=
  { s with procs := Function.update s.procs pid p }

/-- The pipeline an instance has in flight. -/
def inFlight (s : Host) (pid : String) : List Cmd :=
  ((s.procs pid).bind Proc.busy).toList.filter Cmd.pipeline

/-- The signal reaches the shell and not the children of its pipeline. -/
def killed (s : Host) (pid : String) : Host :=
  { s.set pid none with orphans := s.orphans ++ s.inFlight pid }

/-- What a command does to the pidfile and to other instances. -/
def effect (s : Host) : Cmd → Host
  | .writePidfile pid => { s with pidfile := some pid }
  | .rmPidfile => { s with pidfile := none }
  | .kill _ pid => s.killed pid
  | _ => s

/-- The answers a command may give; `/proc/` itself exists, and a number that is no live instance
may be that of any other process. -/
def Answers (s : Host) : Cmd → Answer → Prop
  | .pidfileExists, r => r.ok ↔ s.pidfile.isSome
  | .catPidfile, r => r.out = s.pidfile.getD ""
  | .procExists pid, r => pid = "" ∨ (s.procs pid).isSome → r.ok
  | _, _ => True

/-- An instance goes on, unless it has just killed itself. -/
def resume (s : Host) (pid : String) (p : Proc) : Host :=
  if (s.procs pid).isSome then s.set pid (some p) else s

inductive Step (s : Host) : Action → Host → Prop
  | start : s.procs env.pid = none → Step s (.start env arg) (s.set env.pid (some (.fresh env arg)))
  | issue : s.procs pid = some p → p.busy = none → p.code = .call c k →
    Step s (.issue pid) (s.set pid (some { p with busy := some c }))
  | answer : s.procs pid = some p → p.busy = some c → p.code = .call c k → s.Answers c r →
    Step s (.answer pid r)
      ((s.effect c).resume pid { p with code := k r, hist := p.hist ++ [(c, r)], busy := none })
  | unroll {σ β : Type} {body : σ → Sh (σ ⊕ β)} {x : σ} {k : β → Sh PUnit} :
    s.procs pid = some p → p.code = .loop body x k →
    Step s (.unroll pid) (s.set pid (some { p with code := (body x).bind (again body k) }))
  | interrupt : s.procs pid = some p → p.busy = none → ¬ p.code.Ended →
    Step s (.interrupt pid)
      (s.set pid (some { p with code := Installer.interrupted p.env p.code, interrupted := true }))
  | finish : s.procs pid = some p → p.code.Ended → Step s (.finish pid) (s.set pid none)
  | orphanEnds : c ∈ s.orphans → Step s (.orphanEnds c) { s with orphans := s.orphans.erase c }

/-- No instance is running. -/
structure Idle (s : Host) : Prop where
  procs : ∀ pid, s.procs pid = none
  orphans : s.orphans = []

/-- A run of the host whose steps meet `P`. -/
def Runs (P : Host → Action → Prop) : Host → Host → Prop :=
  Relation.ReflTransGen fun s s' => ∃ a, Step s a s' ∧ P s a

/-- An invariant of the steps that meet `P` holds throughout a run of them. -/
theorem Runs.invariant {P : Host → Action → Prop} {I : Host → Prop}
    (step : ∀ {s a s'}, I s → Step s a s' → P s a → I s') (hr : Runs P s s') (h : I s) : I s' := by
  induction hr with
  | refl => exact h
  | tail _ hs ih =>
    obtain ⟨a, hs, hP⟩ := hs
    exact step ih hs hP

theorem Runs.mono {P P' : Host → Action → Prop} (hr : Runs P s s') (h : ∀ s a, P s a → P' s a) :
    Runs P' s s' :=
  Relation.ReflTransGen.mono (fun _ _ ⟨a, hs, hP⟩ => ⟨a, hs, h _ a hP⟩) _ _ hr

/-- The instance has the pipeline `c` in flight. -/
def Writing (s : Host) (pid : String) : Prop :=
  ∃ p c, s.procs pid = some p ∧ p.busy = some c ∧ c.pipeline

/-- At most one pipeline that writes a drive is running. -/
structure OneWriter (s : Host) : Prop where
  unique : s.Writing pid → s.Writing pid' → pid = pid'
  alone : s.Writing pid → s.orphans = []
  orphan : s.orphans.length ≤ 1

@[simp] theorem set_pidfile (s : Host) (pid : String) (p : Option Proc) :
    (s.set pid p).pidfile = s.pidfile := rfl

@[simp] theorem set_orphans (s : Host) (pid : String) (p : Option Proc) :
    (s.set pid p).orphans = s.orphans := rfl

@[simp] theorem set_procs_self (s : Host) (pid : String) (p : Option Proc) :
    (s.set pid p).procs pid = p := Function.update_self ..

theorem set_procs_of_ne (s : Host) {pid pid' : String} (h : pid' ≠ pid) (p : Option Proc) :
    (s.set pid p).procs pid' = s.procs pid' := Function.update_of_ne h ..

theorem set_procs_eq_some {s : Host} (h : (s.set pid (some p)).procs pid' = some p') :
    pid' = pid ∧ p' = p ∨ pid' ≠ pid ∧ s.procs pid' = some p' := by
  by_cases hp : pid' = pid
  · subst hp
    rw [set_procs_self] at h
    exact .inl ⟨rfl, (Option.some.inj h).symm⟩
  · rw [set_procs_of_ne s hp] at h
    exact .inr ⟨hp, h⟩

theorem set_none_eq_some {s : Host} (h : (s.set pid none).procs pid' = some p') :
    pid' ≠ pid ∧ s.procs pid' = some p' := by
  by_cases hp : pid' = pid
  · subst hp
    rw [set_procs_self] at h
    cases h
  · rw [set_procs_of_ne s hp] at h
    exact ⟨hp, h⟩

theorem resume_of_some {s : Host} (hp : s.procs pid = some p₀) (p : Proc) :
    s.resume pid p = s.set pid (some p) := by
  rw [resume, hp]
  rfl

theorem resume_of_none {s : Host} (hp : s.procs pid = none) (p : Proc) : s.resume pid p = s := by
  rw [resume, hp]
  rfl

/-- No command changes another instance other than by killing it. -/
theorem procs_of_effect {s : Host} {c : Cmd} (h : (s.effect c).procs pid = some p) :
    s.procs pid = some p := by
  cases c with
  | kill signal x => exact (set_none_eq_some h).2
  | _ => exact h

theorem set_set (s : Host) (pid : String) (p p' : Option Proc) :
    (s.set pid p).set pid p' = s.set pid p' := by
  simp [set]

theorem set_self {s : Host} (h : s.procs pid = p) : s.set pid p = s := by
  subst h
  simp [set]

/-! ## One instance on its own -/

/-- The commands that have no part in the pidfile. -/
def unshared : Cmd → Bool
  | .writePidfile _ => false
  | c => !c.kills

theorem effect_of_unshared (s : Host) {c : Cmd} (hc : unshared c) : s.effect c = s := by
  cases c <;> first | rfl | cases hc

theorem answers_of_unshared (s : Host) {c : Cmd} (hc : unshared c) (r : Answer) :
    s.Answers c r := by
  cases c with
  | pidfileExists | catPidfile | procExists => cases hc
  | _ => trivial

/-- A step of the instance `pid` that has no part in the pidfile. -/
inductive Alone (pid : String) (s : Host) : Action → Prop
  | issue : Alone pid s (.issue pid)
  | unroll : Alone pid s (.unroll pid)
  | answer : s.procs pid = some p → p.busy = some c → unshared c → Alone pid s (.answer pid r)

/-- A run of the script of an instance that does not touch the pidfile is a run of the host. -/
theorem runs_alone {q : Sh PUnit} (hr : Run p.code t q) (ht : ∀ e ∈ t, unshared e.1)
    (hp : s.procs pid = some p) (hb : p.busy = none) :
    Runs (Alone pid) s
      (s.set pid (some { p with code := q, hist := p.hist ++ t, busy := none })) := by
  generalize hc : p.code = code at hr
  induction hr generalizing s p with
  | @refl code =>
    have hsame : ({ p with code := code, hist := p.hist ++ [], busy := none } : Proc) = p := by
      cases p
      cases hc
      cases hb
      simp
    rw [hsame, set_self hp]
    exact .refl
  | step hstep _ ih =>
    cases hstep with
    | @call c k r =>
      obtain ⟨hun, ht⟩ := List.forall_mem_cons.mp ht
      have issue := Step.issue hp hb hc
      have hp₁ := set_procs_self s pid (some { p with busy := some c })
      have answer := Step.answer hp₁ rfl hc (answers_of_unshared _ hun r)
      rw [effect_of_unshared _ hun, resume_of_some hp₁, set_set] at answer
      have rest := ih (s := s.set pid (some ⟨p.env, p.arg, k r, p.hist ++ [(c, r)], none,
        p.interrupted⟩)) ht (set_procs_self ..) rfl rfl
      rw [set_set, List.append_assoc] at rest
      exact .head ⟨_, issue, .issue⟩ (.head ⟨_, answer, .answer hp₁ rfl hun⟩ rest)
    | loop =>
      rename_i body x k _
      have unroll := Step.unroll hp hc
      have rest := ih (p := { p with code := (body x).bind (again body k) }) ht
        (set_procs_self s pid (some _)) hb rfl
      rw [set_set] at rest
      exact .head ⟨_, unroll, .unroll⟩ rest

end Host
end HassioInstaller
