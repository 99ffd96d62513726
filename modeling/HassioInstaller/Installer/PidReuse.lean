import HassioInstaller.Installer.PidfileLock

/-! # Process numbers that are used again

The pidfile holds a number, and `/proc` only tells whether some process has it now. Here the host is
a part of the whole process table, in which other processes come and go and may get any number that
is free. A start refuses, and `--kill` signals, because of a number read from the pidfile. As long as
nobody is given such a number, it is that of the installer that wrote it or nobody's. -/

namespace HassioInstaller
open Installer Script

/-- What an instance knows of the lock: the number it read last, whether its last look at `/proc`
found a process, and whether it has written its own number. -/
structure Seen where
  read : Option String
  alive : Bool
  wrote : Bool
  deriving DecidableEq, Repr

def Seen.step (s : Seen) : Cmd → Answer → Seen
  | .catPidfile, r => { s with read := some r.out }
  | .procExists _, r => { s with alive := r.status == 0 }
  | .writePidfile _, _ => { s with wrote := true }
  | _, _ => s

def seen (h : List Event) : Seen := h.foldl (fun s e => s.step e.1 e.2) ⟨none, false, false⟩

theorem seen_concat (h : List Event) (e : Event) : seen (h ++ [e]) = (seen h).step e.1 e.2 := by
  simp [seen]

/-- Neither a look at the lock nor a use of it; its removal is none. -/
def Cmd.blind : Cmd → Bool
  | .catPidfile | .procExists _ | .alreadyRunning | .writePidfile _ | .kill .. => false
  | _ => true

theorem Cmd.blind_of_choosing {c : Cmd} (h : c.choosing) : c.blind := by
  cases c <;> first | rfl | cases h

theorem Cmd.blind_of_erases {c : Cmd} (h : c.erases disk) : c.blind := by
  cases c <;> first | rfl | cases h

theorem Seen.step_blind (s : Seen) {c : Cmd} (hc : c.blind) (r : Answer) : s.step c r = s := by
  cases c <;> first | rfl | cases hc

/-- An instance with the number `pid` tests and signals the number it read last, it tests before it
writes its own, and refuses only to start, after a test that found a process. -/
def Seen.Allows (pid : String) (arg : Mode) (s : Seen) : Cmd → Prop
  | .procExists q => s.read = some q ∧ s.wrote = false
  | .kill _ q => s.read = some q
  | .alreadyRunning => s.alive ∧ arg.helper = false
  | .writePidfile x => x = pid
  | _ => True

theorem Seen.allows_blind {s : Seen} {c : Cmd} (hc : c.blind) : s.Allows pid arg c := by
  cases c <;> trivial

namespace Installer

abbrev seenContract (pid : String) (arg : Mode) : Contract Seen Cmd Answer :=
  .monitor (fun _ _ => True) Seen.step (Seen.Allows pid arg) fun _ => True

section
variable {pid : String} {arg : Mode} {s : Seen}

theorem wp_blind {p : Sh α} {B : α → Prop} (hp : Only (fun c => c.blind) p B) :
    wp (seenContract pid arg) p (fun a s' => B a ∧ s' = s) s := by
  refine hp.frame (· = s) (fun _ hc => Seen.allows_blind hc) ?_ (fun _ _ => trivial) rfl
  intro s₁ c r s₂ hs hc hn
  rw [hn.2, hs, Seen.step_blind _ hc]

theorem wp_blind_call {k : Answer → Sh α} {Q : α → Seen → Prop} (hc : c.blind)
    (hk : ∀ r, wp (seenContract pid arg) (k r) Q s) :
    wp (seenContract pid arg) (.call c k) Q s := by
  refine wp_call_monitor.mpr ⟨Seen.allows_blind hc, fun r _ => ?_⟩
  rw [Seen.step_blind _ hc]
  exact hk r

/-- The test reads a number and looks for it. -/
theorem wp_pidfileAlive (hs : s.wrote = false) : wp (seenContract pid arg) pidfileAlive
    (fun alive s' => s'.wrote = false ∧ (alive → s'.alive)) s := by
  refine wp_blind_call rfl fun st => ?_
  rw [ret_bind]
  split
  · refine wp_call_monitor.mpr ⟨trivial, fun r _ => ?_⟩
    refine wp_call_monitor.mpr ⟨⟨rfl, hs⟩, fun r' _ => ?_⟩
    exact wp_ret.mpr ⟨hs, id⟩
  · exact wp_ret.mpr ⟨hs, fun h => by cases h⟩

theorem wp_acquire (env : Env) (harg : arg.helper = false) (hs : s.wrote = false) :
    wp (seenContract env.pid arg) (acquire env) (fun _ _ => True) s := by
  refine wp_bind.mpr ((wp_pidfileAlive hs).mono fun running s' h => ?_)
  obtain ⟨-, halive⟩ := h
  split
  · have hrefuse : s'.Allows env.pid arg .alreadyRunning := ⟨halive ‹_›, harg⟩
    exact wp_call_monitor.mpr ⟨hrefuse, fun _ _ => wp_exit.mpr trivial⟩
  · have hwrite : s'.Allows env.pid arg (.writePidfile env.pid) := rfl
    exact wp_call_monitor.mpr ⟨hwrite, fun _ _ => wp_ret.mpr trivial⟩

theorem wp_start (env : Env) (harg : arg.helper = false) (hs : s.wrote = false) :
    wp (seenContract env.pid arg) (start env) (fun _ _ => True) s := by
  have hmain : Only (fun c => c.blind) (mainFlow env) fun _ => True :=
    only_mainFlow (fun _ => Cmd.blind_of_choosing) (fun _ _ => Cmd.blind_of_erases) (fun _ => rfl)
      (fun _ => rfl) (fun _ => rfl) rfl (fun _ => rfl) rfl env
  refine wp_bind.mpr ((wp_acquire env harg hs).mono fun _ s' _ => ?_)
  exact (wp_blind hmain).mono fun _ _ _ => trivial

theorem wp_killLoop (signals : List Nat) (hread : s.read = some q) (hs : s.wrote = false) :
    wp (seenContract pid arg) (killLoop q signals) (fun _ _ => True) s := by
  induction signals generalizing s with
  | nil => exact wp_ret.mpr trivial
  | cons i is ih =>
    have hsignal : s.Allows pid arg (.kill (if i > 3 then 9 else 15) q) := hread
    have htest : s.Allows pid arg (.procExists q) := ⟨hread, hs⟩
    refine wp_blind_call rfl fun _ => ?_
    refine wp_call_monitor.mpr ⟨hsignal, fun _ _ => wp_blind_call rfl fun _ => ?_⟩
    refine wp_call_monitor.mpr ⟨htest, fun r _ => ?_⟩
    rw [ret_bind]
    split
    · exact wp_ret.mpr trivial
    · exact ih hread hs

theorem wp_kill (hs : s.wrote = false) :
    wp (seenContract pid arg) kill (fun _ _ => True) s := by
  refine wp_bind.mpr ((wp_pidfileAlive hs).mono fun alive s' h => ?_)
  obtain ⟨hs', -⟩ := h
  split
  · refine wp_call_monitor.mpr ⟨trivial, fun r _ => ?_⟩
    have hloop : wp (seenContract pid arg) (killLoop r.out [1, 2, 3, 4]) (fun _ _ => True)
        (s'.step .catPidfile r) := wp_killLoop _ rfl hs'
    rw [ret_bind]
    exact wp_bind.mpr (hloop.mono fun _ _ _ => wp_blind_call rfl fun _ => wp_ret.mpr trivial)
  · exact wp_blind_call rfl fun _ => wp_blind_call rfl fun _ => wp_ret.mpr trivial

theorem seen_installer (env : Env) (arg : Mode) :
    wp (seenContract env.pid arg) (installer env arg) (fun _ _ => True) (seen []) := by
  have passive : ∀ c : Cmd, c.passiveOrReboot → c.blind := fun _ hc =>
    Cmd.blind_of_choosing (Cmd.passiveOrReboot.choosing hc)
  by_cases hkill : arg = .kill
  · subst hkill
    refine wp_bind.mpr ((wp_blind (only_note fun _ => rfl)).mono fun _ s h => ?_)
    obtain ⟨-, rfl⟩ := h
    exact wp_bind.mpr ((wp_kill rfl).mono fun _ _ _ => wp_exit.mpr trivial)
  cases harg : arg.helper with
  | true =>
    have hblind : Only (fun c => c.blind) (installer env arg) fun _ => True :=
      only_helper passive (fun h => absurd h hkill) env harg
    exact (wp_blind hblind).mono fun _ _ _ => trivial
  | false =>
    refine wp_bind.mpr ((wp_blind (only_note fun _ => rfl)).mono fun _ s h => ?_)
    obtain ⟨-, rfl⟩ := h
    cases arg with
    | test => exact wp_start { env with HOSTNAME := "test" } rfl rfl
    | plain => exact wp_start env rfl rfl
    | _ => cases harg

theorem only_exitMenu (env : Env) : Only (fun c => c.blind) (exit env) fun _ => True :=
  within_bind.mpr (within_output.mpr ⟨rfl, fun _ => only_exitChoice (fun _ hc =>
    Cmd.blind_of_choosing (Cmd.passiveOrReboot.choosing hc)) rfl env fun _ => trivial⟩)

/-- The exit menu neither looks at the lock nor takes it. -/
theorem seen_interrupted (env : Env) {q : Sh PUnit}
    (h : wp (seenContract pid arg) q (fun _ _ => True) s) :
    wp (seenContract pid arg) (interrupted env q) (fun _ _ => True) s := by
  refine wp_bind.mpr ((wp_blind (only_exitMenu env)).mono fun _ s' hs => ?_)
  rw [hs.2]
  exact h

/-! ## What a script may still do with a number -/

/-- The pidfile is not read. -/
def Unread (t : List Event) : Prop := ∀ e ∈ t, e.1 ≠ .catPidfile

/-- The script signals the process `q`. -/
def Signals (q : String) (p : Sh PUnit) : Prop := ∃ sig k, p = .call (.kill sig q) k

/-- The script looks for the process `q` and may refuse to start because of it. -/
def Refuses (q : String) (p : Sh PUnit) : Prop :=
  ∃ k r k', p = .call (.procExists q) k ∧ k r = .call .alreadyRunning k'

/-- The script may come to `A` before it reads the pidfile again. -/
def Ahead (A : Sh PUnit → Prop) (p : Sh PUnit) : Prop := ∃ t p', Unread t ∧ Run p t p' ∧ A p'

/-- The script may signal the process `q` or refuse because of it before it reads the pidfile
again. -/
def Relies (p : Sh PUnit) (q : String) : Prop := Ahead (Signals q) p ∨ Ahead (Refuses q) p

theorem Ahead.of_run {A : Sh PUnit → Prop} {p p' : Sh PUnit} (ht : Unread t) (hr : Run p t p')
    (h : Ahead A p') : Ahead A p := by
  obtain ⟨t', p'', ht', hr', hA⟩ := h
  refine ⟨t ++ t', p'', fun e he => ?_, hr.trans hr', hA⟩
  exact (List.mem_append.mp he).elim (ht e) (ht' e)

theorem Relies.of_run {p p' : Sh PUnit} (ht : Unread t) (hr : Run p t p') (h : Relies p' q) :
    Relies p q :=
  h.imp (.of_run ht hr) (.of_run ht hr)

/-- Nothing of the exit menu is a use of the lock. -/
theorem Ahead.of_interrupted {A : Sh PUnit → Prop} {env : Env} {p : Sh PUnit}
    (hA : ∀ p, A p → ∃ c k, p = .call c k ∧ c.blind = false) (h : Ahead A (interrupted env p)) :
    Ahead A p := by
  obtain ⟨t, p', ht, hr, hp'⟩ := h
  obtain ⟨c, k, hc, hblind⟩ := hA p' hp'
  rcases hr.of_bind with ⟨p₁, hp₁, hr₁⟩ | ⟨t₁, t₂, a, htt, -, hr₂⟩
  · cases p₁ with
    | ret a => exact ⟨[], p', fun _ h => (List.not_mem_nil h).elim, hp₁ ▸ .refl, hp'⟩
    | call c₁ k₁ =>
      rw [hc] at hp₁
      cases hp₁
      have := only_iff_issues.mp (only_exitMenu env) t c ⟨k₁, hr₁⟩
      rw [hblind] at this
      cases this
    | exit | loop =>
      rw [hc] at hp₁
      cases hp₁
  · subst htt
    exact ⟨t₂, p', fun e he => ht e (List.mem_append_right _ he), hr₂, hp'⟩

theorem Signals.call {p : Sh PUnit} (h : Signals q p) : ∃ c k, p = .call c k ∧ c.blind = false :=
  let ⟨_, k, hp⟩ := h
  ⟨_, k, hp, rfl⟩

theorem Refuses.call {p : Sh PUnit} (h : Refuses q p) : ∃ c k, p = .call c k ∧ c.blind = false :=
  let ⟨k, _, _, hp, _⟩ := h
  ⟨_, k, hp, rfl⟩

theorem Relies.of_interrupted {p : Sh PUnit} (h : Relies (interrupted env p) q) : Relies p q :=
  h.imp (.of_interrupted fun _ => Signals.call) (.of_interrupted fun _ => Refuses.call)

/-- What was read last stays so until the pidfile is read again. -/
theorem read_of_unread (ht : Unread t) (s : Seen) :
    (t.foldl (fun s e => s.step e.1 e.2) s).read = s.read := by
  induction t generalizing s with
  | nil => rfl
  | cons e t ih =>
    obtain ⟨c, r⟩ := e
    have hc : c ≠ .catPidfile := ht _ List.mem_cons_self
    have hstep : (s.step c r).read = s.read := by
      cases c with
      | catPidfile => exact absurd rfl hc
      | _ => rfl
    rw [List.foldl_cons, ih fun e he => ht e (List.mem_cons_of_mem _ he), hstep]

variable {p : Sh PUnit} {Q : PUnit → Seen → Prop}

theorem wp.ahead {A : Sh PUnit → Prop} (h : wp (seenContract pid arg) p Q s) (ha : Ahead A p) :
    ∃ p' s', A p' ∧ wp (seenContract pid arg) p' Q s' ∧ s'.read = s.read := by
  obtain ⟨t, p', ht, hr, hA⟩ := ha
  refine ⟨p', _, hA, h.run hr (path_monitor_iff.mpr ⟨rfl, fun _ _ => trivial⟩), ?_⟩
  exact read_of_unread ht s

/-- A script relies on the number it read last. -/
theorem read_of_relies (h : wp (seenContract pid arg) p Q s) (hq : Relies p q) :
    s.read = some q := by
  rcases hq with hq | hq
  · obtain ⟨p', s', ⟨sig, k, rfl⟩, hp', hs'⟩ := wp.ahead h hq
    exact hs'.symm.trans (wp_call.mp hp').1
  · obtain ⟨p', s', ⟨k, r, k', rfl, -⟩, hp', hs'⟩ := wp.ahead h hq
    exact hs'.symm.trans (wp_call.mp hp').1.1

/-- Only a start refuses, because of a process it found. -/
theorem refuses_start (h : wp (seenContract pid arg) (.call (.procExists q) k) Q s)
    (hk : k r = .call .alreadyRunning k') : r.ok ∧ arg.helper = false := by
  have hnext := (wp_call.mp h).2 r _ ⟨trivial, rfl⟩
  rw [hk] at hnext
  obtain ⟨halive, harg⟩ := (wp_call.mp hnext).1
  exact ⟨beq_iff_eq.mp halive, harg⟩

theorem helper_of_refuses (h : wp (seenContract pid arg) p Q s) (hq : Ahead (Refuses q) p) :
    arg.helper = false := by
  obtain ⟨p', s', ⟨k, r, k', rfl, hk⟩, hp', -⟩ := wp.ahead h hq
  exact (refuses_start hp' hk).2

end
end Installer

/-! ## The process table -/

/-- The installers of the host with all other processes. -/
structure Processes where
  host : Host
  /-- The numbers of the processes that are no installers. -/
  others : List String
  nodup : others.Nodup
  /-- A number is that of one process. -/
  apart : pid ∈ others → host.procs pid = none
  /-- The empty text is no number. -/
  numbered : host.procs "" = none ∧ "" ∉ others

namespace Processes

inductive Act
  | host (a : Action)
  | spawn (pid : String)
  | die (pid : String)

/-- The number an action gives to a new process. -/
def Act.creates : Act → Option String
  | .host (.start env _) => some env.pid
  | .spawn pid => some pid
  | _ => none

/-- Some process has the number. -/
def Live (t : Processes) (pid : String) : Prop := (t.host.procs pid).isSome ∨ pid ∈ t.others

/-- There is a directory `/proc/pid` just if some process has the number; `/proc/` itself exists. -/
def Finds (t : Processes) (pid : String) (r : Answer) : Prop := r.ok ↔ pid = "" ∨ t.Live pid

/-- `/proc` tells of all processes. -/
def Fair (t : Processes) : Action → Prop
  | .answer pid r => ∀ p q, t.host.procs pid = some p → p.busy = some (.procExists q) → t.Finds q r
  | _ => True

/-- The new process of a table has a number that was free, as no number is given twice in `t'`. -/
inductive Step (t t' : Processes) : Act → Prop
  | host : Host.Step t.host a t'.host → t'.others = t.others → t.Fair a → Step t t' (.host a)
  | spawn : t'.host = t.host → t'.others = pid :: t.others → Step t t' (.spawn pid)
  | die : pid ∈ t.others → t'.host = t.host → t'.others = t.others.erase pid → Step t t' (.die pid)

/-- A run whose steps meet `P`. -/
def Runs (P : Processes → Act → Prop) : Processes → Processes → Prop :=
  Relation.ReflTransGen fun t t' => ∃ a, Step t t' a ∧ P t a

/-- A live instance that has written its number into the pidfile. -/
def Installer (t : Processes) (pid : String) : Prop :=
  ∃ p, t.host.procs pid = some p ∧ (seen p.hist).wrote

/-- The test that the start `pid` has in flight is answered so that it refuses. -/
def Refused (t : Processes) (pid : String) : Prop :=
  ∃ p q k r k', t.host.procs pid = some p ∧ p.busy = some (.procExists q) ∧
    p.code = .call (.procExists q) k ∧ t.Finds q r ∧ k r = .call .alreadyRunning k'

/-- The process `q` gets the signal that `pid` has in flight. -/
def Signalled (t : Processes) (pid q : String) : Prop :=
  ∃ p sig, t.host.procs pid = some p ∧ p.busy = some (.kill sig q) ∧ t.Live q

/-- A start is refused only beside another installer, and only installers are signalled. -/
structure LockLive (t : Processes) : Prop where
  refused : t.Refused pid → ∃ q, q ≠ pid ∧ t.Installer q
  signalled : t.Signalled pid q → t.Installer q

/-- No process is created under a number the pidfile names or a running instance may still refuse or
signal because of, and no start finds the pidfile gone that it has just seen. -/
structure Unreused (t : Processes) (a : Act) : Prop where
  fresh : a.creates = some q → t.host.pidfile ≠ some q ∧
    ∀ pid p, t.host.procs pid = some p → ¬ Relies p.code q
  kept : a = .host (.answer pid r) → t.host.procs pid = some p → p.busy = some .catPidfile →
    p.arg.helper = false → t.host.pidfile.isSome

/-- The number is that of an installer or of nobody. -/
def Safe (t : Processes) (pid : String) : Prop := t.Live pid → t.Installer pid

theorem not_live_empty (t : Processes) : ¬ t.Live "" := by
  intro h
  rcases h with h | h
  · rw [t.numbered.1] at h
    cases h
  · exact t.numbered.2 h

theorem wrote_of_prefix {h h' : List Event} (hp : h <+: h') (hw : (seen h).wrote) :
    (seen h').wrote := by
  obtain ⟨t, rfl⟩ := hp
  induction t using List.reverseRecOn with
  | nil => rwa [List.append_nil]
  | append_singleton t e ih =>
    obtain ⟨c, r⟩ := e
    rw [← List.append_assoc, seen_concat]
    cases c <;> first | exact ih | rfl

/-- An instance was there before, with a part of its history, or has just been started. -/
theorem procs_of_step (hs : Host.Step s a s') (h : s'.procs pid = some p') :
    (∃ p, s.procs pid = some p ∧ p.hist <+: p'.hist) ∨
      ∃ env arg, a = .start env arg ∧ env.pid = pid := by
  have same : ∀ {p}, s.procs pid = some p → (∃ p', s.procs pid = some p' ∧ p'.hist <+: p.hist) :=
    fun hp => ⟨_, hp, List.prefix_rfl⟩
  cases hs with
  | @start env arg hnone =>
    rcases Host.set_procs_eq_some h with ⟨rfl, rfl⟩ | ⟨-, h⟩
    · exact .inr ⟨env, arg, rfl, rfl⟩
    · exact .inl (same h)
  | issue hp | unroll hp | interrupt hp =>
    rcases Host.set_procs_eq_some h with ⟨rfl, rfl⟩ | ⟨-, h⟩
    · exact .inl ⟨_, hp, List.prefix_rfl⟩
    · exact .inl (same h)
  | @answer pid' p c k r hp hb hc hans =>
    cases hlive : (s.effect c).procs pid' with
    | none =>
      rw [Host.resume_of_none hlive] at h
      exact .inl (same (Host.procs_of_effect h))
    | some p₁ =>
      rw [Host.resume_of_some hlive] at h
      rcases Host.set_procs_eq_some h with ⟨rfl, rfl⟩ | ⟨-, h⟩
      · exact .inl ⟨_, hp, List.prefix_append _ _⟩
      · exact .inl (same (Host.procs_of_effect h))
  | finish => exact .inl (same (Host.set_none_eq_some h).2)
  | orphanEnds => exact .inl (same h)

/-- Only a number given to a new process becomes unsafe. -/
theorem Safe.step {t t' : Processes} (h : t.Safe pid) (hs : Step t t' a) (ha : a.creates ≠ some pid) :
    t'.Safe pid := by
  intro hlive
  cases hs with
  | @host a hs hothers =>
    rcases hlive with hlive | hmem
    · obtain ⟨p', hp'⟩ := Option.isSome_iff_exists.mp hlive
      rcases procs_of_step hs hp' with ⟨p, hp, hpre⟩ | ⟨env, arg, rfl, rfl⟩
      · obtain ⟨p₁, hp₁, hw⟩ := h (.inl (by rw [hp]; rfl))
        obtain rfl : p = p₁ := Option.some.inj (hp.symm.trans hp₁)
        exact ⟨p', hp', wrote_of_prefix hpre hw⟩
      · exact absurd rfl ha
    · rw [hothers] at hmem
      obtain ⟨p, hp, -⟩ := h (.inr hmem)
      rw [t.apart hmem] at hp
      cases hp
  | spawn hhost hothers =>
    rw [Live, hhost, hothers, List.mem_cons] at hlive
    rw [Installer, hhost]
    rcases hlive with hlive | rfl | hmem
    · exact h (.inl hlive)
    · exact absurd rfl ha
    · exact h (.inr hmem)
  | die _ hhost hothers =>
    rw [Live, hhost, hothers] at hlive
    rw [Installer, hhost]
    exact h (hlive.imp id List.mem_of_mem_erase)

/-- What holds of an instance: it keeps to `seenContract`, and it relies on safe numbers only. -/
structure Relying (t : Processes) (pid : String) (p : Proc) : Prop where
  code : wp (seenContract pid p.arg) p.code (fun _ _ => True) (seen p.hist)
  busy : p.busy = some c → ∃ k, p.code = .call c k
  relied : Relies p.code q → t.Safe q
  refuses : ¬ Ahead (Refuses "") p.code

/-- The pidfile names a safe number, and so do all numbers that were read from it and matter. -/
structure Sound (t : Processes) : Prop where
  procs : t.host.procs pid = some p → t.Relying pid p
  named : t.host.pidfile = some q → q ≠ "" ∧ t.Safe q

section
variable {t t' : Processes} {p p' : Proc}

theorem Relying.mono (h : t.Relying pid p) (hsafe : ∀ q, Relies p.code q → t.Safe q → t'.Safe q) :
    t'.Relying pid p where
  code := h.code
  busy := h.busy
  relied hq := hsafe _ hq (h.relied hq)
  refuses := h.refuses

/-- An instance goes on without reading the pidfile. -/
theorem Relying.update (h : t.Relying pid p)
    (hcode : wp (seenContract pid p'.arg) p'.code (fun _ _ => True) (seen p'.hist))
    (hbusy : ∀ c, p'.busy = some c → ∃ k, p'.code = .call c k)
    (hrelies : ∀ q, Ahead (Signals q) p'.code → Ahead (Signals q) p.code)
    (hrefuses : ∀ q, Ahead (Refuses q) p'.code → Ahead (Refuses q) p.code) :
    t.Relying pid p' where
  code := hcode
  busy := hbusy _
  relied hq := h.relied (hq.imp (hrelies _) (hrefuses _))
  refuses hq := h.refuses (hrefuses _ hq)

/-- A fresh instance has read nothing it could rely on. -/
theorem relying_fresh (t : Processes) (env : Env) (arg : Mode) :
    t.Relying env.pid (.fresh env arg) := by
  have hcode : wp (seenContract env.pid arg) (installer env arg) (fun _ _ => True) (seen []) :=
    seen_installer env arg
  have none : ∀ q, ¬ Relies (installer env arg) q := by
    intro q hq
    cases read_of_relies hcode hq
  exact ⟨hcode, (by cases ·), fun hq => absurd hq (none _), fun hq => none _ (.inr hq)⟩

/-- An instance takes the answer of its command. -/
theorem Sound.answer (h : t.Sound) (hp : t.host.procs pid = some p) (hc : p.code = .call c k)
    (hans : t.host.Answers c r)
    (hkept : c = .catPidfile → p.arg.helper = false → t.host.pidfile.isSome) :
    t.Relying pid { p with code := k r, hist := p.hist ++ [(c, r)], busy := none } := by
  have hrelying := h.procs hp
  have hwp := hrelying.code
  rw [hc] at hwp
  have hcode : wp (seenContract pid p.arg) (k r) (fun _ _ => True) (seen (p.hist ++ [(c, r)])) := by
    rw [seen_concat]
    exact (wp_call.mp hwp).2 r _ ⟨trivial, rfl⟩
  by_cases hcat : c = .catPidfile
  · subst hcat
    have hread : ∀ q, Relies (k r) q → q = t.host.pidfile.getD "" := by
      intro q hq
      have hread := read_of_relies hcode hq
      rw [seen_concat] at hread
      rw [← hans]
      exact (Option.some.inj hread).symm
    refine ⟨hcode, (by cases ·), fun {q} hq => ?_, fun hq => ?_⟩
    · have hq := hread q hq
      cases hfile : t.host.pidfile with
      | none =>
        rw [hfile] at hq
        exact hq ▸ fun hlive => absurd hlive t.not_live_empty
      | some q' =>
        rw [hfile] at hq
        exact hq ▸ (h.named hfile).2
    · obtain ⟨q, hfile⟩ := Option.isSome_iff_exists.mp (hkept rfl (helper_of_refuses hcode hq))
      have hempty := hread "" (.inr hq)
      rw [hfile] at hempty
      exact (h.named hfile).1 hempty.symm
  · have hrun : Run p.code [(c, r)] (k r) := hc ▸ .call r .refl
    have hunread : Unread [(c, r)] := fun e he => by
      rw [List.mem_singleton.mp he]
      exact hcat
    exact hrelying.update hcode (fun _ h => by cases h) (fun _ => .of_run hunread hrun)
      fun _ => .of_run hunread hrun

/-- After a step of the host every instance relies on numbers that were safe before. -/
theorem Sound.relying (h : t.Sound) (hs : Host.Step t.host a s') (hu : t.Unreused (.host a))
    (hp' : s'.procs pid = some p') : t.Relying pid p' := by
  cases hs with
  | @start env arg =>
    rcases Host.set_procs_eq_some hp' with ⟨rfl, rfl⟩ | ⟨-, hp'⟩
    · exact relying_fresh t env arg
    · exact h.procs hp'
  | issue hp hb hc =>
    rcases Host.set_procs_eq_some hp' with ⟨rfl, rfl⟩ | ⟨-, hp'⟩
    · refine (h.procs hp).update (h.procs hp).code (fun c' hc' => ?_) (fun _ => id) fun _ => id
      cases hc'
      exact ⟨_, hc⟩
    · exact h.procs hp'
  | @answer pid' p c k r hp hb hc hans =>
    cases hlive : (t.host.effect c).procs pid' with
    | none =>
      rw [Host.resume_of_none hlive] at hp'
      exact h.procs (Host.procs_of_effect hp')
    | some p₁ =>
      rw [Host.resume_of_some hlive] at hp'
      rcases Host.set_procs_eq_some hp' with ⟨rfl, rfl⟩ | ⟨-, hp'⟩
      · exact h.answer hp hc hans fun hcat => hu.kept rfl hp (hcat ▸ hb)
      · exact h.procs (Host.procs_of_effect hp')
  | @unroll pid' p σ β body x k hp hc =>
    rcases Host.set_procs_eq_some hp' with ⟨rfl, rfl⟩ | ⟨-, hp'⟩
    · have hwp := (h.procs hp).code
      rw [hc] at hwp
      have hrun : Run p.code [] ((body x).bind (again body k)) := hc ▸ .loop .refl
      have hunread : Unread [] := fun _ he => (List.not_mem_nil he).elim
      refine (h.procs hp).update (hwp.step .loop .nil) (fun c' hc' => ?_)
        (fun _ => .of_run hunread hrun) fun _ => .of_run hunread hrun
      obtain ⟨k, hk⟩ := (h.procs hp).busy hc'
      rw [hc] at hk
      cases hk
    · exact h.procs hp'
  | interrupt hp hb =>
    rcases Host.set_procs_eq_some hp' with ⟨rfl, rfl⟩ | ⟨-, hp'⟩
    · refine (h.procs hp).update (seen_interrupted _ (h.procs hp).code) (fun c' hc' => ?_)
        (fun _ => .of_interrupted fun _ => Signals.call)
        fun _ => .of_interrupted fun _ => Refuses.call
      have hc' := hb.symm.trans hc'
      cases hc'
    · exact h.procs hp'
  | finish => exact h.procs (Host.set_none_eq_some hp').2
  | orphanEnds => exact h.procs hp'

/-- No instance relies on a number that is given to a new process. -/
theorem Unreused.uncreated (hu : t.Unreused (.host a)) (hs : Host.Step t.host a s')
    (hp' : s'.procs pid = some p') (hq : Relies p'.code q) : (Act.host a).creates ≠ some q := by
  intro hc
  cases hs with
  | @start env arg =>
    rcases Host.set_procs_eq_some hp' with ⟨rfl, rfl⟩ | ⟨-, hp'⟩
    · cases read_of_relies (seen_installer env arg) hq
    · exact (hu.fresh hc).2 pid p' hp' hq
  | _ => cases hc

/-- A host step leaves the pidfile as it is, removes it, or lets an instance write its own number. -/
theorem Sound.pidfile (h : t.Sound) (hs : Host.Step t.host a s') (hq : s'.pidfile = some q) :
    t.host.pidfile = some q ∨ ∃ p', s'.procs q = some p' ∧ (seen p'.hist).wrote := by
  cases hs with
  | @answer pid p c k r hp hb hc hans =>
    have hfile : (t.host.effect c).pidfile = some q := by
      rw [Host.resume] at hq
      split at hq <;> exact hq
    by_cases hw : ∃ x, c = .writePidfile x
    · obtain ⟨x, rfl⟩ := hw
      obtain rfl : x = q := Option.some.inj hfile
      have hwp := (h.procs hp).code
      rw [hc] at hwp
      obtain rfl : x = pid := (wp_call.mp hwp).1
      have hlive : (t.host.effect (.writePidfile x)).procs x = some p := hp
      rw [Host.resume_of_some hlive]
      refine .inr ⟨_, Host.set_procs_self .., ?_⟩
      rw [seen_concat]
      rfl
    · refine .inl ?_
      cases c with
      | writePidfile x => exact absurd ⟨x, rfl⟩ hw
      | rmPidfile => cases hfile
      | _ => exact hfile
  | _ => exact .inl hq

/-- Every step that reuses no number keeps the invariant. -/
theorem Sound.step (h : t.Sound) (hs : Step t t' a) (hu : t.Unreused a) : t'.Sound := by
  have named : ∀ {q}, t.host.pidfile = some q → q ≠ "" ∧ t'.Safe q := by
    intro q hq
    refine ⟨(h.named hq).1, (h.named hq).2.step hs fun hc => ?_⟩
    exact (hu.fresh hc).1 hq
  have hs' := hs
  cases hs with
  | host hstep =>
    constructor
    · intro pid p' hp'
      refine (h.relying hstep hu hp').mono fun q hq hsafe => hsafe.step hs' ?_
      exact hu.uncreated hstep hp' hq
    · intro q hq
      rcases h.pidfile hstep hq with hq | ⟨p', hp', hwrote⟩
      · exact named hq
      · refine ⟨fun hempty => ?_, fun _ => ⟨p', hp', hwrote⟩⟩
        rw [hempty, t'.numbered.1] at hp'
        cases hp'
  | spawn hhost | die _ hhost =>
    constructor
    · intro pid p hp
      rw [hhost] at hp
      refine (h.procs hp).mono fun q hq hsafe => hsafe.step hs' fun hc => ?_
      exact (hu.fresh hc).2 pid p hp hq
    · intro q hq
      rw [hhost] at hq
      exact named hq

/-- The invariant makes the lock that of a live installer. -/
theorem Sound.lockLive (h : t.Sound) : LockLive t where
  refused := by
    intro pid hrefused
    obtain ⟨p, q, k, r, k', hp, hb, hc, hfinds, hk⟩ := hrefused
    have hrelying := h.procs hp
    have hahead : Ahead (Refuses q) p.code :=
      ⟨[], p.code, fun _ he => (List.not_mem_nil he).elim, .refl, k, r, k', hc, hk⟩
    have hwp := hrelying.code
    rw [hc] at hwp
    have hwrote := (wp_call.mp hwp).1.2
    have hlive : t.Live q := by
      refine (hfinds.mp (refuses_start hwp hk).1).resolve_left fun hq => ?_
      exact hrelying.refuses (hq ▸ hahead)
    obtain ⟨p', hp', hwrote'⟩ := hrelying.relied (.inr hahead) hlive
    refine ⟨q, fun hq => ?_, p', hp', hwrote'⟩
    rw [hq, hp] at hp'
    cases hp'
    rw [hwrote] at hwrote'
    cases hwrote'
  signalled := by
    intro pid q hsignalled
    obtain ⟨p, sig, hp, hb, hlive⟩ := hsignalled
    obtain ⟨k, hk⟩ := (h.procs hp).busy hb
    have hahead : Ahead (Signals q) p.code :=
      ⟨[], p.code, fun _ he => (List.not_mem_nil he).elim, .refl, sig, k, hk⟩
    exact (h.procs hp).relied (.inl hahead) hlive

end

/-- After a boot no installer runs, and there is no pidfile. -/
structure Booted (t : Processes) : Prop where
  idle : t.host.Idle
  pidfile : t.host.pidfile = none

theorem Booted.sound {t : Processes} (h : t.Booted) : t.Sound where
  procs hp := by
    rw [h.idle.procs] at hp
    cases hp
  named hq := by
    rw [h.pidfile] at hq
    cases hq

/-! ## A run with two starts -/

theorem exists_step {t : Processes} (hs : Host.Step t.host a s') (hfair : t.Fair a)
    (hfree : ∀ env arg, a = .start env arg → env.pid ≠ "" ∧ env.pid ∉ t.others) :
    ∃ t', t'.host = s' ∧ t'.others = t.others ∧ Step t t' (.host a) := by
  have free : ∀ {pid}, pid = "" ∨ pid ∈ t.others → s'.procs pid = none := by
    intro pid hpid
    cases hp' : s'.procs pid with
    | none => rfl
    | some p' =>
      rcases procs_of_step hs hp' with ⟨p, hp, -⟩ | ⟨env, arg, rfl, rfl⟩
      · have hnone : t.host.procs pid = none := hpid.elim (· ▸ t.numbered.1) t.apart
        rw [hnone] at hp
        cases hp
      · obtain ⟨hne, hmem⟩ := hfree env arg rfl
        exact absurd hpid (not_or.mpr ⟨hne, hmem⟩)
  exact ⟨⟨s', t.others, t.nodup, fun h => free (.inr h), free (.inl rfl), t.numbered.2⟩, rfl, rfl,
    .host hs rfl hfair⟩

theorem exists_spawn {t : Processes} (hne : pid ≠ "") (hfree : ¬ t.Live pid) :
    ∃ t', t'.host = t.host ∧ t'.others = pid :: t.others ∧ Step t t' (.spawn pid) := by
  have hmem : pid ∉ t.others := fun h => hfree (.inr h)
  have hnone : t.host.procs pid = none :=
    Option.not_isSome_iff_eq_none.mp fun h => hfree (.inl h)
  refine ⟨⟨t.host, pid :: t.others, List.nodup_cons.mpr ⟨hmem, t.nodup⟩, fun h => ?_, t.numbered.1,
    fun h => ?_⟩, rfl, rfl, .spawn rfl rfl⟩
  · rcases List.mem_cons.mp h with rfl | h
    · exact hnone
    · exact t.apart h
  · rcases List.mem_cons.mp h with h | h
    · exact hne h.symm
    · exact t.numbered.2 h

theorem Runs.mono {P P' : Processes → Act → Prop} {t t' : Processes} (hr : Runs P t t')
    (h : ∀ t a, P t a → P' t a) : Runs P' t t' :=
  Relation.ReflTransGen.mono (fun t _ hs => hs.imp fun a hs => ⟨hs.1, h t a hs.2⟩) _ _ hr

theorem unreused_issue (t : Processes) (pid : String) : t.Unreused (.host (.issue pid)) :=
  ⟨(by cases ·), (by cases ·)⟩

section
variable {t : Processes} {p : Proc}

theorem exists_start (env : Env) (arg : Mode) (hne : env.pid ≠ "") (hfree : ¬ t.Live env.pid)
    (hfile : t.host.pidfile ≠ some env.pid)
    (hrel : ∀ pid p, t.host.procs pid = some p → ¬ Relies p.code env.pid) :
    ∃ t', Runs Unreused t t' ∧ t'.host = t.host.set env.pid (some (.fresh env arg)) ∧
      t'.others = t.others := by
  have hnone : t.host.procs env.pid = none :=
    Option.not_isSome_iff_eq_none.mp fun h => hfree (.inl h)
  have hmem : env.pid ∉ t.others := fun h => hfree (.inr h)
  have hstep : Host.Step t.host (.start env arg) _ := .start hnone
  obtain ⟨t', hhost, hothers, hs⟩ := exists_step hstep trivial fun env' arg' h => by
    cases h
    exact ⟨hne, hmem⟩
  have hu : t.Unreused (.host (.start env arg)) := by
    refine ⟨fun hc => ?_, (by cases ·)⟩
    cases hc
    exact ⟨hfile, hrel⟩
  exact ⟨t', .single ⟨_, hs, hu⟩, hhost, hothers⟩

theorem exists_issue (hp : t.host.procs pid = some p) (hb : p.busy = none)
    (hc : p.code = .call c k) :
    ∃ t', Runs Unreused t t' ∧ t'.host = t.host.set pid (some { p with busy := some c }) ∧
      t'.others = t.others := by
  obtain ⟨t', hhost, hothers, hs⟩ := exists_step (t := t) (.issue hp hb hc) trivial
    fun _ _ h => by cases h
  exact ⟨t', .single ⟨_, hs, unreused_issue t pid⟩, hhost, hothers⟩

/-- An instance issues a command that needs nothing but the pidfile, and takes the answer. -/
theorem exists_call {s : Host} (hhost : t.host = s.set pid (some p)) (hb : p.busy = none)
    (hc : p.code = .call c k) (hans : ∀ p, (s.set pid (some p)).Answers c r)
    (heffect : ∀ p, (s.set pid (some p)).effect c = (s.effect c).set pid (some p))
    (htest : ∀ q, c ≠ .procExists q) (hkept : c = .catPidfile → s.pidfile.isSome) :
    ∃ t', Runs Unreused t t' ∧
      t'.host = (s.effect c).set pid
        (some { p with code := k r, hist := p.hist ++ [(c, r)], busy := none }) ∧
      t'.others = t.others := by
  have hp : t.host.procs pid = some p := by rw [hhost, Host.set_procs_self]
  obtain ⟨t₁, hr, hhost₁, hothers₁⟩ := exists_issue hp hb hc
  rw [hhost, Host.set_set] at hhost₁
  have hp₁ : t₁.host.procs pid = some { p with busy := some c } := by
    rw [hhost₁, Host.set_procs_self]
  have hfair : t₁.Fair (.answer pid r) := by
    intro p' q hp' hb'
    rw [hp₁] at hp'
    cases hp'
    exact absurd (Option.some.inj hb') (htest q)
  have hs := Host.Step.answer (r := r) hp₁ rfl hc (hhost₁ ▸ hans _)
  obtain ⟨t₂, hhost₂, hothers₂, hs₂⟩ := exists_step hs hfair fun _ _ h => by cases h
  have hu : t₁.Unreused (.host (.answer pid r)) := by
    refine ⟨(by cases ·), fun h hp' hb' _ => ?_⟩
    cases h
    rw [hp₁] at hp'
    cases hp'
    rw [hhost₁]
    exact hkept (Option.some.inj hb')
  refine ⟨t₂, hr.tail ⟨_, hs₂, hu⟩, ?_, hothers₂.trans hothers₁⟩
  rw [hhost₂, hhost₁, heffect, Host.resume_of_some (Host.set_procs_self ..), Host.set_set]

/-- A start finds no pidfile and writes its number into it. -/
theorem exists_holding (env : Env) (arg : Mode) {env' : Env} (hstart : installer env arg = start env')
    (hpid : env'.pid = env.pid) (hne : env.pid ≠ "") (hfree : ¬ t.Live env.pid)
    (hrel : ∀ pid p, t.host.procs pid = some p → ¬ Relies p.code env.pid)
    (hfile : t.host.pidfile = none) :
    ∃ t', Runs Unreused t t' ∧
      t'.host = { t.host with pidfile := some env.pid }.set env.pid (some ⟨env, arg, mainFlow env',
        [(.pidfileExists, ⟨1, ""⟩), (.writePidfile env.pid, ⟨0, ""⟩)], none, false⟩) ∧
      t'.others = t.others := by
  obtain ⟨k, hcode, hnext⟩ : ∃ k, start env' = .call .pidfileExists k ∧
      k ⟨1, ""⟩ = .call (.writePidfile env.pid) fun _ => mainFlow env' := hpid ▸ ⟨_, rfl, rfl⟩
  have hother : t.host.pidfile ≠ some env.pid := by
    rw [hfile]
    exact fun h => by cases h
  obtain ⟨t₁, hr₁, hhost₁, hothers₁⟩ := exists_start env arg hne hfree hother hrel
  obtain ⟨t₂, hr₂, hhost₂, hothers₂⟩ := exists_call (r := ⟨1, ""⟩) hhost₁ rfl (hstart.trans hcode)
    (fun p => by simp [Host.Answers, hfile]) (fun _ => rfl) (fun _ h => by cases h)
    (fun h => by cases h)
  obtain ⟨t₃, hr₃, hhost₃, hothers₃⟩ := exists_call (r := ⟨0, ""⟩) hhost₂ rfl hnext
    (fun _ => trivial) (fun _ => rfl) (fun _ h => by cases h) (fun h => by cases h)
  exact ⟨t₃, (hr₁.trans hr₂).trans hr₃, hhost₃, hothers₃.trans (hothers₂.trans hothers₁)⟩

/-- A start finds the pidfile and looks for the process it names. -/
theorem exists_testing (env : Env) (arg : Mode) {env' : Env} (hstart : installer env arg = start env')
    (hne : env.pid ≠ "") (hfree : ¬ t.Live env.pid)
    (hrel : ∀ pid p, t.host.procs pid = some p → ¬ Relies p.code env.pid)
    (hfile : t.host.pidfile = some q) (hq : q ≠ env.pid) :
    ∃ t', Runs Unreused t t' ∧ (t'.Live q → t'.Refused env.pid) ∧
      (∀ pid, pid ≠ env.pid → t'.host.procs pid = t.host.procs pid) ∧ t'.others = t.others := by
  obtain ⟨k₁, k₂, k₃, k₄, hcode₁, hcode₂, hcode₃, hrefuse⟩ :
      ∃ k₁ k₂ k₃ k₄, start env' = .call .pidfileExists k₁ ∧ k₁ ⟨0, ""⟩ = .call .catPidfile k₂ ∧
        k₂ ⟨0, q⟩ = .call (.procExists q) k₃ ∧ k₃ ⟨0, ""⟩ = .call .alreadyRunning k₄ :=
    ⟨_, _, _, _, rfl, rfl, rfl, rfl⟩
  have hother : t.host.pidfile ≠ some env.pid := by
    rw [hfile]
    exact fun h => hq (Option.some.inj h)
  obtain ⟨t₁, hr₁, hhost₁, hothers₁⟩ := exists_start env arg hne hfree hother hrel
  obtain ⟨t₂, hr₂, hhost₂, hothers₂⟩ := exists_call (r := ⟨0, ""⟩) hhost₁ rfl (hstart.trans hcode₁)
    (fun p => by simp [Host.Answers, hfile]) (fun _ => rfl) (fun _ h => by cases h)
    (fun h => by cases h)
  obtain ⟨t₃, hr₃, hhost₃, hothers₃⟩ := exists_call (r := ⟨0, q⟩) hhost₂ rfl hcode₂
    (fun p => by simp [Host.Answers, Host.effect, hfile]) (fun _ => rfl)
    (fun _ h => by cases h)
    (fun _ => by simp [Host.effect, hfile])
  have hp₃ := (congrArg (fun s => s.procs env.pid) hhost₃).trans (Host.set_procs_self ..)
  obtain ⟨t₄, hr₄, hhost₄, hothers₄⟩ := exists_issue hp₃ rfl hcode₃
  refine ⟨t₄, ((hr₁.trans hr₂).trans hr₃).trans hr₄, fun hlive => ?_, fun pid hpid => ?_,
    hothers₄.trans (hothers₃.trans (hothers₂.trans hothers₁))⟩
  · have hp₄ := (congrArg (fun s => s.procs env.pid) hhost₄).trans (Host.set_procs_self ..)
    exact ⟨_, q, k₃, ⟨0, ""⟩, k₄, hp₄, rfl, hcode₃, iff_of_true rfl (.inr hlive), hrefuse⟩
  · rw [hhost₄, Host.set_procs_of_ne _ hpid, hhost₃, Host.set_procs_of_ne _ hpid]
    rfl

end

theorem Runs.sound {t t' : Processes} (hr : Runs Unreused t t') (h : t.Booted) : t'.Sound := by
  induction hr with
  | refl => exact h.sound
  | tail _ hs ih =>
    obtain ⟨a, hs, hu⟩ := hs
    exact ih.step hs hu

/-- In every run in which no number is used again while it matters, a start is refused only beside
another installer, and `--kill` signals only installers. -/
theorem unreused_lockLive {t t' : Processes} (hr : Runs Unreused t t') (h : t.Booted) : LockLive t' :=
  (hr.sound h).lockLive

/-- After a boot; only the host itself is there. -/
def empty : Processes where
  host := Host.quiet
  others := []
  nodup := .nil
  apart h := (List.not_mem_nil h).elim
  numbered := ⟨rfl, List.not_mem_nil⟩

theorem booted_empty : empty.Booted := ⟨Host.idle_quiet, rfl⟩

theorem not_live_booted (pid : String) : ¬ empty.Live pid := by
  simp [Live, empty, Host.quiet]

/-- The second start is refused beside the first. -/
theorem unreused_lockLive_beside : ∃ t, t.Refused "8" ∧ LockLive t := by
  obtain ⟨t₁, hr₁, hhost₁, hothers₁⟩ := exists_holding booted .plain rfl rfl (by decide)
    (not_live_booted _) (fun _ _ h => by cases h) rfl
  have hp₁ := (congrArg (fun s => s.procs "7") hhost₁).trans (Host.set_procs_self ..)
  have hfree : ¬ t₁.Live "8" := by
    rw [Live, hhost₁, hothers₁, Host.set_procs_of_ne _ (by decide)]
    exact not_live_booted "8"
  have hrel : ∀ pid p, t₁.host.procs pid = some p → ¬ Relies p.code "8" := by
    intro pid p hp hrel
    have hread := read_of_relies (((hr₁.sound booted_empty).procs hp).code) hrel
    rw [hhost₁] at hp
    rcases Host.set_procs_eq_some hp with ⟨-, rfl⟩ | ⟨-, hp⟩
    · cases hread
    · cases hp
  have hfile : t₁.host.pidfile = some "7" := by rw [hhost₁]; rfl
  obtain ⟨t₂, hr₂, hrefused, hsame, -⟩ :=
    exists_testing Host.second .plain rfl (by decide) hfree hrel hfile (by decide)
  have hlive : t₂.Live "7" := .inl (by rw [hsame "7" (by decide), hp₁]; rfl)
  exact ⟨t₂, hrefused hlive, unreused_lockLive (hr₁.trans hr₂) booted_empty⟩

/-- The shell of a start with `--test`. -/
def testing : Env := { booted with HOSTNAME := "test" }

/-- The run of a start with `--test` whose welcome dialog is answered with No. -/
def declined : List Event × Sh PUnit :=
  play (fun _ c => if c = .yesno .welcome then ⟨1, ""⟩ else sample c) 40 [] (mainFlow testing)

/-- A step of one instance that has no part in the pidfile is a step of the table. -/
theorem exists_alone {t : Processes} (hr : Host.Runs (Host.Alone pid) t.host s') :
    ∃ t', Runs (fun _ _ => True) t t' ∧ t'.host = s' ∧ t'.others = t.others := by
  induction hr with
  | refl => exact ⟨t, .refl, rfl, rfl⟩
  | tail _ hs ih =>
    obtain ⟨t₁, hr₁, rfl, hothers₁⟩ := ih
    obtain ⟨a, hs, halone⟩ := hs
    have hfair : t₁.Fair a := by
      cases halone with
      | issue | unroll => trivial
      | answer hp hb hun =>
        intro p' q hp' hb'
        rw [hp] at hp'
        cases hp'
        rw [hb] at hb'
        cases hb'
        cases hun
    obtain ⟨t₂, hhost₂, hothers₂, hs₂⟩ := exists_step hs hfair fun env arg h => by
      subst h
      cases halone
    exact ⟨t₂, hr₁.tail ⟨_, hs₂, trivial⟩, hhost₂, hothers₂.trans hothers₁⟩

/-- The first start has ended and left its number in the pidfile; another process has it now, and
nobody is installing. -/
theorem reused_number_refused : ∃ t t', Booted t ∧ Runs (fun _ _ => True) t t' ∧ ¬ LockLive t' := by
  have free : ∀ {t t' : Processes}, Runs Unreused t t' → Runs (fun _ _ => True) t t' := fun hr =>
    hr.mono fun _ _ _ => trivial
  have hstart : installer booted .test = start testing := rfl
  obtain ⟨t₁, hr₁, hhost₁, hothers₁⟩ := exists_holding booted .test hstart rfl (by decide)
    (not_live_booted _) (fun _ _ h => by cases h) rfl
  have hp₁ := (congrArg (fun s => s.procs "7") hhost₁).trans (Host.set_procs_self ..)
  have halone := Host.runs_alone (run_play _ 40 (mainFlow testing) : Run _ declined.1 declined.2)
    (by decide +kernel) hp₁ rfl
  obtain ⟨t₂, hr₂, hhost₂, hothers₂⟩ := exists_alone halone
  have hp₂ := (congrArg (fun s => s.procs "7") hhost₂).trans (Host.set_procs_self ..)
  obtain ⟨t₃, hhost₃, hothers₃, hs₃⟩ := exists_step (.finish hp₂ (by decide +kernel)) trivial
    fun _ _ h => by cases h
  have hnone : ∀ pid, t₃.host.procs pid = none := by
    intro pid
    rw [hhost₃, hhost₂, hhost₁]
    by_cases hpid : pid = "7"
    · rw [hpid, Host.set_procs_self]
    · rw [Host.set_procs_of_ne _ hpid, Host.set_procs_of_ne _ hpid]
      exact Host.set_procs_of_ne _ hpid _
  have hfree : ¬ t₃.Live "7" := by
    rw [Live, hnone, hothers₃, hothers₂, hothers₁]
    simp [empty]
  obtain ⟨t₄, hhost₄, hothers₄, hs₄⟩ := exists_spawn (by decide) hfree
  have hfile : t₄.host.pidfile = some "7" := by
    rw [hhost₄, hhost₃, hhost₂, hhost₁]
    rfl
  have hfree' : ¬ t₄.Live "8" := by
    rw [Live, hhost₄, hnone, hothers₄, hothers₃, hothers₂, hothers₁]
    simp [empty]
  obtain ⟨t₅, hr₅, hrefused, hsame, hothers₅⟩ := exists_testing Host.second .plain rfl (by decide)
    hfree' (fun pid p hp => by rw [hhost₄, hnone] at hp; cases hp) hfile (by decide)
  have hlive : t₅.Live "7" := .inr (by rw [hothers₅, hothers₄]; exact List.mem_cons_self)
  have hr := ((free hr₁).trans hr₂).tail ⟨_, hs₃, trivial⟩ |>.tail ⟨_, hs₄, trivial⟩
  refine ⟨empty, t₅, booted_empty, hr.trans (free hr₅), fun h => ?_⟩
  obtain ⟨q, hq, p, hp, -⟩ := h.refused (hrefused hlive)
  rw [hsame q hq, hhost₄, hnone] at hp
  cases hp

end Processes
end HassioInstaller
