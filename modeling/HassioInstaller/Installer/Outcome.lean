import HassioInstaller.Installer.Leaving

/-! # How a start ends

The milestones of a run are the pidfile, what is erased, the image, the report and the reboot. A start
that has ended was refused with nothing erased, left before the image was written, or went through all
of them (`Course`). In a real boot leaving means rebooting; in a test the host is only rebooted after
the report, and then always. -/

namespace HassioInstaller

/-- The commands that erase `disk`. -/
def Cmd.wipes (disk : String) : Cmd → Bool
  | .writeImage .. => false
  | c => c.target == some disk

def Cmd.milestone : Cmd → Bool
  | .alreadyRunning | .writePidfile _ | .msgbox (.success _) | .msgbox .failure | .reboot => true
  | c => c.destructive

theorem Cmd.plain.milestone {c : Cmd} (h : c.plain) : c.milestone = false := by
  cases c with
  | msgbox d => cases d <;> first | rfl | cases h
  | _ => first | rfl | cases h

theorem Cmd.passive.milestone {c : Cmd} (h : c.passive) : c.milestone = false := by
  cases c with
  | msgbox d => cases d <;> first | rfl | cases h
  | _ => first | rfl | cases h

theorem Cmd.selects.milestone {c : Cmd} (h : c.selects) : c.milestone = false := by
  cases c with
  | msgbox d => cases d <;> first | rfl | cases h
  | _ => first | rfl | cases h

theorem Cmd.wipes.milestone {c : Cmd} (h : c.wipes disk) : c.milestone = true := by
  cases c <;> first | rfl | cases h

theorem Cmd.wipes.ne_reboot {c : Cmd} (h : c.wipes disk) : c ≠ .reboot := by
  rintro rfl
  cases h

/-- What prepares a drive erases it or is no milestone. -/
theorem Cmd.prepares.milestone {c : Cmd} (h : c.prepares disk) :
    c.milestone = false ∨ c.wipes disk := by
  cases c with
  | msgbox d => exact .inl (by cases d <;> first | rfl | cases h)
  | partedRm | zeroFill | securitySetPass | securityErase => exact .inr h
  | writeImage => cases h
  | _ => first | exact .inl rfl | cases h

/-- The milestones of a start that has ended. -/
inductive Course (env : Env) : List Cmd → Prop
  | refused : Course env [.alreadyRunning]
  | rebooted (disk : String) : env.HOSTNAME = "hassio-installer" → (∀ c ∈ erases, c.wipes disk) →
    Course env (.writePidfile env.pid :: erases ++ [.reboot])
  | stopped (disk : String) : env.HOSTNAME ≠ "hassio-installer" → (∀ c ∈ erases, c.wipes disk) →
    Course env (.writePidfile env.pid :: erases)
  | reported : msg = .success env.DEBUG ∨ msg = .failure → (∀ c ∈ erases, c.wipes disk) →
    Course env (.writePidfile env.pid :: erases ++ [.writeImage url disk, .msgbox msg, .reboot])

namespace Installer
open Script

/-- The record of the milestones. Nothing comes after a reboot. -/
abbrev courseContract (env : Env) : Contract (List Event) Cmd Answer :=
  .record Cmd.milestone (fun _ _ => True) (fun h _ => ∀ e ∈ h, e.1 ≠ .reboot)
    fun h => Course env (h.map Prod.fst)

variable {env : Env} {h : List Event}

/-- The script has written the pidfile and passed no further milestone. -/
def Started (env : Env) (h : List Event) : Prop := h.map Prod.fst = [.writePidfile env.pid]

/-- And it has erased `disk`, or begun to. -/
def Underway (env : Env) (disk : String) (h : List Event) : Prop :=
  ∃ erases, h.map Prod.fst = .writePidfile env.pid :: erases ∧ ∀ c ∈ erases, c.wipes disk

theorem Started.underway (hs : Started env h) (disk : String) : Underway env disk h :=
  ⟨[], hs, fun _ hc => (List.not_mem_nil hc).elim⟩

theorem Underway.ne_reboot (hu : Underway env disk h) : ∀ e ∈ h, e.1 ≠ .reboot := by
  obtain ⟨erases, hmap, hwipes⟩ := hu
  intro e he hreboot
  have hmem : Cmd.reboot ∈ h.map Prod.fst := hreboot ▸ List.mem_map_of_mem he
  rw [hmap] at hmem
  rcases List.mem_cons.mp hmem with h | hmem
  · cases h
  · exact Cmd.wipes.ne_reboot (hwipes _ hmem) rfl

theorem Underway.stopped (hu : Underway env disk h) (hhost : env.HOSTNAME ≠ "hassio-installer") :
    Course env (h.map Prod.fst) := by
  obtain ⟨erases, hmap, hwipes⟩ := hu
  rw [hmap]
  exact .stopped disk hhost hwipes

theorem map_fst_concat (h : List Event) (c : Cmd) (r : Answer) :
    (h ++ [(c, r)]).map Prod.fst = h.map Prod.fst ++ [c] := List.map_append

theorem Underway.concat (hu : Underway env disk h) (hc : c.wipes disk) (r : Answer) :
    Underway env disk (h ++ [(c, r)]) := by
  obtain ⟨erases, hmap, hwipes⟩ := hu
  refine ⟨erases ++ [c], by rw [map_fst_concat, hmap]; rfl, fun c' hc' => ?_⟩
  rcases List.mem_append.mp hc' with hc' | hc'
  · exact hwipes c' hc'
  · rwa [List.mem_singleton.mp hc']

section
variable {Q : α → List Event → Prop} {k : Answer → Sh α}

theorem wp_course (hc : c.milestone = false) (hh : ∀ e ∈ h, e.1 ≠ .reboot)
    (hk : ∀ r, wp (courseContract env) (k r) Q h) : wp (courseContract env) (.call c k) Q h :=
  (wp_record_skip hc).mpr ⟨hh, fun r _ => hk r⟩

theorem wp_milestone (hc : c.milestone = true) (hh : ∀ e ∈ h, e.1 ≠ .reboot)
    (hk : ∀ r, wp (courseContract env) (k r) Q (h ++ [(c, r)])) :
    wp (courseContract env) (.call c k) Q h :=
  (wp_record_keep hc).mpr ⟨hh, fun r _ => hk r⟩

theorem wp_course_exec {f : PUnit → Sh α} (hc : c.milestone = false) (hh : ∀ e ∈ h, e.1 ≠ .reboot)
    (hf : wp (courseContract env) (f ⟨⟩) Q h) : wp (courseContract env) ((exec c).bind f) Q h :=
  wp_course hc hh fun _ => hf

theorem wp_milestone_exec {f : PUnit → Sh α} (hc : c.milestone = true)
    (hh : ∀ e ∈ h, e.1 ≠ .reboot) (hf : ∀ r, wp (courseContract env) (f ⟨⟩) Q (h ++ [(c, r)])) :
    wp (courseContract env) ((exec c).bind f) Q h :=
  wp_milestone hc hh hf

/-- A script that passes no milestone and does not leave. -/
theorem course_of_within {p : Sh α} {B : α → Prop}
    (hp : Within False (fun c => c.milestone = false) p B) (hh : ∀ e ∈ h, e.1 ≠ .reboot) :
    wp (courseContract env) p (fun a h' => B a ∧ h' = h) h := by
  refine hp.frame (· = h) (fun hs _ => hs ▸ hh) ?_ False.elim rfl
  rintro _ c r _ rfl hc ⟨-, rfl⟩
  exact if_neg (Bool.eq_false_iff.mp hc)

end

theorem course_collectlogs (hh : ∀ e ∈ h, e.1 ≠ .reboot) :
    wp (courseContract env) (collectlogs env) (fun _ h' => h' = h) h :=
  (course_of_within ((passive_collectlogs env).weaken fun _ => Cmd.passive.milestone) hh).mono
    fun _ _ ha => ha.2

/-- Leaving is a reboot, or in a test an end without one. -/
theorem course_reboot (msg : String) (hu : Underway env disk h) :
    wp (courseContract env) (reboot env msg) (fun _ _ => False) h := by
  have hcount : wp (courseContract env) (countdown env (if msg = "" then "" else msg ++ "\n"))
      (fun _ _ => False) h := by
    refine wp_bind.mpr ((course_of_within ((plain_countdown _).weaken fun _ =>
      Cmd.plain.milestone) hu.ne_reboot).mono ?_)
    rintro _ _ ⟨-, rfl⟩
    split
    · next hhost =>
      refine wp_milestone rfl hu.ne_reboot fun r => wp_exit.mpr ?_
      obtain ⟨erases, hmap, hwipes⟩ := hu
      have hcourse : Course env (.writePidfile env.pid :: erases ++ [.reboot]) :=
        .rebooted disk hhost hwipes
      rwa [← hmap, ← map_fst_concat _ _ r] at hcourse
    · next hhost => exact wp_exit.mpr (hu.stopped hhost)
  refine wp_course_exec rfl hu.ne_reboot (wp_bind.mpr ?_)
  cases hd : env.DEBUG with
  | false => exact wp_ret.mpr hcount
  | true =>
    refine wp_course_exec rfl hu.ne_reboot ((course_collectlogs hu.ne_reboot).mono ?_)
    rintro _ _ rfl
    exact hcount

/-- Up to the choice of a drive nothing is erased. -/
theorem frame_started (env : Env) :
    Frame (courseContract env) env (fun c => c.milestone = false) (Started env) where
  guard _ _ _ hs := (hs.underway "").ne_reboot
  next := by
    rintro c h r _ hc hs ⟨-, rfl⟩
    dsimp only
    rwa [if_neg (Bool.eq_false_iff.mp hc)]
  leaves msg _ hs := course_reboot msg (hs.underway "")
  exits hhost _ hs := (hs.underway "").stopped hhost

theorem frame_underway (env : Env) (disk : String) : Frame (courseContract env) env
    (fun c => c.milestone = false ∨ c.wipes disk) (Underway env disk) where
  guard _ _ _ hu := hu.ne_reboot
  next := by
    rintro c h r _ (hc | hc) hu ⟨-, rfl⟩
    · dsimp only
      rwa [if_neg (Bool.eq_false_iff.mp hc)]
    · dsimp only
      rw [if_pos (Cmd.wipes.milestone hc)]
      exact hu.concat hc r
  leaves msg _ hu := course_reboot msg hu
  exits hhost _ hu := hu.stopped hhost

theorem ne_reboot_concat (hh : ∀ e ∈ h, e.1 ≠ .reboot) (hc : c ≠ .reboot) (r : Answer) :
    ∀ e ∈ h ++ [(c, r)], e.1 ≠ .reboot := by
  intro e he
  rcases List.mem_append.mp he with he | he
  · exact hh e he
  · cases List.mem_singleton.mp he
    exact hc

/-- The report and the reboot. -/
theorem course_report (hh : ∀ e ∈ h, e.1 ≠ .reboot)
    (himage : h.map Prod.fst = .writePidfile env.pid :: erases ++ [.writeImage url disk])
    (hwipes : ∀ c ∈ erases, c.wipes disk) (found : Bool) :
    wp (courseContract env) (report env found) (fun _ h => Course env (h.map Prod.fst)) h := by
  have hreported : ∀ (d : Msg) r, ∀ e ∈ h ++ [(Cmd.msgbox d, r)], e.1 ≠ .reboot := fun d r =>
    ne_reboot_concat hh Cmd.noConfusion r
  have hreboot : ∀ (d : Msg) r, d = .success env.DEBUG ∨ d = .failure →
      wp (courseContract env) (exec .reboot) (fun _ h => Course env (h.map Prod.fst))
        (h ++ [(.msgbox d, r)]) := by
    intro d r hd
    refine wp_milestone rfl (hreported d r) fun r' => wp_ret.mpr ?_
    rw [map_fst_concat, map_fst_concat, himage, List.append_assoc, List.append_assoc]
    exact .reported hd hwipes
  unfold report
  split
  · refine wp_course_exec rfl hh (wp_milestone_exec rfl hh fun r => wp_bind.mpr ?_)
    cases hd : env.DEBUG with
    | false => exact wp_ret.mpr (hreboot _ r (.inl (hd ▸ rfl)))
    | true =>
      refine (course_collectlogs (hreported _ r)).mono ?_
      rintro _ _ rfl
      exact hreboot _ r (.inl (hd ▸ rfl))
  · refine wp_course_exec rfl hh (wp_milestone_exec rfl hh fun r => wp_bind.mpr ?_)
    refine (course_collectlogs (hreported _ r)).mono ?_
    rintro _ _ rfl
    exact hreboot _ r (.inr rfl)

/-- The image and what comes after it. -/
theorem course_install (url disk : String) (hu : Underway env disk h) :
    wp (courseContract env) (install env url disk)
      (fun _ h => Course env (h.map Prod.fst)) h := by
  refine wp_bind.mpr (wp_course_exec rfl hu.ne_reboot (wp_milestone_exec rfl hu.ne_reboot
    fun image => ?_))
  have himage : ∀ e ∈ h ++ [(.writeImage url disk, image)], e.1 ≠ .reboot :=
    ne_reboot_concat hu.ne_reboot Cmd.noConfusion image
  refine wp_course_exec rfl himage (wp_course_exec rfl himage (wp_course rfl himage fun _ =>
    wp_ret.mpr (wp_bind.mpr ?_)))
  refine (course_of_within ((scans_findMarker disk).weaken fun _ hc => Cmd.passive.milestone
    (Cmd.scans.passive hc)) himage).mono ?_
  rintro found _ ⟨-, rfl⟩
  obtain ⟨erases, hmap, hwipes⟩ := hu
  have hwritten : (h ++ [(Cmd.writeImage url disk, image)]).map Prod.fst =
      .writePidfile env.pid :: erases ++ [.writeImage url disk] := by rw [map_fst_concat, hmap]
  exact course_report himage hwritten hwipes found

theorem course_start (env : Env) :
    wp (courseContract env) (start env) (fun _ h => Course env (h.map Prod.fst)) [] := by
  have hnone : ∀ e ∈ ([] : List Event), e.1 ≠ Cmd.reboot := fun _ he => by cases he
  have looks : ∀ c : Cmd, c.looks → c.milestone = false := fun c hc => by
    cases c <;> first | rfl | cases hc
  refine wp_bind.mpr (wp_bind.mpr
    ((course_of_within (only_pidfileAlive looks) hnone).mono ?_))
  rintro running _ ⟨-, rfl⟩
  split
  · exact wp_milestone rfl hnone fun _ => wp_exit.mpr .refused
  · refine wp_milestone rfl hnone fun _ => wp_ret.mpr ?_
    refine (frame_started env).mainFlow (fun _ => Cmd.selects.milestone) ?_ rfl
    intro url disk h hs
    exact ((frame_underway env disk).eraseDrive (fun _ => Cmd.prepares.milestone)
      (hs.underway disk)).mono fun _ h hu => course_install url disk hu

theorem course_installer (env : Env) (harg : arg.helper = false) :
    wp (courseContract (arg.env env)) (installer env arg)
      (fun _ h => Course (arg.env env) (h.map Prod.fst)) [] := by
  refine wp_bind.mpr ((course_of_within (only_note fun _ => rfl) fun _ he => by cases he).mono ?_)
  rintro _ _ ⟨-, rfl⟩
  cases arg with
  | test | plain => exact course_start _
  | help | addRepo | addSsh | collectLogs | kill => cases harg

/-- A start that has ended was refused, left before the image was written, or wrote one image, reported
and rebooted; it erased nothing if it was refused, and otherwise at most one drive, the one of the image
if there is one. Nothing is run after the reboot. -/
theorem course_of_ended (harg : arg.helper = false) (hr : Run (installer env arg) t q)
    (hq : q.Ended) : Course (arg.env env) ((t.map Prod.fst).filter Cmd.milestone) ∧
      ∀ pre r post, t = pre ++ (.reboot, r) :: post → post = [] := by
  have hwp := course_installer env harg
  have hpath : ∀ t : List Event, Path (courseContract (arg.env env)).next [] t
      (t.filter (Cmd.milestone ·.1)) := fun t => path_record_iff.mpr ⟨rfl, fun _ _ => trivial⟩
  have hfst : ((t.map Prod.fst).filter Cmd.milestone) =
      (t.filter (Cmd.milestone ·.1)).map Prod.fst := List.filter_map
  refine ⟨?_, ?_⟩
  · have hat := hwp t q _ hr (hpath t)
    rw [hfst]
    cases q with
    | ret a => exact hat
    | exit => exact hat
    | call | loop => cases hq
  · rintro pre r post rfl
    cases post with
    | nil => rfl
    | cons e post =>
      obtain ⟨c, r'⟩ := e
      have hr' : Run (installer env arg) (pre ++ [(.reboot, r)] ++ (c, r') :: post) q := by
        rwa [List.append_assoc]
      have hguard := hwp.guard hr' (hpath _)
      exact absurd rfl (hguard (.reboot, r) (by simp [Cmd.milestone]))

/-- The option `--test` and a machine on which all goes well. -/
def testTrial : List Event × Sh PUnit :=
  play (fun _ => sample) 200 [] (installer booted .test)

theorem course_of_ended_test : Course { booted with HOSTNAME := "test" }
      ((testTrial.1.map Prod.fst).filter Cmd.milestone) ∧
    ∀ pre r post, testTrial.1 = pre ++ (.reboot, r) :: post → post = [] :=
  have hr : Run (installer booted .test) testTrial.1 testTrial.2 := run_play _ _ _
  course_of_ended rfl hr (by decide +kernel)

end Installer
end HassioInstaller
