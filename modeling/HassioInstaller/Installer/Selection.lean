import HassioInstaller.Installer.Versions

/-! # What the image goes back to

The version menu of a run is made of what the remote lists. The pipeline streams the address that the
script keeps for the tag chosen in that menu, onto the drive chosen in the drive menu, each of which is
shown once before it. So a run offers and streams the newest versions just if byte order and version
order agree on the last ten tags. -/

namespace HassioInstaller

/-- The menus that say what is written where. -/
def Cmd.isSelection : Cmd → Bool
  | .menu .version _ | .menu .drive _ => true
  | _ => false

/-- The commands other than these menus and the pipeline. -/
structure Beside (c : Cmd) : Prop where
  menu : c.isSelection = false
  image : ∀ url disk, c ≠ .writeImage url disk

theorem Beside.of_untargeted {c : Cmd} (hmenu : c.isSelection = false) (htarget : c.target = none) :
    Beside c := by
  refine ⟨hmenu, ?_⟩
  rintro url disk rfl
  cases htarget

theorem Beside.of_passive {c : Cmd} (h : c.passive) : Beside c := by
  constructor
  · cases c with
    | menu d => cases d <;> first | rfl | cases h
    | _ => rfl
  · rintro url disk rfl
    cases h

theorem Beside.of_plain {c : Cmd} (h : c.plain) : Beside c := by
  constructor
  · cases c <;> first | rfl | cases h
  · rintro url disk rfl
    cases h

theorem Beside.of_prepares {c : Cmd} (h : c.prepares drive) : Beside c := by
  constructor
  · cases c with
    | menu d => cases d <;> first | rfl | simp [Cmd.prepares, Cmd.plain, Cmd.target] at h
    | _ => rfl
  · rintro url disk rfl
    cases h

theorem Beside.of_passiveOrReboot {c : Cmd} (h : c.passiveOrReboot) : Beside c := by
  constructor
  · cases c with
    | menu d => cases d <;> first | rfl | simp [Cmd.passiveOrReboot, Cmd.passive] at h
    | _ => rfl
  · rintro url disk rfl
    simp [Cmd.passiveOrReboot, Cmd.passive] at h

namespace Installer
open Script

/-- The address and the drive that these menus and their answers select, the version menu being made of
what the remote lists. -/
inductive Selected (answers : Cmd → Answer → Prop) (env : Env) : String → String → List Event → Prop
  | mk : answers .gitTags listing → (dummy = true → env.FAKE_IMAGE = true) → v.ok → d.ok →
    Selected answers env (((offer listing.out dummy).VERSIONS.lookup v.out).getD "") d.out
      [(.menu .version (offer listing.out dummy).radio_versions, v), (.menu .drive disks, d)]

/-- The history of these menus. A version menu is made of what the remote lists, and the pipeline does
what was selected. -/
abbrev selecting (answers : Cmd → Answer → Prop) (env : Env) : Contract (List Event) Cmd Answer :=
  .record Cmd.isSelection answers
    (fun h c => (∀ content, c = .menu .version content → ∃ listing dummy, answers .gitTags listing ∧
        content = (offer listing.out dummy).radio_versions) ∧
      ∀ url disk, c = .writeImage url disk → Selected answers env url disk h)
    fun _ => True

section
variable {answers : Cmd → Answer → Prop} {env : Env}

theorem guard_beside {c : Cmd} (h : Beside c) (hist : List Event) :
    (selecting answers env).guard hist c :=
  ⟨fun content hc => (by rw [hc] at h; cases h.menu), fun url disk hc => absurd hc (h.image url disk)⟩

/-- Other commands leave the record as it is. -/
theorem frame_selecting (hist : List Event) : Frame (selecting answers env) env Beside (· = hist) where
  guard _ _ hc _ := guard_beside hc _
  next := by
    rintro c s r _ hc rfl ⟨-, rfl⟩
    exact if_neg (by rw [hc.menu]; exact Bool.false_ne_true)
  leaves msg s _ := ((only_reboot env msg).anywhere (K := selecting answers env)
    (fun _ _ hc => guard_beside (.of_passiveOrReboot hc) _) fun _ _ => trivial).mono fun _ _ h => h
  exits _ _ _ := trivial

theorem selecting_version : wp (selecting answers env) (selectVersion env) (fun url h =>
    ∃ listing dummy v, answers .gitTags listing ∧ (dummy = true → env.FAKE_IMAGE = true) ∧ v.ok ∧
      url = ((offer listing.out dummy).VERSIONS.lookup v.out).getD "" ∧
        h = [(.menu .version (offer listing.out dummy).radio_versions, v)]) [] := by
  have plain : ∀ h c, c.plain → c.isSelection = false ∧ (selecting answers env).guard h c :=
    fun h c hc => ⟨(Beside.of_plain hc).menu, guard_beside (.of_plain hc) h⟩
  refine wp_bind.mpr ((wp_versionMenu plain env []).mono ?_)
  rintro m _ ⟨⟨listing, dummy, hlisting, hdummy, rfl⟩, rfl⟩
  refine (wp_record_keep rfl).mpr ⟨⟨?_, fun _ _ h => Cmd.noConfusion h⟩, fun v _ => ?_⟩
  · rintro _ ⟨⟩
    exact ⟨listing, dummy, hlisting, rfl⟩
  rw [ret_bind]
  refine wp_bind.mpr (((frame_selecting _).isokReboot (fun _ => .of_plain rfl) v.status _ rfl).mono ?_)
  rintro _ _ ⟨hv, rfl⟩
  refine (frame_selecting _).call (.of_plain rfl) rfl fun _ _ hs => wp_ret.mpr ?_
  exact ⟨listing, dummy, v, hlisting, hdummy, hv, rfl, hs⟩

theorem selecting_drive (hist : List Event) : wp (selecting answers env) (selectDrive env)
    (fun disk h => ∃ disks d, d.ok ∧ disk = d.out ∧ h = hist ++ [(.menu .drive disks, d)]) hist := by
  have F : Frame (selecting answers env) env Beside (· = hist) := frame_selecting hist
  have listed := F.within (plain_getDisks.weaken fun _ => .of_plain) rfl
  refine wp_bind.mpr (listed.mono ?_)
  rintro disks _ ⟨-, rfl⟩
  refine (wp_record_keep rfl).mpr ⟨⟨?_, fun _ _ h => Cmd.noConfusion h⟩, fun d _ => ?_⟩
  · rintro _ ⟨⟩
  rw [ret_bind]
  refine wp_bind.mpr (((frame_selecting _).isokReboot (fun _ => .of_plain rfl) d.status _ rfl).mono ?_)
  rintro _ _ ⟨hd, rfl⟩
  exact (frame_selecting _).call (.of_plain rfl) rfl fun _ _ hs => wp_ret.mpr ⟨disks, d, hd, rfl, hs⟩

theorem selecting_install (h : Selected answers env url disk hist) :
    wp (selecting answers env) (install env url disk) (fun _ _ => True) hist := by
  have rest : ∀ {p : Sh PUnit}, Within False Beside p (fun _ => True) →
      ∀ hist, wp (selecting answers env) p (fun _ _ => True) hist := fun hp hist =>
    hp.anywhere (fun _ _ hc => guard_beside hc _) fun _ _ => trivial
  refine (frame_selecting hist).call (.of_plain rfl) rfl ?_
  rintro _ _ rfl
  refine (wp_record_skip rfl).mpr ⟨⟨fun _ h => Cmd.noConfusion h, ?_⟩, fun _ _ => ?_⟩
  · rintro _ _ ⟨⟩
    exact h
  · refine rest ?_ _
    simp only [ret_bind, bind_eq, within_bind, within_exec]
    exact ⟨.of_plain rfl, .of_plain rfl, .of_untargeted rfl rfl, within_bind.mp (only_conclude
      (fun _ => .of_passive) (.of_untargeted rfl rfl) (fun _ => .of_untargeted rfl rfl)
      (.of_untargeted rfl rfl) env disk)⟩

theorem selecting_mainFlow :
    wp (selecting answers env) (mainFlow env) (fun _ _ => True) [] := by
  simp only [mainFlow, bind_eq, wp_bind]
  refine ((frame_selecting []).welcome (fun _ => .of_plain rfl) (.of_untargeted rfl rfl) rfl).mono ?_
  rintro _ _ rfl
  refine ((frame_selecting []).checkconnection (fun _ => .of_plain) rfl).mono ?_
  rintro _ _ rfl
  refine selecting_version.mono ?_
  rintro _ _ ⟨listing, dummy, v, hlisting, hdummy, hv, rfl, rfl⟩
  refine (selecting_drive _).mono ?_
  rintro _ _ ⟨disks, d, hd, rfl, rfl⟩
  refine ((frame_selecting _).eraseDrive (fun _ => .of_prepares) rfl).mono ?_
  rintro _ _ rfl
  exact selecting_install (.mk hlisting hdummy hv hd)

/-- A version menu that a run shows is made of what the remote lists. -/
theorem offered_of_run (hr : Run (mainFlow env) (pre ++ (.menu .version content, r) :: post) q)
    (ht : Admissible answers pre) : ∃ listing dummy, answers .gitTags listing ∧
      content = (offer listing.out dummy).radio_versions :=
  (selecting_mainFlow.guard hr (path_record_iff.mpr ⟨rfl, ht⟩)).1 content rfl

/-- The pipeline of a run does what was selected before it. -/
theorem selected_of_run (hr : Run (mainFlow env) (pre ++ (.writeImage url disk, r) :: post) q)
    (ht : Admissible answers pre) :
    Selected answers env url disk (pre.filter (·.1.isSelection)) :=
  (selecting_mainFlow.guard hr (path_record_iff.mpr ⟨rfl, ht⟩)).2 url disk rfl

end

/-! ## The newest versions -/

/-- The version menus of a run show the ten newest versions, the newest first, and the image streamed is
the one of the tag chosen. The dummy entry of a test boot is left aside. -/
structure Served (T : Tags) (t : List Event) : Prop where
  offered : ∀ content r, (.menu .version content, r) ∈ t →
    (menuTags content).filter (· ≠ "dummy") = T.newest.map Tag.text
  streamed : ∀ pre url disk r post, t = pre ++ (.writeImage url disk, r) :: post →
    ∃ content v disks d,
      pre.filter (·.1.isSelection) = [(.menu .version content, v), (.menu .drive disks, d)] ∧
        (v.out ∈ (menuTags content).filter (· ≠ "dummy") → url = imageUrl v.out) ∧ disk = d.out

/-- The pipeline streams the image of the tag that was chosen. -/
theorem streamed_of_run (T : Tags) {env : Env}
    (hr : Run (mainFlow env) (pre ++ (.writeImage url disk, r) :: post) q)
    (ht : Admissible T.Answers pre) : ∃ content v disks d,
      pre.filter (·.1.isSelection) = [(.menu .version content, v), (.menu .drive disks, d)] ∧
        (v.out ∈ (menuTags content).filter (· ≠ "dummy") → url = imageUrl v.out) ∧ disk = d.out := by
  have hs := selected_of_run hr ht
  generalize hpre : pre.filter (·.1.isSelection) = hist at hs
  cases hs with
  | @mk listing dummy v disks d hlisting =>
    refine ⟨_, v, disks, d, rfl, fun hv => ?_, rfl⟩
    rw [offer_eq T hlisting, menuTags_lastTenMenu] at hv
    rw [offer_eq T hlisting, lookup_lastTenMenu T dummy hv]
    rfl

theorem menuTags_of_run (T : Tags) {env : Env}
    (hr : Run (mainFlow env) (pre ++ (.menu .version content, r) :: post) q)
    (ht : Admissible T.Answers pre) :
    (menuTags content).filter (· ≠ "dummy") = T.newest.map Tag.text ↔ T.Agree := by
  obtain ⟨listing, dummy, hlisting, rfl⟩ := offered_of_run hr ht
  rw [offer_eq T hlisting]
  exact menuTags_newest_iff T dummy

/-- A run that comes to its version menu serves the ten newest versions just if byte order and version
order agree on the last ten tags. -/
theorem versions_served_iff (T : Tags) (env : Env) {q : Sh PUnit} (hr : Run (mainFlow env) t q)
    (ht : Admissible T.Answers t) (hmenu : (.menu .version content, r) ∈ t) :
    Served T t ↔ T.Agree := by
  constructor
  · intro h
    obtain ⟨pre, post, rfl⟩ := List.append_of_mem hmenu
    have ht : Admissible T.Answers pre := fun e he => ht e (List.mem_append_left _ he)
    exact (menuTags_of_run T hr ht).mp (h.offered content r (by simp))
  · refine fun h => ⟨fun content r hm => ?_, ?_⟩
    · obtain ⟨pre, post, rfl⟩ := List.append_of_mem hm
      have ht : Admissible T.Answers pre := fun e he => ht e (List.mem_append_left _ he)
      exact (menuTags_of_run T hr ht).mpr h
    · rintro pre url disk r post rfl
      exact streamed_of_run T hr fun e he => ht e (List.mem_append_left _ he)

/-- One release. -/
def single : Tags where
  tags := [⟨[9, 5], none, "5a1f", none, by decide, by decide⟩]
  ascending := by decide

theorem versions_served_iff_single : Served single (trial sample).1 ↔ single.Agree := by
  have ht : Admissible single.Answers (trial sample).1 := by
    unfold Admissible
    decide +kernel
  exact versions_served_iff single booted (trial_run sample) ht
    (show (.menu .version "9.5|10|", ⟨0, "9.5"⟩) ∈ (trial sample).1 by decide +kernel)

/-- A release past version 9. -/
def pastNine : Tags where
  tags := [⟨[10, 0], none, "0a", none, by decide, by decide⟩,
    ⟨[9, 5], none, "0b", none, by decide, by decide⟩]
  ascending := by decide +kernel

/-- The remote has both. -/
def newer : Cmd → Answer
  | .gitTags => ⟨0, "0a\trefs/tags/10.0\n0b\trefs/tags/9.5"⟩
  | c => sample c

/-- Version 10.0 is offered after version 9.5. -/
theorem older_offered_first : ∃ t q, Run (mainFlow booted) t q ∧ Admissible pastNine.Answers t ∧
    ¬ Served pastNine t := by
  have ht : Admissible pastNine.Answers (trial newer).1 := by
    unfold Admissible
    decide +kernel
  refine ⟨_, _, trial_run newer, ht, fun h => ?_⟩
  have hmenu : (.menu .version "9.5|9|10.0|10|", ⟨0, "9.5"⟩) ∈ (trial newer).1 := by decide +kernel
  have htags := h.offered _ _ hmenu
  exact absurd htags (by decide +kernel)

end Installer
end HassioInstaller
