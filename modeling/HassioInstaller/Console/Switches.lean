import HassioInstaller.Console.Profile
import HassioInstaller.Mkimage.BootMenus

/-! # From the boot menu to the installer

An entry of a boot menu ends in kernel parameters, which the boot loader joins, with words of its own
around them, into the command line that `.profile` reads. The entries agree in what the installer is
started with, but for the debug entries, which turn `DEBUG` on. -/

namespace HassioInstaller.Console
open Script Text Mkimage

/-! ## A switch in a line of words -/

section
variable {q tail u v : List Char}

/-- A text whose only blank, if any, is `c` and that does not break there is on one side of a blank. -/
theorem infix_blank (hne : q ≠ []) (hq : ' ' ∉ q) (htail : ' ' ∉ tail) (hu : ¬ q <:+ u)
    (h : q ++ c :: tail <:+: u ++ ' ' :: v) : q ++ c :: tail <:+: u ∨ q ++ c :: tail <:+: v := by
  obtain hleft | hright | ⟨l₁, l₂, heq, hsuffix, hprefix⟩ := List.infix_append_iff.mp h
  · exact .inl hleft
  · refine .inr ((List.infix_cons_iff.mp hright).resolve_left fun hp => ?_)
    obtain ⟨a, q, rfl⟩ := List.exists_cons_of_ne_nil hne
    rw [List.cons_append, List.cons_prefix_cons] at hp
    exact hq (hp.1 ▸ List.mem_cons_self)
  cases l₂ with
  | nil =>
    rw [List.append_nil] at heq
    exact .inl (heq ▸ hsuffix.isInfix)
  | cons a l₂ =>
    obtain rfl : a = ' ' := (List.cons_prefix_cons.mp hprefix).1
    -- the blank is `c`, so what is before it is `q`
    refine absurd ?_ hu
    obtain ⟨as, rfl, has⟩ | ⟨bs, rfl, hbs⟩ := List.append_eq_append_iff.mp heq
    · cases as with
      | nil => simpa using hsuffix
      | cons b bs =>
        rw [List.cons_append, List.cons.injEq] at has
        exact absurd (by rw [has.2]; simp) htail
    · cases bs with
      | nil => simpa using hsuffix
      | cons b bs =>
        rw [List.cons_append, List.cons.injEq] at hbs
        exact absurd (by rw [← hbs.1]; simp) hq

end

theorem Switch.on_iff (s : Switch) : s.on line = true ↔
    ∃ c, "hass".toList ++ c :: (s.name ++ "=1").toList <:+: line.toList := by
  simp only [Switch.on, List.any_eq_true, List.mem_tails, Bool.and_eq_true,
    List.isPrefixOf_iff_prefix]
  constructor
  · rintro ⟨t, ht, ⟨r, rfl⟩, hname⟩
    rw [List.drop_append, List.drop_of_length_le (by decide), List.nil_append] at hname
    cases r with
    | nil =>
      have hnil := List.prefix_nil.mp hname
      cases s <;> cases hnil
    | cons c r => exact ⟨c, (List.prefix_append_right_inj _ |>.mpr
        (List.cons_prefix_cons.mpr ⟨rfl, hname⟩)).isInfix.trans ht.isInfix⟩
  · rintro ⟨c, pre, post, hline⟩
    refine ⟨"hass".toList ++ c :: (s.name ++ "=1").toList ++ post,
      ⟨pre, by rw [← hline]; simp only [List.append_assoc]⟩, ?_, ?_⟩
    · rw [List.append_assoc]
      exact List.prefix_append _ _
    · exact List.prefix_append _ _

theorem Switch.name_blank (s : Switch) : ' ' ∉ (s.name ++ "=1").toList := by
  cases s <;> decide

/-- A switch is in one of the words of a line, if none of them breaks off after `hass`. -/
theorem Switch.on_intercalate (s : Switch) {ws : List String}
    (h : ∀ w ∈ ws, ¬ "hass".toList <:+ w.toList) :
    s.on (" ".intercalate ws) = ws.any s.on := by
  induction ws with
  | nil => cases s <;> rfl
  | cons w ws ih =>
    obtain ⟨hw, hws⟩ := List.forall_mem_cons.mp h
    cases ws with
    | nil => simp
    | cons w' ws =>
      have hline : (" ".intercalate (w :: w' :: ws)).toList =
          w.toList ++ ' ' :: (" ".intercalate (w' :: ws)).toList := by
        rw [String.intercalate_cons_cons, String.toList_append, String.toList_append,
          List.append_assoc]
        rfl
      rw [List.any_cons, ← ih hws, Bool.eq_iff_iff, Bool.or_eq_true, s.on_iff, s.on_iff, s.on_iff,
        hline]
      constructor
      · rintro ⟨c, hc⟩
        exact (infix_blank (by decide) (by decide) s.name_blank hw hc).imp (⟨c, ·⟩) (⟨c, ·⟩)
      · rintro (⟨c, hc⟩ | ⟨c, hc⟩)
        · exact ⟨c, List.infix_append_of_infix_left hc⟩
        · exact ⟨c, List.infix_append_of_infix_right (hc.trans (List.suffix_cons ' ' _).isInfix)⟩

/-! ## What `.profile` makes of a command line -/

/-- `grep` answers by the command line. -/
def Honest (cmdline : String) : Cmd → Answer → Prop
  | .grep s, r => r.ok ↔ s.on cmdline = true
  | _, _ => True

/-- Whatever is started is started with the variables of the command line. -/
abbrev startsContract (HOSTNAME cmdline : String) : Contract Unit Cmd Answer :=
  .monitor (Honest cmdline) (fun _ _ _ => ())
    (fun _ c => ∀ x, c = .installer x ∨ c = .collectLogs x → x = .of HOSTNAME cmdline) fun _ => True

section
variable {HOSTNAME cmdline : String}

theorem starts_of_within {p : Sh α} {B : α → Prop}
    (hp : Only (fun c => ∀ x, c = .installer x ∨ c = .collectLogs x → x = .of HOSTNAME cmdline) p B) :
    wp (startsContract HOSTNAME cmdline) p (fun a _ => B a) () :=
  (hp.frame (fun _ => True) (fun _ hc => hc) (fun _ _ _ => trivial) (fun _ _ => trivial)
    trivial).mono fun _ _ h => h.1

theorem starts_switch (s : Switch) :
    wp (startsContract HOSTNAME cmdline) (switch s) (fun b _ => b = s.on cmdline) () := by
  refine wp_call_monitor.mpr ⟨by simp, fun r hr => wp_ret.mpr (Bool.eq_iff_iff.mpr ?_)⟩
  rw [beq_iff_eq]
  exact hr

theorem starts_exports : wp (startsContract HOSTNAME cmdline) (exports HOSTNAME)
    (fun x _ => x = .of HOSTNAME cmdline) () := by
  simp only [exports, bind_eq, pure_eq, wp_bind]
  refine (starts_switch .debug).mono fun _ _ hdebug => ?_
  refine (starts_switch .test).mono fun _ _ htest => ?_
  refine (starts_switch .fakeUrl).mono fun _ _ hurl => ?_
  refine (starts_switch .fakeImage).mono fun _ _ himage => wp_ret.mpr ?_
  rw [hdebug, htest, hurl, himage, Exports.of]

theorem starts_profile :
    wp (startsContract HOSTNAME cmdline) (profile HOSTNAME) (fun _ _ => True) () := by
  refine wp_bind.mpr (starts_exports.mono fun x _ hx => starts_of_within (B := fun _ => True) ?_)
  have other : ∀ c : Cmd, c.starts = false →
      ∀ y, c = .installer y ∨ c = .collectLogs y → y = .of HOSTNAME cmdline := by
    rintro c hc y (rfl | rfl) <;> cases hc
  simp only [bind_eq, within_bind, within_output]
  refine ⟨other _ rfl, fun tty => ?_⟩
  cases tty.out == "/dev/tty1" with
  | false => exact within_ret.mpr trivial
  | true =>
    simp only [Script.when, if_true, within_bind, within_status]
    refine ⟨?_, fun ec => only_afterInstaller ?_ other _⟩
    · rintro y (h | h) <;> cases h
      exact hx
    · rintro y (h | h) <;> cases h
      exact hx

end

/-! ## Menus -/

/-- The command line of an entry, with the words that the boot loader puts around its parameters. -/
def cmdline (pre post : List String) (b : Mkimage.Boot) : String := " ".intercalate (pre ++ b.params ++ post)

/-- What the installer is started with where the words of the command line are `ws`, apart from what
the debug entries add. -/
def started (HOSTNAME : String) (ws : List String) : Exports where
  HOSTNAME := if ws.any Switch.test.on then "test" else HOSTNAME
  DEBUG := ws.any Switch.debug.on
  FAKE_URL := ws.any Switch.fakeUrl.on
  FAKE_IMAGE := ws.any Switch.fakeImage.on

theorem of_cmdline {pre post : List String} {b : Mkimage.Boot} (HOSTNAME : String)
    (h : ∀ w ∈ pre ++ b.params ++ post, ¬ "hass".toList <:+ w.toList) :
    Exports.of HOSTNAME (cmdline pre post b) = started HOSTNAME (pre ++ b.params ++ post) := by
  simp only [Exports.of, started, cmdline, Switch.on_intercalate _ h]

section
variable {v : Vars}

/-- The parameters of an entry are those of the profile; in a debug entry without `quiet` and with
`hass.debug=1`. -/
theorem params_of_entry (hf : ∀ f ∈ v.kernelFlavors, IsWord f) (hu : ∀ p ∈ v.initrdUcode, IsWord p)
    (hx : v.xenParams = none) (hp : v.Plain) (hq : QuietOnce (words v.initfsCmdline)) {G : Grub}
    (he : e ∈ v.grubMenu G ∨ e ∈ v.syslinuxMenu) :
    isDebug e = false ∧ e.2.params = v.params ∨
    isDebug e = true ∧ e.2.params =
      (words v.initfsCmdline).filter (· ≠ "quiet") ++ "hass.debug=1" :: words v.kernelCmdline := by
  rw [grubMenu_eq hf hu hx hp, syslinuxMenu_eq hf hu hx] at he
  rcases he with he | he
  · obtain ⟨f, -, he⟩ := List.mem_flatMap.mp he
    simp only [List.mem_cons, List.not_mem_nil, or_false] at he
    rcases he with rfl | rfl
    · exact .inl ⟨rfl, rfl⟩
    · refine .inr ⟨rfl, ?_⟩
      rw [← dropFirst_eq_filter hq]
      rfl
  · obtain ⟨f, hmem, rfl⟩ := List.mem_map.mp he
    refine .inl ⟨?_, rfl⟩
    -- a title with blanks is not the label of a flavor
    rw [isDebug, decide_eq_false_iff_not]
    rintro rfl
    exact absurd (hf _ hmem) (by decide)

theorem Switch.on_quiet (s : Switch) : s.on "quiet" = false := by
  cases s <;> decide

theorem any_filter_quiet (s : Switch) (ps : List String) :
    (ps.filter (· ≠ "quiet")).any s.on = ps.any s.on := by
  rw [List.any_filter]
  refine List.any_congr rfl fun w => ?_
  by_cases hw : w = "quiet"
  · rw [hw, s.on_quiet, Bool.and_false]
  · rw [decide_eq_true hw, Bool.true_and]

/-- The words of a debug entry turn on what its profile turns on, and what `hass.debug=1` does. -/
theorem any_debug (s : Switch) (pre ps ks post : List String) :
    (pre ++ (ps.filter (· ≠ "quiet") ++ "hass.debug=1" :: ks) ++ post).any s.on =
      (s.on "hass.debug=1" || (pre ++ (ps ++ ks) ++ post).any s.on) := by
  simp only [List.any_append, List.any_cons, any_filter_quiet]
  cases pre.any s.on <;> cases ps.any s.on <;> cases ks.any s.on <;> cases post.any s.on <;>
    cases s.on "hass.debug=1" <;> rfl

theorem started_of_entry {pre post : List String} (HOSTNAME : String)
    (he : isDebug e = false ∧ e.2.params = v.params ∨
      isDebug e = true ∧ e.2.params =
        (words v.initfsCmdline).filter (· ≠ "quiet") ++ "hass.debug=1" :: words v.kernelCmdline) :
    started HOSTNAME (pre ++ e.2.params ++ post) =
      { started HOSTNAME (pre ++ v.params ++ post) with
        DEBUG := isDebug e || (pre ++ v.params ++ post).any Switch.debug.on } := by
  rcases he with ⟨hno, hparams⟩ | ⟨hyes, hparams⟩
  · rw [hparams, hno, Bool.false_or]
    rfl
  · have hdebug : Switch.debug.on "hass.debug=1" = true := by decide
    have htest : Switch.test.on "hass.debug=1" = false := by decide
    have hurl : Switch.fakeUrl.on "hass.debug=1" = false := by decide
    have himage : Switch.fakeImage.on "hass.debug=1" = false := by decide
    simp only [started, hparams, hyes, any_debug, hdebug, htest, hurl, himage, Bool.true_or,
      Bool.false_or]
    rfl

theorem not_hass {pre post : List String}
    (hh : ∀ w ∈ pre ++ v.params ++ post, ¬ "hass".toList <:+ w.toList)
    (he : isDebug e = false ∧ e.2.params = v.params ∨
      isDebug e = true ∧ e.2.params =
        (words v.initfsCmdline).filter (· ≠ "quiet") ++ "hass.debug=1" :: words v.kernelCmdline) :
    ∀ w ∈ pre ++ e.2.params ++ post, ¬ "hass".toList <:+ w.toList := by
  rcases he with ⟨-, hparams⟩ | ⟨-, hparams⟩
  · rw [hparams]
    exact hh
  · intro w hw
    simp only [hparams, List.mem_append, List.mem_filter, List.mem_cons] at hw
    simp only [Vars.params, List.mem_append] at hh
    rcases hw with (hw | ⟨hw, -⟩ | rfl | hw) | hw
    · exact hh w (.inl (.inl hw))
    · exact hh w (.inl (.inr (.inl hw)))
    · decide
    · exact hh w (.inl (.inr (.inr hw)))
    · exact hh w (.inr hw)

/-- Whatever entry of whatever menu is booted, the installer is started with the variables that the
parameters of the profile and of the boot loader stand for, and the debug entries of `grub.cfg` turn
`DEBUG` on and change nothing else. -/
theorem exports_of_entry (hf : ∀ f ∈ v.kernelFlavors, IsWord f) (hu : ∀ p ∈ v.initrdUcode, IsWord p)
    (hx : v.xenParams = none) (hp : v.Plain) (hq : QuietOnce (words v.initfsCmdline)) {G : Grub}
    (he : e ∈ v.grubMenu G ∨ e ∈ v.syslinuxMenu)
    (hh : ∀ w ∈ pre ++ v.params ++ post, ¬ "hass".toList <:+ w.toList)
    (hr : Run (profile HOSTNAME) t (.call (.installer x) k))
    (ht : Admissible (Honest (cmdline pre post e.2)) t) :
    x = { started HOSTNAME (pre ++ v.params ++ post) with
      DEBUG := isDebug e || (pre ++ v.params ++ post).any Switch.debug.on } := by
  have hentry := params_of_entry hf hu hx hp hq he
  have hstart := starts_profile _ _ () hr (path_monitor_iff.mpr ⟨rfl, ht⟩)
  rw [hstart x (.inl rfl), of_cmdline HOSTNAME (not_hass hh hentry), started_of_entry HOSTNAME hentry]

end

/-- The profile as it stands. -/
def shippedProfile : Vars := profileHassioInstaller (container "#!/bin/bash")

/-- Its debug entry, booted on tty1 up to the installer. -/
def debugTrace : List Event :=
  [(.grep .debug, ⟨0, ""⟩), (.grep .test, ⟨1, ""⟩), (.grep .fakeUrl, ⟨1, ""⟩),
    (.grep .fakeImage, ⟨1, ""⟩), (.tty, ⟨0, "/dev/tty1"⟩)]

theorem debugTrace_honest : Admissible
    (Honest (cmdline ["BOOT_IMAGE=/boot/vmlinuz-lts"] [] (shippedProfile.debugBoot "lts")))
    debugTrace := by
  have hon : ∀ s : Switch, s.on (cmdline ["BOOT_IMAGE=/boot/vmlinuz-lts"] []
      (shippedProfile.debugBoot "lts")) = (s == .debug) := by
    intro s
    cases s <;> decide +kernel
  intro e he
  simp only [debugTrace, List.mem_cons, List.not_mem_nil, or_false] at he
  rcases he with rfl | rfl | rfl | rfl | rfl
  · exact iff_of_true rfl (hon .debug)
  · exact iff_of_false (by decide) (by rw [hon]; decide)
  · exact iff_of_false (by decide) (by rw [hon]; decide)
  · exact iff_of_false (by decide) (by rw [hon]; decide)
  · trivial

theorem exports_of_entry_debug : (⟨"hassio-installer", true, false, false⟩ : Exports) =
    { started "hassio-installer" (["BOOT_IMAGE=/boot/vmlinuz-lts"] ++ shippedProfile.params ++ []) with
      DEBUG := isDebug (debugTitle, shippedProfile.debugBoot "lts") ||
        (["BOOT_IMAGE=/boot/vmlinuz-lts"] ++ shippedProfile.params ++ []).any Switch.debug.on } :=
  exports_of_entry (v := shippedProfile) (t := debugTrace) (by decide) (by decide) rfl (by decide)
    (by decide) (G := .bare) (.inl (by rw [grubMenu_eq (by decide) (by decide) rfl (by decide)]; decide))
    (by decide) (.call _ (.call _ (.call _ (.call _ (.call _ .refl)))))
    debugTrace_honest

end HassioInstaller.Console
