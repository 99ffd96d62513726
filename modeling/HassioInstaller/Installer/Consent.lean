import HassioInstaller.Installer.Effects

/-! # Consent

What a user has agreed to is read off the history of a run: `Consent disk h` collects the answers
that allow `disk` to be erased or written, and an `Event.refusal` is a dialog that ended any other
way. Every destructive command of the main flow is done with the consent for its drive in its history
and no refusal in it, as long as none stands in the label of a flash drive. -/

namespace HassioInstaller

/-- The dialogs that ask for consent. -/
def Cmd.asks : Cmd → Bool
  | .menu .flashdrive _ => false
  | .yesno _ | .menu .. => true
  | _ => false

/-- A menu prints a tag only if it was accepted. -/
def Cmd.Answers (c : Cmd) (r : Answer) : Prop := c.isMenu → ¬ r.ok → r.out = ""

instance (c : Cmd) (r : Answer) : Decidable (c.Answers r) :=
  inferInstanceAs (Decidable (_ → _ → _))

/-- A dialog that ended in No, ESC or an error, or in "Abort operation and reboot". -/
def Event.refusal : Event → Bool
  | (.yesno _, r) | (.menu .version _, r) | (.menu .drive _, r) | (.menu .erase _, r) => r.status != 0
  | (.menu .nvmeFallback _, r) | (.menu .ssdFallback _, r) => r.status != 0 || r.out == "3"
  | _ => false

theorem Event.refusal_of_not_asks {c : Cmd} (h : c.asks = false) (r : Answer) :
    Event.refusal (c, r) = false := by
  cases c with
  | yesno => cases h
  | menu d => cases d <;> first | rfl | cases h
  | _ => rfl

theorem Cmd.ne_menu_of_not_asks {c : Cmd} (h : c.asks = false) (content : String) :
    c ≠ .menu .drive content := by
  rintro rfl
  cases h

/-- `c` was issued and exited 0. -/
def Succeeded (c : Cmd) (h : List Event) : Prop := ∃ r, (c, r) ∈ h ∧ r.ok

/-- No dialog has been refused. -/
def Unrefused (h : List Event) : Prop := ∀ e ∈ h, Event.refusal e = false

/-- The drive menu has been answered with `disk` and nothing else. -/
structure Chosen (disk : String) (h : List Event) : Prop where
  answered : ∃ content r, (.menu .drive content, r) ∈ h ∧ r.ok ∧ r.out = disk
  only : ∀ content r, (.menu .drive content, r) ∈ h → r.out = disk

/-- The answers that allow `disk` to be erased or written: Yes to the welcome, a version, a drive
and, if sysfs lists a partition of it, Yes to the warning and a choice in the erase menu. -/
structure Consent (disk : String) (h : List Event) : Prop where
  welcome : Succeeded (.yesno .welcome) h
  version : ∃ content, Succeeded (.menu .version content) h
  drive : Chosen disk h
  looked : ∃ r, (.lsPartitions disk, r) ∈ h
  erase : Succeeded (.lsPartitions disk) h →
    Succeeded (.yesno (.warning disk)) h ∧ ∃ content, Succeeded (.menu .erase content) h

/-! ## What a new event changes -/

theorem Succeeded.append (hs : Succeeded c h) (t : List Event) : Succeeded c (h ++ t) :=
  let ⟨r, hm, hr⟩ := hs
  ⟨r, List.mem_append_left _ hm, hr⟩

theorem Succeeded.last {r : Answer} (hr : r.ok) (h : List Event) :
    Succeeded c (h ++ [(c, r)]) :=
  ⟨r, by simp, hr⟩

theorem Succeeded.of_append (hs : Succeeded c (h ++ [(c', r)])) (hc : c ≠ c') : Succeeded c h := by
  obtain ⟨r', hm, hr⟩ := hs
  rcases List.mem_append.mp hm with hm | hm
  · exact ⟨r', hm, hr⟩
  · cases List.mem_singleton.mp hm
    exact absurd rfl hc

theorem Unrefused.append (hu : Unrefused h) (hr : Event.refusal e = false) :
    Unrefused (h ++ [e]) := by
  intro e' he
  rcases List.mem_append.mp he with he | he
  · exact hu e' he
  · rwa [List.mem_singleton.mp he]

theorem Chosen.append (hd : Chosen disk h) (hc : ∀ content, c ≠ .menu .drive content)
    (r : Answer) : Chosen disk (h ++ [(c, r)]) := by
  obtain ⟨⟨content, r', hm, hr⟩, honly⟩ := hd
  refine ⟨⟨content, r', List.mem_append_left _ hm, hr⟩, fun content r' hm => ?_⟩
  rcases List.mem_append.mp hm with hm | hm
  · exact honly content r' hm
  · cases List.mem_singleton.mp hm
    exact absurd rfl (hc content)

theorem Consent.append (hcon : Consent disk h) (hc : ∀ content, c ≠ .menu .drive content)
    (hl : c ≠ .lsPartitions disk) (r : Answer) : Consent disk (h ++ [(c, r)]) where
  welcome := hcon.welcome.append _
  version := let ⟨content, hv⟩ := hcon.version; ⟨content, hv.append _⟩
  drive := hcon.drive.append hc r
  looked := let ⟨r', hm⟩ := hcon.looked; ⟨r', List.mem_append_left _ hm⟩
  erase hs :=
    let ⟨hw, content, he⟩ := hcon.erase (hs.of_append hl.symm)
    ⟨hw.append _, content, he.append _⟩

namespace Installer
open Script

/-- What the history must show when a command with this target is issued. -/
def Allowed (h : List Event) : Option String → Prop
  | none => True
  | some disk => Consent disk h ∧ Unrefused h

/-- The history of a run in which a destructive command needs consent. -/
abbrev consentContract : Contract (List Event) Cmd Answer :=
  .history Cmd.Answers (fun h c => Allowed h c.target) (fun _ => True)

/-- `I` is kept by the commands of the helper functions. -/
def Stable (I : List Event → Prop) : Prop :=
  ∀ h c, I h → c.passiveOrReboot → ∀ r, I (h ++ [(c, r)])

theorem passiveOrReboot_asks {c : Cmd} (h : c.passiveOrReboot) :
    c.asks = false := by
  cases c with
  | menu d => cases d <;> first | rfl | simp [Cmd.passiveOrReboot, Cmd.passive] at h
  | yesno => simp [Cmd.passiveOrReboot, Cmd.passive] at h
  | _ => rfl

theorem stable_unrefused : Stable Unrefused := fun _ _ hI hc r =>
  hI.append (Event.refusal_of_not_asks (passiveOrReboot_asks hc) r)

theorem stable_succeeded (c : Cmd) : Stable (Succeeded c) := fun _ _ hI _ _ => hI.append _

theorem stable_chosen (disk : String) : Stable (Chosen disk) :=
  fun _ _ hI hc r => hI.append (Cmd.ne_menu_of_not_asks (passiveOrReboot_asks hc)) r

theorem Stable.and (hI : Stable I) (hJ : Stable J) : Stable fun h => I h ∧ J h :=
  fun _ _ h hc r => ⟨hI _ _ h.1 hc r, hJ _ _ h.2 hc r⟩

theorem Stable.imp (hI : Stable I) (P : Prop) : Stable fun h => P → I h :=
  fun _ _ h hc r hP => hI _ _ (h hP) hc r

theorem Stable.log (hI : Stable I) (h : I hist) (text : String) (r : Answer) :
    I (hist ++ [(.log text, r)]) :=
  hI _ _ h rfl r

theorem stable_exists {I : ι → List Event → Prop} (hI : ∀ i, Stable (I i)) :
    Stable fun h => ∃ i, I i h :=
  fun _ _ ⟨i, h⟩ hc r => ⟨i, hI i _ _ h hc r⟩

theorem wp_of_stable {p : Sh α} {B : α → Prop} (hp : Only (fun c => c.passiveOrReboot) p B)
    (hI : Stable I) (h : I hist) : wp consentContract p (fun a h => B a ∧ I h) hist := by
  refine hp.frame I (fun _ hc => ?_) (fun hI' hc hn => ?_) (fun _ _ => trivial) h
  · show Allowed _ _
    rw [Cmd.passiveOrReboot.target hc]
    trivial
  · rw [hn.2]
    exact hI _ _ hI' hc _

/-- After `isok $? reboot` what holds on success holds. -/
theorem wp_isokReboot (hI : Stable I) (h : st = 0 → I hist) (env : Env) (msg : String) :
    wp consentContract (isokReboot env st msg) (fun _ h => I h) hist :=
  (wp_of_stable (only_isokReboot env st msg) (hI.imp (st = 0)) h).mono fun _ _ h => h.2 h.1

theorem wp_exec : wp consentContract (exec c) Q hist ↔
    Allowed hist c.target ∧
      ∀ r, c.Answers r → Q ⟨⟩ (hist ++ [(c, r)]) := by
  simp only [exec, wp_call_monitor, wp_ret]

theorem wp_status : wp consentContract (status c) Q hist ↔
    Allowed hist c.target ∧
      ∀ r, c.Answers r → Q r.status (hist ++ [(c, r)]) := by
  simp only [status, wp_call_monitor, wp_ret]

theorem wp_dialogMenu : wp consentContract (dialogMenu d content) Q hist ↔
    ∀ r, Cmd.Answers (.menu d content) r → Q r (hist ++ [(.menu d content, r)]) := by
  simp only [dialogMenu, wp_call_monitor, wp_ret]
  exact ⟨And.right, fun h => ⟨trivial, h⟩⟩

/-! ## The stages before a drive is chosen -/

/-- `c` has not been issued. -/
def Unissued (c : Cmd) (h : List Event) : Prop := ∀ r, (c, r) ∉ h

theorem Unissued.append (hu : Unissued c h) (hc : c ≠ c') (r : Answer) :
    Unissued c (h ++ [(c', r)]) := by
  intro r' hm
  rcases List.mem_append.mp hm with hm | hm
  · exact hu r' hm
  · cases List.mem_singleton.mp hm
    exact hc rfl

theorem stable_unissued (hc : c.passiveOrReboot = false) : Stable (Unissued c) :=
  fun _ c' hI hc' r => hI.append (fun h => by rw [h, hc'] at hc; cases hc) r

/-- The drive menu has not been shown. -/
def Undecided (h : List Event) : Prop := ∀ content, Unissued (.menu .drive content) h

/-- No drive has been looked at for partitions. -/
def Unlooked (h : List Event) : Prop := ∀ disk, Unissued (.lsPartitions disk) h

theorem stable_forall {I : ι → List Event → Prop} (hI : ∀ i, Stable (I i)) :
    Stable fun h => ∀ i, I i h :=
  fun _ _ h hc r i => hI i _ _ (h i) hc r

/-- Nothing is refused and no drive is chosen. -/
def Fresh (h : List Event) : Prop := Unrefused h ∧ Unlooked h ∧ Undecided h

/-- The welcome dialog was answered with Yes. -/
def Welcomed (h : List Event) : Prop := Fresh h ∧ Succeeded (.yesno .welcome) h

/-- A version was chosen as well. -/
def Versioned (h : List Event) : Prop :=
  Welcomed h ∧ ∃ content, Succeeded (.menu .version content) h

/-- A drive was chosen as well. -/
def Picked (disk : String) (h : List Event) : Prop :=
  Unrefused h ∧ Unlooked h ∧ Succeeded (.yesno .welcome) h ∧
    (∃ content, Succeeded (.menu .version content) h) ∧ Chosen disk h

theorem stable_unlooked : Stable Unlooked := stable_forall fun _ => stable_unissued rfl

theorem stable_fresh : Stable Fresh :=
  stable_unrefused.and (stable_unlooked.and (stable_forall fun _ => stable_unissued rfl))

theorem stable_welcomed : Stable Welcomed := stable_fresh.and (stable_succeeded _)

theorem stable_versioned : Stable Versioned :=
  stable_welcomed.and (stable_exists fun _ => stable_succeeded _)

theorem stable_picked (disk : String) : Stable (Picked disk) :=
  stable_unrefused.and (stable_unlooked.and ((stable_succeeded _).and
    ((stable_exists fun _ => stable_succeeded _).and (stable_chosen disk))))

theorem Unlooked.append (hu : Unlooked h) (hc : ∀ disk, c ≠ .lsPartitions disk) (r : Answer) :
    Unlooked (h ++ [(c, r)]) :=
  fun disk => (hu disk).append (hc disk).symm r

theorem Undecided.append (hu : Undecided h) (hc : ∀ content, c ≠ .menu .drive content)
    (r : Answer) : Undecided (h ++ [(c, r)]) :=
  fun content => (hu content).append (hc content).symm r

/-- A dialog other than the drive menu that was accepted. -/
theorem Fresh.accepted (hf : Fresh h) (hr : Event.refusal (c, r) = false)
    (hc : ∀ content, c ≠ .menu .drive content) (hl : ∀ disk, c ≠ .lsPartitions disk) :
    Fresh (h ++ [(c, r)]) :=
  ⟨hf.1.append hr, hf.2.1.append hl r, hf.2.2.append hc r⟩

theorem refusal_accepted {r : Answer} (hr : Event.refusal (c, r) = (r.status != 0))
    (h0 : r.status = 0) : Event.refusal (c, r) = false := by
  rw [hr, h0]
  rfl

theorem wp_welcome (env : Env) (h : Fresh hist) :
    wp consentContract (welcome env) (fun _ => Welcomed) hist := by
  simp only [welcome, bind_eq, pure_eq, wp_bind, wp_exec, wp_status, wp_ret]
  refine ⟨trivial, fun r _ => ⟨trivial, fun r' _ => ?_⟩⟩
  have h := stable_fresh.log h "Starting, presenting welcome window" r
  exact wp_isokReboot stable_welcomed
    (fun h0 => ⟨h.accepted (refusal_accepted rfl h0) (fun _ h => by cases h)
      (fun _ h => by cases h), .last h0 _⟩) env _

theorem wp_selectVersion (env : Env) (h : Welcomed hist) :
    wp consentContract (selectVersion env) (fun _ => Versioned) hist := by
  simp only [selectVersion, bind_eq, pure_eq, wp_bind, wp_exec, wp_dialogMenu, wp_ret]
  refine (wp_of_stable ((passive_versionMenu env).weaken fun _ => Cmd.passive.orReboot)
    stable_welcomed h).mono fun m hist ⟨_, h⟩ r _ => ?_
  refine (wp_isokReboot stable_versioned (fun h0 => ⟨⟨h.1.accepted (refusal_accepted rfl h0)
    (fun _ h => by cases h) (fun _ h => by cases h), h.2.append _⟩, _, .last h0 _⟩) env _).mono
      fun _ hist h => ⟨trivial, fun r _ => ?_⟩
  exact stable_versioned.log h _ r

theorem wp_selectDrive (env : Env) (h : Versioned hist) :
    wp consentContract (selectDrive env) Picked hist := by
  simp only [selectDrive, bind_eq, pure_eq, wp_bind, wp_exec, wp_dialogMenu, wp_ret]
  refine (wp_of_stable (passive_getDisks.weaken fun _ => Cmd.passive.orReboot)
    stable_versioned h).mono fun disks hist ⟨_, ⟨⟨hf, hw⟩, content, hv⟩⟩ r _ => ?_
  refine (wp_isokReboot (stable_picked r.out) (fun h0 => ⟨hf.1.append (refusal_accepted rfl h0),
    hf.2.1.append (fun _ h => by cases h) r, hw.append _, ⟨content, hv.append _⟩,
    ⟨disks, r, by simp, h0, rfl⟩, fun content r' hm => ?_⟩) env _).mono
      fun _ hist h => ⟨trivial, fun r' _ => ?_⟩
  · rcases List.mem_append.mp hm with hm | hm
    · exact absurd hm (hf.2.2 content r')
    · cases List.mem_singleton.mp hm
      rfl
  · exact (stable_picked _).log h _ r'

/-! ## Erasing and writing -/

/-- The commands that act on no drive but `disk` and ask nothing. -/
structure OnDrive (disk : String) (c : Cmd) : Prop where
  target : ∀ disk', c.target = some disk' → disk' = disk
  asks : c.asks = false
  ls : c ≠ .lsPartitions disk

theorem OnDrive.of_passiveOrReboot (disk : String) {c : Cmd} (h : c.passiveOrReboot) :
    OnDrive disk c where
  target _ ht := by rw [Cmd.passiveOrReboot.target h] at ht; cases ht
  asks := passiveOrReboot_asks h
  ls hc := by subst hc; simp [Cmd.passiveOrReboot, Cmd.passive] at h

theorem OnDrive.of_passive (disk : String) {c : Cmd} (h : c.passive = true) : OnDrive disk c :=
  .of_passiveOrReboot disk (Cmd.passive.orReboot h)

theorem OnDrive.of_target {disk : String} {c : Cmd} (h : c.target = some disk) :
    OnDrive disk c where
  target _ h' := Option.some.inj (h'.symm.trans h)
  asks := by cases c <;> first | rfl | cases h
  ls hc := by subst hc; cases h

theorem OnDrive.of_log (disk : String) (text : String) : OnDrive disk (.log text) :=
  .of_passive disk rfl

theorem OnDrive.of_look {disk : String} {c : Cmd} (ht : c.target = none) (ha : c.asks = false)
    (hl : c ≠ .lsPartitions disk) : OnDrive disk c :=
  ⟨fun _ h => (nomatch ht.symm.trans h), ha, hl⟩

theorem onDrive_quickErase (disk : String) :
    Only (OnDrive disk) (quickErase disk) fun _ => True :=
  only_quickErase (.of_look rfl rfl nofun) (.of_log disk) fun _ => .of_target rfl

theorem onDrive_install (env : Env) (url disk : String) :
    Only (OnDrive disk) (install env url disk) fun _ => True :=
  only_install (fun _ => .of_passive disk) (.of_target rfl) (.of_look rfl rfl nofun)
    (.of_passiveOrReboot disk rfl) (fun _ => .of_look rfl rfl nofun) (.of_look rfl rfl nofun) env

/-- What a drive may be erased or written with. -/
def Granted (disk : String) (h : List Event) : Prop := Consent disk h ∧ Unrefused h

theorem Granted.append (hg : Granted disk h) (hc : OnDrive disk c) (r : Answer) :
    Granted disk (h ++ [(c, r)]) :=
  ⟨hg.1.append (Cmd.ne_menu_of_not_asks hc.asks) hc.ls r,
    hg.2.append (Event.refusal_of_not_asks hc.asks r)⟩

/-- With consent for `disk` a script that acts on no other drive may run. -/
theorem wp_of_granted {p : Sh α} {B : α → Prop} (hp : Only (OnDrive disk) p B)
    (h : Granted disk hist) : wp consentContract p (fun a h => B a ∧ Granted disk h) hist := by
  refine hp.frame (Granted disk) (fun {h c} hg hc => ?_) (fun hg hc hn => ?_) (fun _ _ => trivial) h
  · show Allowed h c.target
    cases ht : c.target with
    | none => trivial
    | some disk' => exact hc.target _ ht ▸ hg
  · rw [hn.2]
    exact hg.append hc _

/-- A dialog that was not refused leaves the grant as it is. -/
theorem Granted.accepted (hg : Granted disk h) (hc : ∀ content, c ≠ .menu .drive content)
    (hl : c ≠ .lsPartitions disk) (hr : Event.refusal (c, r) = false) :
    Granted disk (h ++ [(c, r)]) :=
  ⟨hg.1.append hc hl r, hg.2.append hr⟩

/-- A script that acts on no drive needs no grant. -/
theorem wp_ungranted {p : Sh α} {B : α → Prop} (hp : Only (fun c => c.passiveOrReboot) p B) :
    wp consentContract p (fun a _ => B a) hist := by
  refine hp.anywhere (fun h c hc => ?_) fun _ _ => trivial
  show Allowed h c.target
  rw [Cmd.passiveOrReboot.target hc]
  trivial

/-- `_reboot` does not return, whatever has been refused before it. -/
theorem wp_reboot (env : Env) (msg : String) {Q : PUnit → List Event → Prop} :
    wp consentContract (reboot env msg) Q hist :=
  (wp_ungranted (only_reboot env msg)).mono fun _ _ h => h.elim

theorem Granted.log (hg : Granted disk h) (text : String) (r : Answer) :
    Granted disk (h ++ [(.log text, r)]) :=
  hg.append (.of_passive disk rfl) r

/-- A command that acts on no other drive keeps the grant. -/
theorem wp_call_granted {k : Answer → Sh α} {Q : α → List Event → Prop} (hc : OnDrive disk c)
    (h : Granted disk hist)
    (hk : ∀ r hist, Granted disk hist → wp consentContract (k r) Q hist) :
    wp consentContract (.call c k) Q hist := by
  refine wp_call_monitor.mpr ⟨?_, fun r _ => hk r _ (h.append hc r)⟩
  cases ht : c.target with
  | none => trivial
  | some disk' => exact hc.target _ ht ▸ h

/-- A menu answered with a tag other than the third was not refused. -/
theorem fallback_accepted {d : Menu} (hd : d = .nvmeFallback ∨ d = .ssdFallback)
    (ha : Cmd.Answers (.menu d content) r) (h12 : r.out = "1" ∨ r.out = "2") :
    Event.refusal (.menu d content, r) = false := by
  have h0 : r.status = 0 := by
    by_contra h
    rw [ha rfl h] at h12
    simp at h12
  rcases hd with rfl | rfl <;> rcases h12 with h1 | h2 <;> simp [Event.refusal, *]

/-- The fallback menus: the first two entries go on, everything else ends the run. -/
theorem wp_fallback {d : Menu} (hd : d = .nvmeFallback ∨ d = .ssdFallback) {content : String}
    {k : Answer → Sh α} (h : Granted disk hist)
    (go : ∀ r, r.out = "1" ∨ r.out = "2" → ∀ hist, Granted disk hist →
      wp consentContract (k r) (fun _ => Granted disk) hist)
    (stop : ∀ r, r.out ≠ "1" → r.out ≠ "2" → ∀ hist,
      wp consentContract (k r) (fun _ => Granted disk) hist) :
    wp consentContract (.call (.menu d content) k) (fun _ => Granted disk) hist := by
  refine wp_call_monitor.mpr ⟨trivial, fun r ha => ?_⟩
  by_cases h12 : r.out = "1" ∨ r.out = "2"
  · refine go r h12 _ (h.accepted (fun _ hc => ?_) nofun (fallback_accepted hd ha h12))
    rcases hd with rfl | rfl <;> cases hc
  · rw [not_or] at h12
    exact stop r h12.1 h12.2 _

/-- What both fallback menus do with the tag chosen. -/
theorem wp_fallbackChoice (env : Env) {opt msg : String} {rc : Nat} {rest : Sh Nat}
    (h : opt = "1" ∨ opt = "2" → Granted disk hist) :
    wp consentContract (if opt = "1" then return rc
      else if opt = "2" then do
        quickErase disk
        return 0
      else do
        reboot env msg
        rest) (fun _ => Granted disk) hist := by
  split
  · exact wp_ret.mpr (h (.inl ‹_›))
  split <;> rw [bind_eq, wp_bind]
  · exact (wp_of_granted (onDrive_quickErase disk) (h (.inr ‹_›))).mono fun _ _ h => wp_ret.mpr h.2
  · exact wp_reboot env msg

/-- A log entry does not need a grant. -/
theorem wp_call_log {k : Answer → Sh α} {Q : α → List Event → Prop}
    (hk : ∀ r, wp consentContract (k r) Q (hist ++ [(.log text, r)])) :
    wp consentContract (.call (.log text) k) Q hist :=
  wp_call_monitor.mpr ⟨trivial, fun r _ => hk r⟩

theorem wp_secureEraseNvme (env : Env) (h : Granted disk hist) :
    wp consentContract (secureEraseNvme env disk) (fun _ => Granted disk) hist := by
  refine wp_call_granted (.of_passive _ rfl) h fun _ hist h => ?_
  refine wp_fallback (.inl rfl) h (fun r _ hist h => ?_) (fun r h1 h2 hist => ?_)
  · exact wp_call_log fun r' => wp_fallbackChoice env fun _ => h.log _ r'
  · exact wp_call_log fun r' => wp_fallbackChoice env fun h12 => absurd h12 (not_or.mpr ⟨h1, h2⟩)

theorem wp_secureEraseSsd (h : Granted disk hist) :
    wp consentContract (secureEraseSsd disk) (fun _ => Granted disk) hist :=
  (wp_of_granted (only_secureEraseSsd (fun _ => .of_passive disk) (.of_target rfl)
    (.of_target rfl)) h).mono fun _ _ h => h.2

theorem wp_isok (st : Nat) (h : Granted disk hist) :
    wp consentContract (isok st) (fun a h => (a = 0 ↔ st = 0) ∧ Granted disk h) hist :=
  wp_of_granted (only_isok (.of_log disk) st) h

theorem wp_secureErase (env : Env) (h : Granted disk hist) :
    wp consentContract (secureErase env disk) (fun _ => Granted disk) hist := by
  unfold secureErase
  split
  · exact wp_secureEraseNvme env h
  refine wp_call_granted (.of_passive _ rfl) h fun _ hist h => ?_
  refine wp_call_granted (.of_look rfl rfl nofun) h fun frozen hist h => ?_
  refine (wp_bind (p := isok _)).mpr ?_
  refine (wp_isok frozen.status h).mono fun st hist ⟨_, h⟩ => ?_
  split
  · exact wp_secureEraseSsd h
  refine wp_call_granted (.of_passive _ rfl) h fun _ hist h => ?_
  refine wp_call_monitor.mpr ⟨trivial, fun answer _ => (wp_bind (p := isok _)).mpr ?_⟩
  by_cases hyes : answer.status = 0
  · refine (wp_isok answer.status (h.accepted (c := .yesno .unfreeze) nofun nofun
      (by simp [Event.refusal, hyes]))).mono fun agreed hist ⟨hagreed, h⟩ => ?_
    rw [if_pos (hagreed.mpr hyes)]
    refine wp_call_granted (.of_passive _ rfl) h fun _ hist h => ?_
    refine wp_call_granted (.of_passive _ rfl) h fun _ hist h => ?_
    refine wp_call_granted (.of_passive _ rfl) h fun _ hist h => ?_
    refine wp_call_granted (.of_passive _ rfl) h fun _ hist h => ?_
    refine wp_call_granted (.of_look rfl rfl nofun) h fun frozen hist h => ?_
    refine (wp_bind (p := isok _)).mpr ?_
    refine (wp_isok frozen.status h).mono fun st hist ⟨_, h⟩ => ?_
    split
    · exact wp_secureEraseSsd h
    refine wp_call_granted (.of_passive _ rfl) h fun _ hist h => ?_
    refine wp_fallback (.inr rfl) h (fun r _ hist h => ?_) (fun r h1 h2 hist => ?_)
    · exact wp_call_log fun r' => wp_fallbackChoice env fun _ => h.log _ r'
    · exact wp_call_log fun r' => wp_fallbackChoice env fun h12 => absurd h12 (not_or.mpr ⟨h1, h2⟩)
  · have hisok : ∀ hist, wp consentContract (isok answer.status)
        (fun a _ => a = 0 ↔ answer.status = 0) hist := fun _ =>
      wp_ungranted (only_isok (fun _ => rfl) answer.status)
    refine (hisok _).mono fun agreed hist h => ?_
    rw [if_neg (mt h.mp hyes)]
    exact wp_call_log fun _ => (wp_bind (p := reboot env _)).mpr (wp_reboot env _)

theorem wp_fullErase (msg : String) (h : Granted disk hist) :
    wp consentContract (fullErase disk msg) (fun _ => Granted disk) hist :=
  (wp_of_granted (only_fullErase (.of_log disk) (fun _ => .of_passive disk rfl)
    (fun _ _ => .of_target rfl) msg) h).mono fun _ _ h => h.2

theorem wp_eraseWith (env : Env) (FORMAT : String) (h : Granted disk hist) :
    wp consentContract (eraseWith env disk FORMAT) (fun _ => Granted disk) hist := by
  unfold eraseWith
  split
  · exact (wp_of_granted (onDrive_quickErase disk) h).mono fun _ _ h => h.2
  split
  · refine wp_call_granted (.of_passive _ rfl) h fun rotational hist h => ?_
    rw [ret_bind]
    split
    · exact wp_fullErase _ h
    · refine wp_bind.mpr ((wp_secureErase env h).mono fun st hist h => ?_)
      split
      · exact wp_fullErase _ h
      split
      · exact wp_reboot env _
      split
      · exact wp_fullErase _ h
      split
      · exact wp_fullErase _ h
      · exact wp_ret.mpr h
  · exact wp_ret.mpr h

/-! ## The warning and the whole flow -/

/-- The drive chosen was looked at as well. -/
def Looked (disk : String) (h : List Event) : Prop :=
  Unrefused h ∧ Succeeded (.yesno .welcome) h ∧ (∃ content, Succeeded (.menu .version content) h) ∧
    Chosen disk h ∧ ∃ r, (.lsPartitions disk, r) ∈ h

/-- The warning was answered with Yes. -/
def Warned (disk : String) (h : List Event) : Prop :=
  Looked disk h ∧ Succeeded (.yesno (.warning disk)) h

theorem stable_looked (disk : String) : Stable (Looked disk) :=
  stable_unrefused.and ((stable_succeeded _).and ((stable_exists fun _ => stable_succeeded _).and
    ((stable_chosen disk).and (stable_exists fun _ _ _ h _ _ => List.mem_append_left _ h))))

theorem stable_warned (disk : String) : Stable (Warned disk) :=
  (stable_looked disk).and (stable_succeeded _)

theorem Picked.looked (hp : Picked disk h) (r : Answer) :
    Looked disk (h ++ [(.lsPartitions disk, r)]) := by
  obtain ⟨hu, -, hw, ⟨content, hv⟩, hd⟩ := hp
  exact ⟨hu.append rfl, hw.append _, ⟨content, hv.append _⟩, hd.append (fun _ h => by cases h) r,
    r, by simp⟩

/-- A drive without partitions was looked at, and nothing more is asked. -/
theorem Picked.granted (hp : Picked disk h) (hr : r.status ≠ 0) :
    Granted disk (h ++ [(.lsPartitions disk, r)]) := by
  obtain ⟨hu, hw, hv, hd, hl⟩ := hp.looked r
  refine ⟨⟨hw, hv, hd, hl, fun ⟨r', hm, hr'⟩ => ?_⟩, hu⟩
  rcases List.mem_append.mp hm with hm | hm
  · exact absurd hm (hp.2.1 disk r')
  · cases List.mem_singleton.mp hm
    exact absurd hr' hr

theorem Looked.accepted (hl : Looked disk h) (hr : Event.refusal (c, r) = false)
    (hc : ∀ content, c ≠ .menu .drive content) : Looked disk (h ++ [(c, r)]) := by
  obtain ⟨hu, hw, ⟨content, hv⟩, hd, r', hm⟩ := hl
  exact ⟨hu.append hr, hw.append _, ⟨content, hv.append _⟩, hd.append hc r,
    r', List.mem_append_left _ hm⟩

theorem Warned.granted (hw : Warned disk h) (he : ∃ content, Succeeded (.menu .erase content) h) :
    Granted disk h :=
  let ⟨⟨hu, hwel, hv, hd, hl⟩, hwarn⟩ := hw
  ⟨⟨hwel, hv, hd, hl, fun _ => ⟨hwarn, he⟩⟩, hu⟩

theorem wp_eraseDrive (env : Env) (h : Picked disk hist) :
    wp consentContract (eraseDrive env disk) (fun _ => Granted disk) hist := by
  refine wp_call_monitor.mpr ⟨trivial, fun listed _ => ?_⟩
  rw [ret_bind]
  split
  · refine wp_call_log fun r => wp_call_monitor.mpr ⟨trivial, fun answer _ => ?_⟩
    have h := (stable_looked disk).log (h.looked listed) "Disk is not empty, asking for input" r
    refine (wp_bind (p := isokReboot env answer.status _)).mpr ?_
    refine (wp_isokReboot (stable_warned disk) (fun h0 => ⟨h.accepted (refusal_accepted rfl h0)
      (fun _ h => by cases h), .last h0 _⟩) env _).mono fun _ hist h => ?_
    refine wp_call_monitor.mpr ⟨trivial, fun answer _ => ?_⟩
    refine (wp_bind (p := isokReboot env answer.status _)).mpr ?_
    have hstable : Stable fun h => Warned disk h ∧ ∃ content, Succeeded (.menu .erase content) h :=
      (stable_warned disk).and (stable_exists fun _ => stable_succeeded _)
    refine (wp_isokReboot hstable (fun h0 => ⟨⟨h.1.accepted (refusal_accepted rfl h0)
      (fun _ h => by cases h), h.2.append _⟩, _, .last h0 _⟩) env _).mono fun _ hist h => ?_
    exact wp_call_log fun r => wp_eraseWith env answer.out ((h.1.granted h.2).log _ r)
  · exact wp_ret.mpr (h.granted ‹_›)

theorem wp_mainFlow (env : Env) : wp consentContract (mainFlow env) (fun _ _ => True) [] := by
  simp only [mainFlow, bind_eq, wp_bind]
  have h : Fresh [] := by
    constructor
    · intro e he
      cases he
    · constructor <;> intro _ _ hm <;> cases hm
  refine (wp_welcome env h).mono fun _ hist h => ?_
  apply (wp_of_stable (only_checkconnection env) stable_welcomed h).mono
  rintro _ hist ⟨-, h⟩
  refine (wp_selectVersion env h).mono fun url hist h => ?_
  refine (wp_selectDrive env h).mono fun disk hist h => ?_
  refine (wp_eraseDrive env h).mono fun _ hist h => ?_
  exact (wp_of_granted (onDrive_install env url disk) h).mono fun _ _ _ => trivial

theorem granted_of_run {env : Env} {q : Sh PUnit}
    (hr : Run (mainFlow env) (pre ++ (c, r) :: post) q)
    (ht : Admissible Cmd.Answers (pre ++ (c, r) :: post)) (hc : c.target = some disk) :
    Granted disk pre := by
  have hg := (wp_mainFlow env).guard hr (path_history_iff.mpr ⟨rfl, fun e he =>
    ht e (List.mem_append_left _ he)⟩)
  change Allowed pre c.target at hg
  rwa [hc] at hg

theorem noListing : Cmd.blkid ∉ ((trial sample).1.take 40).map Prod.fst := by decide +kernel

/-- A boot in debug mode. -/
def debugging : Env := { booted with DEBUG := true }

/-- In debug mode the log collection comes first. -/
theorem reaches_reboot {answers : Cmd → Answer → Prop} (free : ∀ c r, c.asked = false → answers c r)
    {env : Env} (hdebug : env.DEBUG = true) (msg : String) (h : Reaches answers (collectlogs env) c) :
    Reaches answers (reboot env msg) c := by
  simp only [reboot, hdebug, Script.when, if_true, bind_eq, bind_assoc]
  refine reaches_call ⟨0, ""⟩ (free _ _ rfl) ?_
  refine reaches_call ⟨0, ""⟩ (free _ _ rfl) ?_
  exact reaches_bind h _

end Installer
end HassioInstaller
