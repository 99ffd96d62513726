import HassioInstaller.Installer.Specs

/-! # The Full Erase of a solid-state drive

`SecureErased disk rc l` lists everything a completed call of `_secure_erase` may have left: `l` is
the record of its dialogs and `hdparm` commands and `rc` what it returned. From it follow when the
return code keeps to its protocol and when an image is only written over an erased drive. The two
statuses that decide both are those `_secure_erase` does not look at. -/

namespace HassioInstaller

/-- The commands that erase a drive in full and the dialogs that lead to them. -/
def Cmd.erasing : Cmd → Bool
  | .menu .erase _ | .menu .nvmeFallback _ | .menu .ssdFallback _ | .yesno .unfreeze
  | .hdparmFrozen _ | .securitySetPass _ | .securityErase _ | .zeroFill .. => true
  | _ => false

theorem Cmd.choosing.erasing {c : Cmd} (h : c.choosing) : c.erasing = false := by
  cases c with
  | menu d => cases d <;> first | rfl | simp [choosing, passiveOrReboot, passive] at h
  | yesno d => cases d <;> first | rfl | simp [choosing, passiveOrReboot, passive] at h
  | _ => first | rfl | simp [choosing, passiveOrReboot, passive] at h

theorem Cmd.choosing.ne_writeImage {c : Cmd} (h : c.choosing) (url disk : String) :
    c ≠ .writeImage url disk := by
  rintro rfl
  simp [choosing, passiveOrReboot, passive] at h

/-- The Quick Erase was chosen in one of the fallback menus. -/
def QuickChosen (t : List Event) : Prop :=
  ∃ d content r, (d = Menu.nvmeFallback ∨ d = .ssdFallback) ∧ (.menu d content, r) ∈ t ∧ r.out = "2"

/-- `hdparm -I` was asked whether `disk` is frozen and never found it not to be. -/
def StayedFrozen (disk : String) (t : List Event) : Prop :=
  (∃ r, (.hdparmFrozen disk, r) ∈ t) ∧ ∀ r, (.hdparmFrozen disk, r) ∈ t → ¬ r.ok

/-- The preparation of a secure erase failed: the drive stayed frozen or took no password. -/
def Unprepared (disk : String) (t : List Event) : Prop :=
  StayedFrozen disk t ∨ ∃ r, (.securitySetPass disk, r) ∈ t ∧ ¬ r.ok

/-- What the return code `rc` of a call of `_secure_erase` with trace `t` is to say. -/
@[mk_iff] structure Protocol (disk : String) (t : List Event) (rc : Nat) : Prop where
  unprepared : Unprepared disk t → ¬ QuickChosen t → rc = 1
  unissued : Unprepared disk t → ∀ r, (.securityErase disk, r) ∉ t
  failed : ∀ r, (.securityErase disk, r) ∈ t → ¬ r.ok → rc = 2
  nvmeZero : ∀ content r, (.menu .nvmeFallback content, r) ∈ t → r.out = "1" → rc = 99
  done : rc = 0 → (∃ r, (.securityErase disk, r) ∈ t ∧ r.ok) ∨ QuickChosen t

/-- The drive took the password and the secure erase, as far as they were tried. -/
def Obeyed (disk : String) (t : List Event) : Prop :=
  (∀ r, (.securitySetPass disk, r) ∈ t → r.ok) ∧ ∀ r, (.securityErase disk, r) ∈ t → r.ok

/-- Full Erase was chosen in the erase menu. -/
def FullEraseChosen (t : List Event) : Prop :=
  ∃ content r, (.menu .erase content, r) ∈ t ∧ r.out = "2"

/-- `disk` was erased in full, or the Quick Erase chosen instead. -/
def Erased (disk : String) (t : List Event) : Prop :=
  (∃ r, (.securityErase disk, r) ∈ t ∧ r.ok) ∨ (∃ size msg r, (.zeroFill disk size msg, r) ∈ t) ∨
    QuickChosen t

namespace Installer
open Script

/-- `hdparm -I` has found `disk` not frozen, at once or after a suspend. -/
inductive Thawed (disk : String) : List Event → Prop
  | atOnce : f.ok → Thawed disk [(.hdparmFrozen disk, f)]
  | resumed : ¬ f.ok → y.ok → f'.ok →
    Thawed disk [(.hdparmFrozen disk, f), (.yesno .unfreeze, y), (.hdparmFrozen disk, f')]

/-- Everything a completed call of `_secure_erase` may have done, with its return code. -/
inductive SecureErased (disk : String) : Nat → List Event → Prop
  | nvmeZero : r.out = "1" → SecureErased disk 99 [(.menu .nvmeFallback fallbackEntries, r)]
  | nvmeQuick : r.out = "2" → SecureErased disk 0 [(.menu .nvmeFallback fallbackEntries, r)]
  | ssd : Thawed disk l →
    SecureErased disk 0 (l ++ [(.securitySetPass disk, p), (.securityErase disk, e)])
  | ssdZero : ¬ f.ok → y.ok → ¬ f'.ok → r.out = "1" →
    SecureErased disk 1 [(.hdparmFrozen disk, f), (.yesno .unfreeze, y), (.hdparmFrozen disk, f'),
      (.menu .ssdFallback fallbackEntries, r)]
  | ssdQuick : ¬ f.ok → y.ok → ¬ f'.ok → r.out = "2" →
    SecureErased disk 0 [(.hdparmFrozen disk, f), (.yesno .unfreeze, y), (.hdparmFrozen disk, f'),
      (.menu .ssdFallback fallbackEntries, r)]

/-- With a Full Erase chosen, `disk` counts as erased just if no secure erase of it failed. -/
def Sound (disk : String) (h : List Event) : Prop :=
  FullEraseChosen h → (Erased disk h ↔ ∀ r, (.securityErase disk, r) ∈ h → r.ok)

/-- The record of the erasing commands, looked at when an image is written. -/
abbrev eraseContract : Contract (List Event) Cmd Answer :=
  .record Cmd.erasing (fun _ _ => True)
    (fun h c => ∀ url disk, c = .writeImage url disk → Sound disk h) fun _ => True

/-- The commands that are neither recorded nor the writing of an image. -/
structure Unseen (c : Cmd) : Prop where
  erasing : c.erasing = false
  image : ∀ url disk, c ≠ .writeImage url disk

theorem Unseen.of_choosing {c : Cmd} (h : c.choosing) : Unseen c :=
  ⟨Cmd.choosing.erasing h, Cmd.choosing.ne_writeImage h⟩

theorem Unseen.of_passiveOrReboot {c : Cmd} (h : c.passiveOrReboot) : Unseen c :=
  .of_choosing (Cmd.passiveOrReboot.choosing h)

section
variable {Q : α → List Event → Prop} {k : Answer → Sh α}

theorem wp_unseen (hc : Unseen c) (hk : ∀ r, wp eraseContract (k r) Q h) :
    wp eraseContract (.call c k) Q h :=
  (wp_record_skip hc.erasing).mpr ⟨fun url disk he => absurd he (hc.image url disk), fun r _ => hk r⟩

theorem wp_log (hk : ∀ r, wp eraseContract (k r) Q h) :
    wp eraseContract (.call (.log text) k) Q h :=
  wp_unseen (.of_passiveOrReboot rfl) hk

theorem wp_seen (hc : c.erasing = true) (hk : ∀ r, wp eraseContract (k r) Q (h ++ [(c, r)])) :
    wp eraseContract (.call c k) Q h :=
  (wp_record_keep hc).mpr ⟨fun _ _ he => (by rw [he] at hc; cases hc), fun r _ => hk r⟩

end

theorem wp_of_unseen {p : Sh α} {B : α → Prop} (hp : Only Unseen p B) :
    wp eraseContract p (fun a h => B a ∧ h = hist) hist :=
  hp.skip (fun _ hc => ⟨hc.erasing, fun url disk he => absurd he (hc.image url disk)⟩) trivial

theorem unseen_isok (st : Nat) {Q : Nat → List Event → Prop}
    (hQ : ∀ a, (a = 0 ↔ st = 0) → Q a hist) : wp eraseContract (isok st) Q hist :=
  (wp_of_unseen (only_isok (fun _ => .of_passiveOrReboot rfl) st)).mono
    fun a _ h => h.2 ▸ hQ a h.1

theorem unseen_quickErase {Q : PUnit → List Event → Prop} (hQ : Q ⟨⟩ hist) :
    wp eraseContract (quickErase disk) Q hist :=
  (wp_of_unseen (only_quickErase ⟨rfl, nofun⟩ (fun _ => .of_passiveOrReboot rfl)
    fun _ => ⟨rfl, nofun⟩)).mono fun _ _ h => h.2 ▸ hQ

theorem unseen_reboot (env : Env) (msg : String) {Q : PUnit → List Event → Prop} :
    wp eraseContract (reboot env msg) Q hist :=
  (wp_of_unseen ((only_reboot env msg).weaken fun _ => .of_passiveOrReboot)).mono
    fun _ _ h => h.1.elim

/-- What both fallback menus do with the tag chosen. -/
theorem record_fallbackChoice (env : Env) {opt msg : String} {rc : Nat} {rest : Sh Nat}
    {Q : Nat → List Event → Prop} (h1 : opt = "1" → Q rc hist) (h2 : opt = "2" → Q 0 hist) :
    wp eraseContract (if opt = "1" then return rc
      else if opt = "2" then do
        quickErase disk
        return 0
      else do
        reboot env msg
        rest) Q hist := by
  split
  · exact wp_ret.mpr (h1 ‹_›)
  split <;> rw [bind_eq, wp_bind]
  · exact unseen_quickErase (wp_ret.mpr (h2 ‹_›))
  · exact unseen_reboot env msg

theorem record_secureEraseSsd {Q : Nat → List Event → Prop}
    (hQ : ∀ p e, Q 0 (hist ++ [(.securitySetPass disk, p), (.securityErase disk, e)])) :
    wp eraseContract (secureEraseSsd disk) Q hist := by
  refine wp_log fun _ => wp_unseen (.of_passiveOrReboot rfl) fun _ => wp_seen rfl fun p => ?_
  refine (wp_bind (p := isok 0)).mpr (unseen_isok 0 fun st hst => ?_)
  rw [if_neg (not_not.mpr (hst.mpr rfl))]
  refine wp_seen rfl fun e => wp_log fun _ => wp_unseen (.of_passiveOrReboot rfl) fun _ =>
    wp_unseen (.of_passiveOrReboot rfl) fun _ => wp_unseen (.of_passiveOrReboot rfl) fun _ => ?_
  rw [List.append_assoc]
  exact wp_ret.mpr (hQ p e)

/-- What a call of `_secure_erase` adds to the record. -/
theorem record_secureErase (env : Env) (disk : String) (hist : List Event) :
    wp eraseContract (secureErase env disk)
      (fun rc h => ∃ l, h = hist ++ l ∧ SecureErased disk rc l) hist := by
  have ssd : ∀ l, Thawed disk l → wp eraseContract (secureEraseSsd disk)
      (fun rc h => ∃ l, h = hist ++ l ∧ SecureErased disk rc l) (hist ++ l) := fun l hl =>
    record_secureEraseSsd fun p e => ⟨_, List.append_assoc .., .ssd hl⟩
  unfold secureErase
  split
  · refine wp_log fun _ => wp_seen rfl fun r => wp_log fun _ => ?_
    exact record_fallbackChoice env (fun h1 => ⟨_, rfl, .nvmeZero h1⟩)
      (fun h2 => ⟨_, rfl, .nvmeQuick h2⟩)
  refine wp_log fun _ => wp_seen rfl fun f => (wp_bind (p := isok _)).mpr ?_
  refine unseen_isok _ fun st hst => ?_
  split
  · exact ssd _ (.atOnce (hst.mp ‹_›))
  have hf : ¬ f.ok := fun h => ‹¬ st = 0› (hst.mpr h)
  refine wp_log fun _ => wp_seen rfl fun y => (wp_bind (p := isok _)).mpr ?_
  refine unseen_isok _ fun agreed hagreed => ?_
  split
  · have hy : y.ok := hagreed.mp ‹_›
    refine wp_log fun _ => wp_unseen (.of_passiveOrReboot rfl) fun _ =>
      wp_unseen (.of_passiveOrReboot rfl) fun _ => wp_log fun _ => wp_seen rfl fun f' =>
      (wp_bind (p := isok _)).mpr (unseen_isok _ fun st hst => ?_)
    rw [List.append_assoc, List.append_assoc]
    split
    · exact ssd _ (.resumed hf hy (hst.mp ‹_›))
    have hf' : ¬ f'.ok := fun h => ‹¬ st = 0› (hst.mpr h)
    refine wp_log fun _ => wp_seen rfl fun r => wp_log fun _ => ?_
    rw [List.append_assoc]
    exact record_fallbackChoice env (fun h1 => ⟨_, rfl, .ssdZero hf hy hf' h1⟩)
      (fun h2 => ⟨_, rfl, .ssdQuick hf hy hf' h2⟩)
  · exact wp_log fun _ => (wp_bind (p := reboot env _)).mpr (unseen_reboot env _)

/-! ## The return code -/

theorem securedErase_of_run {env : Env} {disk : String} {rc : Nat}
    (hr : Run (secureErase env disk) t (.ret rc)) :
    SecureErased disk rc (t.filter (Cmd.erasing ·.1)) := by
  obtain ⟨l, hl, h⟩ := record_secureErase env disk [] t (.ret rc) _ hr
    (path_record_iff.mpr ⟨rfl, fun _ _ => trivial⟩)
  rw [List.nil_append, List.nil_append] at hl
  rw [hl]
  exact h

theorem Thawed.mem (ht : Thawed disk l) (hm : e ∈ l) :
    (∃ r, e = (.hdparmFrozen disk, r)) ∨ ∃ r, e = (.yesno .unfreeze, r) := by
  cases ht with
  | atOnce => exact .inl ⟨_, List.mem_singleton.mp hm⟩
  | resumed =>
    simp only [List.mem_cons, List.not_mem_nil, or_false] at hm
    rcases hm with rfl | rfl | rfl
    · exact .inl ⟨_, rfl⟩
    · exact .inr ⟨_, rfl⟩
    · exact .inl ⟨_, rfl⟩

theorem Thawed.ok (ht : Thawed disk l) : ∃ r, (.hdparmFrozen disk, r) ∈ l ∧ r.ok := by
  cases ht with
  | atOnce hf => exact ⟨_, by simp, hf⟩
  | resumed _ _ hf => exact ⟨_, by simp, hf⟩

/-- The members of the record of a secure erase that was carried out. -/
theorem mem_ssd {l : List Event}
    (hm : (c, r) ∈ l ++ [(.securitySetPass disk, p), (.securityErase disk, e)]) :
    (c, r) ∈ l ∨ (c = .securitySetPass disk ∧ r = p) ∨ (c = .securityErase disk ∧ r = e) := by
  simpa using hm

theorem SecureErased.protocol_of_obeyed (h : SecureErased disk rc l) (ho : Obeyed disk l) :
    Protocol disk l rc := by
  cases h with
  | nvmeZero h1 => constructor <;> simp [Unprepared, StayedFrozen, QuickChosen, h1]
  | nvmeQuick h2 => constructor <;> simp [Unprepared, StayedFrozen, QuickChosen, h2]
  | ssdZero hf hy hf' h1 => constructor <;> simp [Unprepared, StayedFrozen, QuickChosen]
  | ssdQuick hf hy hf' h2 => constructor <;> simp [Unprepared, StayedFrozen, QuickChosen, h2]
  | @ssd l p e ht =>
    have hprep : ¬ Unprepared disk
        (l ++ [(.securitySetPass disk, p), (.securityErase disk, e)]) := by
      rintro (⟨-, hall⟩ | ⟨r, hm, hr⟩)
      · obtain ⟨r, hm, hr⟩ := ht.ok
        exact hall r (List.mem_append_left _ hm) hr
      · exact hr (ho.1 r hm)
    refine ⟨fun h => absurd h hprep, fun h => absurd h hprep, fun r hm hr => absurd (ho.2 r hm) hr,
      fun content r hm => ?_, fun _ => .inl ⟨e, by simp, ho.2 e (by simp)⟩⟩
    rcases mem_ssd hm with hm | ⟨hc, -⟩ | ⟨hc, -⟩
    · rcases ht.mem hm with ⟨r', h⟩ | ⟨r', h⟩ <;> cases h
    · cases hc
    · cases hc

theorem SecureErased.obeyed_of_protocol (h : SecureErased disk rc l) (hp : Protocol disk l rc) :
    Obeyed disk l := by
  refine ⟨fun r hm => ?_, fun r hm => ?_⟩ <;> by_contra hr
  · have hno := hp.unissued (.inr ⟨r, hm, hr⟩)
    cases h with
    | @ssd _ _ e => exact hno e (by simp)
    | nvmeZero | nvmeQuick | ssdZero | ssdQuick => simp at hm
  · have h2 := hp.failed r hm hr
    cases h <;> cases h2

theorem mem_record {c : Cmd} (hc : c.erasing = true) {r : Answer} {t : List Event} :
    (c, r) ∈ t.filter (Cmd.erasing ·.1) ↔ (c, r) ∈ t := by
  simp [List.mem_filter, hc]

theorem quickChosen_record : QuickChosen (t.filter (Cmd.erasing ·.1)) ↔ QuickChosen t :=
  exists_congr fun d => exists_congr fun content => exists_congr fun r =>
    and_congr_right fun hd => by rcases hd with rfl | rfl <;> rw [mem_record rfl]

theorem erased_record : Erased disk (t.filter (Cmd.erasing ·.1)) ↔ Erased disk t := by
  simp only [Erased, quickChosen_record, mem_record (c := .securityErase disk) rfl,
    mem_record (c := .zeroFill disk _ _) rfl]

theorem protocol_record : Protocol disk (t.filter (Cmd.erasing ·.1)) rc ↔ Protocol disk t rc := by
  have unprepared : Unprepared disk (t.filter (Cmd.erasing ·.1)) ↔ Unprepared disk t := by
    simp only [Unprepared, StayedFrozen, mem_record (c := .hdparmFrozen disk) rfl,
      mem_record (c := .securitySetPass disk) rfl]
  simp only [protocol_iff, quickChosen_record, unprepared, mem_record (c := .securityErase disk) rfl,
    mem_record (c := .menu .nvmeFallback _) rfl]

/-! ## Writing over an erased drive -/

/-- Zeroes were written, and no secure erase was tried. -/
theorem Sound.of_zeroFill (hne : ∀ r, (.securityErase disk, r) ∉ h) :
    Sound disk (h ++ [(.zeroFill disk size msg, z)]) := by
  intro _
  refine iff_of_true (.inr (.inl ⟨size, msg, z, by simp⟩)) fun r hm => ?_
  exact absurd (by simpa using hm) (hne r)

theorem SecureErased.not_mem_of_ne_zero (h : SecureErased disk rc l) (hrc : rc ≠ 0) (r : Answer) :
    (.securityErase disk, r) ∉ l := by
  cases h <;> simp at hrc ⊢

theorem SecureErased.sound (h : SecureErased disk 0 l) (m : Answer) :
    Sound disk ((.menu .erase content, m) :: l) := by
  intro _
  generalize hrc : 0 = rc at h
  cases h with
  | nvmeZero | ssdZero => cases hrc
  | nvmeQuick h2 =>
    exact iff_of_true (.inr (.inr ⟨_, fallbackEntries, _, .inl rfl, by simp, h2⟩)) (by simp)
  | ssdQuick _ _ _ h2 =>
    exact iff_of_true (.inr (.inr ⟨_, fallbackEntries, _, .inr rfl, by simp, h2⟩)) (by simp)
  | @ssd l p e ht =>
    have only : ∀ c r, (c, r) ∈ (Cmd.menu .erase content, m) ::
        (l ++ [(.securitySetPass disk, p), (.securityErase disk, e)]) →
        c = .menu .erase content ∨ (∃ r', (c, r) = (.hdparmFrozen disk, r')) ∨
          c = .yesno .unfreeze ∨ c = .securitySetPass disk ∨ c = .securityErase disk ∧ r = e := by
      intro c r hm
      rcases List.mem_cons.mp hm with hm | hm
      · cases hm
        exact .inl rfl
      rcases mem_ssd hm with hm | ⟨hc, -⟩ | ⟨hc, hr⟩
      · rcases ht.mem hm with h | ⟨r', h⟩
        · exact .inr (.inl h)
        · cases h
          exact .inr (.inr (.inl rfl))
      · exact .inr (.inr (.inr (.inl hc)))
      · exact .inr (.inr (.inr (.inr ⟨hc, hr⟩)))
    have herase : ∀ r, (.securityErase disk, r) ∈ (Cmd.menu .erase content, m) ::
        (l ++ [(.securitySetPass disk, p), (.securityErase disk, e)]) → r = e := by
      intro r hm
      rcases only _ r hm with h | ⟨_, h⟩ | h | h | ⟨-, h⟩
      all_goals first | exact h | cases h
    constructor
    · rintro (⟨r, hm, hr⟩ | ⟨size, msg, r, hm⟩ | ⟨d, content', r, hd, hm, -⟩)
      · intro r' hm'
        rwa [herase r' hm', ← herase r hm]
      · rcases only _ r hm with h | ⟨_, h⟩ | h | h | ⟨h, -⟩ <;> cases h
      · rcases only _ r hm with h | ⟨_, h⟩ | h | h | ⟨h, -⟩
        · rcases hd with rfl | rfl <;> cases h
        all_goals cases h
    · exact fun hall => .inl ⟨e, by simp, hall e (by simp)⟩

theorem record_fullErase (msg : String) {Q : PUnit → List Event → Prop}
    (hQ : ∀ size z, Q ⟨⟩ (hist ++ [(.zeroFill disk size msg, z)])) :
    wp eraseContract (fullErase disk msg) Q hist :=
  wp_log fun _ => wp_unseen (.of_passiveOrReboot rfl) fun size => wp_seen rfl fun z =>
    wp_ret.mpr (hQ size.out z)

/-- What an erase method leaves in the record after the choice of it. -/
theorem record_eraseWith (env : Env) (disk content : String) (m : Answer) :
    wp eraseContract (eraseWith env disk m.out) (fun _ h => Sound disk h)
      [(.menu .erase content, m)] := by
  unfold eraseWith
  split
  · refine unseen_quickErase fun ⟨_, r, hm, h2⟩ => ?_
    cases List.mem_singleton.mp hm
    exact absurd h2 (by rw [‹m.out = "1"›]; decide)
  split
  · refine wp_unseen (.of_passiveOrReboot rfl) fun rotational => ?_
    rw [ret_bind]
    split
    · exact record_fullErase _ fun _ _ => .of_zeroFill (by simp)
    refine (wp_bind (p := secureErase env disk)).mpr ((record_secureErase env disk _).mono ?_)
    rintro rc _ ⟨l, rfl, hl⟩
    have zero : rc ≠ 0 → ∀ msg, wp eraseContract (fullErase disk msg) (fun _ h => Sound disk h)
        ([(.menu .erase content, m)] ++ l) := fun hrc msg =>
      record_fullErase msg fun _ _ => .of_zeroFill fun r hm =>
        hl.not_mem_of_ne_zero hrc r (by simpa using hm)
    split
    · exact zero (by omega) _
    split
    · exact unseen_reboot env _
    split
    · exact zero (by omega) _
    split
    · exact zero (by omega) _
    have h0 : rc = 0 := by cases hl <;> first | rfl | contradiction
    subst h0
    exact wp_ret.mpr (hl.sound m)
  · refine wp_ret.mpr fun ⟨_, r, hm, h2⟩ => ?_
    cases List.mem_singleton.mp hm
    contradiction

theorem record_eraseDrive (env : Env) (disk : String) :
    wp eraseContract (eraseDrive env disk) (fun _ h => Sound disk h) [] := by
  have nothing : Sound disk [] := fun ⟨_, _, hm, _⟩ => nomatch hm
  refine wp_unseen ⟨rfl, nofun⟩ fun listed => ?_
  rw [ret_bind]
  split
  · refine wp_log fun _ => wp_unseen ⟨rfl, nofun⟩ fun answer => ?_
    refine (wp_bind (p := isokReboot env answer.status _)).mpr ?_
    refine (wp_of_unseen ((only_isokReboot env answer.status _).weaken fun _ =>
      .of_passiveOrReboot)).mono ?_
    rintro _ _ ⟨-, rfl⟩
    refine wp_seen rfl fun m => (wp_bind (p := isokReboot env m.status _)).mpr ?_
    refine (wp_of_unseen ((only_isokReboot env m.status _).weaken fun _ =>
      .of_passiveOrReboot)).mono ?_
    rintro _ _ ⟨-, rfl⟩
    exact wp_log fun _ => record_eraseWith env disk _ m
  · exact wp_ret.mpr nothing

theorem record_install (env : Env) (url disk : String) (h : Sound disk hist) :
    wp eraseContract (install env url disk) (fun _ _ => True) hist := by
  refine wp_log fun _ => (wp_record_skip rfl).mpr ⟨?_, fun _ _ => ?_⟩
  · intro url' disk' he
    cases he
    exact h
  refine wp_log fun _ => wp_log fun _ => wp_unseen ⟨rfl, nofun⟩ fun _ => ?_
  exact (wp_of_unseen (only_conclude (fun _ h => .of_passiveOrReboot (Cmd.passive.orReboot h))
    (.of_passiveOrReboot rfl) (fun _ => ⟨rfl, nofun⟩) ⟨rfl, nofun⟩ env disk)).mono
    fun _ _ _ => trivial

theorem record_mainFlow (env : Env) : wp eraseContract (mainFlow env) (fun _ _ => True) [] := by
  refine wp_mainFlow_of (· = []) ?_ ?_ (fun _ _ => trivial) (fun url disk hist h => ?_) rfl
  · intro hist c _ hc url disk he
    exact absurd he (Cmd.choosing.ne_writeImage hc url disk)
  · rintro _ c r _ rfl hc ⟨-, rfl⟩
    simp only [Cmd.choosing.erasing hc, Bool.false_eq_true, if_false]
  · subst h
    exact (record_eraseDrive env disk).mono fun _ hist h => record_install env url disk h

theorem sound_of_run {env : Env} {q : Sh PUnit}
    (hr : Run (mainFlow env) (pre ++ (.writeImage url disk, r) :: post) q) : Sound disk pre := by
  have h := (record_mainFlow env).guard hr (path_record_iff.mpr ⟨rfl, fun _ _ => trivial⟩) url disk
    rfl
  intro ⟨content, m, hm, h2⟩
  have herase := h ⟨content, m, (mem_record rfl).mpr hm, h2⟩
  simpa only [List.nil_append, erased_record, mem_record (c := .securityErase disk) rfl] using herase

/-- The return code of `_secure_erase` keeps to its protocol just if the drive took the password
and the secure erase, and with a Full Erase chosen the image is written over an erased drive just if
no secure erase failed. -/
theorem fullErase_sound_iff (env : Env) :
    (∀ disk t rc, Run (secureErase env disk) t (.ret rc) → (Protocol disk t rc ↔ Obeyed disk t)) ∧
      ∀ url disk pre r post q, Run (mainFlow env) (pre ++ (.writeImage url disk, r) :: post) q →
        FullEraseChosen pre →
          (Erased disk pre ↔ ∀ r, (.securityErase disk, r) ∈ pre → r.ok) := by
  refine ⟨fun disk t rc hr => ?_, fun url disk pre r post q hr => sound_of_run hr⟩
  have h := securedErase_of_run hr
  have hiff : Protocol disk _ rc ↔ Obeyed disk _ := ⟨h.obeyed_of_protocol, h.protocol_of_obeyed⟩
  rw [protocol_record] at hiff
  simpa only [Obeyed, mem_record (c := .securityErase disk) rfl,
    mem_record (c := .securitySetPass disk) rfl] using hiff

theorem fullErase_sound_iff_thorough :
    Erased "/dev/sda" ((trial thorough).1.take 52) ↔
      ∀ r, (.securityErase "/dev/sda", r) ∈ (trial thorough).1.take 52 → r.ok := by
  have hsplit : (trial thorough).1 = (trial thorough).1.take 52 ++
      (.writeImage (imageUrl "9.5") "/dev/sda", ⟨0, ""⟩) :: (trial thorough).1.drop 53 := by
    decide +kernel
  exact (fullErase_sound_iff booted).2 _ _ _ _ _ _ (hsplit ▸ trial_run thorough)
    ⟨"1|Quick Erase|2|Full Erase", ⟨0, "2"⟩, by decide +kernel, rfl⟩

/-- Full Erase on a drive that rejects the password and the secure erase. -/
def rejecting : Cmd → Answer
  | .securitySetPass _ | .securityErase _ => ⟨1, ""⟩
  | c => thorough c

/-- The entries of a trace that would make a drive count as erased. -/
def Event.erases : Event → Bool
  | (.securityErase _, r) => r.status == 0
  | (.zeroFill .., _) => true
  | (.menu .nvmeFallback _, r) | (.menu .ssdFallback _, r) => r.out == "2"
  | _ => false

theorem not_erased (h : ∀ e ∈ t, Event.erases e = false) : ¬ Erased disk t := by
  rintro (⟨r, hm, hr⟩ | ⟨size, msg, r, hm⟩ | ⟨d, content, r, hd, hm, h2⟩)
  · simpa [Event.erases, hr] using h _ hm
  · cases h _ hm
  · rcases hd with rfl | rfl <;> simpa [Event.erases, h2] using h _ hm

/-- Both commands fail, `_secure_erase` returns 0, and the image goes over the old data. -/
theorem rejected_erase_writes_image :
    (∃ t, Run (secureErase booted "/dev/sda") t (.ret 0) ∧ ¬ Protocol "/dev/sda" t 0) ∧
      ∃ url pre r post q, Run (mainFlow booted) (pre ++ (.writeImage url "/dev/sda", r) :: post) q ∧
        FullEraseChosen pre ∧ ¬ Erased "/dev/sda" pre := by
  constructor
  · have hr := run_play (fun _ => rejecting) 40 (secureErase booted "/dev/sda")
    have hv : (play (fun _ => rejecting) 40 [] (secureErase booted "/dev/sda")).2 = .ret 0 :=
      eq_ret_of_value (by decide +kernel)
    rw [hv] at hr
    exact ⟨_, hr, fun hp => absurd (hp.failed ⟨1, ""⟩ (by decide +kernel) (by decide)) (by decide)⟩
  · have hsplit : (trial rejecting).1 = (trial rejecting).1.take 52 ++
        (.writeImage (imageUrl "9.5") "/dev/sda", ⟨0, ""⟩) :: (trial rejecting).1.drop 53 := by
      decide +kernel
    exact ⟨_, _, _, _, _, hsplit ▸ trial_run rejecting,
      ⟨"1|Quick Erase|2|Full Erase", ⟨0, "2"⟩, by decide +kernel, rfl⟩,
      not_erased (by decide +kernel)⟩

end Installer
end HassioInstaller
