import HassioInstaller.Installer.Specs

/-! # The log on the flash drive

The statuses of the last mount and of the copy are not looked at. Once a drive is chosen in the menu
the log is said to be saved and the menu does not come back; the log is then on the chosen partition
just if that was found writable, the mount worked or the partition had been left mounted, and the copy
went on to the last byte. The type that is mounted is always the one the partition was found writable
with. -/

namespace HassioInstaller
open Text Script Installer

/-- A drive is chosen in the menu. -/
abbrev Answer.Chooses (r : Answer) : Prop := r.ok ∧ r.out ≠ "r"

/-- A mount that was tried, with the partition on top of `/mnt` before it. -/
structure MountTry where
  type : String
  part : String
  ok : Bool
  before : Option String

/-- What the log upload does to the file system: the partitions mounted on `/mnt` with their types, the
last one first, those that the scan could write to since it began, the last mount that was tried, and
the last copy, with the partition it went to and whether it was whole; and what the menu was answered
since the scan began. -/
structure Mounts where
  mnt : List (String × String)
  writable : List (String × String)
  tried : MountTry
  copied : Option (Option String × Bool)
  answer : Option Answer

/-- What a command leaves to chance: whether a copy gets to the last byte of the log, as the drive may
be removed or fill up, and what `eval` of a label leaves mounted. -/
structure Chance where
  whole : Bool
  mnt : List (String × String)

namespace Mounts

/-- Nothing is mounted. -/
def none : Mounts := ⟨[], [], ⟨"", "", false, .none⟩, .none, .none⟩

/-- The partition whose files are below `/mnt`. -/
def top (w : Mounts) : Option String := w.mnt.head?.map Prod.fst

/-- What a command does. -/
def step (chance : Chance) (w : Mounts) : Cmd → Answer → Mounts
  | .blkid, _ => { w with writable := [], answer := .none }
  | .evalWords .., _ => { w with mnt := chance.mnt }
  | .mountType type part, r =>
    { w with
      mnt := if r.status = 0 then (part, type) :: w.mnt else w.mnt
      tried := ⟨type, part, r.status == 0, w.top⟩ }
  | .touch _, r => { w with writable := if r.status = 0 then w.mnt.head?.toList ++ w.writable
      else w.writable }
  | .umount, r => { w with mnt := if r.status = 0 then w.mnt.tail else w.mnt }
  | .menu .flashdrive _, r => { w with answer := some r }
  | .copyLog .., _ => { w with copied := some (w.top, chance.whole) }
  | _, _ => w

def Next (w : Mounts) (c : Cmd) (r : Answer) (w' : Mounts) : Prop := ∃ chance, w' = w.step chance c r

/-- `part` was mounted when the log was copied, the whole log was written to it, and it is the partition
mounted last, which the scan found writable with that type. -/
def SavedOn (w : Mounts) (part : String) : Prop :=
  w.copied = some (some part, true) ∧ w.tried.part = part ∧ (part, w.tried.type) ∈ w.writable

/-- `part` was found writable, the last mount worked or `part` was on top of `/mnt` before, and the copy
was whole. -/
def HeldOn (w : Mounts) (part : String) : Prop :=
  part ∈ w.writable.map Prod.fst ∧
    (w.tried.ok ∨ w.tried.before = some part) ∧ w.copied.map Prod.snd = some true

instance (w : Mounts) (part : String) : Decidable (w.SavedOn part) :=
  inferInstanceAs (Decidable (_ ∧ _))

instance (w : Mounts) (part : String) : Decidable (w.HeldOn part) :=
  inferInstanceAs (Decidable (_ ∧ _))

/-- The log is said to be saved after a choice, and is then on the chosen partition just if the mounts
and the copy worked; after a choice nothing is scanned again, and after another answer it is at once. -/
def Heeds (w : Mounts) (c : Cmd) : Prop :=
  (∀ fname, c = .msgbox (.fileSaved fname) → ∃ r, w.answer = some r ∧ r.Chooses ∧
    (w.SavedOn r.out ↔ w.HeldOn r.out)) ∧
  ∀ r, w.answer = some r →
    (r.Chooses → c ≠ .blkid) ∧ (¬ r.Chooses → c = .blkid ∨ ∃ text, c = .log text)

theorem heeds_log (w : Mounts) (text : String) : w.Heeds (.log text) :=
  ⟨fun _ h => (by cases h), fun _ _ => ⟨fun _ h => (by cases h), fun _ => .inr ⟨text, rfl⟩⟩⟩

end Mounts

namespace Installer

abbrev saving : Contract Mounts Cmd Answer := ⟨Mounts.Next, Mounts.Heeds, fun _ => True⟩

/-- The type kept for a partition is one the scan could write to it with. -/
def Known (s : Scan) (w : Mounts) : Prop :=
  ∀ part ∈ w.writable.map Prod.fst, ∃ type, s.parttype.lookup part = some type ∧
    (part, type) ∈ w.writable

/-- The scan goes on: the menu has not been shown. -/
abbrev Scanning (s : Scan) (w : Mounts) : Prop := w.answer = none ∧ Known s w

theorem known_cons {s : Scan} {w : Mounts} (h : Known s w) (part type : String) (parts : List String)
    (mnt : List (String × String)) :
    Known ⟨type, (part, type) :: s.parttype, parts⟩
      { w with mnt := mnt, writable := (part, type) :: w.writable } := by
  intro p hp
  by_cases hpart : p = part
  · subst hpart
    exact ⟨type, List.lookup_cons_self, List.mem_cons_self⟩
  · have hold : p ∈ w.writable.map Prod.fst := (List.mem_cons.mp hp).resolve_left hpart
    obtain ⟨type', hlookup, hmem⟩ := h p hold
    refine ⟨type', ?_, List.mem_cons_of_mem _ hmem⟩
    rw [List.lookup_cons, beq_false_of_ne hpart]
    exact hlookup

section
variable {k : Answer → Sh α} {Q : α → Mounts → Prop} {w : Mounts}

theorem wp_saving (hc : w.Heeds c) (h : ∀ r chance, wp saving (k r) Q (w.step chance c r)) :
    wp saving (.call c k) Q w := by
  refine wp_call.mpr ⟨hc, fun r w' hnext => ?_⟩
  obtain ⟨chance, rfl⟩ := hnext
  exact h r chance

/-- During a scan any command but the message may be issued. -/
theorem wp_saving_scan (hw : w.answer = none) (hc : ∀ fname, c ≠ .msgbox (.fileSaved fname))
    (h : ∀ r chance, wp saving (k r) Q (w.step chance c r)) : wp saving (.call c k) Q w :=
  wp_saving ⟨fun fname hmsg => absurd hmsg (hc fname), fun _ hr => (by cases hw.symm.trans hr)⟩ h

/-- After a choice any command but a scan and the message may be issued. -/
theorem wp_saving_chosen {r : Answer} (hw : w.answer = some r) (hr : r.Chooses) (hb : c ≠ .blkid)
    (hc : ∀ fname, c ≠ .msgbox (.fileSaved fname))
    (h : ∀ r chance, wp saving (k r) Q (w.step chance c r)) : wp saving (.call c k) Q w := by
  refine wp_saving ⟨fun fname hmsg => absurd hmsg (hc fname), fun r' hr' => ?_⟩ h
  cases hw.symm.trans hr'
  exact ⟨fun _ => hb, absurd hr⟩

end

/-- Once a mount has answered 0, its partition is on top. -/
theorem wp_remount_saving (type part : String) (ec : Nat) {w : Mounts} (hw : w.answer = none)
    (hec : ec = 0 → w.mnt.head? = some (part, type)) :
    wp saving (remount type part ec) (fun ec' w' => w'.answer = none ∧ w'.writable = w.writable ∧
      (ec' = 0 → w'.mnt.head? = some (part, type))) w := by
  unfold remount
  split
  · refine wp_saving_scan hw (fun _ h => by cases h) fun _ _ => ?_
    refine wp_saving_scan hw (fun _ h => by cases h) fun _ _ => ?_
    refine wp_saving_scan hw (fun _ h => by cases h) fun r _ => ?_
    refine wp_ret.mpr ⟨hw, rfl, fun hr => ?_⟩
    simp only [Mounts.step]
    rw [if_pos hr]
    rfl
  · exact wp_ret.mpr ⟨hw, rfl, hec⟩

theorem wp_probe_saving (env : Env) (part : String) (ec : Nat) {s : Scan} {w : Mounts}
    (hs : Scanning s w) (hec : ec = 0 → w.mnt.head? = some (part, s.TYPE)) :
    wp saving (probe env s part ec) Scanning w := by
  obtain ⟨hw, hknown⟩ := hs
  unfold probe
  split
  · exact wp_ret.mpr ⟨hw, hknown⟩
  next hok =>
  have htop := hec (not_not.mp hok)
  refine wp_saving_scan hw (fun _ h => by cases h) fun touched _ => ?_
  rw [ret_bind]
  split
  · next hno =>
    refine wp_saving_scan hw (fun _ h => by cases h) fun _ _ => ?_
    refine wp_ret.mpr ⟨hw, ?_⟩
    simp only [Mounts.step]
    rw [if_neg hno]
    exact hknown
  · next htouched =>
    refine wp_saving_scan hw (fun _ h => by cases h) fun _ _ => ?_
    refine wp_saving_scan hw (fun _ h => by cases h) fun _ _ => ?_
    refine wp_saving_scan hw (fun _ h => by cases h) fun rootpath _ => ?_
    refine wp_saving_scan hw (fun _ h => by cases h) fun sectors _ => ?_
    refine wp_saving_scan hw (fun _ h => by cases h) fun vendor _ => ?_
    refine wp_saving_scan hw (fun _ h => by cases h) fun model _ => ?_
    refine wp_ret.mpr ⟨hw, ?_⟩
    simp only [Mounts.step]
    rw [if_pos (not_not.mp htouched), htop]
    exact known_cons hknown part s.TYPE _ _

theorem wp_scanPart_saving (env : Env) (s : Scan) (part type : String) {w : Mounts}
    (hs : Scanning s w) : wp saving (scanPart env s part type) Scanning w := by
  unfold scanPart
  split
  · exact wp_ret.mpr hs
  obtain ⟨hw, hknown⟩ := hs
  refine wp_saving_scan hw (fun _ h => by cases h) fun evaled _ => ?_
  refine wp_saving_scan hw (fun _ h => by cases h) fun ec _ => ?_
  simp only [ret_bind, bind_eq]
  refine wp_bind.mpr ((wp_remount_saving _ part ec.status ?_ fun hr => ?_).mono fun ec w' hw' => ?_)
  · exact hw
  · simp only [Mounts.step]
    rw [if_pos hr]
    rfl
  · refine wp_probe_saving env part ec ⟨hw'.1, ?_⟩ hw'.2.2
    intro p hp
    rw [hw'.2.1] at hp ⊢
    exact hknown p hp

/-- The last steps: the partition is mounted with the type kept for it, the log copied, and `/mnt`
unmounted again. -/
theorem saved_iff_held {s : Scan} {w : Mounts} (hs : Known s w) (part fname : String)
    (mounted named copied unmounted : Answer) (ch₁ ch₂ ch₃ ch₄ : Chance) :
    let w' := (((w.step ch₁ (.mountType ((s.parttype.lookup part).getD "") part) mounted).step ch₂
      (.run "date +\"debug.%Y-%m-%dT%H%M%S.log\"") named).step ch₃ (.copyLog fname part) copied).step
        ch₄ .umount unmounted
    w'.SavedOn part ↔ w'.HeldOn part := by
  intro w'
  have htype : part ∈ w.writable.map Prod.fst ↔
      (part, (s.parttype.lookup part).getD "") ∈ w.writable := by
    constructor
    · intro h
      obtain ⟨type, hlookup, hmem⟩ := hs part h
      rwa [hlookup]
    · exact fun h => List.mem_map_of_mem (f := Prod.fst) h
  have htop : (w.step ch₁ (.mountType ((s.parttype.lookup part).getD "") part) mounted).top =
      if mounted.status = 0 then some part else w.top := by
    simp only [Mounts.step, Mounts.top]
    split <;> rfl
  have hcopied : w'.copied = some (if mounted.status = 0 then some part else w.top, ch₃.whole) :=
    congrArg (fun top => some (top, ch₃.whole)) htop
  have hmnt : (if mounted.status = 0 then some part else w.top) = some part ↔
      (mounted.status == 0) = true ∨ w.top = some part := by
    by_cases hok : mounted.status = 0
    · simp [hok]
    · simp [hok]
  rw [Mounts.SavedOn, Mounts.HeldOn, hcopied]
  change some (_, ch₃.whole) = some (some part, true) ∧ part = part ∧ (part, _) ∈ w.writable ↔
    part ∈ w.writable.map Prod.fst ∧ ((mounted.status == 0) = true ∨ w.top = some part) ∧
      some ch₃.whole = some true
  rw [Option.some.injEq, Prod.mk.injEq, hmnt, htype, Option.some.injEq]
  tauto

theorem wp_isok_saving (st : Nat) {w : Mounts} :
    wp saving (isok st) (fun st' w' => (st' = 0 ↔ st = 0) ∧ w' = w) w := by
  unfold isok isokWith
  split
  next h => exact wp_saving (w.heeds_log _) fun _ _ => wp_ret.mpr ⟨iff_of_true rfl h, rfl⟩
  next h => exact wp_saving (w.heeds_log _) fun _ _ => wp_ret.mpr ⟨iff_of_false Nat.one_ne_zero h, rfl⟩

/-- What was answered when the menu comes back: nothing yet, or no drive was chosen. -/
def Unchosen (w : Mounts) : Prop := ∀ r, w.answer = some r → ¬ r.Chooses

theorem wp_uploadToFlashdrive_saving (env : Env) {w : Mounts} (hw : w.answer = none) :
    wp saving (uploadToFlashdrive env) (fun _ w' => ∃ r, w'.answer = some r ∧ r.Chooses ∧
      (w'.SavedOn r.out ↔ w'.HeldOn r.out)) w := by
  refine wp_loop (fun _ => Unchosen) (fun s w hw => ?_) fun r hr => by cases hw.symm.trans hr
  refine wp_saving ⟨fun _ h => (by cases h), fun r hr => ⟨fun h => absurd h (hw r hr), fun _ => .inl rfl⟩⟩
    fun listing _ => ?_
  rw [ret_bind]
  have hnone : Scanning ⟨s.TYPE, s.parttype, []⟩ { w with writable := [], answer := none } :=
    ⟨rfl, fun p hp => (List.not_mem_nil hp).elim⟩
  have hscan : wp saving ((lines listing.out).foldlM (scanLine env) ⟨s.TYPE, s.parttype, []⟩) Scanning
      { w with writable := [], answer := none } :=
    wp_foldlM Scanning (fun s line _ w hs => wp_scanPart_saving env s _ _ hs) hnone
  refine wp_bind.mpr (hscan.mono fun s w hs => ?_)
  refine wp_saving_scan hs.1 (fun _ h => by cases h) fun r _ => ?_
  rw [ret_bind]
  refine wp_bind.mpr ((wp_isok_saving r.status).mono fun st w' hw' => ?_)
  obtain ⟨hst, rfl⟩ := hw'
  have back : ¬ r.Chooses → Unchosen { w with answer := some r } := by
    intro hno r' hr'
    cases hr'
    exact hno
  split
  next hfailed => exact wp_ret.mpr (back fun h => hfailed (hst.mpr h.1))
  next hok =>
  split
  next hrescan => exact wp_ret.mpr (back fun h => h.2 hrescan)
  next hother =>
  have hr : r.Chooses := ⟨hst.mp (not_not.mp hok), hother⟩
  refine wp_saving_chosen rfl hr (fun h => by cases h) (fun _ h => by cases h) fun mounted ch₁ => ?_
  refine wp_saving_chosen rfl hr (fun h => by cases h) (fun _ h => by cases h) fun fname ch₂ => ?_
  refine wp_saving_chosen rfl hr (fun h => by cases h) (fun _ h => by cases h) fun copied ch₃ => ?_
  refine wp_saving_chosen rfl hr (fun h => by cases h) (fun _ h => by cases h) fun unmounted ch₄ => ?_
  have hsaved := saved_iff_held (w := { w with answer := some r }) hs.2 r.out fname.out mounted fname
    copied unmounted ch₁ ch₂ ch₃ ch₄
  refine wp_saving ⟨fun _ _ => ⟨r, rfl, hr, hsaved⟩, fun r' hr' => ?_⟩
    fun _ _ => wp_ret.mpr (wp_ret.mpr ⟨r, rfl, hr, hsaved⟩)
  cases hr'
  exact ⟨fun _ h => (by cases h), absurd hr⟩

theorem path_step (chance : Chance) (w : Mounts) (t : List Event) :
    Path Mounts.Next w t (t.foldl (fun w e => w.step chance e.1 e.2) w) := by
  induction t generalizing w with
  | nil => exact .nil
  | cons e t ih => exact .cons ⟨chance, rfl⟩ (ih _)

/-- One flash drive, which is chosen; it can be mounted `mounts` times. -/
def plugged (mounts : Nat) (h : List Event) : Cmd → Answer
  | .blkid => ⟨0, "/dev/sdb1: UUID=\"1A2B-3C4D\" TYPE=\"vfat\""⟩
  | .evalWords .. => ⟨0, "vfat"⟩
  | .mountType .. => ⟨if (h.filter fun e => e.1 matches .mountType ..).length < mounts then 0 else 32, ""⟩
  | .menu .. => ⟨0, "/dev/sdb1"⟩
  | .run _ => ⟨0, "debug.2023-01-01T000000.log"⟩
  | _ => ⟨0, ""⟩

/-- The run of the upload up to its message. -/
def upload (mounts : Nat) : List Event × Sh PUnit :=
  play (fun h c => plugged mounts h c) 17 [] (uploadToFlashdrive booted)

/-- The state at the message, the copy being whole. -/
def uploaded (mounts : Nat) : Mounts :=
  (upload mounts).1.foldl (fun w e => w.step ⟨true, []⟩ e.1 e.2) .none

example : (uploaded 2).SavedOn "/dev/sdb1" := by decide +kernel

end Installer
end HassioInstaller
