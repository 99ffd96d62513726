import HassioInstaller.Installer.Consent

/-! # The warning

Whether a drive holds data is decided by one glob over sysfs, which finds what is named after the drive
there, in the first place the partitions that the kernel has read. A drive whose data it does not find is
written without the warning: one that carries them without a partition table, or one whose table the
kernel has not read. -/

namespace HassioInstaller
open Text

/-- What may stand on a whole device that has no partition table. -/
inductive Signature
  | filesystem
  | lvm
  | raid
  | luks
  | swap
  deriving DecidableEq, Repr

/-- A drive, as far as it takes part in the test for data. -/
structure Drive where
  path : String
  /-- The partitions in the table on the drive. -/
  partitions : List Nat
  signature : Option Signature
  /-- The names in `/sys/block/D`: attributes such as `size` and `queue`, the partitions that the kernel
  has read, and on an eMMC its boot areas `Dboot0` and `Dboot1`. -/
  entries : List String

namespace Drive

def name (d : Drive) : String := basename d.path

/-- The kernel's name for a partition: a `p` stands between a number and a number. -/
def node (d : Drive) (n : Nat) : String :=
  d.name ++ ((if d.name.toList.getLast?.any Char.isDigit then "p" else "") ++ toString n)

/-- Does `/sys/block/D/D*` match an entry? -/
def listed (d : Drive) : Bool := d.entries.any fun e => d.name.toList.isPrefixOf e.toList

/-- A partition, or a signature on the whole device. -/
def HoldsData (d : Drive) : Prop := d.partitions ≠ [] ∨ d.signature.isSome

/-- `ls` succeeds just if the glob matches. -/
def Answers (d : Drive) (c : Cmd) (r : Answer) : Prop :=
  c.Answers r ∧ (c = .lsPartitions d.path → (r.ok ↔ d.listed))

instance (d : Drive) (c : Cmd) (r : Answer) : Decidable (d.Answers c r) :=
  inferInstanceAs (Decidable (_ ∧ (_ → _)))

/-- The glob finds every partition that the kernel has read. -/
theorem listed_of_node (d : Drive) (h : d.node n ∈ d.entries) : d.listed := by
  refine List.any_eq_true.mpr ⟨d.node n, h, List.isPrefixOf_iff_prefix.mpr ?_⟩
  rw [node, String.toList_append]
  exact List.prefix_append _ _

end Drive

namespace Installer
open Script

/-- The history of a run in which the warning for a drive comes after its partitions were listed. -/
abbrev warningContract : Contract (List Event) Cmd Answer :=
  .history (fun _ _ => True)
    (fun h c => ∀ disk, c = .yesno (.warning disk) → Succeeded (.lsPartitions disk) h) fun _ => True

theorem wp_unwarned {p : Sh α} {B : α → Prop}
    (hp : Only (fun c => ∀ disk, c ≠ .yesno (.warning disk)) p B) :
    wp warningContract p (fun a _ => B a) hist :=
  hp.anywhere (fun _ _ hc disk he => absurd he (hc disk)) fun _ _ => trivial

theorem choosing_ne_warning {c : Cmd} (h : c.choosing) (disk : String) :
    c ≠ .yesno (.warning disk) := by
  rintro rfl
  cases h

theorem erases_ne_warning {c : Cmd} (h : c.erases disk) (disk' : String) :
    c ≠ .yesno (.warning disk') := by
  rintro rfl
  cases h

theorem warned_eraseDrive (env : Env) (disk : String) :
    wp warningContract (eraseDrive env disk) (fun _ _ => True) hist := by
  refine wp_call_monitor.mpr ⟨nofun, fun listed _ => ?_⟩
  rw [ret_bind]
  split
  · refine wp_call_monitor.mpr ⟨nofun, fun r _ => wp_call_monitor.mpr ⟨?_, fun answer _ => ?_⟩⟩
    · rintro _ ⟨⟩
      exact (Succeeded.last ‹_› _).append _
    refine (wp_bind (p := isokReboot env answer.status _)).mpr ?_
    refine (wp_unwarned ((only_isokReboot env _ _).weaken fun _ hc =>
      choosing_ne_warning (Cmd.passiveOrReboot.choosing hc))).mono fun _ hist _ => ?_
    refine wp_call_monitor.mpr ⟨nofun, fun m _ => ?_⟩
    refine (wp_bind (p := isokReboot env m.status _)).mpr ?_
    refine (wp_unwarned ((only_isokReboot env _ _).weaken fun _ hc =>
      choosing_ne_warning (Cmd.passiveOrReboot.choosing hc))).mono fun _ hist _ => ?_
    refine wp_call_monitor.mpr ⟨nofun, fun r _ => ?_⟩
    exact (wp_unwarned (only_eraseWith (fun _ => erases_ne_warning) env m.out)).mono
      fun _ _ _ => trivial
  · exact wp_ret.mpr trivial

theorem warned_mainFlow (env : Env) : wp warningContract (mainFlow env) (fun _ _ => True) [] := by
  refine wp_mainFlow_of (fun _ => True) ?_ (fun _ _ _ _ _ _ _ => trivial) (fun _ _ => trivial)
    (fun url disk hist _ => ?_) trivial
  · intro hist c _ hc disk he
    exact absurd he (choosing_ne_warning hc disk)
  · have hinstall : Only (fun c => ∀ disk, c ≠ .yesno (.warning disk)) (install env url disk)
        fun _ => True :=
      only_install (fun _ hc => choosing_ne_warning (Cmd.passive.choosing hc)) nofun nofun nofun
        (fun _ => nofun) nofun env
    exact (warned_eraseDrive env disk).mono fun _ hist _ => wp_unwarned hinstall

/-- The warning for a drive is shown only if its partitions were listed. -/
theorem listed_of_warned {env : Env} {q : Sh PUnit} (hr : Run (mainFlow env) (t ++ u) q)
    (h : Succeeded (.yesno (.warning disk)) t) : Succeeded (.lsPartitions disk) t := by
  obtain ⟨r, hm, -⟩ := h
  obtain ⟨pre, post, rfl⟩ := List.append_of_mem hm
  rw [List.append_assoc, List.cons_append] at hr
  exact ((warned_mainFlow env).guard hr (path_history_iff.mpr ⟨rfl, fun _ _ => trivial⟩) disk
    rfl).append _

/-- A drive with one partition. -/
def partitioned : Drive := ⟨"/dev/sda", [1], none, ["size", "queue", "device", "sda1"]⟩

/-- A drive that is one LUKS volume, without a partition table. -/
def wholeDisk : Drive := ⟨"/dev/sda", [], some .luks, ["size", "queue", "device"]⟩

/-- It has no entry in sysfs that the glob would match. -/
def unlisted : Cmd → Answer
  | .lsPartitions _ => ⟨1, ""⟩
  | c => sample c

end Installer
end HassioInstaller
