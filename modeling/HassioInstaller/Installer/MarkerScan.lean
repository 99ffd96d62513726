import HassioInstaller.Installer.Drives
import HassioInstaller.Installer.Success

/-! # Where the marker is looked for

The final loop goes over `$DISK[0-9]` and `${DISK}p[0-9]`. The kernel puts a `p` before the number
of a partition just if the name of the drive ends in a digit, so one of the two patterns names
partitions of the drive and the other names foreign devices, and neither names a partition with a
number of two digits. -/

namespace HassioInstaller
open Text

/-- The block devices of a machine, in the order pathname expansion lists them, and what is on
them. -/
structure Devices where
  blocks : List String
  mountable : String → Bool
  release : String → Option String
  /-- No device is called like a pattern. -/
  noPattern : ∀ node ∈ blocks, '[' ∉ node.toList

/-- The name ends in a digit. -/
def endsInDigit (disk : String) : Bool := disk.toList.getLast?.any Char.isDigit

/-- What stands before the number of a partition. -/
def separator (disk : String) : String := if endsInDigit disk then "p" else ""

/-- Partition `k` of a drive. -/
def partitionNode (disk : String) (k : Nat) : String := disk ++ separator disk ++ toString k

/-- The node is `stem` followed by one digit. -/
def oneDigit (stem node : String) : Bool :=
  node.toList.dropLast == stem.toList && node.toList.getLast?.any Char.isDigit

namespace Devices

/-- Pathname expansion of a pattern that ends in `[0-9]`. What matches nothing stays as it is. -/
def expand (d : Devices) (pattern : String) : String :=
  match d.blocks.filter fun node => (node.toList.dropLast ++ "[0-9]".toList == pattern.toList) &&
    node.toList.getLast?.any Char.isDigit with
  | [] => pattern
  | nodes => " ".intercalate nodes

/-- The machine with these devices, whatever its drives hold and whatever is written to them. -/
def platform (d : Devices) : Platform where
  image _ := []
  expand _ := d.expand
  isBlock _ node := d.blocks.contains node
  mounts _ _ := d.mountable
  osRelease _ _ := d.release

/-- The device is there, can be mounted and holds the marker. -/
def bears (d : Devices) (node : String) : Bool :=
  d.blocks.contains node && d.mountable node && (d.release node).any hasMarker

/-- The devices the patterns name that are no partitions of the drive. -/
def foreign (d : Devices) (disk : String) : List String :=
  d.blocks.filter (oneDigit (disk ++ if endsInDigit disk then "" else "p"))

/-- The partitions the patterns name. -/
def own (d : Devices) (disk : String) : List String :=
  d.blocks.filter (oneDigit (disk ++ separator disk))

/-- No foreign device is looked at, and if a partition holds the marker then one with a number of
one digit does. -/
def Confined (d : Devices) (disk : String) : Prop :=
  (d.foreign disk = [] ∨ endsInDigit disk = false ∧ ∃ k ≤ 9, d.bears (partitionNode disk k)) ∧
    ((∃ k, d.bears (partitionNode disk k)) → ∃ k ≤ 9, d.bears (partitionNode disk k))

end Devices

section
variable {d : Devices} {disk stem node : String}

theorem oneDigit_iff : oneDigit stem node ↔ ∃ c, c.isDigit ∧ node.toList = stem.toList ++ [c] := by
  rw [oneDigit, Bool.and_eq_true, beq_iff_eq]
  constructor
  · intro h
    obtain ⟨hstem, hlast⟩ := h
    rcases List.eq_nil_or_concat node.toList with hnil | ⟨cs, c, hnode⟩
    · rw [hnil] at hlast
      cases hlast
    · rw [List.concat_eq_append] at hnode
      rw [hnode, List.dropLast_concat] at hstem
      rw [hnode, List.getLast?_concat] at hlast
      exact ⟨c, hlast, by rw [hnode, hstem]⟩
  · intro h
    obtain ⟨c, hc, hnode⟩ := h
    rw [hnode, List.dropLast_concat, List.getLast?_concat]
    exact ⟨rfl, hc⟩

theorem isWord_of_oneDigit (hstem : IsWord stem) (h : oneDigit stem node) : IsWord node := by
  obtain ⟨c, hc, hnode⟩ := oneDigit_iff.mp h
  constructor
  · rintro rfl
    have hlen := congrArg List.length hnode
    simp at hlen
  · intro c' hc'
    rw [hnode, List.mem_append, List.mem_singleton] at hc'
    rcases hc' with hc' | rfl
    · exact hstem.2 c' hc'
    · exact isBlank_of_isDigit hc

/-- The numbers of one digit. -/
theorem toString_digit {c : Char} (h : c.isDigit) :
    ∃ k ≤ 9, toString k = String.singleton c := by
  have hall : ∀ c ∈ "0123456789".toList, ∃ k ≤ 9, toString k = String.singleton c := by decide
  exact hall c (Pattern.mem_digit.mpr h)

theorem oneDigit_iff_toString : oneDigit stem node ↔ ∃ k ≤ 9, node = stem ++ toString k := by
  rw [oneDigit_iff]
  constructor
  · intro h
    obtain ⟨c, hc, hnode⟩ := h
    obtain ⟨k, hk, hck⟩ := toString_digit hc
    refine ⟨k, hk, String.toList_injective ?_⟩
    rw [hnode, hck, String.toList_append, String.toList_singleton]
  · intro h
    obtain ⟨k, hk, rfl⟩ := h
    have hlt : k < 10 := by omega
    have hlist : (toString k).toList = [Nat.digitChar k] := by
      rw [toList_toString, Nat.toDigits_of_lt_base hlt]
    have hdigit : (Nat.digitChar k).isDigit := by
      refine isDigit_of_mem_toString (n := k) ?_
      rw [hlist]
      exact List.mem_singleton.mpr rfl
    exact ⟨_, hdigit, by rw [String.toList_append, hlist]⟩

/-! ## The nodes of a scan -/

theorem mem_of_mem_tried {P : Platform} (h : node ∈ P.tried shown bytes nodes) : node ∈ nodes := by
  induction nodes with
  | nil => exact h
  | cons n nodes ih =>
    rw [Platform.tried, List.mem_append] at h
    rcases h with h | h
    · split at h
      · exact List.mem_cons.mpr (.inl (List.mem_singleton.mp h))
      · cases h
    · split at h
      · cases h
      · exact List.mem_cons_of_mem n (ih h)

/-- The scan goes on past a list of nodes just if none of them bears the marker. -/
theorem tried_append {P : Platform} (nodes nodes' : List String) :
    P.tried shown bytes (nodes ++ nodes') = if nodes.any (P.bears shown bytes)
      then P.tried shown bytes nodes
      else P.tried shown bytes nodes ++ P.tried shown bytes nodes' := by
  induction nodes with
  | nil => rfl
  | cons n nodes ih =>
    rw [List.cons_append, Platform.tried, Platform.tried, ih, List.any_cons]
    cases P.bears shown bytes n
    · cases nodes.any (P.bears shown bytes)
      · simp
      · simp
    · simp

/-- The first block device is mounted. -/
theorem tried_ne_nil {P : Platform} (h : ∀ node ∈ nodes, P.isBlock shown node)
    (hne : nodes ≠ []) : ∃ node ∈ nodes, node ∈ P.tried shown bytes nodes := by
  obtain ⟨n, nodes, rfl⟩ := List.exists_cons_of_ne_nil hne
  refine ⟨n, List.mem_cons_self, ?_⟩
  rw [Platform.tried, if_pos (h n List.mem_cons_self)]
  exact List.mem_cons_self

/-! ## What the patterns name -/

theorem words_expand (hstem : IsWord stem) : words (d.expand (stem ++ "[0-9]")) =
    if d.blocks.filter (oneDigit stem) = [] then [stem ++ "[0-9]"]
    else d.blocks.filter (oneDigit stem) := by
  have hfilter : (d.blocks.filter fun node =>
      (node.toList.dropLast ++ "[0-9]".toList == (stem ++ "[0-9]").toList) &&
        node.toList.getLast?.any Char.isDigit) = d.blocks.filter (oneDigit stem) := by
    refine List.filter_congr fun node _ => ?_
    rw [oneDigit, String.toList_append]
    congr 1
    rw [Bool.eq_iff_iff, beq_iff_eq, beq_iff_eq]
    exact List.append_left_inj _
  rw [Devices.expand, hfilter]
  cases hnodes : d.blocks.filter (oneDigit stem) with
  | nil =>
    refine words_self ⟨append_ne_empty _ (by decide), fun c hc => ?_⟩
    rw [String.toList_append, List.mem_append] at hc
    have hpattern : ∀ c ∈ "[0-9]".toList, isBlank c = false := by decide
    exact hc.elim (hstem.2 c) (hpattern c)
  | cons node nodes =>
    rw [if_neg (List.cons_ne_nil node nodes)]
    refine words_intercalate fun w hw => ?_
    rw [← hnodes] at hw
    exact isWord_of_oneDigit hstem (List.mem_filter.mp hw).2

/-- The nodes the scan goes over that are there. -/
def Devices.listed (d : Devices) (disk : String) : List String :=
  d.blocks.filter (oneDigit disk) ++ d.blocks.filter (oneDigit (disk ++ "p"))

/-- A pattern that matches nothing names no device. -/
theorem bears_pattern (d : Devices) (stem : String) (shown bytes : Drives) :
    d.platform.isBlock shown (stem ++ "[0-9]") = false ∧
      d.platform.bears shown bytes (stem ++ "[0-9]") = false := by
  have hpattern : d.blocks.contains (stem ++ "[0-9]") = false := by
    rw [← Bool.not_eq_true, List.contains_iff_mem]
    exact fun hmem => d.noPattern _ hmem (by simp)
  have hblock : d.platform.isBlock shown (stem ++ "[0-9]") = false := hpattern
  refine ⟨hblock, ?_⟩
  rw [Platform.bears, hblock, Bool.false_and, Bool.false_and]

theorem tried_words_expand (hstem : IsWord stem) (shown bytes : Drives) (rest : List String) :
    d.platform.tried shown bytes (words (d.expand (stem ++ "[0-9]")) ++ rest) =
      d.platform.tried shown bytes (d.blocks.filter (oneDigit stem) ++ rest) := by
  rw [words_expand hstem]
  split
  · next hnil =>
    obtain ⟨hblock, hbears⟩ := bears_pattern d stem shown bytes
    rw [hnil, List.singleton_append, Platform.tried, hblock, hbears]
    rfl
  · rfl

theorem any_words_expand (hstem : IsWord stem) (shown bytes : Drives) :
    (words (d.expand (stem ++ "[0-9]"))).any (d.platform.bears shown bytes) =
      (d.blocks.filter (oneDigit stem)).any (d.platform.bears shown bytes) := by
  rw [words_expand hstem]
  split
  · next hnil =>
    rw [hnil, List.any_cons, (bears_pattern d stem shown bytes).2]
    rfl
  · rfl

theorem isWord_append_p (h : IsWord disk) : IsWord (disk ++ "p") := by
  refine ⟨append_ne_empty _ (by decide), fun c hc => ?_⟩
  rw [String.toList_append, List.mem_append] at hc
  have hp : ∀ c ∈ "p".toList, isBlank c = false := by decide
  exact hc.elim (h.2 c) (hp c)

theorem nodes_platform (d : Devices) (disk : String) (shown : Drives) :
    d.platform.nodes shown disk =
      words (d.expand (disk ++ "[0-9]")) ++ words (d.expand (disk ++ "p" ++ "[0-9]")) := by
  have hp : disk ++ "p" ++ "[0-9]" = disk ++ "p[0-9]" := String.append_assoc
  rw [hp]
  rfl

theorem tried_nodes (h : IsWord disk) (shown bytes : Drives) :
    d.platform.tried shown bytes (d.platform.nodes shown disk) =
      d.platform.tried shown bytes (d.listed disk) := by
  rw [nodes_platform, tried_words_expand h, Devices.listed, tried_append, tried_append]
  have hp := tried_words_expand (d := d) (isWord_append_p h) shown bytes []
  rw [List.append_nil, List.append_nil] at hp
  rw [hp]

theorem any_nodes (h : IsWord disk) (shown bytes : Drives) :
    (d.platform.nodes shown disk).any (d.platform.bears shown bytes) =
      (d.listed disk).any d.bears := by
  rw [nodes_platform, List.any_append, any_words_expand h, any_words_expand (isWord_append_p h),
    Devices.listed, List.any_append]
  rfl

/-! ## Partitions of the drive and foreign devices -/

theorem isPartition_of_own (h : node ∈ d.own disk) : ∃ k, node = partitionNode disk k := by
  obtain ⟨k, -, hk⟩ := oneDigit_iff_toString.mp (List.mem_filter.mp h).2
  exact ⟨k, hk⟩

theorem any_own : (d.own disk).any d.bears ↔ ∃ k ≤ 9, d.bears (partitionNode disk k) := by
  rw [List.any_eq_true]
  constructor
  · intro h
    obtain ⟨node, hnode, hbears⟩ := h
    obtain ⟨k, hk, rfl⟩ := oneDigit_iff_toString.mp (List.mem_filter.mp hnode).2
    exact ⟨k, hk, hbears⟩
  · intro h
    obtain ⟨k, hk, hbears⟩ := h
    have hblock : partitionNode disk k ∈ d.blocks := by
      rw [Devices.bears, Bool.and_eq_true, Bool.and_eq_true] at hbears
      exact List.contains_iff_mem.mp hbears.1.1
    refine ⟨_, List.mem_filter.mpr ⟨hblock, ?_⟩, hbears⟩
    exact oneDigit_iff_toString.mpr ⟨k, hk, rfl⟩

/-- A foreign device is no partition of the drive. -/
theorem not_isPartition_of_foreign (h : node ∈ d.foreign disk) :
    ¬ ∃ k, node = partitionNode disk k := by
  intro hpart
  obtain ⟨k, hk⟩ := hpart
  have hdigit : ∀ k : Nat, 'p' ∉ (toString k).toList :=
    fun k hp => absurd (isDigit_of_mem_toString hp) (by decide)
  obtain ⟨j, -, hj⟩ := oneDigit_iff_toString.mp (List.mem_filter.mp h).2
  have hlist := congrArg String.toList (hj.symm.trans hk)
  unfold partitionNode separator at hlist
  cases hd : endsInDigit disk
  · simp only [hd, Bool.false_eq_true, if_false, String.append_empty, String.toList_append,
      List.append_assoc] at hlist
    have hp := List.append_cancel_left hlist
    exact hdigit k (hp ▸ List.mem_cons_self)
  · simp only [hd, if_true, String.append_empty, String.toList_append, List.append_assoc] at hlist
    have hp := List.append_cancel_left hlist
    exact hdigit j (hp ▸ List.mem_cons_self)

/-- The scan mounts partitions of the drive only, and finds the marker just if one bears it. -/
def Devices.Faithful (d : Devices) (disk : String) (mounted : List String) (found : Bool) : Prop :=
  (∀ node ∈ mounted, ∃ k, node = partitionNode disk k) ∧
    (found ↔ ∃ k, d.bears (partitionNode disk k))

theorem exists_of_small (h : ∃ k ≤ 9, d.bears (partitionNode disk k)) :
    ∃ k, d.bears (partitionNode disk k) :=
  let ⟨k, _, hk⟩ := h
  ⟨k, hk⟩

/-- Where foreign devices are looked at, one of them is mounted. -/
theorem foreign_eq_nil (hsub : ∀ node ∈ d.platform.tried shown bytes (d.foreign disk),
      ∃ k, node = partitionNode disk k) : d.foreign disk = [] := by
  by_contra hne
  have hblock : ∀ node ∈ d.foreign disk, d.platform.isBlock shown node := by
    intro node hnode
    exact List.contains_iff_mem.mpr (List.mem_filter.mp hnode).1
  have hsome : ∃ node ∈ d.foreign disk, node ∈ d.platform.tried shown bytes (d.foreign disk) :=
    tried_ne_nil hblock hne
  obtain ⟨node, hnode, htried⟩ := hsome
  exact not_isPartition_of_foreign hnode (hsub node htried)

/-- The partitions are looked at first. -/
theorem faithful_iff_of_letter (shown bytes : Drives) (hd : endsInDigit disk = false) :
    d.Faithful disk (d.platform.tried shown bytes (d.own disk ++ d.foreign disk))
      ((d.own disk ++ d.foreign disk).any d.bears) ↔ d.Confined disk := by
  have htried : d.platform.tried shown bytes (d.own disk ++ d.foreign disk) =
      if (d.own disk).any d.bears then d.platform.tried shown bytes (d.own disk)
      else d.platform.tried shown bytes (d.own disk) ++
        d.platform.tried shown bytes (d.foreign disk) := tried_append _ _
  rw [htried, List.any_append]
  by_cases hown : (d.own disk).any d.bears
  · have hsmall := any_own.mp hown
    rw [if_pos hown, hown, Bool.true_or]
    refine iff_of_true ⟨fun node hnode => ?_, iff_of_true rfl (exists_of_small hsmall)⟩
      ⟨.inr ⟨hd, hsmall⟩, fun _ => hsmall⟩
    exact isPartition_of_own (mem_of_mem_tried hnode)
  · have hsmall : ¬ ∃ k ≤ 9, d.bears (partitionNode disk k) := mt any_own.mpr hown
    rw [if_neg hown, Bool.eq_false_iff.mpr hown, Bool.false_or]
    constructor
    · intro h
      obtain ⟨hmounts, hfound⟩ := h
      have hnil := foreign_eq_nil fun node hnode => hmounts node (List.mem_append_right _ hnode)
      rw [hnil] at hfound
      exact ⟨.inl hnil, fun hk => absurd (hfound.mpr hk) Bool.false_ne_true⟩
    · intro h
      obtain ⟨hforeign, hk⟩ := h
      have hnil : d.foreign disk = [] := hforeign.resolve_right fun h => hsmall h.2
      rw [hnil]
      refine ⟨fun node hnode => ?_, iff_of_false Bool.false_ne_true fun h => hsmall (hk h)⟩
      rw [Platform.tried, List.append_nil] at hnode
      exact isPartition_of_own (mem_of_mem_tried hnode)

/-- The foreign devices are looked at first. -/
theorem faithful_iff_of_digit (shown bytes : Drives) (hd : endsInDigit disk) :
    d.Faithful disk (d.platform.tried shown bytes (d.foreign disk ++ d.own disk))
      ((d.foreign disk ++ d.own disk).any d.bears) ↔ d.Confined disk := by
  have only_own : d.foreign disk = [] →
      (d.Faithful disk (d.platform.tried shown bytes (d.foreign disk ++ d.own disk))
        ((d.foreign disk ++ d.own disk).any d.bears) ↔ d.Confined disk) := by
    intro hnil
    rw [hnil, List.nil_append, Devices.Faithful, Devices.Confined, hnil, any_own]
    constructor
    · intro h
      exact ⟨.inl rfl, h.2.mpr⟩
    · intro h
      exact ⟨fun node hnode => isPartition_of_own (mem_of_mem_tried hnode), exists_of_small, h.2⟩
  constructor
  · intro h
    have hsub : ∀ node ∈ d.platform.tried shown bytes (d.foreign disk),
        ∃ k, node = partitionNode disk k := by
      intro node hnode
      refine h.1 node ?_
      rw [tried_append]
      split
      · exact hnode
      · exact List.mem_append_left _ hnode
    exact (only_own (foreign_eq_nil hsub)).mp h
  · intro h
    refine (only_own (h.1.resolve_right fun hletter => ?_)).mpr h
    rw [hd] at hletter
    cases hletter.1

theorem faithful_iff (shown bytes : Drives) : d.Faithful disk
    (d.platform.tried shown bytes (d.listed disk)) ((d.listed disk).any d.bears) ↔
      d.Confined disk := by
  cases hd : endsInDigit disk
  · have hlisted : d.listed disk = d.own disk ++ d.foreign disk := by
      simp [Devices.listed, Devices.own, Devices.foreign, separator, hd]
    rw [hlisted]
    exact faithful_iff_of_letter shown bytes hd
  · have hlisted : d.listed disk = d.foreign disk ++ d.own disk := by
      simp [Devices.listed, Devices.own, Devices.foreign, separator, hd]
    rw [hlisted]
    exact faithful_iff_of_digit shown bytes hd

end

/-! ## The runs of the scan -/

/-- The node a command mounts at `/mnt`. -/
def Cmd.mountedNode : Cmd → Option String
  | .mount node => some node
  | _ => none

/-- What a trace mounts. -/
def mountedNodes (t : List Event) : List String := t.filterMap fun e => e.1.mountedNode

theorem filter_isMount (t : List Event) :
    (t.map Prod.fst).filter Cmd.isMount = (mountedNodes t).map .mount := by
  induction t with
  | nil => rfl
  | cons e t ih =>
    obtain ⟨c, r⟩ := e
    cases c with
    | mount node => exact congrArg (Cmd.mount node :: ·) ih
    | _ => exact ih

/-- A drive the script knows has the path of a whole disk. -/
theorem drivePath_of_mem_fdiskDisks {listing : String} (h : disk ∈ Installer.fdiskDisks listing) :
    DrivePath disk := by
  obtain ⟨line, -, hline⟩ := List.mem_flatMap.mp h
  have hmem := mem_of_mem_grepO hline
  rw [diskPattern_eq] at hmem
  obtain ⟨nm, hnm, hdisk⟩ := Pattern.mem_lit_mul.mp hmem
  refine ⟨nm, whole_of_drive hnm, String.toList_injective ?_⟩
  rw [hdisk, String.toList_append, String.toList_ofList (l := nm)]

/-- What the machine answers while it scans. -/
def Machine.reply (P : Platform) (s : Machine) : Cmd → Answer
  | .glob pattern => ⟨0, P.expand s.shown pattern⟩
  | .isBlock node => ⟨if P.isBlock s.shown node then 0 else 1, ""⟩
  | .mount node => ⟨if P.mounts s.shown s.bytes node then 0 else 1, ""⟩
  | .isFile _ => ⟨if (s.release P).isSome then 0 else 1, ""⟩
  | .grepMarker => ⟨if (s.release P).any hasMarker then 0 else 1, ""⟩
  | _ => ⟨0, ""⟩

/-- A machine on which nothing is mounted. -/
def idle : Machine := .boot (fun _ => []) (fun _ => []) []

namespace Installer
open Script

/-- What a run of the scan has mounted and found. -/
theorem mountedNodes_findMarker {d : Devices} {listing : String}
    (hdisk : disk ∈ fdiskDisks listing) (hr : Run (findMarker disk) t (.ret found))
    (hp : Path (world d.platform).next s t s') :
    mountedNodes t = d.platform.tried s.shown s.bytes (d.listed disk) ∧
      found = (d.listed disk).any d.bears := by
  have hword := (drivePath_of_mem_fdiskDisks hdisk).isWord
  have hrec : Path (scanning d.platform).next (s, []) t
      (s', [] ++ (t.map Prod.fst).filter Cmd.isMount) := path_recording_iff.mpr ⟨hp, rfl⟩
  have hscan := wp_scan disk t _ _ hr hrec
  obtain ⟨hfound, -, hrec⟩ := hscan
  constructor
  · rw [← tried_nodes hword]
    refine List.map_injective_iff.mpr (fun _ _ h => Cmd.mount.inj h) ?_
    rw [← filter_isMount]
    exact hrec
  · exact hfound.trans (any_nodes hword s.shown s.bytes)

/-- The scan mounts partitions of the selected drive only, and finds the marker just if one of them
bears it, exactly when no foreign device is looked at and a marked partition has a number of one
digit. -/
theorem findMarker_faithful_iff {listing : String} (d : Devices) (disk : String)
    (hdisk : disk ∈ fdiskDisks listing) (hr : Run (findMarker disk) t (.ret found))
    (hp : Path (world d.platform).next s t s') :
    d.Faithful disk (mountedNodes t) found ↔ d.Confined disk := by
  obtain ⟨hmounted, hfound⟩ := mountedNodes_findMarker hdisk hr hp
  rw [hmounted, hfound]
  exact faithful_iff s.shown s.bytes

/-- The run of the scan on a machine with these devices. -/
def scanRun (d : Devices) (disk : String) : List Event × Sh Bool :=
  play (fun h c => (h.foldl (fun s e => s.advance [] e.1 e.2) idle).reply d.platform c) 40 []
    (findMarker disk)

theorem run_scanRun (h : (scanRun d disk).2.value = some found) :
    Run (findMarker disk) (scanRun d disk).1 (.ret found) :=
  eq_ret_of_value h ▸ run_play _ _ _

/-- A SATA drive with two partitions, the second with the marker. -/
def sata : Devices where
  blocks := ["/dev/sda", "/dev/sda1", "/dev/sda3"]
  mountable node := node != "/dev/sda"
  release node := if node == "/dev/sda3" then some "NAME=\"Home Assistant OS\"" else none
  noPattern := by decide

theorem findMarker_faithful_iff_sata :
    sata.Faithful "/dev/sda" (mountedNodes (scanRun sata "/dev/sda").1) true ↔
      sata.Confined "/dev/sda" :=
  have hdisk : "/dev/sda" ∈ fdiskDisks "Disk /dev/sda: 10 GiB" := by decide +kernel
  findMarker_faithful_iff (s := idle) sata "/dev/sda" hdisk (run_scanRun (by decide +kernel))
    (path_of_replays [] (by decide +kernel))

/-- An NVMe drive without the marker, beside the twelfth namespace of its controller, which has
it. -/
def namespaces : Devices where
  blocks := ["/dev/nvme0n1", "/dev/nvme0n12", "/dev/nvme0n1p1"]
  mountable node := node == "/dev/nvme0n12"
  release node := if node == "/dev/nvme0n12" then some "NAME=\"Home Assistant OS\"" else none
  noPattern := by decide

/-- The other namespace is mounted, and the marker found. -/
theorem foreign_marker_found :
    "/dev/nvme0n1" ∈ fdiskDisks "Disk /dev/nvme0n1: 10 GiB" ∧
      ∃ t s, Run (findMarker "/dev/nvme0n1") t (.ret true) ∧
        Path (world namespaces.platform).next idle t s ∧
        ¬ namespaces.Faithful "/dev/nvme0n1" (mountedNodes t) true := by
  refine ⟨by decide +kernel, _, _, run_scanRun (d := namespaces) (by decide +kernel),
    path_of_replays [] (by decide +kernel), fun h => ?_⟩
  have hmem : "/dev/nvme0n12" ∈ mountedNodes (scanRun namespaces "/dev/nvme0n1").1 := by
    decide +kernel
  obtain ⟨k, hk⟩ := h.1 _ hmem
  have hlist := congrArg String.toList hk
  have hd : separator "/dev/nvme0n1" = "p" := by decide +kernel
  rw [partitionNode, hd, String.toList_append] at hlist
  have hpre : "/dev/nvme0n1p".toList <+: "/dev/nvme0n12".toList := ⟨_, hlist.symm⟩
  exact absurd hpre (by decide)

end Installer
end HassioInstaller
