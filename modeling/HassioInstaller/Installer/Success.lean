import HassioInstaller.Installer.Selection
import Mathlib.Data.Nat.Find

/-! # The success report

What the installer reports is decided by a marker on some partition of the drive, not by what the
write pipeline did. A `Platform` says what a machine makes of the bytes on its drives, a `Machine`
is the drives, what the kernel knows of their partitions and what is mounted, and `world` is the
contract in which the pipeline may stop anywhere and an erase command may do anything to its drive.
Past the system partition of the image a pipeline that stops is reported as a success; before that, it
is so where what the drive held before, with what was written over it, shows the marker. -/

namespace HassioInstaller
open Text

/-- The bytes of the drives, by their paths. -/
abbrev Drives := String → List UInt8

/-- What a machine makes of the bytes on its drives. `shown` are the drives as they were when the
kernel last read their partition tables, `bytes` the drives as they are. -/
structure Platform where
  /-- The decompressed image behind a URL. -/
  image : String → List UInt8
  /-- Pathname expansion, by the device nodes there are. -/
  expand : (shown : Drives) → (pattern : String) → String
  isBlock : (shown : Drives) → (node : String) → Bool
  mounts : (shown bytes : Drives) → (node : String) → Bool
  /-- `/etc/os-release` of the file system on a partition. -/
  osRelease : (shown bytes : Drives) → (node : String) → Option String

/-- `grep -q "Home Assistant"`. -/
def hasMarker (release : String) : Bool := (lines release).any (matchesIn (.lit "Home Assistant"))

namespace Platform

/-- The partition holds the marker. -/
def marked (P : Platform) (shown bytes : Drives) (node : String) : Bool :=
  (P.osRelease shown bytes node).any hasMarker

/-- The partition is there, mounts and holds the marker. -/
def bears (P : Platform) (shown bytes : Drives) (node : String) : Bool :=
  P.isBlock shown node && P.mounts shown bytes node && P.marked shown bytes node

/-- The nodes the marker is looked for on, `$DISK[0-9] ${DISK}p[0-9]`. -/
def nodes (P : Platform) (shown : Drives) (disk : String) : List String :=
  words (P.expand shown (disk ++ "[0-9]")) ++ words (P.expand shown (disk ++ "p[0-9]"))

/-- The nodes of a list that are mounted: those that are there, up to the first with the marker. -/
def tried (P : Platform) (shown bytes : Drives) : List String → List String
  | [] => []
  | node :: rest =>
    (if P.isBlock shown node then [node] else []) ++
      if P.bears shown bytes node then [] else P.tried shown bytes rest

/-- One of those holds the marker, once the kernel has read the tables of these drives. -/
def visible (P : Platform) (drives : Drives) (disk : String) : Bool :=
  (P.nodes drives disk).any (P.bears drives drives)

end Platform

/-- What the write pipeline did: the drives it found and the bytes it wrote onto one of them before
one of its parts stopped. -/
structure Written where
  url : String
  disk : String
  before : Drives
  ws : List UInt8

/-- The drives as the pipeline left them. What it did not come to is as it was. -/
def Written.after (w : Written) : Drives :=
  Function.update w.before w.disk (w.ws ++ (w.before w.disk).drop w.ws.length)

/-- Every byte of the image was written. -/
def Written.Complete (w : Written) (P : Platform) : Prop := P.image w.url <+: w.ws

/-- How far the pipeline came in the image before it stopped or went wrong. -/
def Written.reached (w : Written) (P : Platform) : Nat :=
  Nat.findGreatest (fun m => (P.image w.url).take m <+: w.ws) (P.image w.url).length

theorem Written.le_reached_iff (w : Written) (P : Platform) (hm : m ≤ (P.image w.url).length) :
    m ≤ w.reached P ↔ (P.image w.url).take m <+: w.ws := by
  constructor
  · intro h
    have hreached : (P.image w.url).take (w.reached P) <+: w.ws :=
      Nat.findGreatest_spec (P := fun m => (P.image w.url).take m <+: w.ws) (Nat.zero_le _)
        List.nil_prefix
    exact (List.take_prefix_take_left h).trans hreached
  · exact Nat.le_findGreatest (P := fun m => (P.image w.url).take m <+: w.ws) hm

theorem Written.complete_iff (w : Written) (P : Platform) :
    w.Complete P ↔ w.reached P = (P.image w.url).length := by
  have hle : w.reached P ≤ (P.image w.url).length := Nat.findGreatest_le _
  have hiff := w.le_reached_iff P le_rfl
  rw [List.take_length] at hiff
  exact hiff.symm.trans ⟨fun h => le_antisymm hle h, fun h => h.ge⟩

/-! ## What the bytes of a drive show -/

/-- A partition of a drive, by its place. -/
structure Slice where
  start : Nat
  length : Nat

/-- Its bytes. -/
def Slice.of (p : Slice) (bytes : List UInt8) : List UInt8 := (bytes.drop p.start).take p.length

/-- How a machine reads partition tables and file systems. -/
structure Reading where
  /-- The partitions `$DISK[0-9]` and `${DISK}p[0-9]`, by the tables on the drives: on which drive each
  is, and where. -/
  parts : Drives → (disk : String) → List (String × Slice)
  /-- `/etc/os-release` of a file system that is intact. -/
  release : (bytes : List UInt8) → Option String

namespace Reading
variable (R : Reading)

/-- One of the partitions named after the drive holds the marker. -/
def Shows (drives : Drives) (disk : String) : Prop :=
  ∃ p ∈ R.parts drives disk, (R.release (p.2.of (drives p.1))).any hasMarker

/-- The first `n` bytes of the image are enough to show the marker: its partition table, and a system
partition that ends there. -/
structure Bootable (image : List UInt8) (disk : String) (n : Nat) : Prop where
  within : n ≤ image.length
  system : ∃ p : Slice, p.start + p.length ≤ n ∧ (R.release (p.of image)).any hasMarker ∧
    ∀ drives : Drives, image.take n <+: drives disk → (disk, p) ∈ R.parts drives disk

end Reading

/-- After `partprobe` the partitions are those of the tables on the drives, and a partition mounts when
its file system is intact. -/
def Platform.Reads (P : Platform) (R : Reading) (disk : String) : Prop :=
  ∀ drives, P.visible drives disk ↔ R.Shows drives disk

theorem Slice.of_eq {p : Slice} {image bytes : List UInt8} (h : p.start + p.length ≤ n)
    (hn : n ≤ image.length) (hp : image.take n <+: bytes) : p.of bytes = p.of image := by
  obtain ⟨rest, rfl⟩ := hp
  have hlen : p.start + p.length ≤ (image.take n).length := by
    rw [List.length_take, Nat.min_eq_left hn]
    exact h
  rw [Slice.of, Slice.of, List.take_drop, List.take_drop, List.take_append_of_le_length hlen,
    List.take_take, Nat.min_eq_left h]

/-- Past the system partition it makes no difference where the pipeline stopped. -/
theorem Reading.Bootable.shows {R : Reading} {P : Platform} {w : Written}
    (hR : R.Bootable (P.image w.url) w.disk n) (h : n ≤ w.reached P) : R.Shows w.after w.disk := by
  obtain ⟨p, hp, hrelease, hparts⟩ := hR.system
  have hafter : (P.image w.url).take n <+: w.after w.disk := by
    rw [Written.after, Function.update_self]
    exact ((w.le_reached_iff P hR.within).mp h).trans (List.prefix_append _ _)
  refine ⟨(w.disk, p), hparts _ hafter, ?_⟩
  rw [Slice.of_eq hp hR.within hafter]
  exact hrelease

/-- The pipeline streams the image of the tag that was chosen, onto the drive that was. -/
def Written.Chosen (w : Written) (t : List Event) : Prop :=
  ∃ pre r post listing content v disks d, t = pre ++ (.writeImage w.url w.disk, r) :: post ∧
    (.gitTags, listing) ∈ pre ∧
      pre.filter (·.1.isSelection) = [(.menu .version content, v), (.menu .drive disks, d)] ∧
        (v.out ∈ Installer.versionTags listing.out → v.out ≠ "dummy" →
          w.url = Installer.imageUrl v.out) ∧ w.disk = d.out

structure Machine where
  bytes : Drives
  /-- The drives as they were when the kernel last read their partition tables. -/
  shown : Drives
  /-- What is mounted at `/mnt`, the last first. -/
  mnt : List String
  /-- The write pipeline of this run, if it came to it. -/
  written : Option Written

namespace Machine

/-- A machine on which a run starts. -/
def boot (drives shown : Drives) (mnt : List String) : Machine := ⟨drives, shown, mnt, none⟩

/-- The pipeline wrote `ws` onto a drive. -/
def write (s : Machine) (url disk : String) (ws : List UInt8) : Machine :=
  let w : Written := ⟨url, disk, s.bytes, ws⟩
  { s with bytes := w.after, written := some w }

/-- `/mnt/etc/os-release`. -/
def release (s : Machine) (P : Platform) : Option String :=
  s.mnt.head?.bind (P.osRelease s.shown s.bytes)

/-- What a command may answer. -/
def Answers (P : Platform) (s : Machine) : Cmd → Answer → Prop
  | .glob pattern, r => r.out = P.expand s.shown pattern
  | .isBlock node, r => r.ok ↔ P.isBlock s.shown node
  | .mount node, r => r.ok ↔ P.mounts s.shown s.bytes node
  | .isFile path, r => path = "/mnt/etc/os-release" → (r.ok ↔ (s.release P).isSome)
  | .grepMarker, r => r.ok ↔ (s.release P).any hasMarker
  | _, _ => True

instance (P : Platform) (s : Machine) (c : Cmd) (r : Answer) : Decidable (s.Answers P c r) := by
  unfold Answers
  split <;> infer_instance

/-- What a command may lead to. Nothing is assumed of what the erase commands do to their drive, nor
of where the write pipeline stops. -/
def Moves (s : Machine) : Cmd → Answer → Machine → Prop
  | .writeImage url disk, _, s' =>
    ∃ ws, ws.length ≤ (s.bytes disk).length ∧ s' = s.write url disk ws
  | .partprobe, _, s' => s' = { s with shown := s.bytes }
  | .mount node, r, s' | .mountType _ node, r, s' =>
    s' = if r.ok then { s with mnt := node :: s.mnt } else s
  | .umount, r, s' => s' = if r.ok then { s with mnt := s.mnt.tail } else s
  | .touch _, _, s' | .copyLog .., _, s' | .run _, _, s' => ∃ bytes, s' = { s with bytes := bytes }
  | c, _, s' =>
    match c.target with
    | some disk => ∃ data, s' = { s with bytes := Function.update s.bytes disk data }
    | none => s' = s

/-- What a command leads to when the pipeline writes `ws`, as far as the drive has room. -/
def advance (ws : List UInt8) (s : Machine) : Cmd → Answer → Machine
  | .writeImage url disk, _ => s.write url disk (ws.take (s.bytes disk).length)
  | .partprobe, _ => { s with shown := s.bytes }
  | .mount node, r | .mountType _ node, r => if r.ok then { s with mnt := node :: s.mnt } else s
  | .umount, r => if r.ok then { s with mnt := s.mnt.tail } else s
  | _, _ => s

end Machine

/-- The report a command makes: success or failure. -/
def Cmd.verdict : Cmd → Option Bool
  | .msgbox (.success _) => some true
  | .msgbox .failure => some false
  | _ => none

/-- `mount dev /mnt`. -/
def Cmd.isMount : Cmd → Bool
  | .mount _ => true
  | _ => false

theorem Cmd.verdict_of_choosing {c : Cmd} (h : c.choosing) : c.verdict = none := by
  cases c with
  | msgbox d => cases d <;> first | rfl | cases h
  | _ => rfl

theorem Cmd.verdict_of_erases {c : Cmd} (h : c.erases disk) : c.verdict = none := by
  cases c with
  | msgbox d => cases d <;> first | rfl | cases h
  | _ => rfl

theorem Cmd.verdict_of_passive {c : Cmd} (h : c.passive) : c.verdict = none :=
  verdict_of_choosing (Cmd.passive.choosing h)

namespace Installer
open Script

/-- The runs of the installer on a machine, in which a report says whether the drive, as the
pipeline left it, shows the marker. -/
def world (P : Platform) : Contract Machine Cmd Answer where
  next s c r s' := s.Answers P c r ∧ s.Moves c r s'
  guard s c := ∀ found, c.verdict = some found →
    ∃ w, s.written = some w ∧ P.visible w.after w.disk = found
  exit _ := True

section
variable {P : Platform} {s : Machine}

/-- Nothing is asked of a command that is no report. -/
theorem silent (hc : c.verdict = none) : (world P).guard s c := by
  intro found h
  rw [hc] at h
  cases h

theorem wp_world {k : Answer → Sh α} {Q : α → Machine → Prop} (hc : c.verdict = none)
    (hk : ∀ r s', s.Answers P c r → s.Moves c r s' → wp (world P) (k r) Q s') :
    wp (world P) (.call c k) Q s :=
  wp_call.mpr ⟨silent hc, fun r s' hn => hk r s' hn.1 hn.2⟩

/-- A command that changes nothing on the machine. -/
theorem wp_look {k : Answer → Sh α} {Q : α → Machine → Prop} (hc : c.verdict = none)
    (hm : ∀ r s', s.Moves c r s' → s' = s) (hk : ∀ r, s.Answers P c r → wp (world P) (k r) Q s) :
    wp (world P) (.call c k) Q s :=
  wp_world hc fun r s' ha h => hm r s' h ▸ hk r ha

/-- A script that reports nothing may run anywhere. -/
theorem wp_unreported {p : Sh α} (hp : Only (fun c => c.verdict = none) p fun _ => True) :
    wp (world P) p (fun _ _ => True) s :=
  hp.anywhere (fun _ _ => silent) fun _ _ => trivial

/-! ## The marker scan -/

/-- The world with a record of the partitions that are mounted. -/
abbrev scanning (P : Platform) : Contract (Machine × List Cmd) Cmd Answer :=
  (world P).recording Cmd.isMount

/-- What a scan has come to: whether it has found the marker, and what it has mounted. -/
def Scanned (s : Machine × List Cmd) (found : Bool) (mounted : List String)
    (found' : Bool) (s' : Machine × List Cmd) : Prop :=
  found' = found ∧ (∃ m, s'.1 = { s.1 with mnt := m }) ∧ s'.2 = s.2 ++ mounted.map .mount

/-- A command of the scan that mounts nothing. -/
theorem wp_scanning {k : Answer → Sh α} {Q : α → Machine × List Cmd → Prop}
    (hc : c.verdict = none) (hkeep : c.isMount = false)
    (hk : ∀ r s', s.Answers P c r → s.Moves c r s' → wp (scanning P) (k r) Q (s', tried)) :
    wp (scanning P) (.call c k) Q (s, tried) := by
  refine wp_call.mpr ⟨silent hc, ?_⟩
  rintro r ⟨s', tried'⟩ ⟨⟨ha, hm⟩, hrec⟩
  have htried : tried' = tried := by simpa [hkeep] using hrec
  exact htried ▸ hk r s' ha hm

/-- A command of the scan that changes nothing on the machine. -/
theorem wp_scanning_look {k : Answer → Sh α} {Q : α → Machine × List Cmd → Prop}
    (hc : c.verdict = none) (hkeep : c.isMount = false) (hm : ∀ r s', s.Moves c r s' → s' = s)
    (hk : ∀ r, s.Answers P c r → wp (scanning P) (k r) Q (s, tried)) :
    wp (scanning P) (.call c k) Q (s, tried) :=
  wp_scanning hc hkeep fun r s' ha h => hm r s' h ▸ hk r ha

/-- The scan finds the marker just if the partition it has mounted holds it. -/
theorem wp_checkMarker (hm : s.mnt.head? = some node) :
    wp (scanning P) (checkMarker node)
      (Scanned (s, tried) (P.marked s.shown s.bytes node) []) (s, tried) := by
  have hrelease : s.release P = P.osRelease s.shown s.bytes node := by rw [Machine.release, hm]; rfl
  have found : ∀ marker : Nat, (marker = 0 ↔ P.marked s.shown s.bytes node = true) →
      wp (scanning P) (if marker = 0 then do
        exec (.log ("Marker found on " ++ node))
        exec .umount
        return true
      else do
        exec (.log "Marker not found, moving on...")
        exec .umount
        return false) (Scanned (s, tried) (P.marked s.shown s.bytes node) []) (s, tried) := by
    intro marker hmarker
    have unmounted : ∀ (r : Answer) s', s.Moves .umount r s' → ∃ m, s' = { s with mnt := m } := by
      rintro r _ rfl
      split
      · exact ⟨_, rfl⟩
      · exact ⟨s.mnt, rfl⟩
    have htried : tried = tried ++ ([] : List String).map .mount := (List.append_nil tried).symm
    split
    · refine wp_scanning_look rfl rfl (fun _ _ h => h) fun _ _ => ?_
      refine wp_scanning rfl rfl fun r s' _ hu => wp_ret.mpr ⟨?_, unmounted r s' hu, htried⟩
      exact (hmarker.mp ‹_›).symm
    · refine wp_scanning_look rfl rfl (fun _ _ h => h) fun _ _ => ?_
      refine wp_scanning rfl rfl fun r s' _ hu => wp_ret.mpr ⟨?_, unmounted r s' hu, htried⟩
      exact (Bool.eq_false_iff.mpr fun h => absurd (hmarker.mpr h) ‹_›).symm
  refine wp_scanning_look rfl rfl (fun _ _ h => h) fun release hfile => ?_
  have hfile := hfile rfl
  rw [hrelease] at hfile
  by_cases h0 : release.status = 0
  · simp only [ret_bind, h0, if_true]
    refine wp_scanning_look rfl rfl (fun _ _ h => h) fun marker hgrep => found _ ?_
    rw [Platform.marked, ← hrelease]
    exact hgrep
  · simp only [ret_bind, h0, if_false]
    refine found 1 ⟨nofun, fun h => ?_⟩
    have hsome : (P.osRelease s.shown s.bytes node).isSome := by
      rw [Platform.marked] at h
      cases ht : P.osRelease s.shown s.bytes node with
      | none => rw [ht] at h; cases h
      | some => rfl
    exact absurd (hfile.mpr hsome) h0

/-- The scan finds the marker just if one of the nodes bears it, and mounts the nodes up to there. -/
theorem wp_scanMarker (nodes : List String) :
    wp (scanning P) (scanMarker nodes)
      (Scanned (s, tried) (nodes.any (P.bears s.shown s.bytes)) (P.tried s.shown s.bytes nodes))
      (s, tried) := by
  induction nodes generalizing s tried with
  | nil => exact wp_ret.mpr ⟨rfl, ⟨s.mnt, rfl⟩, (List.append_nil tried).symm⟩
  | cons node rest ih =>
    refine wp_scanning_look rfl rfl (fun _ _ h => h) fun block hblock => ?_
    rw [ret_bind]
    have next : ∀ m tried', P.bears s.shown s.bytes node = false →
        tried' = tried ++ (if P.isBlock s.shown node then [node] else []).map .mount →
        wp (scanning P) (scanMarker rest) (Scanned (s, tried)
          ((node :: rest).any (P.bears s.shown s.bytes)) (P.tried s.shown s.bytes (node :: rest)))
          ({ s with mnt := m }, tried') := by
      intro m tried' hnode htried
      refine ih.mono fun found s' h => ?_
      obtain ⟨hfound, ⟨m', hs'⟩, hrec⟩ := h
      refine ⟨?_, ⟨m', hs'⟩, ?_⟩
      · rw [List.any_cons, hnode, Bool.false_or]
        exact hfound
      · rw [hrec, htried, Platform.tried, hnode, List.append_assoc]
        cases P.isBlock s.shown node <;> rfl
    by_cases hb : P.isBlock s.shown node
    swap
    · rw [if_pos (mt hblock.mp hb)]
      refine next s.mnt tried (by simp [Platform.bears, hb]) ?_
      rw [if_neg hb]
      exact (List.append_nil tried).symm
    rw [if_neg (not_not.mpr (hblock.mpr hb))]
    refine wp_scanning_look rfl rfl (fun _ _ h => h) fun _ _ => ?_
    refine wp_call.mpr ⟨silent rfl, ?_⟩
    rintro mounted ⟨_, tried'⟩ ⟨⟨hmounts, hs⟩, htried⟩
    simp only at hs
    subst hs
    have htried : tried' = tried ++ (if P.isBlock s.shown node then [node] else []).map .mount := by
      rw [if_pos hb]
      exact htried
    rw [ret_bind]
    by_cases hm : P.mounts s.shown s.bytes node
    swap
    · rw [if_pos (mt hmounts.mp hm), if_neg (mt hmounts.mp hm)]
      exact next s.mnt tried' (by simp [Platform.bears, hm]) htried
    rw [if_neg (not_not.mpr (hmounts.mpr hm)), if_pos (hmounts.mpr hm)]
    refine wp_bind.mpr ((wp_checkMarker rfl).mono fun found s' h => ?_)
    obtain ⟨hfound, ⟨m, hs'⟩, hrec⟩ := h
    obtain ⟨s₁, tried₁⟩ := s'
    simp only at hs'
    subst hs'
    have hrec : tried₁ = tried' := hrec.trans (List.append_nil _)
    have hbears : P.bears s.shown s.bytes node = found := by
      rw [Platform.bears, hb, hm, hfound]
      rfl
    cases found with
    | true =>
      refine wp_ret.mpr ⟨?_, ⟨m, rfl⟩, ?_⟩
      · rw [List.any_cons, hbears]
        rfl
      · rw [Platform.tried, hb, hbears, hrec, htried, hb]
        rfl
    | false => exact next m tried₁ hbears (hrec.trans htried)

theorem wp_scan (disk : String) :
    wp (scanning P) (findMarker disk) (Scanned (s, tried)
      ((P.nodes s.shown disk).any (P.bears s.shown s.bytes))
      (P.tried s.shown s.bytes (P.nodes s.shown disk))) (s, tried) := by
  refine wp_scanning_look rfl rfl (fun _ _ h => h) fun direct hdirect => ?_
  refine wp_scanning_look rfl rfl (fun _ _ h => h) fun withP hwithP => ?_
  rw [Platform.nodes, ← hdirect, ← hwithP]
  exact wp_scanMarker _

theorem wp_findMarker (disk : String) :
    wp (world P) (findMarker disk) (fun found s' =>
      found = (P.nodes s.shown disk).any (P.bears s.shown s.bytes) ∧
        ∃ m, s' = { s with mnt := m }) s :=
  wp_of_recording ((wp_scan disk).mono fun _ _ h => ⟨h.1, h.2.1⟩)

/-! ## The whole flow -/

/-- After the pipeline the kernel knows the drives as the pipeline left them. -/
theorem wp_writeData (url disk : String) :
    wp (world P) (writeData url disk) (fun _ s' => ∃ w, s'.written = some w ∧ w.url = url ∧
      w.disk = disk ∧ s'.shown = w.after ∧ s'.bytes = w.after) s := by
  refine wp_look rfl (fun _ _ h => h) fun _ _ => ?_
  refine wp_world rfl ?_
  rintro _ _ - ⟨ws, -, rfl⟩
  refine wp_look rfl (fun _ _ h => h) fun _ _ => ?_
  refine wp_look rfl (fun _ _ h => h) fun _ _ => ?_
  refine wp_world rfl ?_
  rintro _ _ - rfl
  exact wp_ret.mpr ⟨_, rfl, rfl, rfl, rfl, rfl⟩

theorem unreported_collectlogs (env : Env) :
    Only (fun c => c.verdict = none) (collectlogs env) fun _ => True :=
  (passive_collectlogs env).weaken fun _ => Cmd.verdict_of_passive

/-- The report may be made where the marker is what was found. -/
theorem wp_report (env : Env) {found : Bool}
    (h : ∃ w, s.written = some w ∧ P.visible w.after w.disk = found) :
    wp (world P) (report env found) (fun _ _ => True) s := by
  have leave : ∀ {s : Machine}, wp (world P) (exec .reboot) (fun _ _ => True) s :=
    wp_unreported (within_exec.mpr ⟨rfl, trivial⟩)
  have guard : ∀ {c : Cmd}, c.verdict = some found → (world P).guard s c := by
    rintro c hc _ hfound
    cases hc.symm.trans hfound
    exact h
  cases found with
  | true =>
    refine wp_look rfl (fun _ _ h => h) fun _ _ => ?_
    refine wp_call.mpr ⟨guard rfl, fun _ _ _ => ?_⟩
    refine (wp_bind (p := Script.when _ _)).mpr ((wp_unreported ?_).mono fun _ _ _ => leave)
    exact within_when (fun _ => unreported_collectlogs env) trivial
  | false =>
    refine wp_look rfl (fun _ _ h => h) fun _ _ => ?_
    refine wp_call.mpr ⟨guard rfl, fun _ _ _ => ?_⟩
    refine (wp_bind (p := collectlogs env)).mpr ?_
    exact (wp_unreported (unreported_collectlogs env)).mono fun _ _ _ => leave

theorem wp_install (env : Env) (url disk : String) :
    wp (world P) (install env url disk) (fun _ _ => True) s := by
  refine wp_bind.mpr ((wp_writeData url disk).mono ?_)
  rintro _ s ⟨w, hw, -, rfl, hshown, hbytes⟩
  refine wp_bind.mpr ((wp_findMarker w.disk).mono ?_)
  rintro found _ ⟨hfound, m, rfl⟩
  refine wp_report env ⟨w, hw, ?_⟩
  rw [hfound, hshown, hbytes]
  rfl

theorem reports_mainFlow (env : Env) : wp (world P) (mainFlow env) (fun _ _ => True) s := by
  refine wp_mainFlow_of (fun _ => True) (fun _ _ _ hc => silent (Cmd.verdict_of_choosing hc))
    (fun _ _ _ _ _ _ _ => trivial) (fun _ _ => trivial) (fun url disk s _ => ?_) trivial
  have herase : Only (fun c => c.verdict = none) (eraseDrive env disk) fun _ => True :=
    only_eraseDrive (fun _ => Cmd.verdict_of_erases) rfl rfl (fun _ => rfl) env
  exact (wp_unreported herase).mono fun _ s _ => wp_install env url disk

end

/-! ## A machine to run the installer on -/

/-- The answers are those of the machine. -/
def Replays (P : Platform) (ws : List UInt8) : Machine → List Event → Prop
  | _, [] => True
  | s, (c, r) :: t => s.Answers P c r ∧ Replays P ws (s.advance ws c r) t

instance (P : Platform) (ws : List UInt8) :
    (s : Machine) → (t : List Event) → Decidable (Replays P ws s t)
  | _, [] => .isTrue trivial
  | s, (c, r) :: t =>
    have := instDecidableReplays P ws (s.advance ws c r) t
    inferInstanceAs (Decidable (_ ∧ _))

theorem moves_advance (ws : List UInt8) (s : Machine) (c : Cmd) (r : Answer) :
    s.Moves c r (s.advance ws c r) := by
  cases c with
  | writeImage url disk => exact ⟨ws.take (s.bytes disk).length, List.length_take_le _ _, rfl⟩
  | partedRm disk | zeroFill disk | securitySetPass disk | securityErase disk =>
    exact ⟨s.bytes disk, by simp [Machine.advance]⟩
  | touch | copyLog | run => exact ⟨s.bytes, rfl⟩
  | _ => rfl

theorem path_of_replays {P : Platform} (ws : List UInt8) (h : Replays P ws s t) :
    Path (world P).next s t (t.foldl (fun s e => s.advance ws e.1 e.2) s) := by
  induction t generalizing s with
  | nil => exact .nil
  | cons e t ih => exact .cons ⟨h.1, moves_advance ws s e.1 e.2⟩ (ih h.2)

/-- An image of four bytes: a partition table, the two bytes of a system partition and one more. The
drive has its one partition just if the table is there. -/
def tiny : Platform where
  image _ := [1, 2, 3, 4]
  expand shown pattern :=
    if pattern = "/dev/sda[0-9]" ∧ (shown "/dev/sda").head? ≠ some 1 then pattern
    else (sample (.glob pattern)).out
  isBlock shown node := node == "/dev/sda1" && (shown "/dev/sda").head? == some 1
  mounts _ bytes node := node == "/dev/sda1" && ((bytes "/dev/sda").take 3).drop 1 == [2, 3]
  osRelease _ bytes node :=
    if node == "/dev/sda1" && ((bytes "/dev/sda").take 3).drop 1 == [2, 3] then
      some "NAME=\"Home Assistant OS\""
    else none

/-- An empty drive of five bytes. -/
def blank : Machine := .boot (fun _ => [0, 0, 0, 0, 0]) (fun _ => [0, 0, 0, 0, 0]) []

/-- A run on `sample` up to its report. -/
def reported : List Event × Sh PUnit := play (fun _ => sample) 56 [] (mainFlow booted)

theorem reported_run : Run (mainFlow booted) reported.1 reported.2 := run_play _ _ _

/-- The machine at that point, when the pipeline wrote `ws`. -/
def settled (ws : List UInt8) : Machine :=
  reported.1.foldl (fun s e => s.advance ws e.1 e.2) blank

theorem path_settled (h : Replays tiny ws blank reported.1) :
    Path (world tiny).next blank reported.1 (settled ws) :=
  path_of_replays ws h

/-! ## What a report says -/

/-- A report says whether the drive, as the pipeline left it, shows the marker. -/
theorem visible_of_report {P : Platform} {env : Env} {k : Answer → Sh PUnit}
    (hr : Run (mainFlow env) t (.call c k)) (hc : c.verdict = some success)
    (hp : Path (world P).next (.boot drives shown mnt) t s) :
    ∃ w, s.written = some w ∧ P.visible w.after w.disk = success :=
  (wp_call.mp ((reports_mainFlow env).run hr hp)).1 success hc

theorem written_of_moves {s s' : Machine} (h : s.Moves c r s') : s'.written = s.written ∨
    ∃ w, c = .writeImage w.url w.disk ∧ s'.written = some w := by
  cases c with
  | writeImage url disk =>
    obtain ⟨ws, -, rfl⟩ := h
    exact .inr ⟨_, rfl, rfl⟩
  | mount | mountType | umount =>
    cases h
    split <;> exact .inl rfl
  | partedRm | zeroFill | securitySetPass | securityErase | touch | copyLog | run =>
    obtain ⟨_, rfl⟩ := h
    exact .inl rfl
  | _ =>
    cases h
    exact .inl rfl

/-- What was written goes back to a pipeline of the run. -/
theorem mem_of_written {P : Platform} {s s' : Machine} (hp : Path (world P).next s t s')
    (hs : s.written = none) (hw : s'.written = some w) : ∃ r, (.writeImage w.url w.disk, r) ∈ t := by
  have general : s.written = some w ∨ ∃ r, (.writeImage w.url w.disk, r) ∈ t := by
    clear hs
    induction hp with
    | nil => exact .inl hw
    | @cons s c r s₁ t s₂ hn _ ih =>
      rcases ih hw with h | ⟨r', hm⟩
      · rcases written_of_moves hn.2 with heq | ⟨w', rfl, heq⟩
        · exact .inl (heq ▸ h)
        · cases heq.symm.trans h
          exact .inr ⟨r, List.mem_cons_self⟩
      · exact .inr ⟨r', List.mem_cons_of_mem _ hm⟩
  refine general.resolve_left fun h => ?_
  rw [hs] at h
  cases h

/-- The pipeline of a run goes back to what was chosen. -/
theorem chosen_of_written {P : Platform} {env : Env} {q : Sh PUnit} (hr : Run (mainFlow env) t q)
    (hp : Path (world P).next (.boot drives shown mnt) t s) (hw : s.written = some w) : w.Chosen t := by
  obtain ⟨r, hm⟩ := mem_of_written hp rfl hw
  obtain ⟨pre, post, rfl⟩ := List.append_of_mem hm
  have hs : Selected (fun c r => (c, r) ∈ pre) env w.url w.disk (pre.filter (·.1.isSelection)) :=
    selected_of_run hr fun _ he => he
  generalize hurl : w.url = url at hs
  generalize hdisk : w.disk = disk at hs
  generalize hpre : pre.filter (·.1.isSelection) = hist at hs
  cases hs with
  | @mk listing dummy v disks d hlisting =>
    refine ⟨pre, r, post, listing, _, v, disks, d, by rw [hurl, hdisk], hlisting, hpre,
      fun hv hd => ?_, hdisk⟩
    rw [hurl, lookup_offer hv hd]
    rfl

/-- A success report comes only after the whole image was written, just if the pipeline reached the end
of the image or stopped before the end of its system partition over a drive on which nothing else shows
the marker. The image is the one of the tag that was chosen. -/
theorem success_truthful_iff (P : Platform) (env : Env) {k : Answer → Sh PUnit}
    (hr : Run (mainFlow env) t (.call c k)) (hc : c.verdict = some success)
    (hp : Path (world P).next (.boot drives shown mnt) t s) :
    ∃ w, s.written = some w ∧ w.Chosen t ∧
      ∀ R n, P.Reads R w.disk → R.Bootable (P.image w.url) w.disk n →
        ((success = true → w.Complete P) ↔ w.reached P = (P.image w.url).length ∨
          w.reached P < n ∧ ¬ R.Shows w.after w.disk) := by
  obtain ⟨w, hw, hvisible⟩ := visible_of_report hr hc hp
  refine ⟨w, hw, chosen_of_written hr hp hw, fun R n hreads hboot => ?_⟩
  have hshows : success = true ↔ R.Shows w.after w.disk := by
    rw [← hvisible]
    exact hreads w.after
  rw [hshows, ← w.complete_iff]
  constructor
  · intro h
    refine or_iff_not_imp_left.mpr fun hno => ⟨?_, mt h hno⟩
    exact not_le.mp fun hn => hno (h (hboot.shows hn))
  · rintro (h | ⟨-, hno⟩) hs
    · exact h
    · exact absurd hs hno

/-- The table and the system partition of the image of four bytes. -/
def tinyReading : Reading where
  parts drives disk := if (drives disk).head? = some 1 then [(disk, ⟨1, 2⟩)] else []
  release bytes := if bytes == [2, 3] then some "NAME=\"Home Assistant OS\"" else none

theorem tiny_reads : tiny.Reads tinyReading "/dev/sda" := by
  intro drives
  have hmarker : hasMarker "NAME=\"Home Assistant OS\"" = true := by decide +kernel
  have hslice : (Slice.mk 1 2).of (drives "/dev/sda") = ((drives "/dev/sda").take 3).tail :=
    List.take_drop.trans List.drop_one
  have hother : ∀ node, node ≠ "/dev/sda1" → tiny.bears drives drives node = false := by
    intro node hnode
    simp [Platform.bears, tiny, hnode]
  have hwithP : tiny.expand drives ("/dev/sda" ++ "p[0-9]") = "/dev/sdap[0-9]" := by
    have hno : ¬ ("/dev/sda" ++ "p[0-9]" = "/dev/sda[0-9]" ∧ (drives "/dev/sda").head? ≠ some 1) :=
      fun h => absurd h.1 (by decide)
    simp only [tiny]
    rw [if_neg hno]
    decide +kernel
  by_cases h : (drives "/dev/sda").head? = some 1
  · have hnodes : tiny.nodes drives "/dev/sda" = ["/dev/sda1", "/dev/sdap[0-9]"] := by
      have hexpand : tiny.expand drives ("/dev/sda" ++ "[0-9]") = "/dev/sda1" := if_neg fun hp => hp.2 h
      rw [Platform.nodes, hexpand, hwithP]
      decide +kernel
    have hparts : tinyReading.parts drives "/dev/sda" = [("/dev/sda", ⟨1, 2⟩)] := if_pos h
    have hbears : tiny.bears drives drives "/dev/sda1" = true ↔
        ((drives "/dev/sda").take 3).tail = [2, 3] := by
      by_cases hb : ((drives "/dev/sda").take 3).tail = [2, 3] <;>
        simp [Platform.bears, Platform.marked, tiny, h, hb, hmarker]
    rw [Platform.visible, hnodes, List.any_cons, List.any_cons, hother "/dev/sdap[0-9]" (by decide),
      Bool.false_or, List.any_nil, Bool.or_false, hbears, Reading.Shows, hparts]
    simp only [List.mem_singleton, exists_eq_left, hslice]
    by_cases hb : ((drives "/dev/sda").take 3).tail = [2, 3] <;> simp [tinyReading, hb, hmarker]
  · have hnodes : tiny.nodes drives "/dev/sda" = ["/dev/sda[0-9]", "/dev/sdap[0-9]"] := by
      have hexpand : tiny.expand drives ("/dev/sda" ++ "[0-9]") = "/dev/sda[0-9]" := if_pos ⟨rfl, h⟩
      rw [Platform.nodes, hexpand, hwithP]
      decide +kernel
    have hparts : tinyReading.parts drives "/dev/sda" = [] := if_neg h
    rw [Platform.visible, hnodes, List.any_cons, List.any_cons, hother "/dev/sda[0-9]" (by decide),
      hother "/dev/sdap[0-9]" (by decide), Reading.Shows, hparts]
    simp

theorem tiny_bootable : tinyReading.Bootable [1, 2, 3, 4] "/dev/sda" 3 where
  within := by decide
  system := by
    refine ⟨⟨1, 2⟩, le_rfl, by decide +kernel, fun drives h => ?_⟩
    obtain ⟨rest, hrest⟩ := h
    have hhead : (drives "/dev/sda").head? = some 1 := by
      rw [← hrest]
      rfl
    show _ ∈ if (drives "/dev/sda").head? = some 1 then _ else _
    rw [if_pos hhead]
    exact List.mem_singleton.mpr rfl

/-- The whole image was written. -/
theorem success_truthful_iff_whole :
    ∃ w, (settled [1, 2, 3, 4]).written = some w ∧ w.Chosen reported.1 ∧
      ((true = true → w.Complete tiny) ↔ w.reached tiny = 4 ∨
        w.reached tiny < 3 ∧ ¬ tinyReading.Shows w.after w.disk) := by
  obtain ⟨k, hk⟩ := eq_call_of_next
    (show reported.2.next = some (.msgbox (.success false)) by decide +kernel)
  have hp : Replays tiny [1, 2, 3, 4] blank reported.1 := by decide +kernel
  obtain ⟨w, hw, hchosen, hiff⟩ :=
    success_truthful_iff tiny booted (hk ▸ reported_run) rfl (path_settled hp)
  have hdisk : (settled [1, 2, 3, 4]).written.map Written.disk = some "/dev/sda" := by decide +kernel
  rw [hw] at hdisk
  have hdisk : w.disk = "/dev/sda" := Option.some.inj hdisk
  refine ⟨w, hw, hchosen, hiff tinyReading 3 ?_ ?_⟩ <;> rw [hdisk]
  · exact tiny_reads
  · exact tiny_bootable

/-- The download broke off after the system partition, and success is reported. -/
theorem success_without_last_byte :
    ∃ t k s w, Run (mainFlow booted) t (.call (.msgbox (.success false)) k) ∧
      Path (world tiny).next blank t s ∧ s.written = some w ∧ ¬ w.Complete tiny := by
  obtain ⟨k, hk⟩ := eq_call_of_next
    (show reported.2.next = some (.msgbox (.success false)) by decide +kernel)
  have hp : Replays tiny [1, 2, 3] blank reported.1 := by decide +kernel
  obtain ⟨w, hw, -⟩ := visible_of_report (hk ▸ reported_run) rfl (path_settled hp)
  have hws : (settled [1, 2, 3]).written.map Written.ws = some [1, 2, 3] := by decide +kernel
  rw [hw] at hws
  refine ⟨reported.1, k, _, w, hk ▸ reported_run, path_settled hp, hw, ?_⟩
  rw [Written.Complete, Option.some.inj hws]
  change ¬ ([1, 2, 3, 4] : List UInt8) <+: [1, 2, 3]
  decide

end Installer
end HassioInstaller
