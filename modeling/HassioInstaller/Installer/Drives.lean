import HassioInstaller.Text.Rows
import HassioInstaller.Shell.Session
import HassioInstaller.Installer.Specs

/-! # The drives `_get_disks` offers

`_get_disks` takes the drive names from what `fdisk -l` prints with an unanchored `grep -o`, so a
name is cut where the pattern ends, and starts its text anew where `[ -z ${disks[@]} ]` takes it for
empty. What is printed are the entries of the whole disks listed if no name that starts like a drive
goes on after it and no text is taken for empty, and otherwise only where the one makes up for the
other. -/

namespace HassioInstaller
open Text

/-- `sd[a-z]|mmcblk[0-9]|nvme[0-9]+n[0-9]+`. -/
def drivePattern : Pattern :=
  .lit "sd" * Pattern.lower + .lit "mmcblk" * Pattern.digit +
    .lit "nvme" * Pattern.plus .digit * .lit "n" * Pattern.plus .digit

theorem diskPattern_eq : Installer.diskPattern = .lit "/dev/" * drivePattern := rfl

/-- The names of whole disks: SCSI disks, SD and eMMC cards and NVMe namespaces. -/
def wholePattern : Pattern :=
  .lit "sd" * Pattern.plus .lower + .lit "mmcblk" * Pattern.plus .digit +
    .lit "nvme" * Pattern.plus .digit * .lit "n" * Pattern.plus .digit

/-- The device is a whole disk of one of these kinds. -/
def isWhole (name : String) : Bool := wholePattern.rmatch name.toList

/-- A number as its digits. -/
def Digits (cs : List Char) : Prop := cs ≠ [] ∧ ∀ c ∈ cs, c.isDigit

theorem mem_plus_digit : l ∈ (Pattern.plus .digit).matches' ↔ Digits l := by
  rw [Pattern.digit, Pattern.mem_plus_oneOf]
  simp only [Pattern.mem_digit]
  rfl

theorem mem_nvme : l ∈ (.lit "nvme" * Pattern.plus .digit * .lit "n" * Pattern.plus .digit :
    Pattern).matches' ↔
      ∃ a b, Digits a ∧ Digits b ∧ l = "nvme".toList ++ a ++ "n".toList ++ b := by
  rw [Pattern.mem_mul]
  constructor
  · rintro ⟨x, hx, b, hb, rfl⟩
    obtain ⟨y, hy, n, hn, rfl⟩ := Pattern.mem_mul.mp hx
    obtain ⟨a, ha, rfl⟩ := Pattern.mem_lit_mul.mp hy
    rw [Pattern.mem_lit.mp hn]
    exact ⟨a, b, mem_plus_digit.mp ha, mem_plus_digit.mp hb, rfl⟩
  · rintro ⟨a, b, ha, hb, rfl⟩
    refine ⟨_, Pattern.mem_mul.mpr ⟨_, Pattern.mem_lit_mul.mpr ⟨a, ?_, rfl⟩, _, ?_, rfl⟩, b, ?_, rfl⟩
    · exact mem_plus_digit.mpr ha
    · exact Pattern.mem_lit.mpr rfl
    · exact mem_plus_digit.mpr hb

theorem mem_drivePattern : l ∈ drivePattern.matches' ↔
    (∃ c ∈ "abcdefghijklmnopqrstuvwxyz".toList, l = "sd".toList ++ [c]) ∨
    (∃ c, c.isDigit ∧ l = "mmcblk".toList ++ [c]) ∨
    ∃ a b, Digits a ∧ Digits b ∧ l = "nvme".toList ++ a ++ "n".toList ++ b := by
  rw [drivePattern, Pattern.mem_add, Pattern.mem_add, mem_nvme, or_assoc]
  refine or_congr ?_ (or_congr_left ?_)
  · rw [Pattern.mem_lit_mul, Pattern.lower]
    constructor
    · rintro ⟨b, hb, rfl⟩
      obtain ⟨c, hc, rfl⟩ := Pattern.mem_oneOf.mp hb
      exact ⟨c, hc, rfl⟩
    · rintro ⟨c, hc, rfl⟩
      exact ⟨[c], Pattern.mem_oneOf.mpr ⟨c, hc, rfl⟩, rfl⟩
  · rw [Pattern.mem_lit_mul, Pattern.digit]
    constructor
    · rintro ⟨b, hb, rfl⟩
      obtain ⟨c, hc, rfl⟩ := Pattern.mem_oneOf.mp hb
      exact ⟨c, Pattern.mem_digit.mp hc, rfl⟩
    · rintro ⟨c, hc, rfl⟩
      exact ⟨[c], Pattern.mem_oneOf.mpr ⟨c, Pattern.mem_digit.mpr hc, rfl⟩, rfl⟩

theorem mem_wholePattern : l ∈ wholePattern.matches' ↔
    (∃ cs, cs ≠ [] ∧ (∀ c ∈ cs, c ∈ "abcdefghijklmnopqrstuvwxyz".toList) ∧
      l = "sd".toList ++ cs) ∨
    (∃ cs, Digits cs ∧ l = "mmcblk".toList ++ cs) ∨
    ∃ a b, Digits a ∧ Digits b ∧ l = "nvme".toList ++ a ++ "n".toList ++ b := by
  rw [wholePattern, Pattern.mem_add, Pattern.mem_add, mem_nvme, or_assoc]
  refine or_congr ?_ (or_congr_left ?_)
  · rw [Pattern.mem_lit_mul, Pattern.lower]
    simp only [Pattern.mem_plus_oneOf, and_assoc]
  · rw [Pattern.mem_lit_mul]
    simp only [mem_plus_digit]

/-- What the script takes for a drive is one. -/
theorem whole_of_drive (h : l ∈ drivePattern.matches') : l ∈ wholePattern.matches' := by
  rw [mem_drivePattern] at h
  rw [mem_wholePattern]
  rcases h with ⟨c, hc, rfl⟩ | ⟨c, hc, rfl⟩ | h
  · exact .inl ⟨[c], List.cons_ne_nil c [], by simpa using hc, rfl⟩
  · exact .inr (.inl ⟨[c], ⟨List.cons_ne_nil c [], by simpa using hc⟩, rfl⟩)
  · exact .inr (.inr h)

/-- A whole disk has a name that the script takes, if only the start of it, for a drive. -/
theorem exists_drive_prefix (h : l ∈ wholePattern.matches') :
    ∃ pre, pre <+: l ∧ pre ∈ drivePattern.matches' := by
  simp only [mem_drivePattern]
  rcases mem_wholePattern.mp h with ⟨cs, hne, hcs, rfl⟩ | ⟨cs, ⟨hne, hcs⟩, rfl⟩ | h
  · obtain ⟨c, cs, rfl⟩ := List.exists_cons_of_ne_nil hne
    exact ⟨_, ⟨cs, by simp⟩, .inl ⟨c, hcs c List.mem_cons_self, rfl⟩⟩
  · obtain ⟨c, cs, rfl⟩ := List.exists_cons_of_ne_nil hne
    exact ⟨_, ⟨cs, by simp⟩, .inr (.inl ⟨c, hcs c List.mem_cons_self, rfl⟩)⟩
  · exact ⟨l, List.prefix_rfl, .inr (.inr h)⟩

/-- The characters of the names of whole disks. -/
theorem alphanum_of_whole (h : l ∈ wholePattern.matches') :
    ∀ c ∈ l, c ∈ "abcdefghijklmnopqrstuvwxyz0123456789".toList := by
  have append : ∀ {a b cs : List Char}, (∀ c ∈ a, c ∈ cs) → (∀ c ∈ b, c ∈ cs) →
      ∀ c ∈ a ++ b, c ∈ cs := fun ha hb c hc => (List.mem_append.mp hc).elim (ha c) (hb c)
  have letters : ∀ c ∈ "abcdefghijklmnopqrstuvwxyz".toList,
      c ∈ "abcdefghijklmnopqrstuvwxyz0123456789".toList := by decide
  have digits : ∀ cs, Digits cs → ∀ c ∈ cs, c ∈ "abcdefghijklmnopqrstuvwxyz0123456789".toList := by
    intro cs hcs c hc
    have hall : ∀ c ∈ "0123456789".toList, c ∈ "abcdefghijklmnopqrstuvwxyz0123456789".toList := by
      decide
    exact hall c (Pattern.mem_digit.mpr (hcs.2 c hc))
  rcases mem_wholePattern.mp h with ⟨cs, -, hcs, rfl⟩ | ⟨cs, hcs, rfl⟩ | ⟨a, b, ha, hb, rfl⟩
  · exact append (by decide) fun c hc => letters c (hcs c hc)
  · exact append (by decide) (digits cs hcs)
  · exact append (append (append (by decide) (digits a ha)) (by decide)) (digits b hb)

/-! ## What is taken from a line -/

/-- A whole disk in what `fdisk -l` prints: its name under `/dev` and what comes after the colon. -/
structure ListedDisk where
  name : String
  info : String
  /-- No directory below `/dev` is itself called `dev`. -/
  device : ¬ "/dev/".toList <:+: '/' :: name.toList
  noPath : '/' ∉ info.toList
  oneLine : IsLine name ∧ IsLine info

namespace ListedDisk

def path (d : ListedDisk) : String := "/dev/" ++ d.name

def line (d : ListedDisk) : String := "Disk " ++ d.path ++ ": " ++ d.info

/-- What comes after `/dev/` in the line. -/
def rest (d : ListedDisk) : List Char := d.name.toList ++ ": ".toList ++ d.info.toList

theorem toList_line (d : ListedDisk) :
    d.line.toList = "Disk ".toList ++ ("/dev/".toList ++ d.rest) := by
  simp [line, path, rest]

theorem isDiskLine_line (d : ListedDisk) : Installer.isDiskLine d.line = true := by
  rw [Installer.isDiskLine, toList_line, Bool.and_eq_true]
  constructor
  · rw [List.isPrefixOf_iff_prefix]
    exact ⟨'/' :: d.rest, rfl⟩
  · simp [rest]

/-- Behind its first slash the line names no device. -/
theorem quiet (d : ListedDisk) : ¬ "/dev/".toList <:+: "dev/".toList ++ d.rest := by
  intro h
  have hassoc : "dev/".toList ++ d.rest =
      "dev".toList ++ ('/' :: d.name.toList) ++ (": ".toList ++ d.info.toList) := by
    simp [rest]
  rw [hassoc] at h
  have hinfo : '/' ∉ ": ".toList ++ d.info.toList := by
    intro h
    rcases List.mem_append.mp h with h | h
    · exact absurd h (by decide)
    · exact d.noPath h
  have hleft := infix_of_append_left (y := "/dev".toList) (c := '/') h hinfo
  exact d.device (infix_of_append_right (c := '/') (y := "dev/".toList) hleft (by decide))

end ListedDisk

theorem longest_diskPattern_eq_none (h : ¬ "/dev/".toList <+: s) :
    longest Installer.diskPattern s = none := by
  rw [longest_eq_none]
  intro n _ hn
  rw [diskPattern_eq] at hn
  obtain ⟨nm, -, hnm⟩ := Pattern.mem_lit_mul.mp hn
  exact h ⟨nm ++ s.drop n, by rw [← List.append_assoc, ← hnm, List.take_append_drop]⟩

namespace ListedDisk

/-- The search comes to the path of the device. -/
theorem grepO_line_eq (d : ListedDisk) : grepO Installer.diskPattern d.line =
    (grepOAux Installer.diskPattern ("/dev/".toList ++ d.rest).length
      ("/dev/".toList ++ d.rest)).map String.ofList := by
  rw [grepO, toList_line, List.length_append, grepOAux_append]
  intro t ht hne
  refine longest_diskPattern_eq_none fun hpre => ?_
  obtain ⟨c, t, rfl⟩ := List.exists_cons_of_ne_nil hne
  have hc : c ∈ "Disk ".toList := ht.subset List.mem_cons_self
  have hslash : '/' = c := by
    obtain ⟨post, hpost⟩ := hpre
    simpa using congrArg List.head? hpost
  exact absurd (hslash ▸ hc) (by decide)

/-- A name the script takes for a drive ends with the name of the device at the latest. -/
theorem prefix_name (d : ListedDisk) (h : nm ∈ drivePattern.matches') (hpre : nm <+: d.rest) :
    nm <+: d.name.toList := by
  rw [rest, List.append_assoc] at hpre
  obtain ⟨post, hpost⟩ := hpre
  rcases List.append_eq_append_iff.mp hpost with ⟨a, hname, -⟩ | ⟨a, hnm, ha⟩
  · exact ⟨a, hname.symm⟩
  · cases a with
    | nil => exact ⟨[], by simpa using hnm⟩
    | cons c a =>
      have hc : c = ':' := by simpa using (congrArg List.head? ha).symm
      have hmem := alphanum_of_whole (whole_of_drive h) c (by simp [hnm])
      exact absurd (hc ▸ hmem) (by decide)

/-- What is taken from the line of a device: the longest start of its name that is the name of a
drive, or nothing. -/
theorem grepO_line (d : ListedDisk) :
    (∃ nm, grepO Installer.diskPattern d.line = ["/dev/" ++ String.ofList nm] ∧
      nm <+: d.name.toList ∧ nm ∈ drivePattern.matches' ∧
      ∀ nm', nm' <+: d.name.toList → nm' ∈ drivePattern.matches' → nm'.length ≤ nm.length) ∨
    (grepO Installer.diskPattern d.line = [] ∧
      ∀ nm, nm <+: d.name.toList → nm ∉ drivePattern.matches') := by
  have tail : ∀ t, t <:+ "dev/".toList ++ d.rest → longest Installer.diskPattern t = none := by
    intro t ht
    exact longest_diskPattern_eq_none fun hpre => d.quiet (hpre.isInfix.trans ht.isInfix)
  have matched : ∀ nm, nm <+: d.name.toList → nm ∈ drivePattern.matches' →
      ("/dev/".toList ++ d.rest).take (5 + nm.length) ∈ Installer.diskPattern.matches' ∧
        5 + nm.length ≤ ("/dev/".toList ++ d.rest).length := by
    intro nm hnm hdrive
    obtain ⟨post, hpost⟩ := hnm
    have hrest : "/dev/".toList ++ d.rest =
        ("/dev/".toList ++ nm) ++ (post ++ ": ".toList ++ d.info.toList) := by
      simp [rest, ← hpost]
    have hlen : ("/dev/".toList ++ nm).length = 5 + nm.length := List.length_append
    constructor
    · rw [hrest, List.take_left' hlen, diskPattern_eq]
      exact Pattern.mem_lit_mul.mpr ⟨nm, hdrive, rfl⟩
    · rw [hrest, List.length_append, hlen]
      omega
  rw [grepO_line_eq]
  cases hl : longest Installer.diskPattern ("/dev/".toList ++ d.rest) with
  | none =>
    refine .inr ⟨?_, fun nm hnm hdrive => ?_⟩
    · rw [grepOAux_eq_nil]
      · rfl
      · intro t ht
        rcases List.suffix_cons_iff.mp ht with rfl | ht
        · exact hl
        · exact tail t ht
    · obtain ⟨hmem, hle⟩ := matched nm hnm hdrive
      exact longest_eq_none.mp hl _ hle hmem
  | some n =>
    obtain ⟨hn, hmem⟩ := mem_of_longest hl
    rw [diskPattern_eq] at hmem
    obtain ⟨nm, hdrive, htake⟩ := Pattern.mem_lit_mul.mp hmem
    have hlen : n = 5 + nm.length := by
      have := congrArg List.length htake
      rw [List.length_take, Nat.min_eq_left hn, List.length_append] at this
      exact this
    have hpre : nm <+: d.rest := by
      refine ⟨d.rest.drop nm.length, ?_⟩
      have hsplit := List.take_append_drop n ("/dev/".toList ++ d.rest)
      rw [htake, List.append_assoc] at hsplit
      have hrest := List.append_cancel_left hsplit
      rw [← hrest]
      simp
    refine .inl ⟨nm, ?_, d.prefix_name hdrive hpre, hdrive, fun nm' hnm' hdrive' => ?_⟩
    · have hsome : longest Installer.diskPattern ('/' :: ("dev/".toList ++ d.rest)) =
          some (4 + nm.length + 1) := by
        rw [show 4 + nm.length + 1 = n by omega]
        exact hl
      have hrest : grepOAux Installer.diskPattern ("dev/".toList ++ d.rest).length
          (("/dev/".toList ++ d.rest).drop (4 + nm.length + 1)) = [] :=
        grepOAux_eq_nil fun t ht => tail t (ht.trans (List.drop_suffix (4 + nm.length) _))
      have hmatch := grepOAux_match ("dev/".toList ++ d.rest).length hsome
      change grepOAux _ ("/dev/".toList ++ d.rest).length ("/dev/".toList ++ d.rest) =
        ("/dev/".toList ++ d.rest).take _ :: grepOAux _ _ (("/dev/".toList ++ d.rest).drop _) at hmatch
      rw [hmatch, hrest, show 4 + nm.length + 1 = n by omega, htake, List.map_singleton,
        String.ofList_append, String.ofList_toList]
    · obtain ⟨hmem', hle⟩ := matched nm' hnm' hdrive'
      by_contra hlt
      exact longest_max hl (by omega) hle hmem'

end ListedDisk

/-! ## Listings -/

/-- A line `fdisk -l` prints. -/
inductive FdiskLine
  | disk (d : ListedDisk)
  | other (text : String) (oneLine : IsLine text) (noDisk : Installer.isDiskLine text = false)

namespace FdiskLine

def text : FdiskLine → String
  | .disk d => d.line
  | .other text .. => text

/-- The path of the whole disk a line is about. -/
def whole : FdiskLine → Option String
  | .disk d => if isWhole d.name then some d.path else none
  | .other .. => none

/-- A device whose name starts like a drive's is called just that. -/
def Uncut : FdiskLine → Prop
  | .disk d => (∃ nm, nm <+: d.name.toList ∧ nm ∈ drivePattern.matches') →
      d.name.toList ∈ drivePattern.matches'
  | .other .. => True

/-- The path the script takes from a line. -/
def taken (l : FdiskLine) : Option String :=
  if Installer.isDiskLine l.text then (grepO Installer.diskPattern l.text).head? else none

theorem isLine_text (l : FdiskLine) : IsLine l.text := by
  cases l with
  | disk d =>
    have hpath : IsLine d.path := IsLine.append (by decide) d.oneLine.1
    exact ((IsLine.append (by decide) hpath).append (by decide)).append d.oneLine.2
  | other text oneLine => exact oneLine

theorem taken_disk (d : ListedDisk) :
    (∃ nm, (FdiskLine.disk d).taken = some ("/dev/" ++ String.ofList nm) ∧
      nm <+: d.name.toList ∧ nm ∈ drivePattern.matches' ∧
      ∀ nm', nm' <+: d.name.toList → nm' ∈ drivePattern.matches' → nm'.length ≤ nm.length) ∨
    ((FdiskLine.disk d).taken = none ∧
      ∀ nm, nm <+: d.name.toList → nm ∉ drivePattern.matches') := by
  rw [taken, text, d.isDiskLine_line, if_pos rfl]
  rcases d.grepO_line with ⟨nm, hgrep, h⟩ | ⟨hgrep, h⟩
  · exact .inl ⟨nm, by rw [hgrep]; rfl, h⟩
  · exact .inr ⟨by rw [hgrep]; rfl, h⟩

theorem taken_other (h : IsLine t) (h' : Installer.isDiskLine t = false) :
    (FdiskLine.other t h h').taken = none := by
  rw [taken, text, h', if_neg Bool.false_ne_true]

theorem drive_of_isWhole (h : isWhole name) :
    ∃ nm, nm <+: name.toList ∧ nm ∈ drivePattern.matches' :=
  exists_drive_prefix (wholePattern.rmatch_iff_matches' _ |>.mp h)

/-- A line about a whole disk yields a path. -/
theorem taken_isSome_of_whole (l : FdiskLine) (h : l.whole.isSome) : l.taken.isSome := by
  cases l with
  | other => cases h
  | disk d =>
    have hw : isWhole d.name := by
      by_contra hw
      rw [whole, if_neg hw] at h
      cases h
    obtain ⟨nm, hnm, hdrive⟩ := drive_of_isWhole hw
    rcases taken_disk d with ⟨_, htaken, -⟩ | ⟨-, hnone⟩
    · rw [htaken]
      rfl
    · exact absurd hdrive (hnone nm hnm)

/-- The script takes from a line the path of its whole disk just if it cuts no name. -/
theorem taken_eq_whole_iff (l : FdiskLine) : l.taken = l.whole ↔ l.Uncut := by
  cases l with
  | other t h h' => exact iff_of_true (taken_other h h') trivial
  | disk d =>
    rcases taken_disk d with ⟨nm, htaken, hpre, hdrive, hmax⟩ | ⟨htaken, hnone⟩
    · rw [htaken]
      constructor
      · intro heq _
        have hpath : d.path = "/dev/" ++ String.ofList nm := by
          by_cases hw : isWhole d.name
          · rw [whole, if_pos hw] at heq
            exact (Option.some.inj heq).symm
          · rw [whole, if_neg hw] at heq
            cases heq
        have hname : d.name.toList = nm := by
          have hlist := congrArg String.toList hpath
          rw [ListedDisk.path, String.toList_append, String.toList_append] at hlist
          rw [List.append_cancel_left hlist, String.toList_ofList]
        rwa [hname]
      · intro huncut
        have hname := huncut ⟨nm, hpre, hdrive⟩
        have heq : nm = d.name.toList :=
          hpre.eq_of_length_le (hmax _ List.prefix_rfl hname)
        have hw : isWhole d.name := wholePattern.rmatch_iff_matches' _ |>.mpr (whole_of_drive hname)
        rw [whole, if_pos hw, heq, String.ofList_toList]
        rfl
    · rw [htaken]
      refine iff_of_true ?_ fun ⟨nm, hpre, hdrive⟩ => absurd hdrive (hnone nm hpre)
      have hw : ¬ isWhole d.name := by
        intro hw
        obtain ⟨nm, hpre, hdrive⟩ := drive_of_isWhole hw
        exact hnone nm hpre hdrive
      rw [whole, if_neg hw]

theorem grepO_eq_taken (l : FdiskLine) :
    (if Installer.isDiskLine l.text then grepO Installer.diskPattern l.text else []) =
      l.taken.toList := by
  unfold taken
  split
  · cases l with
    | disk d =>
      rcases d.grepO_line with ⟨nm, hgrep, -⟩ | ⟨hgrep, -⟩
      · rw [text, hgrep]
        rfl
      · rw [text, hgrep]
        rfl
    | other t h h' => exact absurd ‹_› (by rw [text, h']; exact Bool.false_ne_true)
  · rfl

end FdiskLine

/-- The path of a device that is called like a whole disk. -/
def DrivePath (path : String) : Prop :=
  ∃ nm ∈ wholePattern.matches', path = "/dev/" ++ String.ofList nm

theorem DrivePath.mem (h : DrivePath path) :
    ∀ c ∈ path.toList, c ∈ "/abcdefghijklmnopqrstuvwxyz0123456789".toList := by
  obtain ⟨nm, hnm, rfl⟩ := h
  intro c hc
  rw [String.toList_append, List.mem_append, String.toList_ofList (l := nm)] at hc
  have hdev : ∀ c ∈ "/dev/".toList, c ∈ "/abcdefghijklmnopqrstuvwxyz0123456789".toList := by decide
  exact hc.elim (hdev c) fun hc => List.mem_cons_of_mem _ (alphanum_of_whole hnm c hc)

theorem DrivePath.noBar (h : DrivePath path) : '|' ∉ path.toList :=
  fun hc => absurd (h.mem _ hc) (by decide)

theorem DrivePath.isWord (h : DrivePath path) : IsWord path := by
  constructor
  · rintro rfl
    obtain ⟨nm, -, hpath⟩ := h
    have hnil := congrArg String.toList hpath
    rw [String.toList_append] at hnil
    cases hnil
  · intro c hc
    have hall : ∀ c ∈ "/abcdefghijklmnopqrstuvwxyz0123456789".toList, isBlank c = false := by decide
    exact hall c (h.mem c hc)

theorem FdiskLine.drivePath_of_taken (l : FdiskLine) (h : l.taken = some path) :
    DrivePath path := by
  cases l with
  | disk d =>
    rcases taken_disk d with ⟨nm, htaken, -, hdrive, -⟩ | ⟨htaken, -⟩
    · exact ⟨nm, whole_of_drive hdrive, Option.some.inj (h.symm.trans htaken)⟩
    · cases h.symm.trans htaken
  | other t h₁ h₂ => cases h.symm.trans (taken_other h₁ h₂)

theorem FdiskLine.drivePath_of_whole (l : FdiskLine) (h : l.whole = some path) :
    DrivePath path := by
  cases l with
  | disk d =>
    by_cases hw : isWhole d.name
    · rw [whole, if_pos hw] at h
      refine ⟨d.name.toList, wholePattern.rmatch_iff_matches' _ |>.mp hw, ?_⟩
      rw [← Option.some.inj h, String.ofList_toList]
      rfl
    · rw [whole, if_neg hw] at h
      cases h
  | other => cases h

/-- The drives the script finds in a listing. -/
theorem fdiskDisks_eq {listing : String} {L : List FdiskLine}
    (h : lines listing = L.map FdiskLine.text) :
    Installer.fdiskDisks listing = L.filterMap FdiskLine.taken := by
  have hflat : ∀ ls : List String, (ls.filter Installer.isDiskLine).flatMap
      (grepO Installer.diskPattern) = ls.flatMap fun l =>
        if Installer.isDiskLine l then grepO Installer.diskPattern l else [] := by
    intro ls
    induction ls with
    | nil => rfl
    | cons l ls ih =>
      cases hl : Installer.isDiskLine l <;> simp [hl, ih]
  rw [Installer.fdiskDisks, hflat, h, List.flatMap_map, List.filterMap_eq_flatMap_toList]
  exact List.flatMap_congr fun l _ => l.grepO_eq_taken

/-- The whole disks of a listing. -/
def wholeDisks (L : List FdiskLine) : List String := L.filterMap FdiskLine.whole

theorem filterMap_eq_filterMap_iff {f g : α → Option β} {l : List α}
    (h : ∀ x ∈ l, (g x).isSome → (f x).isSome) :
    l.filterMap f = l.filterMap g ↔ ∀ x ∈ l, f x = g x := by
  refine ⟨fun heq => ?_, List.filterMap_congr⟩
  have hlen : ∀ l : List α, (∀ x ∈ l, (g x).isSome → (f x).isSome) →
      (l.filterMap g).length ≤ (l.filterMap f).length := by
    intro l h
    induction l with
    | nil => simp
    | cons x l ih =>
      obtain ⟨hx, hl⟩ := List.forall_mem_cons.mp h
      have := ih hl
      cases hf : f x <;> cases hg : g x
      · simpa [hf, hg] using this
      · simp [hf, hg] at hx
      · simp only [List.filterMap_cons, hf, hg, List.length_cons]
        omega
      · simpa [hf, hg] using this
  induction l with
  | nil => exact fun _ hx => (List.not_mem_nil hx).elim
  | cons x l ih =>
    obtain ⟨hx, hl⟩ := List.forall_mem_cons.mp h
    have hle := hlen l hl
    rw [List.forall_mem_cons]
    cases hf : f x <;> cases hg : g x
    · simp only [List.filterMap_cons, hf, hg] at heq
      exact ⟨rfl, ih hl heq⟩
    · simp [hf, hg] at hx
    · simp only [List.filterMap_cons, hf, hg] at heq
      have hlength := congrArg List.length heq
      rw [List.length_cons] at hlength
      omega
    · simp only [List.filterMap_cons, hf, hg, List.cons.injEq] at heq
      exact ⟨congrArg some heq.1, ih hl heq.2⟩

/-- The drives the script finds are the whole disks of the listing just if it cuts no name. -/
theorem taken_eq_wholeDisks_iff (L : List FdiskLine) :
    L.filterMap FdiskLine.taken = wholeDisks L ↔ ∀ l ∈ L, l.Uncut := by
  rw [wholeDisks, filterMap_eq_filterMap_iff fun l _ => l.taken_isSome_of_whole]
  exact forall₂_congr fun l _ => l.taken_eq_whole_iff

/-! ## The text of the entries -/

/-- An entry joins the text of those before it, which `test` may find empty. -/
def addEntry (test : String → Bool) (disks entry : String) : String :=
  if test disks then entry else disks ++ "|" ++ entry

/-- What the test finds empty is the text of no entry and of no number of entries. -/
def Kept (test : String → Bool) (es : List String) : Prop :=
  ∀ k, 0 < k → k < es.length → test ("|".intercalate (es.take k)) = false

/-- The entries before the `j`th are lost: the text of those after the ones lost already is found
empty there. -/
inductive Lost (test : String → Bool) (es : List String) : Nat → Prop
  | none : Lost test es 0
  | more : Lost test es i → i < j → j < es.length → Kept test ((es.take j).drop i) →
      test ("|".intercalate ((es.take j).drop i)) = true → Lost test es j

section
variable {test : String → Bool} {es : List String}

/-- A text found empty is given up, and entries that are kept make the text from there on. -/
theorem foldl_addEntry_kept (hacc : test acc = true) (hne : es ≠ []) (hk : Kept test es) :
    es.foldl (addEntry test) acc = "|".intercalate es := by
  induction es using List.reverseRecOn with
  | nil => exact absurd rfl hne
  | append_singleton es e ih =>
    rw [List.foldl_append, List.foldl_cons, List.foldl_nil]
    by_cases hes : es = []
    · subst hes
      rw [List.foldl_nil, addEntry, if_pos hacc]
      rfl
    · have hpos := List.length_pos_iff.mpr hes
      have hall : Kept test es := by
        intro k hk' hlt
        have := hk k hk' (by simp only [List.length_append, List.length_singleton]; omega)
        rwa [List.take_append_of_le_length (by omega)] at this
      have hlast := hk es.length hpos (by simp)
      rw [List.take_left] at hlast
      rw [ih hes hall, addEntry, hlast, if_neg Bool.false_ne_true, intercalate_concat "|" hes]

/-- Where entries are lost the text so far is found empty. -/
theorem Lost.empty (hempty : test "" = true) (h : Lost test es j) :
    test ((es.take j).foldl (addEntry test) "") = true := by
  induction h with
  | none => exact hempty
  | @more i j _ hij hj hk htest ih =>
    have hne : (es.take j).drop i ≠ [] := by
      rw [← List.length_pos_iff, List.length_drop, List.length_take]
      omega
    have hsplit : es.take j = es.take i ++ (es.take j).drop i := by
      have htake : (es.take j).take i = es.take i := by rw [List.take_take, Nat.min_eq_left hij.le]
      rw [← htake, List.take_append_drop]
    rwa [hsplit, List.foldl_append, foldl_addEntry_kept ih hne hk]

/-- What is left are the entries after the lost ones, if they are kept. -/
theorem Lost.foldl (hempty : test "" = true) (h : Lost test es j) (hj : j < es.length)
    (hk : Kept test (es.drop j)) : es.foldl (addEntry test) "" = "|".intercalate (es.drop j) := by
  have hne : es.drop j ≠ [] := by
    rw [← List.length_pos_iff, List.length_drop]
    omega
  calc es.foldl (addEntry test) ""
      = (es.drop j).foldl (addEntry test) ((es.take j).foldl (addEntry test) "") := by
        rw [← List.foldl_append, List.take_append_drop]
    _ = _ := foldl_addEntry_kept (h.empty hempty) hne hk

theorem Lost.concat (h : Lost test es j) (e : String) : Lost test (es ++ [e]) j := by
  induction h with
  | none => exact .none
  | @more i j _ hij hj hk htest ih =>
    refine ih.more hij (by rw [List.length_append]; omega) ?_ ?_ <;>
      rwa [List.take_append_of_le_length hj.le]

/-- Of entries that are all kept none is lost. -/
theorem Lost.eq_zero (h : Lost test es j) (hk : Kept test es) : j = 0 := by
  cases h with
  | none => rfl
  | @more i j h hij hj _ htest =>
    rw [h.eq_zero hk, List.drop_zero, hk j (by omega) hj] at htest
    cases htest

/-- There is a last entry before which all are lost. -/
theorem exists_lost (test : String → Bool) (hne : es ≠ []) :
    ∃ j, Lost test es j ∧ j < es.length ∧ Kept test (es.drop j) := by
  induction es using List.reverseRecOn with
  | nil => exact absurd rfl hne
  | append_singleton es e ih =>
    by_cases hes : es = []
    · subst hes
      refine ⟨0, .none, Nat.one_pos, fun k hk hlt => ?_⟩
      change k < 1 at hlt
      omega
    obtain ⟨j, hlost, hj, hkept⟩ := ih hes
    by_cases htest : test ("|".intercalate (es.drop j)) = true
    · -- the last entry is the only one left
      refine ⟨es.length, ?_, by simp, fun k hk hlt => ?_⟩
      · refine (hlost.concat e).more hj (by simp) ?_ ?_ <;> rwa [List.take_left]
      · rw [List.drop_left, List.length_singleton] at hlt
        omega
    · refine ⟨j, hlost.concat e, by simp; omega, fun k hk hlt => ?_⟩
      rw [List.drop_append_of_le_length hj.le] at hlt ⊢
      rw [List.length_append, List.length_singleton] at hlt
      rcases Nat.lt_succ_iff_lt_or_eq.mp hlt with hlt | rfl
      · rw [List.take_append_of_le_length hlt.le]
        exact hkept k hk hlt
      · rw [List.take_left]
        simpa using htest

end

/-! ## The runs of `_get_disks` -/

/-- A drive menu entry, with the size and the model read below `/sys/block`. -/
def diskEntry (sys : String → String) (disk : String) : String :=
  disk ++ "|" ++ sys ("/sys/block/" ++ basename disk ++ "/device/model") ++
    " (" ++ Installer.gigabytes (sys ("/sys/block/" ++ basename disk ++ "/size")) ++ ")"

/-- The drives that are connected: what `fdisk -l` lists and what is below `/sys/block`. `test` says
of which texts `[ -z ${disks[@]} ]` is true. -/
structure Connected where
  fdisk : List FdiskLine
  sys : String → String
  test : String → Bool

namespace Connected

def Answers (m : Connected) : Cmd → Answer → Prop
  | .fdiskList, r => lines r.out = m.fdisk.map FdiskLine.text
  | .cat path, r => r.out = m.sys path
  | .testEmpty disks, r => r.ok ↔ m.test disks
  | _, _ => True

/-- The drives found, and their entries. -/
def found (m : Connected) : List String := m.fdisk.filterMap FdiskLine.taken

def entries (m : Connected) : List String := m.found.map (diskEntry m.sys)

/-- The text of a menu of drives. -/
def menu (m : Connected) (disks : List String) : String :=
  (disks.map (diskEntry m.sys)).foldl (addEntry m.test) ""

/-- The entries lost make up for the names cut: what is left are the whole disks. -/
def Evened (m : Connected) : Prop :=
  ∃ j > 0, Lost m.test m.entries j ∧ j < m.entries.length ∧ Kept m.test (m.entries.drop j) ∧
    m.found.drop j = wholeDisks m.fdisk

/-- What the machine answers. -/
def reply (m : Connected) : Cmd → Answer
  | .fdiskList => ⟨0, "\n".intercalate (m.fdisk.map FdiskLine.text ++ [""])⟩
  | .cat path => ⟨0, m.sys path⟩
  | .testEmpty disks => ⟨if m.test disks then 0 else 1, ""⟩
  | _ => ⟨0, ""⟩

theorem answers_reply (m : Connected) (c : Cmd) : m.Answers c (m.reply c) := by
  cases c with
  | fdiskList =>
    refine lines_terminated fun line hline => ?_
    obtain ⟨l, -, rfl⟩ := List.mem_map.mp hline
    exact l.isLine_text
  | testEmpty disks =>
    change (if m.test disks then 0 else 1) = 0 ↔ _
    split <;> simp_all
  | cat => rfl
  | _ => trivial

end Connected

namespace Installer
open Script

theorem wp_diskEntries (m : Connected) (names : List String) (disks : String) :
    wp (.answering m.Answers) (diskEntries names disks)
      (fun out _ => out = (names.map (diskEntry m.sys)).foldl (addEntry m.test) disks) () := by
  induction names generalizing disks with
  | nil => exact wp_ret.mpr rfl
  | cons name names ih =>
    refine wp_call_monitor.mpr ⟨trivial, fun size hsize => ?_⟩
    refine wp_call_monitor.mpr ⟨trivial, fun model hmodel => ?_⟩
    refine wp_call_monitor.mpr ⟨trivial, fun empty hempty => ?_⟩
    refine wp_call_monitor.mpr ⟨trivial, fun _ _ => ?_⟩
    refine (ih _).mono ?_
    intro out _ hout
    have hentry : (if empty.status = 0 then name ++ "|" ++ model.out ++ " (" ++
        gigabytes size.out ++ ")" else disks ++ "|" ++ (name ++ "|" ++ model.out ++ " (" ++
        gigabytes size.out ++ ")")) = addEntry m.test disks (diskEntry m.sys name) := by
      rw [addEntry, diskEntry, ← hmodel, ← hsize]
      exact if_congr hempty rfl rfl
    rw [List.map_cons, List.foldl_cons, ← hentry]
    exact hout

/-- `_get_disks` prints the entries of the drives it found. -/
theorem wp_getDisks (m : Connected) : wp (.answering m.Answers) getDisks
    (fun out _ => out = m.menu (m.fdisk.filterMap FdiskLine.taken)) () := by
  refine wp_call_monitor.mpr ⟨trivial, fun r hr => ?_⟩
  rw [← fdiskDisks_eq hr]
  exact wp_diskEntries m _ _

theorem answered_diskEntries (m : Connected) (names : List String) (disks : String) :
    (diskEntries names disks).answered m.reply =
      some ((names.map (diskEntry m.sys)).foldl (addEntry m.test) disks) := by
  induction names generalizing disks with
  | nil => rfl
  | cons name names ih =>
    have hempty : (if (m.reply (.testEmpty disks)).status = 0 then diskEntry m.sys name
        else disks ++ "|" ++ diskEntry m.sys name) =
          addEntry m.test disks (diskEntry m.sys name) :=
      if_congr (m.answers_reply (.testEmpty disks)) rfl rfl
    rw [List.map_cons, List.foldl_cons, ← ih, ← hempty]
    rfl

/-- `_get_disks` comes to an end. -/
theorem exists_run_getDisks (m : Connected) : ∃ t out, Run getDisks t (.ret out) ∧
    Admissible m.Answers t := by
  have hval : getDisks.answered m.reply = _ :=
    answered_diskEntries m (fdiskDisks (m.reply .fdiskList).out) ""
  obtain ⟨t, hr, ht⟩ := exists_run_of_answered hval
  exact ⟨t, _, hr, fun e he => ht e he ▸ m.answers_reply e.1⟩

/-! ## What is offered -/

/-- A text of entries begins with the path of the first one. -/
theorem intercalate_entries (sys : String → String) (p : String) : ∃ label, ∀ ps : List String,
    "|".intercalate ((p :: ps).map (diskEntry sys)) =
      p ++ "|" ++ "|".intercalate (label :: ps.map (diskEntry sys)) := by
  obtain ⟨label, hentry⟩ : ∃ label, diskEntry sys p = p ++ ("|" ++ label) :=
    ⟨_, by simp only [diskEntry, String.append_assoc]; rfl⟩
  refine ⟨label, fun ps => ?_⟩
  rw [List.map_cons, hentry, String.append_assoc, intercalate_head, intercalate_head]

theorem intercalate_entries_ne (sys : String → String) (p : String) (ps : List String) :
    "|".intercalate ((p :: ps).map (diskEntry sys)) ≠ "" := by
  intro hnil
  obtain ⟨_, htext⟩ := intercalate_entries sys p
  rw [htext, String.append_assoc] at hnil
  refine append_ne_empty p (fun hbar => ?_) hnil
  simpa using congrArg String.length hbar

/-- One label is no label followed by further texts. -/
theorem intercalate_label_ne (label q : String) (qs : List String) :
    "|".intercalate [label] ≠ "|".intercalate (label :: q :: qs) := by
  intro hlabel
  rw [String.intercalate_singleton, String.intercalate_cons_cons, String.append_assoc] at hlabel
  have hlen := congrArg String.length hlabel
  rw [String.length_append, String.length_append] at hlen
  change _ = _ + (1 + _) at hlen
  omega

/-- The path is what stands before the first bar. -/
theorem path_of_entries {p p' rest rest' : String} (hp : DrivePath p) (hp' : DrivePath p')
    (h : p ++ "|" ++ rest = p' ++ "|" ++ rest') : p = p' := by
  have hfields := congrArg (fields '|') h
  rw [show "|" = String.singleton '|' from rfl, fields_append, fields_append, fields_self hp.noBar,
    fields_self hp'.noBar] at hfields
  exact (List.cons.inj hfields).1

/-- The entries are told apart by the drives. -/
theorem entries_injective {sys : String → String} {names names' : List String}
    (h : ∀ p ∈ names, DrivePath p) (h' : ∀ p ∈ names', DrivePath p)
    (heq : "|".intercalate (names.map (diskEntry sys)) =
      "|".intercalate (names'.map (diskEntry sys))) : names = names' := by
  induction names generalizing names' with
  | nil =>
    cases names' with
    | nil => rfl
    | cons p' ps' => exact absurd heq.symm (intercalate_entries_ne sys p' ps')
  | cons p ps ih =>
    cases names' with
    | nil => exact absurd heq (intercalate_entries_ne sys p ps)
    | cons p' ps' =>
      obtain ⟨hp, hps⟩ := List.forall_mem_cons.mp h
      obtain ⟨hp', hps'⟩ := List.forall_mem_cons.mp h'
      obtain ⟨label, htext⟩ := intercalate_entries sys p
      obtain rfl : p = p' := by
        obtain ⟨label', htext'⟩ := intercalate_entries sys p'
        rw [htext, htext'] at heq
        exact path_of_entries hp hp' heq
      rw [htext, htext, String.append_right_inj] at heq
      cases ps with
      | nil =>
        cases ps' with
        | nil => rfl
        | cons q' qs' => exact absurd heq (intercalate_label_ne label _ _)
      | cons q qs =>
        cases ps' with
        | nil => exact absurd heq.symm (intercalate_label_ne label _ _)
        | cons q' qs' =>
          rw [List.map_cons, List.map_cons, String.intercalate_cons_cons,
            String.intercalate_cons_cons, String.append_right_inj] at heq
          rw [ih hps hps' heq]

/-- What `_get_disks` prints are the entries of the whole disks of the listing, each with its own path,
size and model. -/
def OffersExactly (m : Connected) : Prop :=
  ∀ t out, Run getDisks t (.ret out) → Admissible m.Answers t →
    out = "|".intercalate ((wholeDisks m.fdisk).map (diskEntry m.sys))

variable {m : Connected}

theorem offersExactly_iff_menu : OffersExactly m ↔
    m.menu m.found = "|".intercalate ((wholeDisks m.fdisk).map (diskEntry m.sys)) := by
  constructor
  · intro h
    obtain ⟨t, out, hr, ht⟩ := exists_run_getDisks m
    exact ((wp_getDisks m).returned hr ht).symm.trans (h t out hr ht)
  · intro h t out hr ht
    exact ((wp_getDisks m).returned hr ht).trans h

/-- Where the entries from the `j`th on are left, the drives offered are those. -/
theorem offersExactly_iff_drop (hempty : m.test "" = true) (hlost : Lost m.test m.entries j)
    (hj : j < m.entries.length) (hk : Kept m.test (m.entries.drop j)) :
    OffersExactly m ↔ m.found.drop j = wholeDisks m.fdisk := by
  have hfound : ∀ p ∈ m.found.drop j, DrivePath p := by
    intro p hp
    obtain ⟨l, -, hl⟩ := List.mem_filterMap.mp (List.mem_of_mem_drop hp)
    exact l.drivePath_of_taken hl
  have hwhole : ∀ p ∈ wholeDisks m.fdisk, DrivePath p := by
    intro p hp
    obtain ⟨l, -, hl⟩ := List.mem_filterMap.mp hp
    exact l.drivePath_of_whole hl
  have hmenu : m.menu m.found = "|".intercalate ((m.found.drop j).map (diskEntry m.sys)) := by
    rw [List.map_drop]
    exact hlost.foldl hempty hj hk
  rw [offersExactly_iff_menu, hmenu]
  exact ⟨entries_injective hfound hwhole, fun h => by rw [h]⟩

/-- `_get_disks` offers exactly the whole disks of a listing if no name in it goes on where the script
cuts and no text of entries is taken for empty; otherwise only where the entries lost make up for the
names cut. -/
theorem offersExactly_iff (S : Session) (fdisk : List FdiskLine) (sys : String → String) :
    let m : Connected := ⟨fdisk, sys, S.testEmpty⟩
    OffersExactly m ↔ (∀ l ∈ fdisk, l.Uncut) ∧ Kept S.testEmpty m.entries ∨ m.Evened := by
  intro m
  have hempty : m.test "" = true := Session.testEmpty_empty
  by_cases hnone : m.entries = []
  · have hfound : m.found = [] := List.map_eq_nil_iff.mp hnone
    have hwhole : wholeDisks fdisk = [] := by
      rw [wholeDisks, List.filterMap_eq_nil_iff]
      intro l hl
      by_contra hsome
      have := List.filterMap_eq_nil_iff.mp hfound l hl ▸
        l.taken_isSome_of_whole (Option.isSome_iff_ne_none.mpr hsome)
      cases this
    refine iff_of_true ?_ (.inl ⟨?_, fun k _ hlt => ?_⟩)
    · rw [offersExactly_iff_menu, hfound, show m.fdisk = fdisk from rfl, hwhole]
      rfl
    · exact (taken_eq_wholeDisks_iff fdisk).mp (hfound.trans hwhole.symm)
    · rw [hnone] at hlt
      exact absurd hlt (Nat.not_lt_zero k)
  constructor
  · intro h
    obtain ⟨j, hlost, hj, hk⟩ := exists_lost m.test hnone
    have hdrop := (offersExactly_iff_drop hempty hlost hj hk).mp h
    rcases Nat.eq_zero_or_pos j with rfl | hpos
    · exact .inl ⟨(taken_eq_wholeDisks_iff fdisk).mp hdrop, hk⟩
    · exact .inr ⟨j, hpos, hlost, hj, hk, hdrop⟩
  · rintro (⟨huncut, hk⟩ | ⟨j, -, hlost, hj, hk, hdrop⟩)
    · exact (offersExactly_iff_drop hempty .none (List.length_pos_iff.mpr hnone) hk).mpr
        ((taken_eq_wholeDisks_iff fdisk).mpr huncut)
    · exact (offersExactly_iff_drop hempty hlost hj hk).mpr hdrop

/-- The line of the 27th SCSI disk. -/
def sdaa : ListedDisk where
  name := "sdaa"
  info := "10 GiB, 10737418240 bytes, 20971520 sectors"
  device := by decide
  noPath := by decide
  oneLine := by decide

/-- It is offered as `/dev/sda`. -/
theorem sdaa_cut : ¬ OffersExactly ⟨[.disk sdaa], fun _ => "", noFiles.testEmpty⟩ := by
  rw [offersExactly_iff_menu]
  decide +kernel

end Installer
end HassioInstaller
