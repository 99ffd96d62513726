import HassioInstaller.Mkimage.Current
import HassioInstaller.Text.Rows

/-! # Boot menus

`syslinux.cfg` starts the system on a BIOS and `grub.cfg` on EFI. Here both are read back, line by
line and word by word, as the menus they describe. How GRUB makes words of a line of its script
language is a parameter, of which only the lines without special characters are known. `grub.cfg` has a
second entry for every flavor, whose command line is made by dropping the first `quiet` from the text of
`initfs_cmdline`. -/

namespace HassioInstaller.Mkimage
open Text Vars

/-! ## Reading a menu -/

/-- What an entry of a boot menu starts. -/
structure Boot where
  kernel : String
  initrds : List String
  params : List String
  deriving DecidableEq

def Boot.empty : Boot := ⟨"", [], []⟩

/-- What a line says. -/
inductive Directive
  /-- An entry begins, with its title or label. -/
  | entry (title : String)
  | set (f : Boot → Boot)
  | other

/-- The entries of a menu, after what is said before the first of them. -/
def readMenu (directive : String → Directive) : List String → Boot × List (String × Boot)
  | [] => (.empty, [])
  | line :: rest =>
    let (b, entries) := readMenu directive rest
    match directive line with
    | .entry title => (.empty, (title, b) :: entries)
    | .set f => (f b, entries)
    | .other => (b, entries)

/-- Groups of lines that are read one by one, whatever follows, are read one after the other. -/
theorem readMenu_flatMap {directive : String → Directive} {lines : String → List String}
    {entries : String → List (String × Boot)} {fs : List String}
    (h : ∀ f ∈ fs, ∀ rest menu, readMenu directive rest = (.empty, menu) →
      readMenu directive (lines f ++ rest) = (.empty, entries f ++ menu)) :
    readMenu directive (fs.flatMap lines) = (.empty, fs.flatMap entries) := by
  induction fs with
  | nil => rfl
  | cons f fs ih =>
    rw [List.flatMap_cons, List.flatMap_cons]
    exact h f List.mem_cons_self _ _ (ih fun g hg => h g (List.mem_cons_of_mem f hg))

/-- Images in `INITRD` are separated by commas. -/
def syslinuxDirective (line : String) : Directive :=
  match words line with
  | ["LABEL", label] => .entry label
  | ["KERNEL", path] => .set fun b => { b with kernel := path }
  | ["INITRD", paths] => .set fun b => { b with initrds := fields ',' paths }
  | "APPEND" :: params => .set fun b => { b with params := params }
  | _ => .other

/-- What separates, groups, expands or comments out words in GRUB's script language, blanks apart. -/
def grubSpecial : List Char := "\x7b\x7d|&$;<>\\'\"#*?[\n".toList

/-- A text without such characters. -/
def Plain (s : String) : Prop := ∀ c ∈ s.toList, c ∉ grubSpecial

instance (s : String) : Decidable (Plain s) := inferInstanceAs (Decidable (∀ c ∈ s.toList, _))

/-- How GRUB makes words of a line: of a line without special characters those between the blanks, and
of the first line of a `menuentry` its title as well. -/
structure Grub where
  split : String → List String
  plain : ∀ line, Plain line → split line = words line
  menuentry : ∀ title, Plain title →
    split ("menuentry \"" ++ title ++ "\" \x7b") = ["menuentry", title, "\x7b"]
  close : split "\x7d" = ["\x7d"]

namespace Grub

/-- What a line of these words says. -/
def reads : List String → Directive
  | "menuentry" :: title :: _ => .entry title
  | "linux" :: path :: params => .set fun b => { b with kernel := path, params := params }
  | "initrd" :: paths => .set fun b => { b with initrds := paths }
  | _ => .other

def directive (G : Grub) (line : String) : Directive := reads (G.split line)

end Grub

def defaultLabel (line : String) : Option String :=
  match words line with
  | ["DEFAULT", label] => some label
  | _ => none

/-- The label `DEFAULT` names. -/
def syslinuxDefault (lines : List String) : Option String := lines.findSome? defaultLabel

namespace Grub
variable (G : Grub)

def defaultNumber (line : String) : Option Nat :=
  match G.split line with
  | ["set", s] => if "default=".toList.isPrefixOf s.toList then number (cut '=' 2 s) else none
  | _ => none

/-- The number `set default` gives. -/
def default (lines : List String) : Option Nat := lines.findSome? G.defaultNumber

end Grub

namespace Vars

variable (G : Grub) (v : Vars)

def syslinuxMenu : List (String × Boot) := (readMenu syslinuxDirective v.syslinuxGenConfig).2

def grubMenu : List (String × Boot) := (readMenu G.directive v.grubGenConfig).2

/-- The entry `syslinux` starts when nothing is chosen. -/
def syslinuxStarts : Option (String × Boot) :=
  (syslinuxDefault v.syslinuxGenConfig).bind fun label => v.syslinuxMenu.find? (·.1 = label)

/-- The entry `grub` starts when nothing is chosen: the first unless another is set. -/
def grubStarts : Option (String × Boot) := (v.grubMenu G)[(G.default v.grubGenConfig).getD 0]?

/-- No text that goes into `grub.cfg` has a special character in it. -/
def Plain : Prop := ∀ f ∈ v.kernelFlavors, Mkimage.Plain f ∧ (∀ p ∈ v.initrdUcode, Mkimage.Plain p) ∧
  Mkimage.Plain v.initfsCmdline ∧ Mkimage.Plain v.kernelCmdline

instance : Decidable v.Plain := inferInstanceAs (Decidable (∀ f ∈ v.kernelFlavors, _))

end Vars

def normalTitle : String := "Home Assistant OS Installer"

def debugTitle : String := "Home Assistant OS Installer - DEBUG LOGGING"

def isDebug (e : String × Boot) : Bool := e.1 = debugTitle

@[simp] theorem isDebug_normal (b : Boot) : isDebug (normalTitle, b) = false := rfl
@[simp] theorem isDebug_debug (b : Boot) : isDebug (debugTitle, b) = true := rfl

/-- The debug entry starts the same with `quiet` removed and `hass.debug=1` added. -/
structure Debugs (normal debug : Boot) : Prop where
  kernel : debug.kernel = normal.kernel
  initrds : debug.initrds = normal.initrds
  params : ∃ ps qs, debug.params = ps ++ "hass.debug=1" :: qs ∧
    ps ++ qs = normal.params.filter (· ≠ "quiet")

/-- Both menus start the same system. -/
structure Vars.SameMenus (G : Grub) (v : Vars) : Prop where
  flavors : v.syslinuxMenu.map Prod.fst = v.kernelFlavors
  kernels : v.syslinuxMenu.map (·.2.kernel) = v.kernelFlavors.map ("/boot/vmlinuz-" ++ ·)
  normal : ((v.grubMenu G).filter (!isDebug ·)).map Prod.snd = v.syslinuxMenu.map Prod.snd
  starts : (v.grubStarts G).map Prod.snd = v.syslinuxStarts.map Prod.snd
  debug : List.Forall₂ Debugs (((v.grubMenu G).filter (!isDebug ·)).map Prod.snd)
    (((v.grubMenu G).filter isDebug).map Prod.snd)

/-! ## The text `quiet` -/

def HasQuiet (w : String) : Prop := "quiet".toList <:+: w.toList

instance (w : String) : Decidable (HasQuiet w) := inferInstanceAs (Decidable (_ <:+: _))

/-- The first parameter with `quiet` in it is `quiet` itself, and no further one is. -/
def QuietOnce : List String → Prop
  | [] => True
  | w :: ws => if HasQuiet w then w = "quiet" ∧ "quiet" ∉ ws else QuietOnce ws

instance decidableQuietOnce : (ps : List String) → Decidable (QuietOnce ps)
  | [] => .isTrue trivial
  | w :: ws =>
    have := decidableQuietOnce ws
    inferInstanceAs (Decidable (if HasQuiet w then w = "quiet" ∧ "quiet" ∉ ws else QuietOnce ws))

/-- `quiet` is dropped from the first parameter that has it. -/
def dropFirst : List String → List String
  | [] => []
  | w :: ws =>
    if HasQuiet w then words (String.ofList (dropQuiet w.toList)) ++ ws else w :: dropFirst ws

theorem dropQuiet_of_not {s : List Char} (h : ¬"quiet".toList <:+: s) : dropQuiet s = s := by
  induction s with
  | nil => rfl
  | cons c s ih =>
    rw [dropQuiet, if_neg, ih fun hs => h (List.infix_cons hs)]
    exact fun hp => h (List.isPrefixOf_iff_prefix.mp hp).isInfix

theorem prefix_append_cons {p u v : List Char} (hc : c ∉ p) (h : p <+: u ++ c :: v) : p <+: u := by
  rcases List.prefix_or_prefix_of_prefix h (List.prefix_append u (c :: v)) with hp | ⟨t, rfl⟩
  · exact hp
  · cases t with
    | nil => exact ⟨[], by simp⟩
    | cons d t =>
      obtain ⟨rfl, -⟩ := List.cons_prefix_cons.mp ((List.prefix_append_right_inj u).mp h)
      exact absurd (List.mem_append_right u List.mem_cons_self) hc

/-- The substitution stays on its side of a character that is not in `quiet`. -/
theorem dropQuiet_append {c : Char} (hc : c ∉ "quiet".toList) (x y : List Char) :
    dropQuiet (x ++ c :: y) =
      if "quiet".toList <:+: x then dropQuiet x ++ c :: y else x ++ c :: dropQuiet y := by
  induction x with
  | nil =>
    have hnil : ¬"quiet".toList <:+: [] := by decide
    rw [if_neg hnil, List.nil_append, List.nil_append, dropQuiet, if_neg]
    intro hp
    have hnil' := prefix_append_cons (u := []) hc (List.isPrefixOf_iff_prefix.mp hp)
    exact hnil hnil'.isInfix
  | cons d x ih =>
    rw [List.cons_append, dropQuiet]
    by_cases hp : "quiet".toList <+: d :: x
    · have hp' : "quiet".toList.isPrefixOf (d :: (x ++ c :: y)) :=
        List.isPrefixOf_iff_prefix.mpr (hp.trans (List.prefix_append (d :: x) (c :: y)))
      have hlen : 5 ≤ (d :: x).length := hp.length_le
      rw [if_pos hp', if_pos hp.isInfix, dropQuiet, if_pos (List.isPrefixOf_iff_prefix.mpr hp),
        ← List.cons_append, List.drop_append_of_le_length hlen]
    · have hp' : ¬"quiet".toList.isPrefixOf (d :: (x ++ c :: y)) := fun h =>
        hp (prefix_append_cons (u := d :: x) hc (List.isPrefixOf_iff_prefix.mp h))
      have hstill : "quiet".toList <:+: d :: x ↔ "quiet".toList <:+: x := by
        rw [List.infix_cons_iff, or_iff_right hp]
      rw [if_neg hp', ih]
      by_cases hx : "quiet".toList <:+: x
      · rw [if_pos hx, if_pos (hstill.mpr hx), dropQuiet,
          if_neg fun h => hp (List.isPrefixOf_iff_prefix.mp h), List.cons_append]
      · rw [if_neg hx, if_neg (mt hstill.mp hx), List.cons_append]

theorem hasQuiet_ofList {x : List Char} : HasQuiet (String.ofList x) ↔ "quiet".toList <:+: x := by
  rw [HasQuiet, String.toList_ofList (l := x)]

/-- The substitution, word by word. -/
theorem words_dropQuiet (s : List Char) :
    words (String.ofList (dropQuiet s)) = dropFirst (words (String.ofList s)) := by
  induction hn : s.length using Nat.strong_induction_on generalizing s with
  | h n ih =>
    rcases exists_first_blank s with hs | ⟨x, c, y, rfl, hc, hx⟩
    · rw [words_ofList_self hs]
      split
      next hnil =>
        rw [hnil]
        rfl
      next =>
        rw [dropFirst]
        split
        next => rw [String.toList_ofList, List.append_nil]
        next hquiet =>
          rw [dropQuiet_of_not (mt hasQuiet_ofList.mpr hquiet), dropFirst, words_ofList_self hs,
            if_neg ‹_›]
    · have hcq : c ∉ "quiet".toList := fun h => by
        have hword : ∀ c ∈ "quiet".toList, isBlank c = false := by decide
        rw [hword c h] at hc
        cases hc
      have hy := ih y.length (by simp only [← hn, List.length_append, List.length_cons]; omega) y rfl
      rw [dropQuiet_append hcq, words_ofList_append hc, words_ofList_self hx]
      split
      next hquiet =>
        have hne : x ≠ [] := fun hnil => by
          rw [hnil] at hquiet
          revert hquiet
          decide
        rw [if_neg hne, words_ofList_append hc, List.singleton_append, dropFirst,
          if_pos (hasQuiet_ofList.mpr hquiet), String.toList_ofList]
      next hquiet =>
        rw [words_ofList_append hc, words_ofList_self hx, hy]
        split
        next => rfl
        next =>
          rw [List.singleton_append, List.singleton_append, dropFirst,
            if_neg (mt hasQuiet_ofList.mp hquiet)]

/-! ## Parameters without `quiet` -/

theorem dropQuiet_sublist (s : List Char) : (dropQuiet s).Sublist s := by
  induction s with
  | nil => exact .refl []
  | cons c s ih =>
    rw [dropQuiet]
    split
    · exact List.drop_sublist 5 (c :: s)
    · exact ih.cons_cons c

theorem dropQuiet_ne {s : List Char} (h : "quiet".toList <:+: s) : dropQuiet s ≠ s := by
  induction s with
  | nil =>
    revert h
    decide
  | cons c s ih =>
    rw [dropQuiet]
    split
    next =>
      intro he
      have hlen := congrArg List.length he
      rw [List.length_drop, List.length_cons] at hlen
      omega
    next hp =>
      have htail : "quiet".toList <:+: s :=
        (List.infix_cons_iff.mp h).resolve_left (mt List.isPrefixOf_iff_prefix.mpr hp)
      exact fun he => ih htail (List.cons.inj he).2

/-- Dropping `quiet` from a longer parameter changes it. -/
theorem words_dropQuiet_ne (hw : IsWord w) (h : HasQuiet w) :
    words (String.ofList (dropQuiet w.toList)) ≠ [w] := by
  have hword : ∀ c ∈ dropQuiet w.toList, isBlank c = false :=
    fun c hc => hw.2 c ((dropQuiet_sublist w.toList).subset hc)
  rw [words_ofList_self hword]
  split
  · exact fun he => by cases he
  · intro he
    apply dropQuiet_ne h
    have := congrArg String.toList (List.cons.inj he).1
    rwa [String.toList_ofList] at this

theorem filter_quiet {ps : List String} (h : "quiet" ∉ ps) : ps.filter (· ≠ "quiet") = ps :=
  List.filter_eq_self.mpr fun _ hw => decide_eq_true fun he => h (he ▸ hw)

theorem filter_quiet_cons (h : w ≠ "quiet") (ps : List String) :
    (w :: ps).filter (· ≠ "quiet") = w :: ps.filter (· ≠ "quiet") :=
  List.filter_cons_of_pos (by simpa using h)

theorem not_hasQuiet_ne (h : ¬HasQuiet w) : w ≠ "quiet" := by
  rintro rfl
  exact h List.infix_rfl

theorem dropFirst_eq_filter {ps : List String} (h : QuietOnce ps) :
    dropFirst ps = ps.filter (· ≠ "quiet") := by
  induction ps with
  | nil => rfl
  | cons w ps ih =>
    rw [QuietOnce] at h
    rw [dropFirst]
    split at h
    next hw =>
      obtain ⟨rfl, hps⟩ := h
      rw [if_pos hw, List.filter_cons_of_neg (by simp), filter_quiet hps]
      rfl
    next hw =>
      rw [if_neg hw, filter_quiet_cons (not_hasQuiet_ne hw), ih h]

theorem quietOnce_of_perm {ps : List String} (hps : ∀ w ∈ ps, IsWord w)
    (h : (dropFirst ps).Perm (ps.filter (· ≠ "quiet"))) : QuietOnce ps := by
  induction ps with
  | nil => trivial
  | cons w ps ih =>
    obtain ⟨hw, hps⟩ := List.forall_mem_cons.mp hps
    rw [dropFirst] at h
    rw [QuietOnce]
    split at h
    next hquiet =>
      rw [if_pos hquiet]
      have hps : "quiet" ∉ ps := fun hmem => by
        have hmem' := h.subset (List.mem_append_right _ hmem)
        simp at hmem'
      refine ⟨by_contra fun hne => ?_, hps⟩
      rw [filter_quiet_cons hne, filter_quiet hps] at h
      exact words_dropQuiet_ne hw hquiet
        (List.perm_singleton.mp ((List.perm_append_right_iff ps).mp h))
    next hquiet =>
      rw [if_neg hquiet]
      rw [filter_quiet_cons (not_hasQuiet_ne hquiet)] at h
      exact ih hps h.cons_inv

/-- The parameters of the debug entry are right just if the substitution hits `quiet` and there is no
other. -/
theorem debug_params_iff {ps ks : List String} (hps : ∀ w ∈ ps, IsWord w) :
    (∃ as bs, dropFirst ps ++ "hass.debug=1" :: ks = as ++ "hass.debug=1" :: bs ∧
      as ++ bs = (ps ++ ks).filter (· ≠ "quiet")) ↔ QuietOnce ps ∧ "quiet" ∉ ks := by
  constructor
  · rintro ⟨as, bs, heq, hfilter⟩
    have hperm : (dropFirst ps ++ ks).Perm ((ps ++ ks).filter (· ≠ "quiet")) := by
      have hmiddle : (as ++ "hass.debug=1" :: bs).Perm ("hass.debug=1" :: (as ++ bs)) :=
        List.perm_middle
      rw [← heq] at hmiddle
      rw [← hfilter]
      exact (List.perm_middle.symm.trans hmiddle).cons_inv
    have hks : "quiet" ∉ ks := fun hmem => by
      have hmem' := hperm.subset (List.mem_append_right _ hmem)
      simp at hmem'
    rw [List.filter_append, filter_quiet hks] at hperm
    exact ⟨quietOnce_of_perm hps ((List.perm_append_right_iff ks).mp hperm), hks⟩
  · rintro ⟨hps, hks⟩
    refine ⟨dropFirst ps, ks, rfl, ?_⟩
    rw [List.filter_append, filter_quiet hks, dropFirst_eq_filter hps]

/-! ## What the generated texts say -/

namespace Vars

variable (v : Vars)

/-- The images of a flavor, the last ucode image first. -/
def initrds (f : String) : List String := v.initrdUcode.reverse ++ ["/boot/initramfs-" ++ f]

def params : List String := words v.initfsCmdline ++ words v.kernelCmdline

def boot (f : String) : Boot := ⟨"/boot/vmlinuz-" ++ f, v.initrds f, v.params⟩

/-- `INITRD` as it is read. -/
def biosBoot (f : String) : Boot :=
  { v.boot f with initrds := fields ',' (",".intercalate (v.initrds f)) }

/-- The debug entry of a flavor. -/
def debugBoot (f : String) : Boot :=
  { v.boot f with
    params := dropFirst (words v.initfsCmdline) ++ "hass.debug=1" :: words v.kernelCmdline }

/-- The lines of a flavor in `grub.cfg`. -/
def linuxLine (f : String) : String :=
  "linux\t/boot/vmlinuz-" ++ f ++ " " ++ v.initfsCmdline ++ " " ++ v.kernelCmdline

def debugLine (f : String) : String :=
  "linux\t/boot/vmlinuz-" ++ f ++ " " ++ String.ofList (dropQuiet v.initfsCmdline.toList) ++
    " hass.debug=1 " ++ v.kernelCmdline

def initrdLine (f : String) : String := "initrd\t" ++ " ".intercalate (v.initrds f)

end Vars

variable {v : Vars} {f : String}

theorem initrd_eq (sep : String) (f : String) :
    v.initrdUcode.foldl (fun initrd p => p ++ sep ++ initrd) ("/boot/initramfs-" ++ f) =
      sep.intercalate (v.initrds f) := by
  have h := foldl_intercalate sep v.initrdUcode (List.cons_ne_nil ("/boot/initramfs-" ++ f) [])
  rwa [String.intercalate_singleton] at h

theorem isWord_vmlinuz (hf : IsWord f) : IsWord ("/boot/vmlinuz-" ++ f) :=
  IsWord.append (by decide) hf.2

theorem isWord_initramfs (hf : IsWord f) : IsWord ("/boot/initramfs-" ++ f) :=
  IsWord.append (by decide) hf.2

theorem isWord_initrds (hf : IsWord f) (hu : ∀ p ∈ v.initrdUcode, IsWord p) :
    ∀ p ∈ v.initrds f, IsWord p := by
  intro p hp
  rcases List.mem_append.mp hp with hp | hp
  · exact hu p (List.mem_reverse.mp hp)
  · rw [List.mem_singleton.mp hp]
    exact isWord_initramfs hf

theorem isWord_joined (hf : IsWord f) (hu : ∀ p ∈ v.initrdUcode, IsWord p) :
    IsWord (",".intercalate (v.initrds f)) := by
  refine ⟨?_, fun c hc => ?_⟩
  · rw [Vars.initrds]
    by_cases hnil : v.initrdUcode.reverse = []
    · rw [hnil, List.nil_append, String.intercalate_singleton]
      exact (isWord_initramfs hf).1
    · rw [intercalate_concat "," hnil]
      exact append_ne_empty _ (isWord_initramfs hf).1
  · rcases mem_intercalate hc with hc | ⟨p, hp, hc⟩
    · rw [List.mem_singleton.mp hc]
      rfl
    · exact (isWord_initrds hf hu p hp).2 c hc

/-- The lines of one flavor in `syslinux.cfg`. -/
theorem readMenu_syslinuxEntry (hf : IsWord f) (hx : v.xenParams = none)
    (hu : ∀ p ∈ v.initrdUcode, IsWord p) {rest : List String} {menu : List (String × Boot)}
    (h : readMenu syslinuxDirective rest = (.empty, menu)) :
    readMenu syslinuxDirective (v.syslinuxEntry f ++ rest) =
      (.empty, [(f, v.biosBoot f)] ++ menu) := by
  have hlabel : words ("LABEL " ++ f) = ["LABEL", f] := by
    rw [words_keyword "LABEL " "LABEL" ' ' rfl rfl rfl, words_self hf]
  have hmenu : words ("MENU LABEL Linux " ++ f) = "MENU" :: words ("LABEL Linux " ++ f) := by
    rw [← words_keyword "MENU " "MENU" ' ' rfl rfl rfl, ← String.append_assoc]
    rfl
  have hkernel : words ("KERNEL /boot/vmlinuz-" ++ f) = ["KERNEL", "/boot/vmlinuz-" ++ f] := by
    rw [← words_self (isWord_vmlinuz hf),
      ← words_keyword "KERNEL " "KERNEL" ' ' rfl rfl rfl, ← String.append_assoc]
    rfl
  have hdtb : words ("FDTDIR /boot/dtbs-" ++ f) = "FDTDIR" :: words ("/boot/dtbs-" ++ f) := by
    rw [← words_keyword "FDTDIR " "FDTDIR" ' ' rfl rfl rfl, ← String.append_assoc]
    rfl
  have happend : words ("APPEND " ++ v.initfsCmdline ++ " " ++ v.kernelCmdline) =
      "APPEND" :: v.params := by
    rw [words_space, words_keyword "APPEND " "APPEND" ' ' rfl rfl rfl]
    rfl
  have hinitrd : words ("INITRD " ++ ",".intercalate (v.initrds f)) =
      ["INITRD", ",".intercalate (v.initrds f)] := by
    rw [words_keyword "INITRD " "INITRD" ' ' rfl rfl rfl, words_self (isWord_joined hf hu)]
  have hfold := initrd_eq (v := v) "," f
  simp only [Vars.syslinuxEntry, hx, hfold, List.cons_append, List.nil_append, readMenu,
    syslinuxDirective, words_empty, hlabel, hmenu, hkernel, hdtb, happend, hinitrd, h]
  rfl

theorem words_vmlinuz (hf : IsWord f) :
    words ("linux\t/boot/vmlinuz-" ++ f) = ["linux", "/boot/vmlinuz-" ++ f] := by
  rw [← words_self (isWord_vmlinuz hf),
    ← words_keyword "linux\t" "linux" '\t' rfl rfl rfl, ← String.append_assoc]
  rfl

theorem words_linux (hf : IsWord f) :
    words (v.linuxLine f) = "linux" :: ("/boot/vmlinuz-" ++ f) :: v.params := by
  unfold Vars.linuxLine Vars.params
  rw [words_space, words_space, words_vmlinuz hf, List.append_assoc, List.cons_append,
    List.cons_append, List.nil_append]

theorem words_linux_debug (hf : IsWord f) :
    words (v.debugLine f) = "linux" :: ("/boot/vmlinuz-" ++ f) :: (v.debugBoot f).params := by
  have hadded : ∀ s t : String, words (s ++ " hass.debug=1 " ++ t) =
      words s ++ "hass.debug=1" :: words t := by
    intro s t
    have hsplit : " hass.debug=1 " = " " ++ "hass.debug=1 " := rfl
    rw [hsplit, ← String.append_assoc, String.append_assoc, words_space,
      words_keyword "hass.debug=1 " "hass.debug=1" ' ' rfl rfl rfl]
  unfold Vars.debugLine Vars.debugBoot
  rw [hadded, words_space, words_vmlinuz hf, words_dropQuiet, String.ofList_toList, List.append_assoc,
    List.cons_append, List.cons_append, List.nil_append]

theorem words_initrd (hf : IsWord f) (hu : ∀ p ∈ v.initrdUcode, IsWord p) :
    words (v.initrdLine f) = "initrd" :: v.initrds f := by
  rw [Vars.initrdLine, words_keyword "initrd\t" "initrd" '\t' rfl rfl rfl,
    words_intercalate (isWord_initrds hf hu)]

/-! ## Special characters -/

theorem plain_append {s t : String} : Plain (s ++ t) ↔ Plain s ∧ Plain t := by
  simp only [Plain, String.toList_append, List.mem_append, or_imp, forall_and]

theorem plain_intercalate {ss : List String} :
    Plain (" ".intercalate ss) ↔ ∀ s ∈ ss, Plain s := by
  induction ss with
  | nil => exact iff_of_true (by decide) fun _ h => (List.not_mem_nil h).elim
  | cons s ss ih =>
    have hblank : Plain " " := by decide
    cases ss with
    | nil => simp
    | cons s' ss =>
      rw [String.intercalate_cons_cons, plain_append, plain_append, ih, List.forall_mem_cons]
      simp only [hblank, and_true, List.forall_mem_cons]

theorem plain_linuxLine :
    Plain (v.linuxLine f) ↔ Plain f ∧ Plain v.initfsCmdline ∧ Plain v.kernelCmdline := by
  have hpath : Plain "linux\t/boot/vmlinuz-" := by decide
  have hblank : Plain " " := by decide
  unfold Vars.linuxLine
  simp only [plain_append, hpath, hblank, true_and, and_true, and_assoc]

theorem plain_initrdLine :
    Plain (v.initrdLine f) ↔ Plain f ∧ ∀ p ∈ v.initrdUcode, Plain p := by
  have hkeyword : Plain "initrd\t" := by decide
  have hpath : Plain "/boot/initramfs-" := by decide
  rw [Vars.initrdLine, plain_append, plain_intercalate, Vars.initrds, List.forall_mem_append,
    List.forall_mem_singleton, plain_append, and_comm (a := Plain f)]
  simp only [hkeyword, hpath, true_and, List.mem_reverse]

theorem plain_debugLine (h : Plain (v.linuxLine f)) : Plain (v.debugLine f) := by
  obtain ⟨hf, hinitfs, hkernel⟩ := plain_linuxLine.mp h
  have hpath : Plain "linux\t/boot/vmlinuz-" := by decide
  have hblank : Plain " " := by decide
  have hadded : Plain " hass.debug=1 " := by decide
  have hdropped : Plain (String.ofList (dropQuiet v.initfsCmdline.toList)) := by
    intro c hc
    rw [String.toList_ofList] at hc
    exact hinitfs c ((dropQuiet_sublist _).subset hc)
  unfold Vars.debugLine
  simp only [plain_append, hpath, hblank, hadded, hf, hdropped, hkernel, and_self]

/-! ## The lines of one flavor in `grub.cfg` -/

/-- A line after which an entry begins changes it by `g`. -/
def Directive.Changes (d : Directive) (g : Boot → Boot) : Prop := d = .set g ∨ d = .other ∧ g = id

theorem readMenu_changes {directive : String → Directive} {g : Boot → Boot} {b : Boot}
    {menu : List (String × Boot)} (hline : (directive line).Changes g)
    (h : readMenu directive rest = (b, menu)) :
    readMenu directive (line :: rest) = (g b, menu) := by
  rcases hline with hline | ⟨hline, rfl⟩
  · simp only [readMenu, h, hline]
  · simp only [readMenu, h, hline, id]

section
variable (G : Grub)

theorem grub_empty : G.directive "" = .other := by
  rw [Grub.directive, G.plain "" (by decide)]
  rfl

theorem grub_timeout : G.directive "set timeout=1" = .other := by
  rw [Grub.directive, G.plain _ (by decide)]
  rfl

theorem grub_close : G.directive "\x7d" = .other := by
  rw [Grub.directive, G.close]
  rfl

theorem split_normal : G.split "menuentry \"Home Assistant OS Installer\" \x7b" =
    ["menuentry", normalTitle, "\x7b"] :=
  G.menuentry normalTitle (by decide)

theorem split_debug : G.split "menuentry \"Home Assistant OS Installer - DEBUG LOGGING\" \x7b" =
    ["menuentry", debugTitle, "\x7b"] :=
  G.menuentry debugTitle (by decide)

theorem grub_normal : G.directive "menuentry \"Home Assistant OS Installer\" \x7b" =
    .entry normalTitle := by
  rw [Grub.directive, split_normal]
  rfl

theorem grub_debug : G.directive "menuentry \"Home Assistant OS Installer - DEBUG LOGGING\" \x7b" =
    .entry debugTitle := by
  rw [Grub.directive, split_debug]
  rfl

variable {G}

/-- The two entries of a flavor are made by its lines. -/
theorem readMenu_grubEntry (hx : v.xenParams = none) {linux debug initrd : Boot → Boot}
    (hlinux : (G.directive (v.linuxLine f)).Changes linux)
    (hdebug : (G.directive (v.debugLine f)).Changes debug)
    (hinitrd : (G.directive (v.initrdLine f)).Changes initrd) {rest : List String}
    {menu : List (String × Boot)} (h : readMenu G.directive rest = (.empty, menu)) :
    readMenu G.directive (v.grubEntry f ++ rest) =
      (.empty, [(normalTitle, linux (initrd .empty)), (debugTitle, debug (initrd .empty))] ++ menu) := by
  have hother : ∀ {line rest b menu}, G.directive line = .other →
      readMenu G.directive rest = (b, menu) → readMenu G.directive (line :: rest) = (b, menu) :=
    fun hline => readMenu_changes (.inr ⟨hline, rfl⟩)
  have hentry : ∀ {line title rest b menu}, G.directive line = .entry title →
      readMenu G.directive rest = (b, menu) →
      readMenu G.directive (line :: rest) = (.empty, (title, b) :: menu) := by
    intro line title rest b menu hline hrest
    simp only [readMenu, hrest, hline]
  have hlines : v.grubEntry f = ["", "menuentry \"Home Assistant OS Installer\" \x7b", v.linuxLine f,
      v.initrdLine f, "\x7d", "menuentry \"Home Assistant OS Installer - DEBUG LOGGING\" \x7b",
      v.debugLine f, v.initrdLine f, "\x7d"] := by
    simp only [Vars.grubEntry, hx, initrd_eq]
    rfl
  have hdebugLines := readMenu_changes hdebug (readMenu_changes hinitrd (hother (grub_close G) h))
  have hlinuxLines := readMenu_changes hlinux (readMenu_changes hinitrd
    (hother (grub_close G) (hentry (grub_debug G) hdebugLines)))
  rw [hlines]
  exact hother (grub_empty G) (hentry (grub_normal G) hlinuxLines)

/-- What the lines say where they are read as words. -/
theorem changes_linux (hf : IsWord f) (h : Plain (v.linuxLine f)) :
    (G.directive (v.linuxLine f)).Changes
      fun b => { b with kernel := "/boot/vmlinuz-" ++ f, params := v.params } := by
  rw [Grub.directive, G.plain _ h, words_linux hf]
  exact .inl rfl

theorem changes_debug (hf : IsWord f) (h : Plain (v.debugLine f)) :
    (G.directive (v.debugLine f)).Changes
      fun b => { b with kernel := "/boot/vmlinuz-" ++ f, params := (v.debugBoot f).params } := by
  rw [Grub.directive, G.plain _ h, words_linux_debug hf]
  exact .inl rfl

theorem changes_initrd (hf : IsWord f) (hu : ∀ p ∈ v.initrdUcode, IsWord p)
    (h : Plain (v.initrdLine f)) :
    (G.directive (v.initrdLine f)).Changes fun b => { b with initrds := v.initrds f } := by
  rw [Grub.directive, G.plain _ h, words_initrd hf hu]
  exact .inl rfl

end

/-- `${kernel_flavors%% *}` is the first of words with blanks between them. -/
theorem firstFlavor_eq {fs : List String} (hfs : ∀ f ∈ fs, IsWord f) :
    String.ofList ((echoed fs).toList.takeWhile (· ≠ ' ')) = fs.headD "" := by
  cases fs with
  | nil => rfl
  | cons f fs =>
    have hf : ∀ c ∈ f.toList, decide (c ≠ ' ') = true := by
      intro c hc
      refine decide_eq_true fun he => ?_
      have hblank := (hfs f List.mem_cons_self).2 c hc
      rw [he] at hblank
      cases hblank
    rw [echoed, String.toList_ofList, List.map_cons, List.headD_cons]
    cases fs with
    | nil =>
      rw [List.map_nil, List.intercalate_singleton, ← List.append_nil f.toList,
        List.takeWhile_append_of_pos hf, List.takeWhile_nil, List.append_nil, String.ofList_toList]
    | cons f' fs =>
      rw [List.map_cons, List.intercalate_cons_cons, List.append_assoc,
        List.takeWhile_append_of_pos hf, List.singleton_append,
        List.takeWhile_cons_of_neg (by simp), List.append_nil, String.ofList_toList]

section
variable (hf : ∀ f ∈ v.kernelFlavors, IsWord f) (hu : ∀ p ∈ v.initrdUcode, IsWord p)
  (hx : v.xenParams = none)
include hf hu hx

theorem syslinuxMenu_eq : v.syslinuxMenu = v.kernelFlavors.map fun f => (f, v.biosBoot f) := by
  have hentries : readMenu syslinuxDirective (v.kernelFlavors.flatMap v.syslinuxEntry) =
      (.empty, v.kernelFlavors.flatMap fun f => [(f, v.biosBoot f)]) :=
    readMenu_flatMap fun f hmem _ _ => readMenu_syslinuxEntry (hf f hmem) hx hu
  have htimeout : syslinuxDirective ("TIMEOUT " ++ orElse v.syslinuxTimeout "10") = .other := by
    rw [syslinuxDirective, words_keyword "TIMEOUT " "TIMEOUT" ' ' rfl rfl rfl]
    rfl
  have hprompt : syslinuxDirective ("PROMPT " ++ orElse v.syslinuxPrompt "1") = .other := by
    rw [syslinuxDirective, words_keyword "PROMPT " "PROMPT" ' ' rfl rfl rfl]
    rfl
  have hdefault : syslinuxDirective ("DEFAULT " ++ v.kernelFlavors.headD "") = .other := by
    rw [syslinuxDirective, words_keyword "DEFAULT " "DEFAULT" ' ' rfl rfl rfl]
    rfl
  have hserial : syslinuxDirective ("SERIAL " ++ v.syslinuxSerial) = .other := by
    rw [syslinuxDirective, words_keyword "SERIAL " "SERIAL" ' ' rfl rfl rfl]
    rfl
  rw [Vars.syslinuxMenu, Vars.syslinuxGenConfig, List.map_eq_flatMap]
  split
  · simp only [List.nil_append, List.cons_append, readMenu, htimeout, hprompt, hdefault, hentries]
  · simp only [List.nil_append, List.cons_append, readMenu, hserial, htimeout, hprompt, hdefault,
      hentries]

omit hu hx in
theorem syslinuxDefault_eq : syslinuxDefault v.syslinuxGenConfig = v.kernelFlavors.head? := by
  have htimeout : defaultLabel ("TIMEOUT " ++ orElse v.syslinuxTimeout "10") = none := by
    rw [defaultLabel, words_keyword "TIMEOUT " "TIMEOUT" ' ' rfl rfl rfl]
    rfl
  have hprompt : defaultLabel ("PROMPT " ++ orElse v.syslinuxPrompt "1") = none := by
    rw [defaultLabel, words_keyword "PROMPT " "PROMPT" ' ' rfl rfl rfl]
    rfl
  have hserial : (if v.syslinuxSerial = "" then [] else ["SERIAL " ++ v.syslinuxSerial]).findSome?
      defaultLabel = none := by
    split
    · rfl
    · rw [List.findSome?_singleton, defaultLabel,
        words_keyword "SERIAL " "SERIAL" ' ' rfl rfl rfl]
      rfl
  rw [syslinuxDefault, Vars.syslinuxGenConfig, List.append_assoc, List.findSome?_append, hserial]
  cases hfs : v.kernelFlavors with
  | nil =>
    simp only [List.headD_nil, List.flatMap_nil, List.append_nil, List.findSome?_cons, htimeout,
      hprompt]
    rfl
  | cons f fs =>
    have hdefault : defaultLabel ("DEFAULT " ++ f) = some f := by
      rw [defaultLabel, words_keyword "DEFAULT " "DEFAULT" ' ' rfl rfl rfl,
        words_self (hf f (hfs ▸ List.mem_cons_self))]
      rfl
    simp only [List.headD_cons, List.cons_append, List.findSome?_cons, htimeout, hprompt, hdefault]
    rfl

section
variable {G : Grub} (hp : v.Plain)
include hp

omit hf hu hx in
theorem plain_lines (hmem : f ∈ v.kernelFlavors) :
    Plain (v.linuxLine f) ∧ Plain (v.debugLine f) ∧ Plain (v.initrdLine f) := by
  obtain ⟨hflavor, hucode, hcmdline⟩ := hp f hmem
  have hlinux : Plain (v.linuxLine f) := plain_linuxLine.mpr ⟨hflavor, hcmdline⟩
  exact ⟨hlinux, plain_debugLine hlinux, plain_initrdLine.mpr ⟨hflavor, hucode⟩⟩

theorem grubMenu_eq : v.grubMenu G = v.kernelFlavors.flatMap fun f =>
    [(normalTitle, v.boot f), (debugTitle, v.debugBoot f)] := by
  have hentries : readMenu G.directive (v.kernelFlavors.flatMap v.grubEntry) =
      (.empty, v.kernelFlavors.flatMap fun f =>
        [(normalTitle, v.boot f), (debugTitle, v.debugBoot f)]) := by
    refine readMenu_flatMap fun f hmem _ _ => ?_
    obtain ⟨hlinux, hdebug, hinitrd⟩ := plain_lines hp hmem
    exact readMenu_grubEntry hx (changes_linux (hf f hmem) hlinux) (changes_debug (hf f hmem) hdebug)
      (changes_initrd (hf f hmem) hu hinitrd)
  rw [Vars.grubMenu, Vars.grubGenConfig, readMenu, grub_timeout G, hentries]

theorem grubDefault_eq : G.default v.grubGenConfig = none := by
  rw [Grub.default, List.findSome?_eq_none_iff]
  have hempty : G.defaultNumber "" = none := by
    rw [Grub.defaultNumber, G.plain "" (by decide)]
    rfl
  have hclose : G.defaultNumber "\x7d" = none := by
    rw [Grub.defaultNumber, G.close]
    rfl
  have hnormal : G.defaultNumber "menuentry \"Home Assistant OS Installer\" \x7b" = none := by
    rw [Grub.defaultNumber, split_normal]
    rfl
  have hdebugging : G.defaultNumber
      "menuentry \"Home Assistant OS Installer - DEBUG LOGGING\" \x7b" = none := by
    rw [Grub.defaultNumber, split_debug]
    rfl
  intro line hline
  rcases List.mem_cons.mp hline with rfl | hline
  · rw [Grub.defaultNumber, G.plain _ (by decide)]
    rfl
  obtain ⟨f, hmem, hline⟩ := List.mem_flatMap.mp hline
  obtain ⟨hlinux, hdebug, hinitrd⟩ := plain_lines hp hmem
  have hlinuxLine : G.defaultNumber (v.linuxLine f) = none := by
    rw [Grub.defaultNumber, G.plain _ hlinux, words_linux (hf f hmem)]
    rfl
  have hdebugLine : G.defaultNumber (v.debugLine f) = none := by
    rw [Grub.defaultNumber, G.plain _ hdebug, words_linux_debug (hf f hmem)]
    rfl
  have hinitrdLine : G.defaultNumber (v.initrdLine f) = none := by
    rw [Grub.defaultNumber, G.plain _ hinitrd, words_initrd (hf f hmem) hu]
    rfl
  simp only [Vars.grubEntry, hx, initrd_eq, List.mem_cons, List.not_mem_nil, or_false] at hline
  rcases hline with rfl | rfl | rfl | rfl | rfl | rfl | rfl | rfl | rfl
  · exact hempty
  · exact hnormal
  · exact hlinuxLine
  · exact hinitrdLine
  · exact hclose
  · exact hdebugging
  · exact hdebugLine
  · exact hinitrdLine
  · exact hclose

/-- Both start the first flavor. -/
theorem starts_eq : v.grubStarts G = v.kernelFlavors.head?.map (fun f => (normalTitle, v.boot f)) ∧
    v.syslinuxStarts = v.kernelFlavors.head?.map fun f => (f, v.biosBoot f) := by
  rw [Vars.grubStarts, Vars.syslinuxStarts, grubDefault_eq hf hu hx hp, syslinuxDefault_eq hf,
    grubMenu_eq hf hu hx hp, syslinuxMenu_eq hf hu hx]
  cases v.kernelFlavors with
  | nil => exact ⟨rfl, rfl⟩
  | cons f fs =>
    refine ⟨rfl, ?_⟩
    rw [List.head?_cons, Option.bind_some, List.map_cons, List.find?_cons_of_pos (by simp)]
    rfl

end

end

theorem filter_normal (normal debug : String → Boot) (fs : List String) : ((fs.flatMap fun f =>
    [(normalTitle, normal f), (debugTitle, debug f)]).filter (!isDebug ·)).map Prod.snd =
      fs.map normal := by
  induction fs with
  | nil => rfl
  | cons f fs ih => simpa [List.filter_cons] using ih

theorem filter_debug (normal debug : String → Boot) (fs : List String) : ((fs.flatMap fun f =>
    [(normalTitle, normal f), (debugTitle, debug f)]).filter isDebug).map Prod.snd =
      fs.map debug := by
  induction fs with
  | nil => rfl
  | cons f fs ih => simpa [List.filter_cons] using ih

/-! ## Agreement -/

/-- `INITRD` lists the images as they are just if no name has a comma in it. -/
theorem fields_initrds_iff : fields ',' (",".intercalate (v.initrds f)) = v.initrds f ↔
    ',' ∉ f.toList ∧ ∀ p ∈ v.initrdUcode, ',' ∉ p.toList := by
  have hne : v.initrds f ≠ [] := List.append_ne_nil_of_right_ne_nil _ (List.cons_ne_nil _ [])
  have hpath : ',' ∉ ("/boot/initramfs-" ++ f).toList ↔ ',' ∉ f.toList := by
    rw [String.toList_append, List.mem_append, or_iff_right (by decide)]
  have hcomma : "," = String.singleton ',' := rfl
  rw [hcomma, fields_intercalate hne, flatMap_fields_iff, Vars.initrds, List.forall_mem_append,
    List.forall_mem_singleton, hpath, and_comm]
  simp only [List.mem_reverse]

/-- The debug entry of a flavor is right just if the parameters of its normal entry allow it. -/
theorem debugs_iff (f : String) : Debugs (v.boot f) (v.debugBoot f) ↔
    QuietOnce (words v.initfsCmdline) ∧ "quiet" ∉ words v.kernelCmdline := by
  rw [← debug_params_iff fun _ hw => isWord_of_mem_words hw]
  exact ⟨fun h => h.params, fun h => ⟨rfl, rfl, h⟩⟩

section
variable (hf : ∀ f ∈ v.kernelFlavors, IsWord f) (hu : ∀ p ∈ v.initrdUcode, IsWord p)
  (hx : v.xenParams = none)
include hf hu hx

section
variable {G : Grub} (hp : v.Plain)
include hp

theorem normal_iff :
    ((v.grubMenu G).filter (!isDebug ·)).map Prod.snd = v.syslinuxMenu.map Prod.snd ↔
      ∀ f ∈ v.kernelFlavors, ',' ∉ f.toList ∧ ∀ p ∈ v.initrdUcode, ',' ∉ p.toList := by
  have hsnd : (Prod.snd ∘ fun f => (f, v.biosBoot f)) = v.biosBoot := rfl
  rw [grubMenu_eq hf hu hx hp, filter_normal, syslinuxMenu_eq hf hu hx, List.map_map, hsnd,
    List.map_inj_left]
  refine forall₂_congr fun f _ => ?_
  rw [← fields_initrds_iff]
  exact ⟨fun h => (congrArg Boot.initrds h).symm, fun h => by rw [Vars.biosBoot, h]; rfl⟩

theorem debug_iff : List.Forall₂ Debugs (((v.grubMenu G).filter (!isDebug ·)).map Prod.snd)
    (((v.grubMenu G).filter isDebug).map Prod.snd) ↔ ∀ f ∈ v.kernelFlavors,
      QuietOnce (words v.initfsCmdline) ∧ "quiet" ∉ words v.kernelCmdline := by
  rw [grubMenu_eq hf hu hx hp, filter_normal, filter_debug, List.forall₂_map_left_iff,
    List.forall₂_map_right_iff, List.forall₂_same]
  exact forall₂_congr fun f _ => debugs_iff f

/-- What the menus differ in, if at all, are the images and the debug entries. -/
theorem sameMenus_of (hnormal : ((v.grubMenu G).filter (!isDebug ·)).map Prod.snd =
      v.syslinuxMenu.map Prod.snd)
    (hdebug : List.Forall₂ Debugs (((v.grubMenu G).filter (!isDebug ·)).map Prod.snd)
      (((v.grubMenu G).filter isDebug).map Prod.snd)) : v.SameMenus G := by
  obtain ⟨hgrub, hsyslinux⟩ := starts_eq hf hu hx hp
  have hmenu := syslinuxMenu_eq hf hu hx
  refine ⟨?_, ?_, hnormal, ?_, hdebug⟩
  · rw [hmenu, List.map_map]
    exact List.map_id _
  · rw [hmenu, List.map_map]
    rfl
  · rw [grubMenu_eq hf hu hx hp, filter_normal, hmenu, List.map_map] at hnormal
    have hhead := congrArg List.head? hnormal
    rw [List.head?_map, List.head?_map] at hhead
    rw [hgrub, hsyslinux, Option.map_map, Option.map_map]
    exact hhead

/-- Of texts that are plain the menus start the same just if no name of a flavor or an image has a
comma in it, and the substitution hits the one parameter `quiet`, or there is none and no text `quiet`
for it to hit. -/
theorem sameMenus_iff_of_plain : v.SameMenus G ↔ v.kernelFlavors = [] ∨
    (∀ p ∈ v.kernelFlavors ++ v.initrdUcode, ',' ∉ p.toList) ∧
      QuietOnce (words v.initfsCmdline) ∧ "quiet" ∉ words v.kernelCmdline := by
  constructor
  · intro h
    have hcomma := (normal_iff hf hu hx hp).mp h.normal
    have hquiet := (debug_iff hf hu hx hp).mp h.debug
    cases hfs : v.kernelFlavors with
    | nil => exact .inl rfl
    | cons f fs =>
      have hmem : f ∈ v.kernelFlavors := hfs ▸ List.mem_cons_self
      rw [← hfs]
      exact .inr ⟨List.forall_mem_append.mpr ⟨fun g hg => (hcomma g hg).1, (hcomma f hmem).2⟩,
        hquiet f hmem⟩
  · rintro (hnil | ⟨hcomma, hquiet⟩)
    · have hnone : ∀ f, f ∉ v.kernelFlavors := fun f hmem => by
        rw [hnil] at hmem
        cases hmem
      exact sameMenus_of hf hu hx hp ((normal_iff hf hu hx hp).mpr fun f hmem => absurd hmem (hnone f))
        ((debug_iff hf hu hx hp).mpr fun f hmem => absurd hmem (hnone f))
    · obtain ⟨hflavors, hucode⟩ := List.forall_mem_append.mp hcomma
      exact sameMenus_of hf hu hx hp
        ((normal_iff hf hu hx hp).mpr fun f hmem => ⟨hflavors f hmem, hucode⟩)
        ((debug_iff hf hu hx hp).mpr fun _ _ => hquiet)

end

end

/-! ## A reader that gives up -/

/-- A line with a special character that is none of those known has no words. -/
def Grub.bare : Grub where
  split line := if Plain line then words line else if line = "\x7d" then ["\x7d"] else
    if (words line).head? = some "menuentry" then ["menuentry", cut '"' 2 line, "\x7b"] else []
  plain line h := if_pos h
  menuentry title h := by
    have hquote : '"' ∉ title.toList := fun hc => h _ hc (by decide)
    have hline : "menuentry \"" ++ title ++ "\" \x7b" =
        "menuentry " ++ String.singleton '"' ++ title ++ String.singleton '"' ++ " \x7b" := by
      apply String.toList_injective
      simp
    have hwords : words ("menuentry \"" ++ title ++ "\" \x7b") =
        "menuentry" :: words ("\"" ++ title ++ "\" \x7b") := by
      have hkeyword := words_keyword "menuentry " "menuentry" ' ' rfl rfl rfl ("\"" ++ title ++ "\" \x7b")
      rw [← hkeyword, String.append_assoc, String.append_assoc, ← String.append_assoc]
      rfl
    rw [if_neg, if_neg, if_pos (by rw [hwords]; rfl), hline, cut_two (by decide) hquote]
    · intro he
      rw [he] at hwords
      have hhead := congrArg List.head? hwords
      rw [List.head?_cons] at hhead
      exact absurd hhead (by decide)
    · exact fun hplain => hplain '"' (by rw [hline]; simp) (by decide)
  close := rfl

/-- A line of which a reader knows no words changes nothing. -/
theorem changes_bare (h : ¬ Plain line) (hw : words line = w :: ws) (h₁ : w ≠ "menuentry")
    (h₂ : w ≠ "\x7d") : (Grub.bare.directive line).Changes id := by
  have hclose : line ≠ "\x7d" := by
    rintro rfl
    have hbrace : words "\x7d" = ["\x7d"] := by decide
    exact h₂ (List.cons.inj (hbrace.symm.trans hw)).1.symm
  have hhead : (words line).head? ≠ some "menuentry" := by
    rw [hw]
    exact fun he => h₁ (Option.some.inj he)
  have hsplit : Grub.bare.split line = [] := by
    simp only [Grub.bare]
    rw [if_neg h, if_neg hclose, if_neg hhead]
  rw [Grub.directive, hsplit]
  exact .inr ⟨rfl, rfl⟩

/-- What such a reader makes of a line. -/
def onPlain (line : String) (change : Boot → Boot) : Boot → Boot := if Plain line then change else id

theorem changes_onPlain {change : Boot → Boot}
    (h : Plain line → (Grub.bare.directive line).Changes change) (hw : words line = w :: ws)
    (h₁ : w ≠ "menuentry") (h₂ : w ≠ "\x7d") :
    (Grub.bare.directive line).Changes (onPlain line change) := by
  unfold onPlain
  split
  · next hplain => exact h hplain
  · next hplain => exact changes_bare hplain hw h₁ h₂

/-- The entries of a flavor as it reads them. -/
def Vars.bareInitrd (v : Vars) (f : String) : Boot :=
  onPlain (v.initrdLine f) (fun b => { b with initrds := v.initrds f }) .empty

def Vars.bareBoot (v : Vars) (f : String) : Boot :=
  onPlain (v.linuxLine f) (fun b => { b with kernel := "/boot/vmlinuz-" ++ f, params := v.params })
    (v.bareInitrd f)

def Vars.bareDebugBoot (v : Vars) (f : String) : Boot :=
  onPlain (v.debugLine f)
    (fun b => { b with kernel := "/boot/vmlinuz-" ++ f, params := (v.debugBoot f).params })
    (v.bareInitrd f)

theorem kernel_bareInitrd (v : Vars) (f : String) : (v.bareInitrd f).kernel = "" := by
  unfold Vars.bareInitrd onPlain
  split <;> rfl

section
variable (hf : ∀ f ∈ v.kernelFlavors, IsWord f) (hu : ∀ p ∈ v.initrdUcode, IsWord p)
  (hx : v.xenParams = none)
include hf hu hx

theorem grubMenu_bare : v.grubMenu .bare = v.kernelFlavors.flatMap fun f =>
    [(normalTitle, v.bareBoot f), (debugTitle, v.bareDebugBoot f)] := by
  have hentries : readMenu Grub.bare.directive (v.kernelFlavors.flatMap v.grubEntry) =
      (.empty, v.kernelFlavors.flatMap fun f =>
        [(normalTitle, v.bareBoot f), (debugTitle, v.bareDebugBoot f)]) := by
    refine readMenu_flatMap fun f hmem _ _ => readMenu_grubEntry hx ?_ ?_ ?_
    · exact changes_onPlain (changes_linux (hf f hmem)) (words_linux (hf f hmem)) (by decide) (by decide)
    · exact changes_onPlain (changes_debug (hf f hmem)) (words_linux_debug (hf f hmem)) (by decide)
        (by decide)
    · exact changes_onPlain (changes_initrd (hf f hmem) hu) (words_initrd (hf f hmem) hu) (by decide)
        (by decide)
  rw [Vars.grubMenu, Vars.grubGenConfig, readMenu, grub_timeout, hentries]

/-- Texts that are not plain tell the menus apart where a reader makes nothing of them. -/
theorem not_sameMenus_bare (hp : ¬ v.Plain) : ¬ v.SameMenus Grub.bare := by
  intro h
  have hnormal := h.normal
  rw [grubMenu_bare hf hu hx, filter_normal, syslinuxMenu_eq hf hu hx, List.map_map] at hnormal
  have heach := List.map_inj_left.mp hnormal
  simp only [Vars.Plain, not_forall] at hp
  obtain ⟨f, hmem, hbad⟩ := hp
  have hboot : v.bareBoot f = v.biosBoot f := heach f hmem
  by_cases hlinux : Plain (v.linuxLine f)
  · -- one of the images is named with a special character
    have hinitrd : ¬ Plain (v.initrdLine f) := by
      intro hplain
      obtain ⟨hflavor, hcmdline⟩ := plain_linuxLine.mp hlinux
      exact hbad ⟨hflavor, (plain_initrdLine.mp hplain).2, hcmdline⟩
    rw [Vars.bareBoot, Vars.bareInitrd, onPlain, onPlain, if_pos hlinux, if_neg hinitrd] at hboot
    exact fields_ne_nil _ _ (congrArg Boot.initrds hboot).symm
  · have hkernel := congrArg Boot.kernel hboot
    rw [Vars.bareBoot, onPlain, if_neg hlinux, id, kernel_bareInitrd] at hkernel
    have hlen : 0 = ("/boot/vmlinuz-" ++ f).length := congrArg String.length hkernel
    rw [String.length_append] at hlen
    change 0 = 14 + _ at hlen
    omega

/-- The two menus start the same, whatever GRUB makes of special characters, just if there are none, no
name of a flavor or an image has a comma in it, and the substitution hits the one parameter `quiet`, or
there is none and no text `quiet` for it to hit. -/
theorem sameMenus_iff :
    (v.Plain → ∀ G, v.SameMenus G ↔ v.kernelFlavors = [] ∨
      (∀ p ∈ v.kernelFlavors ++ v.initrdUcode, ',' ∉ p.toList) ∧
        QuietOnce (words v.initfsCmdline) ∧ "quiet" ∉ words v.kernelCmdline) ∧
    (¬ v.Plain → ∃ G, ¬ v.SameMenus G) :=
  ⟨fun hp _ => sameMenus_iff_of_plain hf hu hx hp, fun hp => ⟨.bare, not_sameMenus_bare hf hu hx hp⟩⟩

end

/-- The profile as it stands. -/
theorem sameMenus_iff_profile :
    (profileHassioInstaller (container "#!/bin/bash")).SameMenus Grub.bare :=
  ((sameMenus_iff (by decide) (by decide) rfl).1 (by decide) .bare).mpr (.inr (by decide))

/-- Its command line, with a parameter that has `quiet` in it. -/
def splash : Vars :=
  { profileHassioInstaller (container "#!/bin/bash") with
    initfsCmdline := "modules=loop,squashfs,sd-mod,usb-storage splash=quiet quiet" }

/-- The debug entry gets `splash=` and stays quiet. -/
theorem debug_entry_quiet :
    (debugTitle, ⟨"/boot/vmlinuz-lts", ["/boot/initramfs-lts"],
      ["modules=loop,squashfs,sd-mod,usb-storage", "splash=", "quiet", "hass.debug=1"]⟩) ∈
        splash.grubMenu .bare ∧
    ¬ splash.SameMenus .bare := by
  have hf : ∀ f ∈ splash.kernelFlavors, IsWord f := by decide
  have hp : splash.Plain := by decide
  refine ⟨by rw [grubMenu_eq hf (by decide) rfl hp]; decide, fun h => ?_⟩
  obtain ⟨hquiet, -⟩ := (debug_iff hf (by decide) rfl hp).mp h.debug "lts" List.mem_cons_self
  revert hquiet
  decide

end HassioInstaller.Mkimage
