import Mathlib.Data.List.Lex
import Mathlib.Data.List.Sort
import Mathlib.Data.String.Basic
import HassioInstaller.Text.Rows
import HassioInstaller.Installer.Leaving

/-! # The versions that are offered

The version menu shows the last ten tags in the order `git ls-remote` prints them, which is the
byte order of the names. They are the ten greatest versions just if no version comes, in byte order,
before a lower one of the last ten. -/

/-! ## The greatest of a list -/

section
variable [LinearOrder β] (key : α → β) (n : Nat)

/-- The `n` greatest by their keys, the greatest first. -/
def greatest (l : List α) : List α := (l.insertionSort fun a b => key b ≤ key a).take n

variable {key n} {l : List α}

theorem pairwise_greatest (l : List α) :
    (l.insertionSort fun a b => key b ≤ key a).Pairwise fun a b => key b ≤ key a := by
  have htotal : Std.Total fun a b : α => key b ≤ key a := ⟨fun a b => le_total (key b) (key a)⟩
  have htrans : IsTrans α fun a b => key b ≤ key a := ⟨fun _ _ _ hab hbc => hbc.trans hab⟩
  exact List.pairwise_insertionSort _ l

theorem pairwise_lt_of_le (hinj : (l.map key).Nodup) (h : l.Pairwise fun a b => key a ≤ key b) :
    l.Pairwise fun a b => key a < key b := by
  have hne : l.Pairwise fun a b => key a ≠ key b := List.pairwise_map.mp hinj
  exact (h.and hne).imp fun h => lt_of_le_of_ne h.1 h.2

/-- The last `n` of a list, the last first, are its `n` greatest just if they ascend and none before
them is greater. -/
theorem reverse_drop_eq_greatest_iff (hinj : (l.map key).Nodup) :
    (l.drop (l.length - n)).reverse = greatest key n l ↔
      (l.drop (l.length - n)).Pairwise (fun a b => key a < key b) ∧
        ∀ a ∈ l.take (l.length - n), ∀ b ∈ l.drop (l.length - n), key a < key b := by
  have hsplit := List.take_append_drop (l.length - n) l
  have hsorted : (l.insertionSort fun a b => key b ≤ key a).Pairwise fun a b => key b ≤ key a :=
    pairwise_greatest l
  have hperm := List.perm_insertionSort (fun a b => key b ≤ key a) l
  have hlen : (l.drop (l.length - n)).length = min n l.length := by
    rw [List.length_drop]
    omega
  have hinside : ∀ {a b}, a ∈ l → b ∈ l → key a = key b → a = b :=
    fun ha hb => List.inj_on_of_nodup_map hinj ha hb
  constructor
  · intro h
    have hrest : ((l.drop (l.length - n)).reverse ++
        (l.insertionSort fun a b => key b ≤ key a).drop n).Pairwise fun a b => key b ≤ key a := by
      rw [h, greatest, List.take_append_drop]
      exact hsorted
    have hpermRest : ((l.insertionSort fun a b => key b ≤ key a).drop n).Perm
        (l.take (l.length - n)) := by
      refine (List.perm_append_left_iff (l.drop (l.length - n)).reverse).mp ?_
      rw [h, greatest, List.take_append_drop, ← greatest, ← h]
      refine hperm.trans ?_
      conv_lhs => rw [← hsplit]
      exact List.perm_append_comm.trans ((List.reverse_perm _).symm.append_right _)
    obtain ⟨hrev, -, hcross⟩ := List.pairwise_append.mp hrest
    refine ⟨pairwise_lt_of_le (hinj.sublist ((List.drop_sublist _ l).map key))
      (List.pairwise_reverse.mp hrev), fun a ha b hb => ?_⟩
    have hle : key a ≤ key b := hcross b (List.mem_reverse.mpr hb) a (hpermRest.mem_iff.mpr ha)
    refine lt_of_le_of_ne hle ?_
    rw [← hsplit, List.map_append] at hinj
    exact (List.nodup_append.mp hinj).2.2 _ (List.mem_map_of_mem ha) _ (List.mem_map_of_mem hb)
  · intro h
    obtain ⟨hlt, hbelow⟩ := h
    have hcandidate : ((l.drop (l.length - n)).reverse ++
        (l.take (l.length - n)).insertionSort fun a b => key b ≤ key a).Pairwise
          fun a b => key b ≤ key a := by
      refine List.pairwise_append.mpr ⟨?_, pairwise_greatest _, fun b hb a ha => ?_⟩
      · exact List.pairwise_reverse.mpr (hlt.imp fun h => le_of_lt h)
      · have ha' := (List.perm_insertionSort _ _).mem_iff.mp ha
        exact le_of_lt (hbelow a ha' b (List.mem_reverse.mp hb))
    have hcandidatePerm : ((l.drop (l.length - n)).reverse ++
        (l.take (l.length - n)).insertionSort fun a b => key b ≤ key a).Perm
          (l.insertionSort fun a b => key b ≤ key a) := by
      refine ((List.reverse_perm _).append (List.perm_insertionSort _ _)).trans ?_
      refine List.perm_append_comm.trans ?_
      rw [hsplit]
      exact hperm.symm
    have heq := hcandidatePerm.eq_of_pairwise (fun a b ha hb hab hba => hinside
      (hperm.mem_iff.mp (hcandidatePerm.mem_iff.mp ha)) (hperm.mem_iff.mp hb)
      (le_antisymm hba hab)) hcandidate hsorted
    rw [greatest, ← heq]
    rcases Nat.le_total n l.length with hn | hn
    · rw [List.take_left' (by rw [List.length_reverse, hlen]; omega)]
    · have hzero : l.length - n = 0 := by omega
      rw [hzero, List.take_zero, List.drop_zero, List.insertionSort_nil, List.append_nil,
        List.take_of_length_le (by simpa using hn)]

end

namespace HassioInstaller
open Text

/-! ## Tags -/

/-- A tag of the repository: the numbers of its version, and that of a release candidate. `sha` names
the object it refers to, `peeled` the commit behind an annotated tag. -/
structure Tag where
  version : List Nat
  rc : Option Nat
  sha : String
  peeled : Option String
  nonempty : version ≠ []
  hex : ∀ s ∈ sha :: peeled.toList, ∀ c ∈ s.toList, c ∈ "0123456789abcdef".toList
  deriving DecidableEq

namespace Tag

/-- The numbers with dots between them. -/
def versionText (version : List Nat) : String := ".".intercalate (version.map fun n => toString n)

def text (t : Tag) : String :=
  versionText t.version ++ match t.rc with
    | none => ""
    | some n => ".rc" ++ toString n

/-- A line of `git ls-remote`. -/
def refLine (sha name : String) : String := sha ++ "\trefs" ++ "/" ++ "tags" ++ "/" ++ name

/-- The lines for a tag; the peeled one comes after it. -/
def lines (t : Tag) : List String :=
  refLine t.sha t.text :: t.peeled.toList.map fun sha => refLine sha (t.text ++ "^\x7b\x7d")

theorem mem_versionText {version : List Nat} (h : c ∈ (versionText version).toList) :
    c ∈ ".0123456789".toList := by
  rcases mem_intercalate h with h | ⟨l, hl, hc⟩
  · exact List.mem_cons.mpr (.inl (List.mem_singleton.mp h))
  · obtain ⟨n, -, rfl⟩ := List.mem_map.mp hl
    exact List.mem_cons_of_mem _ (Pattern.mem_digit.mpr (isDigit_of_mem_toString hc))

/-- The text of a tag starts with that of its version. -/
theorem mem_text {t : Tag} (h : c ∈ t.text.toList) : c ∈ ".0123456789rc".toList := by
  rw [text, String.toList_append, List.mem_append] at h
  have hversion : ∀ c ∈ ".0123456789".toList, c ∈ ".0123456789rc".toList := by decide
  have hrc : ∀ c ∈ ".rc".toList, c ∈ ".0123456789rc".toList := by decide
  rcases h with h | h
  · exact hversion c (mem_versionText h)
  · cases hr : t.rc with
    | none =>
      rw [hr] at h
      exact (List.not_mem_nil h).elim
    | some n =>
      rw [hr, String.toList_append, List.mem_append] at h
      rcases h with h | h
      · exact hrc c h
      · have hdigit := Pattern.mem_digit.mpr (isDigit_of_mem_toString h)
        have hall : ∀ c ∈ "0123456789".toList, c ∈ ".0123456789rc".toList := by decide
        exact hall c hdigit

theorem text_of_stable {t : Tag} (h : t.rc = none) : t.text = versionText t.version := by
  rw [text, h, String.append_empty]

theorem isWord_text (t : Tag) : IsWord t.text := by
  have hall : ∀ c ∈ ".0123456789rc".toList, isBlank c = false := by decide
  refine ⟨fun hempty => ?_, fun c hc => hall c (mem_text hc)⟩
  obtain ⟨n, version, hversion⟩ := List.exists_cons_of_ne_nil t.nonempty
  have hfirst : ∃ rest, versionText t.version = toString n ++ rest := by
    rw [hversion, versionText, List.map_cons]
    cases version with
    | nil => exact ⟨"", (String.append_empty).symm⟩
    | cons n' version =>
      rw [List.map_cons, String.intercalate_cons_cons, String.append_assoc]
      exact ⟨_, rfl⟩
  obtain ⟨rest, hrest⟩ := hfirst
  have hlist := congrArg String.toList hempty
  rw [text, hrest, String.toList_append, String.toList_append, List.append_assoc] at hlist
  have hnil := (List.append_eq_nil_iff.mp hlist).1
  exact toString_ne_empty n (String.toList_eq_nil_iff.mp hnil)

/-! ## The tags `egrep` leaves -/

/-- The characters in front of the name of a tag. -/
theorem mem_refLine_start {t : Tag}
    (h : c ∈ (t.sha ++ "\trefs" ++ "/" ++ "tags" ++ "/").toList) :
    c ∈ "0123456789abcdef\trefs/tags/".toList := by
  simp only [String.toList_append, List.append_assoc] at h
  have hhex : ∀ c ∈ "0123456789abcdef".toList, c ∈ "0123456789abcdef\trefs/tags/".toList := by
    decide
  have hrefs : ∀ c ∈ "\trefs".toList ++ ("/".toList ++ ("tags".toList ++ "/".toList)),
      c ∈ "0123456789abcdef\trefs/tags/".toList := by decide
  rcases List.mem_append.mp h with h | h
  · exact hhex c (t.hex _ List.mem_cons_self c h)
  · exact hrefs c h

/-- A peeled line is dropped. -/
theorem excluded_peeled (sha name : String) :
    matchesIn Installer.excludedTag (refLine sha (name ++ "^\x7b\x7d")) := by
  rw [matchesIn_iff]
  refine ⟨"\x7b\x7d".toList, Pattern.mem_add.mpr (.inl (Pattern.mem_lit.mpr rfl)), ?_⟩
  refine ⟨(sha ++ "\trefs" ++ "/" ++ "tags" ++ "/" ++ name).toList ++ ['^'], [], ?_⟩
  simp [refLine]

theorem mem_excluded_rc (n : Nat) :
    ".rc".toList ++ (toString n).toList ∈ Installer.excludedTag.matches' := by
  refine Pattern.mem_add.mpr (.inr (Pattern.mem_lit_mul.mpr ⟨_, Pattern.mem_plus_oneOf.mpr ?_, rfl⟩))
  refine ⟨fun h => toString_ne_empty n (String.toList_eq_nil_iff.mp h), fun c hc => ?_⟩
  exact Pattern.mem_digit.mpr (isDigit_of_mem_toString hc)

/-- A tag is dropped just if it is a release candidate. -/
theorem excluded_iff (t : Tag) :
    matchesIn Installer.excludedTag (refLine t.sha t.text) ↔ t.rc ≠ none := by
  rw [matchesIn_iff]
  constructor
  · rintro ⟨w, hw, hinfix⟩ hrc
    rw [refLine, String.toList_append, text_of_stable hrc] at hinfix
    rcases Pattern.mem_add.mp hw with hw | hw
    · rw [Pattern.mem_lit.mp hw] at hinfix
      have hbrace : '\x7b' ∈ (t.sha ++ "\trefs" ++ "/" ++ "tags" ++ "/").toList ++
          (versionText t.version).toList := hinfix.subset List.mem_cons_self
      rcases List.mem_append.mp hbrace with h | h
      · exact absurd (mem_refLine_start h) (by decide)
      · exact absurd (mem_versionText h) (by decide)
    · obtain ⟨digits, -, rfl⟩ := Pattern.mem_lit_mul.mp hw
      have hdot : '.' ∉ (t.sha ++ "\trefs" ++ "/" ++ "tags" ++ "/").toList :=
        fun h => absurd (mem_refLine_start h) (by decide)
      have hversion := infix_of_append_right (c := '.') (y := "rc".toList ++ digits) hinfix hdot
      have hr : 'r' ∈ (versionText t.version).toList := hversion.subset (by simp)
      exact absurd (mem_versionText hr) (by decide)
  · intro hrc
    obtain ⟨n, hn⟩ := Option.ne_none_iff_exists'.mp hrc
    refine ⟨_, mem_excluded_rc n, (t.sha ++ "\trefs" ++ "/" ++ "tags" ++ "/" ++
      versionText t.version).toList, [], ?_⟩
    simp [refLine, text, hn]

/-- `cut -d/ -f3` takes the tag from its line. -/
theorem cut_refLine (t : Tag) : cut '/' 3 (refLine t.sha t.text) = t.text := by
  have hsha : '/' ∉ (t.sha ++ "\trefs").toList := by
    intro h
    rw [String.toList_append, List.mem_append] at h
    have hrefs : '/' ∉ "\trefs".toList := by decide
    exact h.elim (fun h => absurd (t.hex _ List.mem_cons_self _ h) (by decide)) hrefs
  have htext : '/' ∉ t.text.toList := fun h => absurd (mem_text h) (by decide)
  exact cut_three hsha (by decide) htext

/-- What is left of the lines of a tag. -/
theorem filter_lines (t : Tag) :
    (t.lines.filter fun l => !matchesIn Installer.excludedTag l).map (cut '/' 3) =
      if t.rc = none then [t.text] else [] := by
  have hpeeled : (t.peeled.toList.map fun sha => refLine sha (t.text ++ "^\x7b\x7d")).filter
      (fun l => !matchesIn Installer.excludedTag l) = [] := by
    refine List.filter_eq_nil_iff.mpr fun l hl => ?_
    obtain ⟨sha, -, rfl⟩ := List.mem_map.mp hl
    rw [excluded_peeled]
    exact Bool.false_ne_true
  rw [lines, List.filter_cons, hpeeled]
  split
  · next hkept =>
    have hnot : ¬ matchesIn Installer.excludedTag (refLine t.sha t.text) := by
      simpa using hkept
    have hrc : t.rc = none := not_not.mp (mt (excluded_iff t).mpr hnot)
    rw [if_pos hrc, List.map_singleton, cut_refLine]
  · next hdropped =>
    have hmatch : matchesIn Installer.excludedTag (refLine t.sha t.text) := by
      simpa using hdropped
    rw [if_neg ((excluded_iff t).mp hmatch)]
    rfl

end Tag

/-- The tags of the repository, in the byte order of their names, as `git ls-remote --tags` prints
them. -/
structure Tags where
  tags : List Tag
  ascending : tags.Pairwise fun a b => a.text < b.text

namespace Tags

/-- The tags that are neither peeled lines nor release candidates. -/
def stable (T : Tags) : List Tag := T.tags.filter fun t => t.rc = none

/-- The last ten of them. -/
def lastTen (T : Tags) : List Tag := T.stable.drop (T.stable.length - 10)

/-- The ten greatest versions, the newest first. -/
def newest (T : Tags) : List Tag := greatest Tag.version 10 T.stable

/-- The remote has these tags. -/
def Answers (T : Tags) : Cmd → Answer → Prop
  | .gitTags, r => Text.lines r.out = T.tags.flatMap Tag.lines
  | _, _ => True

instance (T : Tags) (c : Cmd) (r : Answer) : Decidable (T.Answers c r) := by
  unfold Answers
  split <;> infer_instance

/-- What comes before one of the last ten in byte order is an older version. -/
def Agree (T : Tags) : Prop :=
  ∀ a ∈ T.stable, ∀ b ∈ T.lastTen, a.text < b.text → a.version < b.version

end Tags

/-- The script comes to the last ten stable tags. -/
theorem versionTags_eq {listing : String} (T : Tags)
    (h : lines listing = T.tags.flatMap Tag.lines) :
    Installer.versionTags listing = T.lastTen.map Tag.text := by
  have hleft : ((T.tags.flatMap Tag.lines).filter fun l =>
      !matchesIn Installer.excludedTag l).map (cut '/' 3) = T.stable.map Tag.text := by
    rw [Tags.stable]
    induction T.tags with
    | nil => rfl
    | cons t tags ih =>
      rw [List.flatMap_cons, List.filter_append, List.map_append, ih, t.filter_lines]
      by_cases hrc : t.rc = none <;> simp [hrc]
  have hwords : ∀ ts : List Tag, (ts.map Tag.text).flatMap words = ts.map Tag.text := by
    intro ts
    rw [List.flatMap_map, List.map_eq_flatMap]
    exact List.flatMap_congr fun t _ => words_self t.isWord_text
  rw [Installer.versionTags, h, hleft, tail, List.length_map, ← List.map_drop, hwords]
  rfl

theorem nodup_version (T : Tags) : (T.stable.map Tag.version).Nodup := by
  have hasc : T.stable.Pairwise fun a b => a.text < b.text := T.ascending.filter _
  refine List.pairwise_map.mpr (List.Pairwise.imp_of_mem ?_ hasc)
  intro a b ha hb hlt heq
  have hra : a.rc = none := by simpa using (List.mem_filter.mp ha).2
  have hrb : b.rc = none := by simpa using (List.mem_filter.mp hb).2
  rw [Tag.text_of_stable hra, Tag.text_of_stable hrb, heq] at hlt
  exact lt_irrefl _ hlt

/-- The last ten in byte order are the ten newest just if the orders agree on them. -/
theorem lastTen_eq_newest_iff (T : Tags) : T.lastTen.reverse = T.newest ↔ T.Agree := by
  have hasc : T.stable.Pairwise fun a b => a.text < b.text := T.ascending.filter _
  rw [Tags.newest, Tags.lastTen, reverse_drop_eq_greatest_iff (nodup_version T)]
  have hsplit := List.take_append_drop (T.stable.length - 10) T.stable
  have hasc' := hasc
  rw [← hsplit] at hasc'
  obtain ⟨-, hlast, hcross⟩ := List.pairwise_append.mp hasc'
  constructor
  · intro h a ha b hb hlt
    obtain ⟨hasc, hbelow⟩ := h
    rw [← hsplit, List.mem_append] at ha
    rcases ha with ha | ha
    · exact hbelow a ha b hb
    · have hforward : (T.stable.drop (T.stable.length - 10)).Pairwise
          fun a b => a.text < b.text → a.version < b.version := by
        refine hasc.imp ?_
        intro a b h _
        exact h
      have hbackward : (T.stable.drop (T.stable.length - 10)).Pairwise
          fun a b => b.text < a.text → b.version < a.version :=
        hlast.imp fun h hba => absurd hba (lt_asymm h)
      exact hforward.forall_of_forall_of_flip (fun _ _ h => absurd h (lt_irrefl _)) hbackward
        ha hb hlt
  · intro h
    constructor
    · refine List.Pairwise.imp_of_mem (fun {a b} ha hb hlt => ?_) hlast
      exact h a (List.mem_of_mem_drop ha) b hb hlt
    · intro a ha b hb
      exact h a (List.mem_of_mem_take ha) b hb (hcross a ha b hb)

/-! ## The menu -/

/-- The tags a menu shows. -/
def menuTags (content : String) : List String := (pairs (splitIFS '|' content)).map Prod.fst

/-- The rows of the versions, with their counts; the last version comes first. -/
def versionRows : List String → Int → List (String × String)
  | [], _ => []
  | ver :: rest, count => versionRows rest (count - 1) ++ [(ver, toString count)]

theorem map_fst_versionRows (vers : List String) (count : Int) :
    (versionRows vers count).map Prod.fst = vers.reverse := by
  induction vers generalizing count with
  | nil => rfl
  | cons ver rest ih => rw [versionRows, List.map_append, ih, List.reverse_cons]; rfl

theorem mem_versionRows {vers : List String} {count : Int} (h : r ∈ versionRows vers count) :
    r.1 ∈ vers ∧ ∃ i : Int, r.2 = toString i := by
  induction vers generalizing count with
  | nil => exact (List.not_mem_nil h).elim
  | cons ver rest ih =>
    rcases List.mem_append.mp h with h | h
    · obtain ⟨hmem, i, hi⟩ := ih h
      exact ⟨List.mem_cons_of_mem _ hmem, i, hi⟩
    · rw [List.mem_singleton.mp h]
      exact ⟨List.mem_cons_self, count, rfl⟩

theorem noBar_toString (i : Int) : '|' ∉ (toString i).toList := by
  cases i with
  | ofNat n => exact not_mem_toString (n := n) rfl
  | negSucc n =>
    intro h
    have hminus : toString (Int.negSucc n) = "-" ++ toString (n + 1) := by
      rw [Int.toString_eq_repr, Int.repr_eq_if, if_neg (by omega)]
      rfl
    rw [hminus, String.toList_append, List.mem_append] at h
    exact h.elim (by decide) (not_mem_toString rfl)

namespace Installer
open Script

/-- What the version loop makes of its tags. -/
def collected : List String → Int → VersionMenu → VersionMenu
  | [], _, m => m
  | ver :: rest, count, m => collected rest (count - 1)
      ⟨(ver, imageUrl ver) :: m.VERSIONS, ver ++ "|" ++ toString count ++ "|" ++ m.radio_versions⟩

/-- The fields of the menu. -/
theorem fields_collected (vers : List String) (count : Int) (m : VersionMenu) :
    fields '|' (collected vers count m).radio_versions =
      (versionRows vers count).flatMap (Row.items '|') ++ fields '|' m.radio_versions := by
  induction vers generalizing count m with
  | nil => rfl
  | cons ver rest ih =>
    have hbar : "|" = String.singleton '|' := rfl
    rw [collected, ih, versionRows, List.flatMap_append, List.append_assoc, hbar, fields_append,
      fields_append, List.flatMap_singleton, Row.items]

/-- Tags without bars are fields of their own. -/
theorem flatMap_items_versionRows {vers : List String} (h : ∀ ver ∈ vers, '|' ∉ ver.toList)
    (count : Int) : (versionRows vers count).flatMap (Row.items '|') =
      (versionRows vers count).flatMap fun r => [r.1, r.2] := by
  refine flatMap_items fun r hr => ?_
  obtain ⟨hmem, i, hi⟩ := mem_versionRows hr
  exact ⟨h _ hmem, hi ▸ noBar_toString i⟩

/-- Each version is kept with its own address. -/
theorem lookup_collected {vers : List String} (count : Int) {m : VersionMenu}
    (hm : ∀ url, m.VERSIONS.lookup ver = some url → url = imageUrl ver)
    (h : ver ∈ vers ∨ (m.VERSIONS.lookup ver).isSome) :
    (collected vers count m).VERSIONS.lookup ver = some (imageUrl ver) := by
  induction vers generalizing count m with
  | nil =>
    obtain ⟨url, hurl⟩ := Option.isSome_iff_exists.mp (h.resolve_left List.not_mem_nil)
    exact hurl.trans (congrArg some (hm url hurl))
  | cons v rest ih =>
    rw [collected]
    by_cases hv : ver = v
    · subst hv
      refine ih _ (fun url hurl => ?_) (.inr ?_)
      · rw [List.lookup_cons_self] at hurl
        exact (Option.some.inj hurl).symm
      · rw [List.lookup_cons_self]
        rfl
    · have hlookup : ((v, imageUrl v) :: m.VERSIONS).lookup ver = m.VERSIONS.lookup ver := by
        rw [List.lookup_cons, beq_false_of_ne hv]
      refine ih _ (fun url hurl => hm url (hlookup ▸ hurl)) ?_
      rw [hlookup]
      exact h.imp_left fun hmem => (List.mem_cons.mp hmem).resolve_left hv

/-- The versions found, with the dummy of a test boot or without. -/
def withDummy (dummy : Bool) (m : VersionMenu) : VersionMenu :=
  if dummy then ⟨("dummy", "https://node1.bulletproof.rs/dummy.img.xz") :: m.VERSIONS,
    "dummy|0|" ++ m.radio_versions⟩ else m

theorem withDummy_true (m : VersionMenu) : withDummy true m =
    ⟨("dummy", "https://node1.bulletproof.rs/dummy.img.xz") :: m.VERSIONS,
      "dummy|0|" ++ m.radio_versions⟩ := rfl

theorem withDummy_false (m : VersionMenu) : withDummy false m = m := rfl

/-- The row of the dummy. -/
def dummyRow (dummy : Bool) : List Row := if dummy then [("dummy", "0")] else []

theorem fields_withDummy (dummy : Bool) (vers : List String) :
    fields '|' (withDummy dummy (collected vers 10 ⟨[], ""⟩)).radio_versions =
      (dummyRow dummy ++ versionRows vers 10).flatMap (Row.items '|') ++ [""] := by
  have hfields := fields_collected vers 10 ⟨[], ""⟩
  cases dummy with
  | false => exact hfields
  | true =>
    have hsplit : "dummy|0|" = "dummy" ++ String.singleton '|' ++ "0" ++ String.singleton '|' := by
      decide
    rw [withDummy, if_pos rfl, hsplit, fields_append, fields_append, hfields]
    rfl

/-- The menu made of a listing of tags. -/
def offer (listing : String) (dummy : Bool) : VersionMenu :=
  withDummy dummy (collected (versionTags listing) 10 ⟨[], ""⟩)

/-- The menu made of the last ten tags. -/
def lastTenMenu (T : Tags) (dummy : Bool) : VersionMenu :=
  withDummy dummy (collected (T.lastTen.map Tag.text) 10 ⟨[], ""⟩)

theorem offer_eq (T : Tags) {listing : Answer} (h : T.Answers .gitTags listing) (dummy : Bool) :
    offer listing.out dummy = lastTenMenu T dummy := by
  rw [offer, versionTags_eq T h]
  rfl

/-! ## The runs of the version choice -/

section
variable {answers : Cmd → Answer → Prop} {keep : Cmd → Bool} {guard : List Event → Cmd → Prop}
  {exit : List Event → Prop} (plain : ∀ h c, c.plain → keep c = false ∧ guard h c)
include plain

theorem wp_collectVersions (vers : List String) (count : Int) (m : VersionMenu) (h : List Event) :
    wp (.record keep answers guard exit) (collectVersions vers count m)
      (fun m' h' => m' = collected vers count m ∧ h' = h) h := by
  induction vers generalizing count m with
  | nil => exact wp_ret.mpr ⟨rfl, rfl⟩
  | cons ver rest ih =>
    exact (wp_record_skip (plain h _ rfl).1).mpr ⟨(plain h _ rfl).2, fun _ _ => ih _ _⟩

/-- The menu is made of what the remote lists, with the dummy entry in a test boot only. -/
theorem wp_versionMenu (env : Env) (h : List Event) :
    wp (.record keep answers guard exit) (versionMenu env) (fun m h' => (∃ listing dummy,
      answers .gitTags listing ∧ (dummy = true → env.FAKE_IMAGE = true) ∧
        m = offer listing.out dummy) ∧ h' = h) h := by
  have skip : ∀ {c : Cmd} {k : Answer → Sh VersionMenu} {Q}, c.plain →
      (∀ r, answers c r → wp (.record keep answers guard exit) (k r) Q h) →
        wp (.record keep answers guard exit) (.call c k) Q h := fun hc hk =>
    (wp_record_skip (plain h _ hc).1).mpr ⟨(plain h _ hc).2, hk⟩
  refine skip rfl fun _ _ => skip rfl fun listing hlisting => ?_
  rw [ret_bind]
  refine wp_bind.mpr ((wp_collectVersions plain _ 10 ⟨[], ""⟩ h).mono fun m h' hm => ?_)
  obtain ⟨rfl, rfl⟩ := hm
  split
  next hfake =>
    refine skip rfl fun r _ => ?_
    rw [ret_bind]
    split
    · exact wp_ret.mpr ⟨⟨listing, true, hlisting, fun _ => hfake, (withDummy_true _).symm⟩, rfl⟩
    · exact wp_ret.mpr ⟨⟨listing, false, hlisting, nofun, (withDummy_false _).symm⟩, rfl⟩
  · exact wp_ret.mpr ⟨⟨listing, false, hlisting, nofun, (withDummy_false _).symm⟩, rfl⟩

end

/-! ## What the menu shows -/

/-- The tags of the menu. -/
theorem menuTags_lastTenMenu (T : Tags) (dummy : Bool) :
    (menuTags (lastTenMenu T dummy).radio_versions).filter (· ≠ "dummy") =
      T.lastTen.reverse.map Tag.text := by
  have hbar : ∀ ver ∈ T.lastTen.map Tag.text, '|' ∉ ver.toList := by
    intro ver hver hc
    obtain ⟨t, -, rfl⟩ := List.mem_map.mp hver
    exact absurd (Tag.mem_text hc) (by decide)
  have hfields := fields_withDummy dummy (T.lastTen.map Tag.text)
  rw [List.flatMap_append, flatMap_items_versionRows hbar] at hfields
  have htags : (T.lastTen.reverse.map Tag.text).filter (· ≠ "dummy") =
      T.lastTen.reverse.map Tag.text := by
    refine List.filter_eq_self.mpr fun ver hver => ?_
    obtain ⟨t, -, rfl⟩ := List.mem_map.mp hver
    have hne : t.text ≠ "dummy" := by
      intro hdummy
      have hd : 'd' ∈ t.text.toList := by rw [hdummy]; decide
      exact absurd (Tag.mem_text hd) (by decide)
    simpa using hne
  have hdummy : (dummyRow dummy).flatMap (Row.items '|') =
      (dummyRow dummy).flatMap fun r => [r.1, r.2] := by
    cases dummy <;> decide
  rw [hdummy, ← List.flatMap_append] at hfields
  rw [lastTenMenu, menuTags, splitIFS_of_terminated hfields, pairs_flatMap, List.map_append,
    List.filter_append, map_fst_versionRows, ← List.map_reverse, htags]
  cases dummy <;> rfl

/-- The address of a tag of the menu. -/
theorem lookup_withDummy {tags : List String} (dummy : Bool) (h : ver ∈ tags) (hd : ver ≠ "dummy") :
    (withDummy dummy (collected tags 10 ⟨[], ""⟩)).VERSIONS.lookup ver = some (imageUrl ver) := by
  have hcollected : (collected tags 10 ⟨[], ""⟩).VERSIONS.lookup ver = some (imageUrl ver) :=
    lookup_collected 10 (fun url hurl => by cases hurl) (.inl h)
  cases dummy with
  | false => exact hcollected
  | true =>
    rw [withDummy_true, List.lookup_cons, beq_false_of_ne hd]
    exact hcollected

theorem lookup_offer (h : ver ∈ versionTags listing) (hd : ver ≠ "dummy") :
    (offer listing dummy).VERSIONS.lookup ver = some (imageUrl ver) :=
  lookup_withDummy dummy h hd

theorem lookup_lastTenMenu (T : Tags) (dummy : Bool) (h : ver ∈ T.lastTen.reverse.map Tag.text) :
    (lastTenMenu T dummy).VERSIONS.lookup ver = some (imageUrl ver) := by
  obtain ⟨t, ht, rfl⟩ := List.mem_map.mp h
  refine lookup_withDummy dummy (List.mem_map_of_mem (List.mem_reverse.mp ht)) fun hdummy => ?_
  have hd : 'd' ∈ t.text.toList := by rw [hdummy]; decide
  exact absurd (Tag.mem_text hd) (by decide)

theorem map_injective_of_mem {f : α → β} {l l' : List α} (hf : ∀ a ∈ l, ∀ b ∈ l', f a = f b → a = b)
    (h : l.map f = l'.map f) : l = l' := by
  induction l generalizing l' with
  | nil => exact (List.map_eq_nil_iff.mp h.symm).symm
  | cons a l ih =>
    obtain ⟨b, l', rfl, hb, hl⟩ := List.map_eq_cons_iff.mp h.symm
    have hab := hf a List.mem_cons_self b List.mem_cons_self hb.symm
    have hrest := ih (fun a ha b hb => hf a (List.mem_cons_of_mem _ ha) b
      (List.mem_cons_of_mem _ hb)) hl.symm
    rw [hab, hrest]

theorem eq_of_text_eq {T : Tags} (ha : a ∈ T.stable) (hb : b ∈ T.stable) (h : a.text = b.text) :
    a = b := by
  have hasc : (T.stable.map Tag.text).Nodup :=
    List.pairwise_map.mpr ((T.ascending.filter _).imp fun h => ne_of_lt h)
  exact List.inj_on_of_nodup_map hasc ha hb h

/-- The menu shows the ten newest versions just if the orders agree on the last ten. -/
theorem menuTags_newest_iff (T : Tags) (dummy : Bool) :
    (menuTags (lastTenMenu T dummy).radio_versions).filter (· ≠ "dummy") = T.newest.map Tag.text ↔
      T.Agree := by
  rw [menuTags_lastTenMenu, ← lastTen_eq_newest_iff]
  constructor
  · refine map_injective_of_mem fun a ha b hb => ?_
    refine eq_of_text_eq (List.mem_of_mem_drop (List.mem_reverse.mp ha)) ?_
    exact (List.perm_insertionSort _ _).mem_iff.mp (List.mem_of_mem_take hb)
  · exact congrArg _

end Installer
end HassioInstaller
