import HassioInstaller.Text.Fields
import HassioInstaller.Installer.Specs

/-! # Quick erase empties the table

`_quick_erase` collects the numbers of a partition table once and removes one after the other,
while the table renumbers itself. A `Table` is a GPT or msdos table in disk order. An extended
partition comes before its logical ones, so the numbers that are left are always a sublist of those
still to be removed. -/

namespace HassioInstaller
open Text

/-- The format of a partition table. -/
inductive Label
  | gpt
  | msdos
  deriving DecidableEq, Repr

inductive Kind
  | primary
  | extended
  | logical
  deriving DecidableEq, Repr

structure Partition where
  number : Nat
  kind : Kind
  deriving DecidableEq, Repr

/-- What is so of the partitions of every table, in disk order. -/
structure WellFormed (label : Label) (parts : List Partition) : Prop where
  distinct : (parts.map Partition.number).Nodup
  gpt : label = .gpt → ∀ p ∈ parts, p.kind = .primary
  /-- The numbers from 5 on are those of the logical partitions. -/
  msdos : label = .msdos → ∀ p ∈ parts, (p.kind = .logical ↔ 5 ≤ p.number)
  oneExtended : (parts.filter (·.kind = .extended)).length ≤ 1
  /-- A logical partition lies behind the start of the extended one. -/
  sheltered : ∀ pre p post, parts = pre ++ p :: post → p.kind = .logical →
    ∃ e ∈ pre, e.kind = .extended

structure Table where
  label : Label
  parts : List Partition
  wellFormed : WellFormed label parts

/-- A logical partition above number `n` moves down by one. -/
def Partition.renumber (n : Nat) (p : Partition) : Partition :=
  if p.kind = .logical ∧ n < p.number then { p with number := p.number - 1 } else p

/-- The partitions after `parted rm n`. -/
def removed (parts : List Partition) (n : Nat) : List Partition :=
  match parts.find? (·.number = n) with
  | none => parts
  | some ⟨_, .primary⟩ => parts.filter (·.number ≠ n)
  | some ⟨_, .extended⟩ => parts.filter fun p => p.number ≠ n ∧ p.kind ≠ .logical
  | some ⟨_, .logical⟩ => (parts.filter (·.number ≠ n)).map (.renumber n)

section
variable {label : Label} {parts : List Partition}

@[simp] theorem Partition.kind_renumber (n : Nat) (p : Partition) :
    (p.renumber n).kind = p.kind := by
  unfold Partition.renumber
  split <;> rfl

theorem Partition.number_renumber (n : Nat) (p : Partition) : (p.renumber n).number =
    if p.kind = .logical ∧ n < p.number then p.number - 1 else p.number := by
  unfold Partition.renumber
  split <;> rfl

/-- Partitions may be taken away, the extended one only with its logical ones. -/
theorem WellFormed.filter (h : WellFormed label parts) {keep : Partition → Bool}
    (hkeep : ∀ e ∈ parts, e.kind = .extended → keep e = false →
      ∀ p ∈ parts, p.kind = .logical → keep p = false) :
    WellFormed label (parts.filter keep) where
  distinct := h.distinct.sublist (List.filter_sublist.map _)
  gpt hl p hp := h.gpt hl p (List.mem_of_mem_filter hp)
  msdos hl p hp := h.msdos hl p (List.mem_of_mem_filter hp)
  oneExtended := by
    have hsub : ((parts.filter keep).filter (·.kind = .extended)).Sublist
        (parts.filter (·.kind = .extended)) := List.filter_sublist.filter _
    exact hsub.length_le.trans h.oneExtended
  sheltered pre p post heq hp := by
    obtain ⟨pre', tail, hparts, rfl, htail⟩ := List.filter_eq_append_iff.mp heq
    obtain ⟨between, post', rfl, hbetween, hpk, -⟩ := List.filter_eq_cons_iff.mp htail
    rw [← List.append_assoc] at hparts
    obtain ⟨e, he, hekind⟩ := h.sheltered _ _ _ hparts hp
    have hpmem : p ∈ parts := by simp [hparts]
    have hek : keep e := by
      by_contra hne
      have hemem : e ∈ parts := by rw [hparts]; exact List.mem_append_left _ he
      have hdrop := hkeep e hemem hekind (Bool.eq_false_iff.mpr hne) p hpmem hp
      rw [hpk] at hdrop
      cases hdrop
    refine ⟨e, List.mem_filter.mpr ⟨?_, hek⟩, hekind⟩
    rcases List.mem_append.mp he with he | he
    · exact he
    · exact absurd hek (hbetween e he)

/-- A logical partition may be taken away with those above it moving down. -/
theorem WellFormed.renumber (h : WellFormed label parts) (hn : 5 ≤ n)
    (hfree : ∀ p ∈ parts, p.number ≠ n) : WellFormed label (parts.map (.renumber n)) where
  distinct := by
    rw [List.map_map]
    refine List.Nodup.map_on ?_ h.distinct.of_map
    intro p hp q hq heq
    have hinj : p.number = q.number → p = q := List.inj_on_of_nodup_map h.distinct hp hq
    have hpn := hfree p hp
    have hqn := hfree q hq
    simp only [Function.comp_apply, Partition.number_renumber] at heq
    cases label with
    | gpt =>
      rw [if_neg (by simp [h.gpt rfl p hp]), if_neg (by simp [h.gpt rfl q hq])] at heq
      exact hinj heq
    | msdos =>
      have hpl := h.msdos rfl p hp
      have hql := h.msdos rfl q hq
      simp only [hpl, hql] at heq
      apply hinj
      split at heq <;> split at heq <;> omega
  gpt hl p hp := by
    obtain ⟨q, hq, rfl⟩ := List.mem_map.mp hp
    rw [Partition.kind_renumber]
    exact h.gpt hl q hq
  msdos hl p hp := by
    obtain ⟨q, hq, rfl⟩ := List.mem_map.mp hp
    have hq' := h.msdos hl q hq
    rw [Partition.kind_renumber, hq']
    unfold Partition.renumber
    split
    · have := (‹_ ∧ _›).2
      show _ ↔ 5 ≤ q.number - 1
      omega
    · rfl
  oneExtended := by
    rw [List.filter_map, List.length_map]
    simpa [Function.comp_def] using h.oneExtended
  sheltered pre p post heq hp := by
    obtain ⟨pre', tail, rfl, rfl, htail⟩ := List.map_eq_append_iff.mp heq
    obtain ⟨q, post', rfl, rfl, -⟩ := List.map_eq_cons_iff.mp htail
    rw [Partition.kind_renumber] at hp
    obtain ⟨e, he, hekind⟩ := h.sheltered _ _ _ rfl hp
    exact ⟨e.renumber n, List.mem_map_of_mem he, by rwa [Partition.kind_renumber]⟩

theorem WellFormed.removed (h : WellFormed label parts) (n : Nat) :
    WellFormed label (removed parts n) := by
  unfold HassioInstaller.removed
  have hothers : ∀ e ∈ parts, e.number = n → e.kind ≠ .extended →
      WellFormed label (parts.filter (·.number ≠ n)) := by
    intro e he hen hek
    refine h.filter fun e' he' hek' hdrop => ?_
    have hen' : e'.number = n := by simpa using hdrop
    have heq : e' = e := List.inj_on_of_nodup_map h.distinct he' he (hen'.trans hen.symm)
    exact absurd (heq ▸ hek') hek
  split
  · exact h
  · next m hfind =>
    have hmem := List.mem_of_find?_eq_some hfind
    have hm : m = n := by simpa using List.find?_some hfind
    exact hothers _ hmem hm (by simp)
  · refine h.filter fun e _ _ hdrop p _ hp => ?_
    simp [hp]
  · next m hfind =>
    have hmem := List.mem_of_find?_eq_some hfind
    have hm : m = n := by simpa using List.find?_some hfind
    refine (hothers _ hmem hm (by simp)).renumber ?_ fun p hp => ?_
    · cases label with
      | gpt => exact absurd (h.gpt rfl _ hmem) (by simp)
      | msdos => exact hm ▸ (h.msdos rfl _ hmem).mp rfl
    · simpa using List.of_mem_filter hp

end

/-- `parted rm n`. -/
def Table.rm (t : Table) (n : Nat) : Table := ⟨t.label, removed t.parts n, t.wellFormed.removed n⟩

/-! ## Removing the numbers of a snapshot -/

/-- Where the numbers left are a sublist of those to be removed, the next removal keeps it so. -/
theorem removed_sublist {parts : List Partition} (h : WellFormed label parts) (hns : (n :: ns).Nodup)
    (hsub : (parts.map Partition.number).Sublist (n :: ns)) :
    ((removed parts n).map Partition.number).Sublist ns := by
  have hn : n ∉ ns := (List.nodup_cons.mp hns).1
  rcases List.sublist_cons_iff.mp hsub with hsub | ⟨rest, hparts, hsub⟩
  · have habsent : parts.find? (·.number = n) = none := by
      rw [List.find?_eq_none]
      intro p hp hpn
      have hpn : p.number = n := by simpa using hpn
      exact hn (hsub.subset (List.mem_map.mpr ⟨p, hp, hpn⟩))
    rw [removed, habsent]
    exact hsub
  · obtain ⟨p, rest, rfl, rfl, rfl⟩ := List.map_eq_cons_iff.mp hparts
    have hfind : (p :: rest).find? (·.number = p.number) = some p := by
      rw [List.find?_cons_of_pos (by simp)]
    have hprimary : ∀ keep : Partition → Bool, keep p = false →
        (((p :: rest).filter keep).map Partition.number).Sublist ns := by
      intro keep hkeep
      rw [List.filter_cons_of_neg (by simp [hkeep])]
      exact (List.filter_sublist.map _).trans hsub
    rw [removed, hfind]
    obtain ⟨m, kind⟩ := p
    cases kind with
    | primary => exact hprimary _ (by simp)
    | extended => exact hprimary _ (by simp)
    | logical =>
      -- the extended partition would have come before it
      obtain ⟨e, he, -⟩ := h.sheltered [] _ rest rfl rfl
      cases he

/-- Once every number of a table has been removed it is empty. -/
theorem foldl_rm_eq_nil (t : Table) (hns : ns.Nodup)
    (hsub : (t.parts.map Partition.number).Sublist ns) : (ns.foldl Table.rm t).parts = [] := by
  induction ns generalizing t with
  | nil => simpa using hsub
  | cons n ns ih =>
    exact ih (t.rm n) (List.nodup_cons.mp hns).2 (removed_sublist t.wellFormed hns hsub)

/-! ## What `parted` prints -/

def Label.text : Label → String
  | .gpt => "gpt"
  | .msdos => "msdos"

/-- The texts of a listing that the numbers do not decide. -/
structure Listing where
  model : String
  size : String
  sector : String
  flags : String
  columns : String
  indent : Partition → String
  row : Partition → String
  lines : ∀ s ∈ [model, size, sector, flags, columns], IsLine s
  rows : ∀ p, IsLine (row p)
  blank : ∀ p, ∀ c ∈ (indent p).toList, c = ' '

namespace Listing

/-- The lines above the rows. -/
def header (L : Listing) (label : Label) : List String :=
  ["Model: " ++ L.model, "Disk " ++ L.size, "Sector size (logical/physical): " ++ L.sector,
    "Partition Table: " ++ label.text, "Disk Flags: " ++ L.flags, "", "Number  Start " ++ L.columns]

def rowOf (L : Listing) (p : Partition) : String :=
  L.indent p ++ toString p.number ++ " " ++ L.row p

/-- `parted print`: one row a partition in disk order, the number first. -/
def print (L : Listing) (t : Table) : String :=
  "\n".intercalate (L.header t.label ++ t.parts.map L.rowOf)

theorem isLine_header (L : Listing) (h : line ∈ L.header label) : IsLine line := by
  have hl := L.lines
  simp only [List.forall_mem_cons] at hl
  obtain ⟨hmodel, hsize, hsector, hflags, hcolumns, -⟩ := hl
  have htext : IsLine label.text := by cases label <;> decide
  simp only [header, List.mem_cons, List.not_mem_nil, or_false] at h
  rcases h with rfl | rfl | rfl | rfl | rfl | rfl | rfl
  · exact IsLine.append (by decide) hmodel
  · exact IsLine.append (by decide) hsize
  · exact IsLine.append (by decide) hsector
  · exact IsLine.append (by decide) htext
  · exact IsLine.append (by decide) hflags
  · decide
  · exact IsLine.append (by decide) hcolumns

theorem isLine_rowOf (L : Listing) (p : Partition) : IsLine (L.rowOf p) := by
  have hindent : IsLine (L.indent p) := fun h => absurd (L.blank p _ h) (by decide)
  have hnumber : IsLine (toString p.number) :=
    fun h => absurd (isDigit_of_mem_toString h) (by decide)
  exact ((hindent.append hnumber).append (by decide)).append (L.rows p)

end Listing

/-- No number is taken from the lines above the rows. -/
theorem grepO_header (L : Listing) (label : Label) (h : line ∈ L.header label) :
    grepO (Pattern.plus .digit) (firstWord line) = [] := by
  have hwords : ∀ w ∈ ["Model:", "Disk", "Sector", "Partition", "Number"],
      IsWord w ∧ grepO (Pattern.plus .digit) w = [] := by decide +kernel
  have hline : line = "" ∨
      ∃ w ∈ ["Model:", "Disk", "Sector", "Partition", "Number"], ∃ rest, line = w ++ " " ++ rest := by
    have append : ∀ {a b c : String} (rest : String), a = b ++ " " ++ c →
        a ++ rest = b ++ " " ++ (c ++ rest) := by
      rintro _ b c rest rfl
      rw [String.append_assoc]
    simp only [Listing.header, List.mem_cons, List.not_mem_nil, or_false] at h
    rcases h with rfl | rfl | rfl | rfl | rfl | rfl | rfl
    · exact .inr ⟨"Model:", by simp, _, append (c := "") _ (by decide)⟩
    · exact .inr ⟨"Disk", by simp, _, append (c := "") _ (by decide)⟩
    · exact .inr ⟨"Sector", by simp, _, append (c := "size (logical/physical): ") _ (by decide)⟩
    · exact .inr ⟨"Partition", by simp, _, append (c := "Table: ") _ (by decide)⟩
    · exact .inr ⟨"Disk", by simp, _, append (c := "Flags: ") _ (by decide)⟩
    · exact .inl rfl
    · exact .inr ⟨"Number", by simp, _, append (c := " Start ") _ (by decide)⟩
  rcases hline with rfl | ⟨w, hw, rest, rfl⟩
  · decide +kernel
  · obtain ⟨hword, hnone⟩ := hwords w hw
    rwa [firstWord_append hword]

theorem grepO_rowOf (L : Listing) (p : Partition) :
    grepO (Pattern.plus .digit) (firstWord (L.rowOf p)) = [toString p.number] := by
  have hpad : ∀ c ∈ (L.indent p).toList, isBlank c := by
    intro c hc
    rw [L.blank p c hc]
    rfl
  rw [Listing.rowOf, firstWord_row hpad (isWord_toString _)]
  refine grepO_self (toString_ne_empty _) (Pattern.mem_plus_oneOf.mpr ⟨?_, fun c hc => ?_⟩)
  · exact fun h => toString_ne_empty _ (String.toList_eq_nil_iff.mp h)
  · exact Pattern.mem_digit.mpr (isDigit_of_mem_toString hc)

/-- The numbers taken from a listing are those of the partitions, in disk order. -/
theorem partNumbers_print (L : Listing) (t : Table) :
    Installer.partNumbers (L.print t) = t.parts.map fun p => toString p.number := by
  have hlines : lines (L.print t) = L.header t.label ++ t.parts.map L.rowOf := by
    refine lines_intercalate (by simp [Listing.header]) ?_ fun line hline => ?_
    · rcases List.eq_nil_or_concat t.parts with hnil | ⟨ps, p, hps⟩
      · simp [hnil, Listing.header]
      · simp [hps, Listing.rowOf]
    · rcases List.mem_append.mp hline with hline | hline
      · exact L.isLine_header hline
      · obtain ⟨p, -, rfl⟩ := List.mem_map.mp hline
        exact L.isLine_rowOf p
  rw [Installer.partNumbers, hlines, List.flatMap_append]
  rw [List.flatMap_eq_nil_iff.mpr fun line hline => grepO_header L _ hline, List.nil_append,
    List.flatMap_map]
  simp only [grepO_rowOf]
  exact List.map_eq_flatMap.symm

/-! ## The runs of quick erase -/

/-- The tables of the drives, by their paths. -/
abbrev Tables := String → Table

namespace Tables

/-- `parted rm part` on a drive none of whose partitions is in use. -/
def rm (T : Tables) (disk part : String) : Tables :=
  match number part with
  | some n => Function.update T disk ((T disk).rm n)
  | none => T

theorem rm_toString (T : Tables) (disk : String) (n : Nat) :
    T.rm disk (toString n) = Function.update T disk ((T disk).rm n) := by
  rw [rm, number_toString]

/-- What a command may answer and lead to. -/
def Moves (T : Tables) : Cmd → Answer → Tables → Prop
  | .partedPrint disk, r, T' => (∃ L : Listing, r.out = L.print (T disk)) ∧ T' = T
  | .partedRm disk part, r, T' =>
    (r.ok ↔ ∃ p ∈ (T disk).parts, number part = some p.number) ∧ T' = T.rm disk part
  | c, _, T' =>
    match c.target with
    | some disk => ∃ t, T' = Function.update T disk t
    | none => T' = T

end Tables

namespace Installer
open Script

/-- Quick erase does not end early. -/
def tables : Contract Tables Cmd Answer := ⟨Tables.Moves, fun _ _ => True, fun _ => False⟩

/-- The loop removes its numbers from the table one after the other. -/
theorem wp_removeEach (disk : String) (ns : List Nat) (T : Tables) :
    wp tables (each (ns.map fun n => toString n) fun part => do
      exec (.log ("Erasing partition " ++ part ++ " of disk " ++ disk))
      exec (.partedRm disk part))
      (fun _ T' => T' = Function.update T disk (ns.foldl Table.rm (T disk))) T := by
  induction ns generalizing T with
  | nil => exact wp_ret.mpr (Function.update_eq_self disk T).symm
  | cons n ns ih =>
    refine wp_call.mpr ⟨trivial, fun _ _ hlog => ?_⟩
    cases hlog
    refine wp_call.mpr ⟨trivial, fun _ _ hrm => ?_⟩
    obtain ⟨-, rfl⟩ := hrm
    refine (ih _).mono ?_
    rintro _ _ rfl
    rw [Tables.rm_toString, Function.update_idem, Function.update_self]
    rfl

/-- Quick erase leaves its drive without partitions and the other drives alone. -/
theorem wp_quickErase (disk : String) (T : Tables) :
    wp tables (quickErase disk)
      (fun _ T' => (T' disk).parts = [] ∧ ∀ d ≠ disk, T' d = T d) T := by
  refine wp_call.mpr ⟨trivial, fun r _ hprint => ?_⟩
  obtain ⟨⟨L, hout⟩, hT⟩ := hprint
  subst hT
  rw [ret_bind, hout, partNumbers_print, ← Function.comp_def, ← List.map_map]
  refine (wp_removeEach disk _ _).mono ?_
  rintro _ _ rfl
  rw [Function.update_self]
  refine ⟨foldl_rm_eq_nil _ (Table.wellFormed _).distinct (List.Sublist.refl _), fun d hd => ?_⟩
  exact Function.update_of_ne hd _ _

/-- A listing without any texts of its own. -/
def bare : Listing where
  model := ""
  size := ""
  sector := ""
  flags := ""
  columns := ""
  indent _ := ""
  row _ := ""
  lines := by decide
  rows _ := by decide
  blank _ _ h := (List.not_mem_nil h).elim

/-- There is a run of the removals to their end. -/
theorem exists_run_removeEach (disk : String) (parts : List String) (T : Tables) :
    ∃ t T', Run (each parts fun part => do
      exec (.log ("Erasing partition " ++ part ++ " of disk " ++ disk))
      exec (.partedRm disk part)) t (.ret ⟨⟩) ∧ Path Tables.Moves T t T' := by
  induction parts generalizing T with
  | nil => exact ⟨[], T, .refl, .nil⟩
  | cons part parts ih =>
    obtain ⟨t, T', hrun, hpath⟩ := ih (T.rm disk part)
    have hrm : ∃ r, T.Moves (.partedRm disk part) r (T.rm disk part) := by
      by_cases hp : ∃ p ∈ (T disk).parts, number part = some p.number
      · exact ⟨⟨0, ""⟩, iff_of_true rfl hp, rfl⟩
      · exact ⟨⟨1, ""⟩, iff_of_false Nat.one_ne_zero hp, rfl⟩
    obtain ⟨r, hr⟩ := hrm
    refine ⟨_, T', .call ⟨0, ""⟩ ?_, .cons rfl (.cons hr hpath)⟩
    refine .call r ?_
    exact hrun

/-- Quick erase comes to its end, and then its drive has no partition left, whatever the table was;
the other drives are as they were. -/
theorem quickErase_empties (disk : String) (T : Tables) :
    (∃ t q T', Run (quickErase disk) t q ∧ Path Tables.Moves T t T' ∧ q.Ended) ∧
      ∀ t q T', Run (quickErase disk) t q → Path Tables.Moves T t T' → q.Ended →
        (T' disk).parts = [] ∧ ∀ d ≠ disk, T' d = T d := by
  constructor
  · obtain ⟨t, T', hrun, hpath⟩ :=
      exists_run_removeEach disk (partNumbers (bare.print (T disk))) T
    refine ⟨_, .ret ⟨⟩, T', .call ⟨0, bare.print (T disk)⟩ ?_, .cons ⟨⟨bare, rfl⟩, rfl⟩ hpath, trivial⟩
    exact hrun
  · intro t q T' hrun hpath hend
    have hq := wp_quickErase disk T t q T' hrun hpath
    cases q with
    | ret => exact hq
    | exit => exact hq.elim
    | call | loop => exact hend.elim

example : removed [⟨1, .extended⟩, ⟨5, .logical⟩, ⟨6, .logical⟩] 5 =
    [⟨1, .extended⟩, ⟨5, .logical⟩] := by decide

end Installer
end HassioInstaller
