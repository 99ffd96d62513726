import HassioInstaller.Installer.Drives
import HassioInstaller.Installer.Versions

/-! # The texts of the menus

The entries of a menu are put together into one text with bars between all tags and descriptions,
which `_dialog_menu` splits again. `dialog` gets the tags and descriptions back just if there is no
bar in them, each expands to itself and, for the drives, the test of the text put together so far
does not take it for empty. -/

namespace HassioInstaller
open Text

namespace Session
variable (S : Session)

/-- The entries in the arguments of `dialog`: the unquoted text, split at bars. -/
def menuArgs (content : String) : List String := (splitIFS '|' content).flatMap S.expand

/-- A row that `dialog` gets as it is. -/
abbrev Fits (r : Row) : Prop := Row.Fits '|' S.expand r

variable {S}

theorem fits_of_plain {r : Row}
    (h : ∀ c ∈ r.1.toList ++ r.2.toList, c ∉ "|*?[\\".toList) : S.Fits r := by
  have hsub : ∀ c ∈ "*?[\\".toList, c ∈ "|*?[\\".toList := by decide
  have hbar : '|' ∉ r.1.toList ++ r.2.toList := fun hc => h _ hc (by decide)
  rw [List.mem_append, not_or] at hbar
  refine ⟨hbar, ?_, r.2, ?_, rfl⟩
  · exact S.expand_plain _ fun c hc hpat => h c (List.mem_append_left _ hc) (hsub c hpat)
  · exact S.expand_plain _ fun c hc hpat => h c (List.mem_append_right _ hc) (hsub c hpat)

/-- Of a text without patterns that starts with a path the test is true only where there is an `-o`
in it. -/
theorem or_of_testEmpty (hplain : ∀ c ∈ s.toList, c ∉ "*?[\\".toList) (hs : s.toList = '/' :: cs)
    (h : S.testEmpty s = true) : "-o" ∈ words s := by
  obtain ⟨w, ws, hwords, hhead⟩ := words_cons hs (by decide)
  have hexpand : (words s).flatMap S.expand = words s := by
    have hword : ∀ w ∈ words s, S.expand w = [w] := fun w hw =>
      S.expand_plain w fun c hc => hplain c (mem_of_mem_words hw hc)
    rw [List.flatMap_congr hword, List.flatMap_singleton']
  have hops : ∀ op ∈ "-a" :: "-o" :: Shell.binaryOps, op.toList.head? ≠ some '/' := by decide
  have htest : S.primaries.test ("-z" :: w :: ws) = some true := by
    rw [testEmpty, hexpand, hwords] at h
    exact eq_of_beq h
  rw [hwords]
  refine List.mem_cons_of_mem w (Shell.Primaries.or_of_test_z ?_ (fun hop => hops w hop hhead) htest)
  rintro rfl
  cases hhead

end Session

/-! ## The drives -/

namespace Connected
variable (m : Connected)

/-- The entry of a drive, with the size and the model read below `/sys/block`. -/
def row (disk : String) : Row :=
  (disk, m.sys ("/sys/block/" ++ basename disk ++ "/device/model") ++ " (" ++
    Installer.gigabytes (m.sys ("/sys/block/" ++ basename disk ++ "/size")) ++ ")")

/-- The entries for the drives found. -/
def rows : List Row := (m.fdisk.filterMap FdiskLine.taken).map m.row

theorem diskEntry_eq (disk : String) : diskEntry m.sys disk = Row.text '|' (m.row disk) := by
  simp only [diskEntry, Row.text, row, String.append_assoc]
  rfl

variable {m}

theorem getLast_row (disk : String) : (m.row disk).2.toList.getLast? = some ')' :=
  getLast_append _ rfl

/-- What `dialog` gets are the entries from the last one that found the text empty. -/
theorem menuArgs_menu {S : Session} (hm : m.test = S.testEmpty) (hne : m.rows ≠ []) :
    ∃ j, j < m.rows.length ∧
      S.menuArgs (m.menu (m.fdisk.filterMap FdiskLine.taken)) =
        ((m.rows.drop j).flatMap (Row.items '|')).flatMap S.expand ∧
      (j = 0 ↔ Kept S.testEmpty (m.rows.map (Row.text '|'))) := by
  have hmenu : m.menu (m.fdisk.filterMap FdiskLine.taken) =
      (m.rows.map (Row.text '|')).foldl (addEntry S.testEmpty) "" := by
    rw [menu, hm, rows, List.map_map]
    exact congrArg _ (List.map_congr_left fun disk _ => m.diskEntry_eq disk)
  have hempty : S.testEmpty "" = true := Session.testEmpty_empty
  have hrows : m.rows.map (Row.text '|') ≠ [] := by simpa using hne
  obtain ⟨j, hlost, hj, hrest⟩ := exists_lost S.testEmpty hrows
  have hfold := hlost.foldl hempty hj hrest
  rw [List.length_map] at hj
  refine ⟨j, hj, ?_, fun h => (by rwa [h] at hrest), hlost.eq_zero⟩
  rw [← List.map_drop] at hfold
  obtain ⟨rs, r, hrs⟩ := (List.eq_nil_or_concat (m.rows.drop j)).resolve_left fun h => by
    have := congrArg List.length h
    rw [List.length_drop, List.length_nil] at this
    omega
  have hlast : r.2.toList.getLast? = some ')' := by
    have hr : r ∈ m.rows := List.mem_of_mem_drop (i := j) (hrs ▸ by simp)
    obtain ⟨disk, -, rfl⟩ := List.mem_map.mp hr
    exact getLast_row disk
  rw [List.concat_eq_append] at hrs
  rw [hrs] at hfold
  rw [Session.menuArgs, hmenu, hfold, hrs]
  exact congrArg (List.flatMap S.expand) (splitIFS_rows rs hlast (by decide))

end Connected

theorem DrivePath.expand {S : Session} (h : DrivePath path) : S.expand path = [path] := by
  refine S.expand_plain path fun c hc hpat => ?_
  have hall : ∀ c ∈ "/abcdefghijklmnopqrstuvwxyz0123456789".toList, c ∉ "*?[\\".toList := by decide
  exact hall c (h.mem c hc) hpat

namespace Connected
variable {m : Connected} {S : Session}

/-- The drive menu comes through if no entry is taken for empty and each row fits. -/
theorem shows_of_fits (hm : m.test = S.testEmpty)
    (hkept : Kept S.testEmpty (m.rows.map (Row.text '|'))) (hfits : ∀ r ∈ m.rows, S.Fits r) :
    Shows m.rows (S.menuArgs (m.menu (m.fdisk.filterMap FdiskLine.taken))) := by
  by_cases hne : m.rows = []
  · have hmenu : m.menu (m.fdisk.filterMap FdiskLine.taken) = "" := by
      rw [menu, List.map_eq_nil_iff.mp hne]
      rfl
    rw [hne, hmenu]
    rfl
  · obtain ⟨j, -, hargs, hj⟩ := menuArgs_menu hm hne
    rw [hargs, hj.mpr hkept, List.drop_zero]
    exact (shows_iff_fits S.expand_ne_nil m.rows).mpr hfits

/-- Without patterns and without `-o` in the texts every entry is kept. -/
theorem kept_of_plain (hplain : ∀ r ∈ m.rows, ∀ c ∈ (Row.text '|' r).toList, c ∉ "*?[\\".toList)
    (hor : ∀ k, "-o" ∉ words ("|".intercalate ((m.rows.map (Row.text '|')).take k))) :
    Kept S.testEmpty (m.rows.map (Row.text '|')) := by
  intro k hk hlt
  by_contra htest
  obtain ⟨disk, rest, hdisks⟩ : ∃ disk rest, m.fdisk.filterMap FdiskLine.taken = disk :: rest := by
    refine List.exists_cons_of_ne_nil fun hnil => ?_
    rw [rows, hnil] at hlt
    exact absurd hlt (Nat.not_lt_zero k)
  have hpath : DrivePath disk := by
    obtain ⟨l, -, hl⟩ := List.mem_filterMap.mp
      (show disk ∈ m.fdisk.filterMap FdiskLine.taken by rw [hdisks]; exact List.mem_cons_self)
    exact l.drivePath_of_taken hl
  have hstart : ∃ cs, ("|".intercalate ((m.rows.map (Row.text '|')).take k)).toList = '/' :: cs := by
    obtain ⟨nm, -, hname⟩ := hpath
    obtain ⟨k, rfl⟩ := Nat.exists_eq_succ_of_ne_zero (Nat.ne_of_gt hk)
    rw [rows, hdisks, List.map_cons, List.map_cons, List.take_succ_cons, Row.text, row, hname]
    rw [String.append_assoc, String.append_assoc, intercalate_head, String.toList_append]
    exact ⟨_, rfl⟩
  obtain ⟨cs, hcs⟩ := hstart
  refine hor k (Session.or_of_testEmpty (S := S) (fun c hc => ?_) hcs (by simpa using htest))
  rcases mem_intercalate hc with hbar | ⟨l, hl, hmem⟩
  · have hall : ∀ c ∈ "|".toList, c ∉ "*?[\\".toList := by decide
    exact hall c hbar
  · obtain ⟨r, hr, rfl⟩ := List.mem_map.mp (List.mem_of_mem_take hl)
    exact hplain r hr c hmem

/-- Of drives with different paths the menu comes through only then. -/
theorem fits_of_shows (hm : m.test = S.testEmpty)
    (hnodup : (m.rows.map Prod.fst).Nodup)
    (h : Shows m.rows (S.menuArgs (m.menu (m.fdisk.filterMap FdiskLine.taken)))) :
    Kept S.testEmpty (m.rows.map (Row.text '|')) ∧ ∀ r ∈ m.rows, S.Fits r := by
  by_cases hne : m.rows = []
  · rw [hne]
    exact ⟨fun k _ hlt => absurd hlt (Nat.not_lt_zero k), fun _ hr => (List.not_mem_nil hr).elim⟩
  obtain ⟨j, hj, hargs, hkept⟩ := menuArgs_menu hm hne
  rw [hargs] at h
  have hzero : j = 0 := by
    obtain ⟨first, rest, hrows⟩ := List.exists_cons_of_ne_nil hne
    obtain ⟨r, rest', hdrop⟩ := List.exists_cons_of_length_pos (l := m.rows.drop j)
      (by rw [List.length_drop]; omega)
    have hpath : DrivePath r.1 := by
      have hr : r ∈ m.rows := List.mem_of_mem_drop (i := j) (hdrop ▸ List.mem_cons_self)
      obtain ⟨disk, hdisk, rfl⟩ := List.mem_map.mp hr
      obtain ⟨l, -, hl⟩ := List.mem_filterMap.mp hdisk
      exact l.drivePath_of_taken hl
    -- the first argument is the tag of the entry that came to be the first
    have hfirst : r.1 = first.1 := by
      have hshown := h
      rw [hdrop, hrows] at hshown
      have hhead := hshown.head
      rw [List.flatMap_cons, Row.items, fields_self hpath.noBar, List.singleton_append,
        List.cons_append, List.flatMap_cons, hpath.expand] at hhead
      exact Option.some.inj hhead
    have hget : (m.rows.map Prod.fst)[j]? = (m.rows.map Prod.fst)[0]? := by
      have hj' : m.rows[j]? = some r := by
        have := congrArg List.head? hdrop
        rwa [List.head?_drop] at this
      have h0 : m.rows[0]? = some first := by rw [hrows]; rfl
      rw [List.getElem?_map, List.getElem?_map, hj', h0]
      exact congrArg some hfirst
    exact (List.getElem?_inj (by simpa using hj) hnodup).mp hget
  rw [hzero, List.drop_zero] at h
  exact ⟨hkept.mp hzero, (shows_iff_fits S.expand_ne_nil m.rows).mp h⟩

end Connected

/-! ## The versions -/

/-- The remote prints this listing. -/
def Remote (listing : String) : Cmd → Answer → Prop
  | .gitTags, r => r.out = listing
  | _, _ => True

/-- The version menu comes through just if the row of each version does. -/
theorem shows_versions_iff (S : Session) (dummy : Bool) (vers : List String) :
    Shows (Installer.dummyRow dummy ++ versionRows vers 10)
        (S.menuArgs (Installer.withDummy dummy
          (Installer.collected vers 10 ⟨[], ""⟩)).radio_versions) ↔
      ∀ r ∈ versionRows vers 10, S.Fits r := by
  have hdummy : ∀ r ∈ Installer.dummyRow dummy, S.Fits r := by
    intro r hr
    cases dummy with
    | false => exact (List.not_mem_nil hr).elim
    | true =>
      rw [List.mem_singleton.mp hr]
      exact Session.fits_of_plain (by decide)
  rw [Session.menuArgs, splitIFS_of_terminated (Installer.fields_withDummy dummy vers),
    shows_iff_fits S.expand_ne_nil]
  constructor
  · intro h r hr
    exact h r (List.mem_append_right _ hr)
  · intro h r hr
    exact (List.mem_append.mp hr).elim (hdummy r) (h r)

/-! ## The partitions for the log -/

/-- What the commands of a scan tell of the partitions: the type and the device tried last, what has
been read of its drive so far, and the entries of the partitions that could be written. -/
structure Survey where
  TYPE : String
  part : String
  read : List String
  entries : List Row

namespace Survey

/-- A partition has been read once the size, the vendor and the model are known. -/
def look (v : Survey) : Cmd → Answer → Survey
  | .blkid, _ => { v with entries := [] }
  | .evalWords .., r => { v with TYPE := if r.out = "ntfs" then "ntfs-3g" else r.out }
  | .mountType _ part, _ => { v with part := part, read := [] }
  | .cat _, r =>
    match v.read with
    | [sectors, vendor] =>
      { v with
        read := []
        entries := v.entries ++ [(v.part, Installer.gigabytes sectors ++ " (" ++ v.TYPE ++ ") " ++
          vendor ++ " " ++ r.out)] }
    | read => { v with read := read ++ [r.out] }
  | _, _ => v

/-- What a trace tells. -/
def of (t : List Event) : Survey := t.foldl (fun v e => v.look e.1 e.2) ⟨"", "", [], []⟩

/-- The row with which the drives are scanned again. -/
def rescan (entries : List Row) : Row :=
  ("r", if entries = [] then "No drives found. Re-scan drives" else "Re-scan drives")

end Survey

/-- The elements of the array `parts`: a bar goes in front of each entry but the first. -/
def flashParts : List Row → List String
  | [] => []
  | e :: es => Row.text '|' e :: es.map fun e => "|" ++ Row.text '|' e

theorem flashParts_concat (es : List Row) (e : Row) : flashParts (es ++ [e]) =
    flashParts es ++ [if flashParts es = [] then Row.text '|' e else "|" ++ Row.text '|' e] := by
  cases es with
  | nil => rfl
  | cons e' es => simp [flashParts]

theorem flashParts_eq_nil : flashParts es = [] ↔ es = [] := by
  cases es <;> simp [flashParts]

/-- A row with the blank that stands between the elements of the array. -/
def padded (r : Row) : Row := (r.1, r.2 ++ " ")

/-- The array with blanks between its elements is the rows with bars between them. -/
theorem intercalate_flashParts (es : List Row) (last : Row) :
    " ".intercalate (flashParts (es ++ [last])) =
      "|".intercalate ((es.map padded ++ [last]).map (Row.text '|')) := by
  have hbars : ∀ es : List Row, ∀ e : Row,
      " ".intercalate (Row.text '|' e :: (es ++ [last]).map fun e => "|" ++ Row.text '|' e) =
        "|".intercalate (((e :: es).map padded ++ [last]).map (Row.text '|')) := by
    intro es
    induction es with
    | nil =>
      intro e
      change Row.text '|' e ++ " " ++ ("|" ++ Row.text '|' last) =
        Row.text '|' (padded e) ++ "|" ++ Row.text '|' last
      simp only [padded, Row.text, String.append_assoc]
    | cons e' es ih =>
      intro e
      have hrest := ih e'
      have hpadded : Row.text '|' (padded e) = Row.text '|' e ++ " " := by
        simp only [padded, Row.text, String.append_assoc]
      simp only [List.map_cons, List.cons_append, String.intercalate_cons_cons, intercalate_head,
        hpadded, String.append_assoc] at hrest ⊢
      rw [hrest]
  cases es with
  | nil => rfl
  | cons e es => exact hbars es e

namespace Installer
open Script

/-- Every menu of partitions has the entries the commands before it tell of. -/
abbrev surveying : Contract Survey Cmd Answer :=
  .monitor (fun _ _ => True) Survey.look (fun v c => ∀ content, c = .menu .flashdrive content →
    content = " ".intercalate (flashParts (v.entries ++ [Survey.rescan v.entries]))) fun _ => True

/-- The variables of the scan are what its commands tell. -/
def Surveyed (s : Scan) (v : Survey) : Prop := v.TYPE = s.TYPE ∧ s.parts = flashParts v.entries

section
variable {K : Cmd → Sh α} {Q : α → Survey → Prop}

/-- Any command but a menu may be issued. -/
theorem wp_survey {k : Answer → Sh α} (hc : ∀ content, c ≠ .menu .flashdrive content)
    (h : ∀ r, wp surveying (k r) Q (v.look c r)) : wp surveying (.call c k) Q v :=
  wp_call_monitor.mpr ⟨fun content hmenu => absurd hmenu (hc content), fun r _ => h r⟩

end

/-- The second mount is of the same partition. -/
theorem wp_remount_survey (TYPE part : String) (ec : Nat) (T : String) (es : List Row) :
    wp surveying (remount TYPE part ec) (fun _ v => v = ⟨T, part, [], es⟩) ⟨T, part, [], es⟩ := by
  unfold remount
  split
  · refine wp_survey (fun _ h => by cases h) fun _ => ?_
    refine wp_survey (fun _ h => by cases h) fun _ => ?_
    refine wp_survey (fun _ h => by cases h) fun _ => ?_
    exact wp_ret.mpr rfl
  · exact wp_ret.mpr rfl

theorem wp_probe_survey (env : Env) (part : String) (ec : Nat) {s : Scan} {es : List Row}
    (hs : s.parts = flashParts es) :
    wp surveying (probe env s part ec) Surveyed ⟨s.TYPE, part, [], es⟩ := by
  unfold probe
  split
  · exact wp_ret.mpr ⟨rfl, hs⟩
  refine wp_survey (fun _ h => by cases h) fun touched => ?_
  rw [ret_bind]
  split
  · refine wp_survey (fun _ h => by cases h) fun _ => ?_
    exact wp_ret.mpr ⟨rfl, hs⟩
  · refine wp_survey (fun _ h => by cases h) fun _ => ?_
    refine wp_survey (fun _ h => by cases h) fun _ => ?_
    refine wp_survey (fun _ h => by cases h) fun rootpath => ?_
    refine wp_survey (fun _ h => by cases h) fun sectors => ?_
    refine wp_survey (fun _ h => by cases h) fun vendor => ?_
    refine wp_survey (fun _ h => by cases h) fun model => ?_
    refine wp_ret.mpr ⟨rfl, ?_⟩
    have hentry : Row.text '|' (part, gigabytes sectors.out ++ " (" ++ s.TYPE ++ ") " ++
        vendor.out ++ " " ++ model.out) = part ++ "|" ++ gigabytes sectors.out ++ " (" ++ s.TYPE ++
          ") " ++ vendor.out ++ " " ++ model.out := by
      simp only [Row.text, String.append_assoc]
      rfl
    have hparts := flashParts_concat es (part, gigabytes sectors.out ++ " (" ++ s.TYPE ++ ") " ++
      vendor.out ++ " " ++ model.out)
    rw [hentry, ← hs] at hparts
    exact hparts.symm

theorem wp_scanPart_survey (env : Env) (s : Scan) (part type : String) {v : Survey}
    (hv : Surveyed s v) : wp surveying (scanPart env s part type) Surveyed v := by
  unfold scanPart
  split
  · exact wp_ret.mpr hv
  refine wp_survey (fun _ h => by cases h) fun evaled => ?_
  refine wp_survey (fun _ h => by cases h) fun ec => ?_
  simp only [ret_bind, bind_eq]
  refine wp_bind.mpr ((wp_remount_survey _ part ec.status _ v.entries).mono fun ec v' hv' => ?_)
  subst hv'
  exact wp_probe_survey env part ec hv.2

/-- In every run the text of a menu of partitions is made of the entries that the scan before it tells
of. -/
theorem wp_uploadToFlashdrive_survey (env : Env) (v : Survey) (hv : v.TYPE = "") :
    wp surveying (uploadToFlashdrive env) (fun _ _ => True) v := by
  refine wp_loop (fun s v => v.TYPE = s.TYPE) (fun s v hv => ?_) hv
  refine wp_survey (fun _ h => by cases h) fun listing => ?_
  rw [ret_bind]
  have hscan : wp surveying ((lines listing.out).foldlM (scanLine env) ⟨s.TYPE, s.parttype, []⟩)
      Surveyed (v.look .blkid listing) :=
    wp_foldlM Surveyed (fun s line _ v hv => wp_scanPart_survey env s _ _ hv) ⟨hv, rfl⟩
  refine wp_bind.mpr (hscan.mono fun s v hv => ?_)
  refine wp_call_monitor.mpr ⟨fun content hcontent => ?_, fun r _ => ?_⟩
  · have hlast : (if flashParts v.entries = [] then Row.text '|' (Survey.rescan v.entries)
        else "|" ++ Row.text '|' (Survey.rescan v.entries)) =
          if s.parts = [] then "r|No drives found. Re-scan drives" else "|r|Re-scan drives" := by
      rw [hv.2]
      by_cases hes : v.entries = []
      · simp only [hes, Survey.rescan, flashParts, if_true]
        rfl
      · simp only [hes, Survey.rescan, flashParts_eq_nil, if_false]
        rfl
    cases hcontent
    rw [flashParts_concat, hlast, hv.2]
  rw [ret_bind]
  have hok : ∀ v' : Survey, v'.TYPE = s.TYPE → wp surveying (isok r.status)
      (fun _ v => v.TYPE = s.TYPE) v' := by
    intro v' hv'
    unfold isok isokWith
    split
    · exact wp_survey (fun _ h => by cases h) fun _ => wp_ret.mpr hv'
    · exact wp_survey (fun _ h => by cases h) fun _ => wp_ret.mpr hv'
  refine wp_bind.mpr ((hok _ hv.1).mono fun st v hv => ?_)
  split
  · exact wp_ret.mpr hv
  split
  · exact wp_ret.mpr hv
  refine wp_survey (fun _ h => by cases h) fun _ => ?_
  refine wp_survey (fun _ h => by cases h) fun fname => ?_
  refine wp_survey (fun _ h => by cases h) fun _ => ?_
  refine wp_survey (fun _ h => by cases h) fun _ => ?_
  refine wp_survey (fun _ h => by cases h) fun _ => ?_
  exact wp_ret.mpr (wp_ret.mpr trivial)

theorem menu_of_survey {env : Env} (hr : Run (uploadToFlashdrive env)
    (pre ++ (.menu .flashdrive content, r) :: post) q) :
    content = " ".intercalate (flashParts ((Survey.of pre).entries ++
      [Survey.rescan (Survey.of pre).entries])) := by
  have hp : Path surveying.next ⟨"", "", [], []⟩ pre (Survey.of pre) :=
    path_monitor_iff.mpr ⟨rfl, fun _ _ => trivial⟩
  exact (wp_uploadToFlashdrive_survey env _ rfl).guard hr hp content rfl

end Installer

/-- The menu of partitions comes through just if each entry fits as it stands in the text. -/
theorem shows_flash_iff (S : Session) (es : List Row) :
    Shows (es ++ [Survey.rescan es])
        (S.menuArgs (" ".intercalate (flashParts (es ++ [Survey.rescan es])))) ↔
      ∀ e ∈ es, S.Fits (padded e) := by
  have hpadded : List.Forall₂ (fun r r' : Row => r.1 = r'.1 ∧ trim r.2 = trim r'.2)
      (es.map padded ++ [Survey.rescan es]) (es ++ [Survey.rescan es]) := by
    refine List.rel_append (List.forall₂_map_left_iff.mpr ?_) (.cons ⟨rfl, rfl⟩ .nil)
    exact List.forall₂_same.mpr fun r _ => ⟨rfl, trim_append_blank (c := ' ') rfl r.2⟩
  have hrescan : S.Fits (Survey.rescan es) := by
    unfold Survey.rescan
    split
    · exact Session.fits_of_plain (by decide +kernel)
    · exact Session.fits_of_plain (by decide +kernel)
  have hlast : (Survey.rescan es).2.toList.getLast? = some 's' := by
    unfold Survey.rescan
    split
    · exact getLast_append (t := "s") "No drives found. Re-scan drive" rfl
    · exact getLast_append (t := "s") "Re-scan drive" rfl
  have hargs : S.menuArgs (" ".intercalate (flashParts (es ++ [Survey.rescan es]))) =
      ((es.map padded ++ [Survey.rescan es]).flatMap (Row.items '|')).flatMap S.expand := by
    rw [intercalate_flashParts]
    exact congrArg (List.flatMap S.expand) (splitIFS_rows (es.map padded) hlast (by decide))
  rw [hargs, ← shows_congr hpadded, shows_iff_fits S.expand_ne_nil]
  constructor
  · intro h e he
    exact h _ (List.mem_append_left _ (List.mem_map_of_mem he))
  · intro h r hr
    rcases List.mem_append.mp hr with hr | hr
    · obtain ⟨e, he, rfl⟩ := List.mem_map.mp hr
      exact h e he
    · rw [List.mem_singleton.mp hr]
      exact hrescan

namespace Installer
open Script

/-- The arguments of `dialog` are the entries that were put together: for the drives if every row fits
and none is dropped, and if the drives differ, only then; for the versions and for the partitions, in
every menu of a run, just if every row fits. -/
theorem menus_shown_iff (S : Session) :
    (∀ fdisk sys, let m : Connected := ⟨fdisk, sys, S.testEmpty⟩
      ∀ t out, Run getDisks t (.ret out) → Admissible m.Answers t →
        (Kept S.testEmpty (m.rows.map (Row.text '|')) ∧ (∀ r ∈ m.rows, S.Fits r) →
          Shows m.rows (S.menuArgs out)) ∧
        ((m.rows.map Prod.fst).Nodup → Shows m.rows (S.menuArgs out) →
          Kept S.testEmpty (m.rows.map (Row.text '|')) ∧ ∀ r ∈ m.rows, S.Fits r)) ∧
    (∀ env listing t m, Run (versionMenu env) t (.ret m) → Admissible (Remote listing) t →
      ∃ dummy, m = withDummy dummy (collected (versionTags listing) 10 ⟨[], ""⟩) ∧
        (Shows (dummyRow dummy ++ versionRows (versionTags listing) 10)
            (S.menuArgs m.radio_versions) ↔
          ∀ r ∈ versionRows (versionTags listing) 10, S.Fits r)) ∧
    (∀ env pre content r post q,
      Run (uploadToFlashdrive env) (pre ++ (.menu .flashdrive content, r) :: post) q →
        (Shows ((Survey.of pre).entries ++ [Survey.rescan (Survey.of pre).entries])
            (S.menuArgs content) ↔
          ∀ e ∈ (Survey.of pre).entries, S.Fits (padded e))) := by
  refine ⟨?_, ?_, ?_⟩
  · intro fdisk sys m t out hr ht
    have hout := (wp_getDisks m).returned hr ht
    subst hout
    exact ⟨fun h => Connected.shows_of_fits rfl h.1 h.2,
      fun hnodup hshows => Connected.fits_of_shows rfl hnodup hshows⟩
  · intro env listing t m hr ht
    have plain : ∀ (_ : List Event) c, c.plain → (fun _ : Cmd => false) c = false ∧ True :=
      fun _ _ _ => ⟨rfl, trivial⟩
    have hpath : Path (Contract.record (fun _ : Cmd => false) (Remote listing) (fun _ _ => True)
        fun _ => True).next [] t _ := path_record_iff.mpr ⟨rfl, ht⟩
    obtain ⟨⟨r, dummy, hlisting, -, hm⟩, -⟩ := wp_versionMenu plain env [] t (.ret m) _ hr hpath
    change r.out = listing at hlisting
    subst hlisting
    subst hm
    exact ⟨dummy, rfl, shows_versions_iff S dummy _⟩
  · intro env pre content r post q hr
    rw [menu_of_survey hr]
    exact shows_flash_iff S _

/-- A drive whose model has a bar in it. -/
def barred : Connected where
  fdisk := [.disk
    { name := "sda"
      info := "8 GiB, 8589934592 bytes, 16777216 sectors"
      device := by decide
      noPath := by decide
      oneLine := by decide }]
  sys path := if path = "/sys/block/sda/size" then "16777216" else "Disk|Model 5"
  test := noFiles.testEmpty

/-- The bar makes a third argument of an entry. -/
theorem bar_in_model : ∃ t out, Run getDisks t (.ret out) ∧ Admissible barred.Answers t ∧
    ¬ Shows barred.rows (noFiles.menuArgs out) := by
  obtain ⟨t, out, hr, ht⟩ := exists_run_getDisks barred
  refine ⟨t, out, hr, ht, ?_⟩
  rw [(wp_getDisks barred).returned hr ht]
  intro h
  have hrows : barred.rows = [("/dev/sda", "Disk|Model 5 (8GB)")] := by decide +kernel
  have hfits := (Connected.fits_of_shows rfl (by rw [hrows]; decide) h).2
  exact (hfits ("/dev/sda", "Disk|Model 5 (8GB)") (by rw [hrows]; exact List.mem_cons_self)).1.2
    (by decide)

end Installer
end HassioInstaller
