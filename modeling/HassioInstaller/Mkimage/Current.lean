import HassioInstaller.Mkimage.Checksum
import HassioInstaller.Mkimage.Specs
import Mathlib.Data.List.Induction

/-! # What a run that exits 0 has made

An image is current when it was made from exactly the sections its job selects (`Current`). The
links between what is on disk (`Linked`) hold in every history, since sections are never changed
and a merged directory bears the checksum of the names of its sections. With them, a job that
returns 0 leaves a current image exactly when it is `UpToDate`, which is a matter of what it finds
and of how `create_image_*` comes out. -/

namespace HassioInstaller.Mkimage

variable {Dir : Type*} {K : KeyTools}

namespace Vars

variable (K : KeyTools) (v : Vars)

/-- The sections a build selects. -/
def dirs : List String := (v.requests K).map Request.dir

/-- `parts` are the sections selected, as they are on disk. -/
def Selects (w : Work Dir) (parts : List (String × Dir)) : Prop :=
  parts.map Prod.fst = v.dirs K ∧ ∀ p ∈ parts, w.sections p.1 = some p.2

/-- The image is there and was made from exactly the sections selected. -/
def Current (w : Work Dir) : Prop :=
  ∃ m, w.out v.file = some (.made m) ∧ v.Selects K w m.parts

/-- A section selected is not on disk. -/
def Missing (w : Work Dir) : Prop := ∃ q ∈ v.requests K, w.sections q.dir = none

/-- The image is made anew: a section is about to be built, or there is no image. -/
def Needed (o : Options) (w : Work Dir) : Prop :=
  o.simulate = false ∧ v.Missing K w ∨ w.out v.file = none

end Vars

/-- Before a job: an image about to be made is made, and one about to be kept is current. -/
structure UpToDate (K : KeyTools) (o : Options) (j : Job Dir) (w : Work Dir) : Prop where
  make : j.vars.Needed K o w → j.createOk = true ∧
    (o.simulate = true → w.merged (j.vars.destdir K (j.vars.dirs K)) ≠ none)
  keep : ¬ j.vars.Needed K o w → j.vars.Current K w

/-! ## Links on disk -/

theorem splitOn_echoed (h : ∀ d ∈ ds, Word d) (hne : ds ≠ []) :
    (echoed ds).toList.splitOn ' ' = ds.map String.toList := by
  rw [echoed, String.toList_ofList]
  refine List.splitOn_intercalate ' ' (fun l hl => ?_) (by simpa using hne)
  obtain ⟨d, hd, rfl⟩ := List.mem_map.mp hl
  exact (h d hd).2

theorem echoed_ne (h : ∀ d ∈ ds, Word d) (hne : ds ≠ []) : echoed ds ≠ "" := by
  intro hnil
  have hs := splitOn_echoed h hne
  cases ds with
  | nil => exact hne rfl
  | cons d ds =>
    rw [hnil, String.toList_empty, List.splitOn_nil, List.map_cons, List.cons.injEq] at hs
    exact (h d List.mem_cons_self).1 (String.toList_eq_nil_iff.mp hs.1.symm)

theorem echoed_inj (h : ∀ d ∈ ds, Word d) (h' : ∀ d ∈ ds', Word d)
    (heq : echoed ds = echoed ds') : ds = ds' := by
  by_cases hds : ds = []
  · by_contra hne
    subst hds
    exact echoed_ne h' (fun h => hne h.symm) heq.symm
  by_cases hds' : ds' = []
  · subst hds'
    exact absurd heq (echoed_ne h hds)
  · refine List.map_injective_iff.mpr (fun _ _ => String.toList_injective) ?_
    rw [← splitOn_echoed h hds, heq, splitOn_echoed h' hds']

theorem takeWhile_dash {l r : List Char} (h : '-' ∉ l) : (l ++ '-' :: r).takeWhile (· ≠ '-') = l := by
  rw [List.takeWhile_append_of_pos fun c hc => by
    rw [decide_eq_true_iff]
    rintro rfl
    exact h hc]
  simp

/-- The name of a merged directory tells the sections in it. -/
theorem destdir_inj (hK : K.Sound) {v v' : Vars} {ds ds' : List String} (h : ∀ d ∈ ds, Word d)
    (h' : ∀ d ∈ ds', Word d) (heq : v.destdir K ds = v'.destdir K ds') : ds = ds' := by
  have hdash : ∀ l, '-' ∉ (K.checksum l).toList := fun l hl => absurd (hK.hex l '-' hl) (by decide)
  have hsum : K.checksum [echoed ds] = K.checksum [echoed ds'] := by
    have hl := congrArg String.toList heq
    simp only [Vars.destdir, String.toList_append, List.append_assoc] at hl
    have htake := congrArg (List.takeWhile (· ≠ '-')) (List.append_cancel_left hl)
    exact String.toList_injective
      ((takeWhile_dash (hdash _)).symm.trans (htake.trans (takeWhile_dash (hdash _))))
  exact echoed_inj h h' (List.cons.inj (hK.injective hsum)).1

/-- Merged directories and images are made from sections on disk. -/
structure Linked (K : KeyTools) (w : Work Dir) : Prop where
  merged : w.merged name = some m →
    (∃ v : Vars, name = v.destdir K (m.parts.map Prod.fst)) ∧ (∀ p ∈ m.parts, Word p.1) ∧
      ∀ p ∈ m.parts, w.sections p.1 = some p.2
  out : w.out f = some (.made m) → ∀ p ∈ m.parts, w.sections p.1 = some p.2

theorem Work.Fresh.linked {w : Work Dir} (h : w.Fresh) : Linked K w where
  merged hm := by rw [h.merged] at hm; cases hm
  out hf := absurd hf (h.out _ _)

theorem Linked.grows {w w' : Work Dir} (h : Linked K w) (hg : Grows w w') : Linked K w' where
  merged hm := by
    rw [hg.merged] at hm
    obtain ⟨hname, hword, hparts⟩ := h.merged hm
    exact ⟨hname, hword, fun p hp => hg.sections _ _ (hparts p hp)⟩
  out hf p hp := by
    rw [hg.out] at hf
    exact hg.sections _ _ (h.out hf p hp)

theorem Vars.dirs_word {v : Vars} : ∀ d ∈ v.dirs K, Word d := by
  intro d hd
  obtain ⟨q, -, rfl⟩ := List.mem_map.mp hd
  exact q.dir_word

/-- A merged directory under the name for the sections selected links to these. -/
theorem Linked.selects {w : Work Dir} {v : Vars} (h : Linked K w) (hK : K.Sound)
    (hm : w.merged (v.destdir K (v.dirs K)) = some m) : v.Selects K w m.parts := by
  obtain ⟨⟨v', hname⟩, hword, hparts⟩ := h.merged hm
  refine ⟨destdir_inj hK (fun d hd => ?_) Vars.dirs_word hname.symm, hparts⟩
  obtain ⟨p, hp, rfl⟩ := List.mem_map.mp hd
  exact hword p hp

/-- With the links, only the names of the sections count. -/
theorem Linked.current_iff {w : Work Dir} {v : Vars} (h : Linked K w) :
    v.Current K w ↔ ∃ m, w.out v.file = some (.made m) ∧ m.parts.map Prod.fst = v.dirs K :=
  ⟨fun ⟨m, hm, hs⟩ => ⟨m, hm, hs.1⟩, fun ⟨m, hm, hs⟩ => ⟨m, hm, hs, h.out hm⟩⟩

/-! ## Merging -/

section
variable {v : Vars} {w : Work Dir} {p : Progress Dir} {simulate : Bool}

theorem mem_mergeSections {x : String × Dir} :
    x ∈ (mergeSections v ds w).parts ↔ x.1 ∈ ds ∧ w.sections x.1 = some x.2 := by
  obtain ⟨d, c⟩ := x
  simp only [mergeSections, List.mem_filterMap, Option.map_eq_some_iff, Prod.mk.injEq]
  constructor
  · rintro ⟨d', hd', c', hc', rfl, rfl⟩
    exact ⟨hd', hc'⟩
  · rintro ⟨hd, hc⟩
    exact ⟨d, hd, c, hc, rfl, rfl⟩

theorem mergeSections_fst (h : ∀ d ∈ ds, (w.sections d).isSome) :
    (mergeSections v ds w).parts.map Prod.fst = ds := by
  simp only [mergeSections]
  induction ds with
  | nil => rfl
  | cons d ds ih =>
    obtain ⟨c, hc⟩ := Option.isSome_iff_exists.mp (h d List.mem_cons_self)
    rw [List.filterMap_cons_some (b := (d, c)) (by rw [hc]; rfl), List.map_cons,
      ih fun d' hd' => h d' (List.mem_cons_of_mem d hd')]

theorem merge_cases (simulate : Bool) (v : Vars) (p : Progress Dir) :
    (simulate = false ∧ merge K simulate v p =
      p.work.addMerged (v.destdir K p.mySections) (mergeSections v p.mySections p.work)) ∨
    ((simulate = false → p.work.merged (v.destdir K p.mySections) ≠ none) ∧
      merge K simulate v p = p.work) := by
  simp only [merge, Bool.and_eq_true, Bool.or_eq_true, Bool.not_eq_true']
  split
  next h => exact .inl ⟨h.2, rfl⟩
  next h =>
    refine .inr ⟨fun hs hnone => h ⟨.inr ?_, hs⟩, rfl⟩
    rw [hnone]
    rfl

theorem merge_sections : (merge K simulate v p).sections = p.work.sections := by
  obtain ⟨-, h⟩ | ⟨-, h⟩ := merge_cases (K := K) simulate v p <;> simp [h]

theorem merge_out : (merge K simulate v p).out = p.work.out := by
  obtain ⟨-, h⟩ | ⟨-, h⟩ := merge_cases (K := K) simulate v p <;> simp [h]

/-- Only a simulated run has no merged directory to make the image of. -/
theorem merge_eq_none : (merge K simulate v p).merged (v.destdir K p.mySections) = none ↔
    simulate = true ∧ p.work.merged (v.destdir K p.mySections) = none := by
  obtain ⟨hs, h⟩ | ⟨hs, h⟩ := merge_cases (K := K) simulate v p
  · rw [h, Work.addMerged_merged, Function.update_self, hs]
    exact ⟨fun h => by (cases h), fun h => by (cases h.1)⟩
  · rw [h]
    refine ⟨fun hn => ⟨?_, hn⟩, And.right⟩
    cases simulate with
    | true => rfl
    | false => exact absurd hn (hs rfl)

theorem Linked.merge (h : Linked K p.work) (hword : ∀ d ∈ p.mySections, Word d)
    (hpresent : simulate = false → ∀ d ∈ p.mySections, (p.work.sections d).isSome) :
    Linked K (merge K simulate v p) := by
  obtain ⟨hs, hm⟩ | ⟨-, hm⟩ := merge_cases (K := K) simulate v p
  · rw [hm]
    refine ⟨fun {name m} hn => ?_, h.out⟩
    by_cases hname : name = v.destdir K p.mySections
    · subst hname
      rw [Work.addMerged_merged, Function.update_self] at hn
      cases hn
      rw [mergeSections_fst (hpresent hs)]
      exact ⟨⟨v, rfl⟩, fun x hx => hword _ (mem_mergeSections.mp hx).1,
        fun x hx => (mem_mergeSections.mp hx).2⟩
    · rw [Work.addMerged_merged, Function.update_of_ne hname] at hn
      exact h.merged hn
  · rwa [hm]

end

/-! ## The image -/

section
variable {o : Options} {j : Job Dir} {w : Work Dir} {p : Progress Dir}

theorem createImage_cases (j : Job Dir) (merged : Option (Merged Dir)) (before : Option (Image Dir)) :
    (∃ m, j.createOk = true ∧ merged = some m ∧ createImage j merged before = some (.made m)) ∨
    (¬ (j.createOk = true ∧ merged ≠ none) ∧ ∀ m, createImage j merged before = some (.made m) →
      before = some (.made m)) := by
  cases hok : j.createOk with
  | true =>
    cases merged with
    | some m => exact .inl ⟨m, rfl, rfl, by simp only [createImage, hok]⟩
    | none =>
      refine .inr ⟨fun h => h.2 rfl, fun m => ?_⟩
      cases hl : j.leaves <;> simp [createImage, hok, hl]
  | false =>
    refine .inr ⟨fun h => by (cases h.1), fun m => ?_⟩
    cases hl : j.leaves <;> simp [createImage, hok, hl]

theorem makeImage_cases (K : KeyTools) (o : Options) (j : Job Dir) (p : Progress Dir) :
    ((p.dirty = true ∨ p.work.out j.vars.file = none) ∧ (makeImage K o j p).2 =
      (merge K o.simulate j.vars p).setOut j.vars.file (createImage j
        ((merge K o.simulate j.vars p).merged (j.vars.destdir K p.mySections))
        (p.work.out j.vars.file))) ∨
    (¬ (p.dirty = true ∨ p.work.out j.vars.file = none) ∧
      (makeImage K o j p).2 = merge K o.simulate j.vars p) := by
  simp only [makeImage, merge_out, Bool.or_eq_true, Option.isNone_iff_eq_none]
  split
  next h => exact .inl ⟨h, rfl⟩
  next h => exact .inr ⟨h, rfl⟩

theorem Linked.makeImage (h : Linked K p.work) (hword : ∀ d ∈ p.mySections, Word d)
    (hpresent : o.simulate = false → ∀ d ∈ p.mySections, (p.work.sections d).isSome) :
    Linked K (makeImage K o j p).2 := by
  have hmerge : Linked K (Mkimage.merge K o.simulate j.vars p) := h.merge hword hpresent
  obtain ⟨-, hm⟩ | ⟨-, hm⟩ := makeImage_cases K o j p
  · rw [hm]
    refine ⟨hmerge.merged, fun {f m} hf => ?_⟩
    by_cases hname : f = j.vars.file
    · subst hname
      rw [Work.setOut_out, Function.update_self] at hf
      obtain ⟨m', -, hm', hc⟩ | ⟨-, hc⟩ := createImage_cases j
        ((Mkimage.merge K o.simulate j.vars p).merged (j.vars.destdir K p.mySections))
        (p.work.out j.vars.file)
      · cases hc.symm.trans hf
        exact (hmerge.merged hm').2.2
      · rw [Work.setOut_sections, merge_sections]
        exact h.out (hc m hf)
    · rw [Work.setOut_out, Function.update_of_ne hname] at hf
      rw [merge_out] at hf
      rw [Work.setOut_sections, merge_sections]
      exact h.out hf
  · rw [hm]
    exact hmerge

end

/-! ## A job -/

section
variable {o : Options} {j : Job Dir} {v : Vars} {w : Work Dir} {p : Progress Dir} {simulate : Bool}

theorem Built.mySections_eq (h : Built simulate (v.requests K) ⟨w, false, false, []⟩ p) :
    p.mySections = v.dirs K := h.mySections

theorem Built.present_dirs (h : Built simulate (v.requests K) ⟨w, false, false, []⟩ p)
    (hs : simulate = false) : ∀ d ∈ p.mySections, (p.work.sections d).isSome := by
  intro d hd
  rw [h.mySections_eq] at hd
  obtain ⟨q, hq, rfl⟩ := List.mem_map.mp hd
  exact h.present hs q hq

theorem Built.words (h : Built simulate (v.requests K) ⟨w, false, false, []⟩ p) :
    ∀ d ∈ p.mySections, Word d := by
  rw [h.mySections_eq]
  exact Vars.dirs_word

/-- A build is dirty when it found a section missing. -/
theorem Built.dirty_iff (h : Built simulate (v.requests K) ⟨w, false, false, []⟩ p) :
    p.dirty = true ↔ simulate = false ∧ v.Missing K w := by
  rw [h.dirty]
  constructor
  · rintro (hd | ⟨d, hd, hd'⟩)
    · cases hd
    obtain ⟨q, hq, rfl⟩ := List.mem_map.mp (h.new hd hd')
    refine ⟨?_, q, hq, hd⟩
    cases hs : simulate with
    | false => rfl
    | true =>
      have hsame : p.work = w := h.simulated hs
      rw [hsame, hd] at hd'
      cases hd'
  · rintro ⟨hs, q, hq, hnone⟩
    exact .inr ⟨q.dir, hnone, h.present hs q hq⟩

theorem Linked.buildProfile (h : Linked K w) : Linked K (buildProfile K o j w).2 := by
  cases hs : j.vars.supported with
  | false =>
    rw [buildProfile_unsupported o w hs]
    exact h
  | true =>
    obtain ⟨-, hg⟩ | ⟨p, hb, hm⟩ := buildProfile_cases (K := K) o j w hs
    · exact h.grows hg
    · rw [hm]
      exact (h.grows hb.grows).makeImage hb.words hb.present_dirs

/-- A job that returns 0 leaves a current image exactly when it was up to date. -/
theorem buildProfile_current_iff (hK : K.Sound) (hw : Linked K w) (hs : j.vars.supported = true)
    (hret : (buildProfile K o j w).1 = true) :
    j.vars.Current K (buildProfile K o j w).2 ↔ UpToDate K o j w := by
  rw [hw.buildProfile.current_iff]
  obtain ⟨hfail, -⟩ | ⟨p, hb, hm⟩ := buildProfile_cases (K := K) o j w hs
  · rw [hfail] at hret
    cases hret
  have hout : p.work.out = w.out := hb.grows.out
  have hneeded : (p.dirty = true ∨ p.work.out j.vars.file = none) ↔ j.vars.Needed K o w := by
    rw [hb.dirty_iff, hout]
    rfl
  have hmerge : Linked K (merge K o.simulate j.vars p) :=
    (hw.grows hb.grows).merge hb.words hb.present_dirs
  rw [hm]
  obtain ⟨hn, hr⟩ | ⟨hn, hr⟩ := makeImage_cases K o j p
  · rw [hneeded] at hn
    rw [hr, Work.setOut_out, Function.update_self, hout]
    obtain ⟨m, hok, hmm, hc⟩ | ⟨hbad, hc⟩ := createImage_cases j
      ((merge K o.simulate j.vars p).merged (j.vars.destdir K p.mySections)) (w.out j.vars.file)
    · -- the image is made of the merged directory
      have hmerged : (merge K o.simulate j.vars p).merged (j.vars.destdir K p.mySections) ≠ none := by
        rw [hmm]
        nofun
      rw [hb.mySections_eq] at hmm
      refine iff_of_true ⟨m, hc, (hmerge.selects hK hmm).1⟩
        ⟨fun _ => ⟨hok, fun hsim hnone => ?_⟩, fun hno => absurd hn hno⟩
      rw [ne_eq, merge_eq_none, hb.grows.merged, hb.mySections_eq] at hmerged
      exact hmerged ⟨hsim, hnone⟩
    · -- an image left there is not of the sections selected
      refine iff_of_false ?_ fun hup => ?_
      · rintro ⟨m, hm', hparts⟩
        have hbefore := hc m hm'
        rcases hn with ⟨-, q, hq, hmiss⟩ | hnone
        · have hdir : q.dir ∈ m.parts.map Prod.fst := hparts ▸ List.mem_map_of_mem hq
          obtain ⟨x, hx, hxd⟩ := List.mem_map.mp hdir
          have hsome := hw.out hbefore x hx
          rw [hxd, hmiss] at hsome
          cases hsome
        · rw [hnone] at hbefore
          cases hbefore
      · obtain ⟨hok, hmerged⟩ := hup.make hn
        refine hbad ⟨hok, fun hnone => ?_⟩
        rw [merge_eq_none, hb.grows.merged, hb.mySections_eq] at hnone
        exact hmerged hnone.1 hnone.2
  · rw [hneeded] at hn
    rw [hr, merge_out, hout, ← hw.current_iff]
    exact ⟨fun h => ⟨fun hn' => absurd hn' hn, fun _ => h⟩, fun h => h.keep hn⟩

/-- A job leaves the images of other names alone. -/
theorem buildProfile_out (hne : j.vars.supported = true → j.vars.file ≠ f) :
    (buildProfile K o j w).2.out f = w.out f := by
  cases hs : j.vars.supported with
  | false => rw [buildProfile_unsupported o w hs]
  | true =>
    obtain ⟨-, hg⟩ | ⟨p, hb, hm⟩ := buildProfile_cases (K := K) o j w hs
    · rw [hg.out]
    have hout : p.work.out = w.out := hb.grows.out
    rw [hm]
    obtain ⟨-, hr⟩ | ⟨-, hr⟩ := makeImage_cases K o j p
    · rw [hr, Work.setOut_out, Function.update_of_ne (hne hs).symm, merge_out, hout]
    · rw [hr, merge_out, hout]

theorem buildProfile_current_of_other (hw : Linked K w)
    (hne : j.vars.supported = true → j.vars.file ≠ v.file) :
    v.Current K (buildProfile K o j w).2 ↔ v.Current K w := by
  rw [hw.buildProfile.current_iff, hw.current_iff, buildProfile_out hne]

end

/-! ## A run -/

section
variable {o : Options} {v : Vars} {w w' : Work Dir}

theorem Linked.buildProfiles (h : Linked K w) (js : List (Job Dir)) :
    Linked K (buildProfiles K o js w).2 :=
  buildProfiles_invariant (fun _ _ _ h => h.buildProfile) h

theorem Linked.history (h : Linked K w) (rs : List (Run Dir)) : Linked K (history K rs w) :=
  history_invariant (fun _ _ _ _ _ h => h.buildProfile) h

theorem buildProfiles_current_of_other {js : List (Job Dir)} (hw : Linked K w)
    (hne : ∀ j ∈ js, j.vars.supported = true → j.vars.file ≠ v.file) :
    v.Current K (buildProfiles K o js w).2 ↔ v.Current K w :=
  buildProfiles_invariant (I := fun w' => Linked K w' ∧ (v.Current K w' ↔ v.Current K w))
    (fun j hj _ ⟨hl, hc⟩ => ⟨hl.buildProfile, (buildProfile_current_of_other hl (hne j hj)).trans hc⟩)
    ⟨hw, .rfl⟩ |>.2

/-- The last job that writes an image decides what it is in the end. -/
theorem buildProfiles_current_iff {pre post : List (Job Dir)} {j : Job Dir} (hK : K.Sound)
    (hw : Linked K w) (h : buildProfiles K o (pre ++ j :: post) w = (true, w'))
    (hs : j.vars.supported = true)
    (hlast : ∀ j' ∈ post, j'.vars.supported = true → j'.vars.file ≠ j.vars.file) :
    j.vars.Current K w' ↔ UpToDate K o j (buildProfiles K o pre w).2 := by
  have hpre : Linked K (buildProfiles K o pre w).2 := hw.buildProfiles pre
  rw [buildProfiles_append] at h
  split at h
  next w₁ hr =>
    rw [hr] at hpre ⊢
    rw [Mkimage.buildProfiles] at h
    split at h
    next w₂ hj =>
      have hjob := buildProfile_current_iff hK hpre hs (by rw [hj])
      have hlinked : Linked K w₂ := by
        have := hpre.buildProfile (o := o) (j := j)
        rwa [hj] at this
      have hrest := buildProfiles_current_of_other (o := o) hlinked hlast
      rw [hj] at hjob
      rw [h] at hrest
      exact hrest.trans hjob
    next => cases h
  next => cases h

theorem exists_last {P : α → Prop} {l : List α} (hx : x ∈ l) (h : P x) :
    ∃ pre y post, l = pre ++ y :: post ∧ P y ∧ ∀ z ∈ post, ¬ P z := by
  induction l using List.reverseRec with
  | nil => cases hx
  | append_singleton l a ih =>
    by_cases ha : P a
    · exact ⟨l, a, [], rfl, ha, fun z hz => by cases hz⟩
    have hxl : x ∈ l := by
      rcases List.mem_append.mp hx with hx | hx
      · exact hx
      · exact absurd (List.mem_singleton.mp hx ▸ h) ha
    obtain ⟨pre, y, post, rfl, hy, hpost⟩ := ih hxl
    refine ⟨pre, y, post ++ [a], by simp, hy, fun z hz => ?_⟩
    rcases List.mem_append.mp hz with hz | hz
    · exact hpost z hz
    · exact List.mem_singleton.mp hz ▸ ha

/-- In every history, a run that exits 0 leaves a current image for every job exactly when the job
that writes the image last was up to date at its turn, and jobs that write the same image select the
same sections. -/
theorem images_current_iff (hK : K.Sound) {w₀ : Work Dir} (h₀ : w₀.Fresh) {rs : List (Run Dir)}
    {r : Run Dir} (h : mkimage K r (history K rs w₀) = (true, w')) :
    (∀ j ∈ r.jobs, j.vars.supported = true → j.vars.Current K w') ↔
      (∀ pre j post, r.jobs = pre ++ j :: post → j.vars.supported = true →
        (∀ j' ∈ post, j'.vars.supported = true → j'.vars.file ≠ j.vars.file) →
        UpToDate K r.options j (buildProfiles K r.options pre (history K rs w₀)).2) ∧
      ∀ j ∈ r.jobs, ∀ j' ∈ r.jobs, j.vars.supported = true → j'.vars.supported = true →
        j.vars.file = j'.vars.file → j.vars.dirs K = j'.vars.dirs K := by
  have hw : Linked K (history K rs w₀) := h₀.linked.history rs
  have hall := buildProfiles_of_mkimage h
  constructor
  · intro hcur
    refine ⟨fun pre j post hj hs hlast => ?_, fun j hj j' hj' hs hs' hfile => ?_⟩
    · rw [hj] at hall
      refine (buildProfiles_current_iff hK hw hall hs hlast).mp (hcur j ?_ hs)
      rw [hj]
      exact List.mem_append_right _ List.mem_cons_self
    · obtain ⟨m, hm, hsel⟩ := hcur j hj hs
      obtain ⟨m', hm', hsel'⟩ := hcur j' hj' hs'
      rw [← hfile, hm] at hm'
      cases hm'
      exact hsel.1.symm.trans hsel'.1
  · rintro ⟨hup, hsame⟩ j hj hs
    obtain ⟨pre, l, post, hjobs, ⟨hsl, hfile⟩, hlast⟩ :=
      exists_last (P := fun j' : Job Dir => j'.vars.supported = true ∧ j'.vars.file = j.vars.file)
        hj ⟨hs, rfl⟩
    have hl : l ∈ r.jobs := hjobs ▸ List.mem_append_right _ List.mem_cons_self
    have hno : ∀ j' ∈ post, j'.vars.supported = true → j'.vars.file ≠ l.vars.file :=
      fun j' hj' hs' hf => hlast j' hj' ⟨hs', hf.trans hfile⟩
    obtain ⟨m, hm, hsel⟩ := (buildProfiles_current_iff hK hw (hjobs ▸ hall) hsl hno).mpr
      (hup pre l post hjobs hsl hno)
    refine ⟨m, hfile ▸ hm, ?_, hsel.2⟩
    exact hsel.1.trans (hsame l hl j hj hsl hs hfile)

end

/-! ## A first run -/

/-- The variables of the container, with the installer as it stands. -/
def container (installer : String) : Vars where
  ARCH := "x86_64"
  PROFILE := "hassio_installer"
  RELEASE := "1.2"
  buildDate := "221001"
  hostkeys := false
  abuildPubkey := ""
  privkey := "build.rsa"
  repositories := ["http://dl-cdn.alpinelinux.org/alpine/v3.16/main",
    "http://dl-cdn.alpinelinux.org/alpine/v3.16/community"]
  index := "3.16.2"
  inPWD name := if name = "genapkovl-hassio-installer.sh" then
    some (genapkovlHassioInstaller id) else none
  inHome _ := none
  inScriptdir _ := none
  custom := {
    file := fun name => if name = "installer.sh" then some (.file "0755" installer) else none
    dir := fun _ => [("lib/firmware/wifi.bin", .file "0644" "firmware")] }
  arch := []
  kernelFlavors := []
  kernelAddons := []
  modloopAddons := []
  bootAddons := []
  initrdUcode := []
  apks := []
  initfsFeatures := ""
  initfsCmdline := ""
  kernelCmdline := ""
  modloopSign := ""
  modloopfw := ""
  apkovl := ""
  hostname := ""
  grubMod := []
  syslinuxSerial := ""
  syslinuxTimeout := ""
  syslinuxPrompt := ""
  xenParams := none
  ubootInstall := ""
  profileAbbrev := ""
  imageName := ""
  imageExt := ""
  outputFormat := ""
  outputFilename := ""

/-- `start.sh` with the given installer; `createOk` says how `create_image_iso` comes out. -/
def firstJob (createOk : Bool) : Job (List Tool) where
  vars := profileHassioInstaller (container "#!/bin/bash")
  tools := logged
  createOk := createOk
  leaves := .nothing
  yamlOk := true

def firstRun (createOk : Bool) : Run (List Tool) := ⟨⟨false, false⟩, [(true, [firstJob createOk])]⟩

def emptyWork : Work Dir := ⟨fun _ => none, fun _ => none, fun _ => none⟩

theorem emptyWork_fresh : (emptyWork : Work Dir).Fresh := ⟨rfl, rfl, fun _ _ h => by cases h⟩

theorem firstJob_returns (createOk : Bool) (w : Work (List Tool)) :
    (buildProfile spelled ⟨false, false⟩ (firstJob createOk) w).1 = true :=
  buildProfile_returns w (fun q _ => by rw [firstJob, logged_build]; rfl) rfl

theorem mkimage_firstRun (createOk : Bool) : ∃ w,
    buildProfile spelled ⟨false, false⟩ (firstJob createOk) emptyWork = (true, w) ∧
      mkimage spelled (firstRun createOk) emptyWork = (true, w) := by
  have h := firstJob_returns createOk emptyWork
  rw [firstRun, mkimage_single]
  generalize buildProfile spelled ⟨false, false⟩ (firstJob createOk) emptyWork = r at h
  obtain ⟨b, w⟩ := r
  cases h
  exact ⟨w, rfl, rfl⟩

/-- A run of the container from nothing, whose image is made, leaves a current image. -/
theorem images_current_iff_first :
    (firstJob true).vars.Current spelled (mkimage spelled (firstRun true) emptyWork).2 := by
  obtain ⟨w, -, hw⟩ := mkimage_firstRun true
  have hrun : mkimage spelled (firstRun true) (history spelled [] emptyWork) = (true, w) := hw
  rw [hw]
  refine (images_current_iff spelled_sound emptyWork_fresh hrun).mpr
    ⟨fun pre j post hj _ _ => ?_, fun j hj j' hj' _ _ _ => ?_⟩ (firstJob true)
    (List.mem_singleton_self _) rfl
  · cases pre with
    | cons _ pre => cases pre <;> cases (List.cons.inj hj).2
    | nil =>
      obtain ⟨rfl, -⟩ := List.cons.inj hj
      exact ⟨fun _ => ⟨rfl, fun hs => by cases hs⟩, fun hno => absurd (.inr rfl) hno⟩
  · rw [List.mem_singleton.mp hj, List.mem_singleton.mp hj']

/-- `create_image_iso` fails, the run exits 0, and there is no image. -/
theorem failed_image_exits_zero : (mkimage spelled (firstRun false) emptyWork).1 = true ∧
    ∃ j ∈ (firstRun false).jobs, j.vars.supported = true ∧
      (mkimage spelled (firstRun false) emptyWork).2.out j.vars.file = none := by
  obtain ⟨w, hj, hw⟩ := mkimage_firstRun false
  rw [hw]
  refine ⟨rfl, firstJob false, List.mem_singleton_self _, rfl, ?_⟩
  obtain ⟨hfail, -⟩ | ⟨p, hb, hm⟩ :=
    buildProfile_cases (K := spelled) ⟨false, false⟩ (firstJob false) emptyWork rfl
  · rw [firstJob_returns] at hfail
    cases hfail
  have hout : p.work.out = emptyWork.out := hb.grows.out
  have hsnd : w = (makeImage spelled ⟨false, false⟩ (firstJob false) p).2 := by rw [← hm, hj]
  rw [hsnd]
  obtain ⟨-, hr⟩ | ⟨hkept, -⟩ := makeImage_cases spelled ⟨false, false⟩ (firstJob false) p
  · rw [hr, Work.setOut_out, Function.update_self]
    rfl
  · refine absurd (.inr ?_) hkept
    rw [hout]
    rfl

end HassioInstaller.Mkimage
