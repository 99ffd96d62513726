import HassioInstaller.Release.Requests
import HassioInstaller.Text.Rows

/-! # The image that is released

A release is created for the version read from the installer, once the image of that version is there
and, unless only the release was asked for, after a build whose status was not above 0. What is sent to
it is what was read of the image and the checksum of that version. The image is made by the container; the
script itself neither removes nor overwrites one: `--rm` removes a file of that name in the directory of
the script. -/

namespace HassioInstaller.Release
open Script Text

/-- `getIsoFileName` has come to the version. -/
def Named (site : Site) (args : Args) (h : List Event) (VERSION : String) : Prop :=
  if args.release || args.release_only then VERSION ≠ "" ∧ VERSION ≠ "test" ∧
    ∃ r, (.read (installerPath site), r) ∈ h ∧ extractVersion (r.text.getD "") = VERSION
  else VERSION = "test"

/-- The version was read from the installer, its image is there, and it has been built if need be. -/
structure Cleared (site : Site) (args : Args) (h : List Event) (VERSION : String) : Prop where
  read : ∃ r, (.read (installerPath site), r) ∈ h ∧ extractVersion (r.text.getD "") = VERSION
  named : VERSION ≠ "" ∧ VERSION ≠ "test"
  there : ∃ r, (.exists (isoPath site VERSION), r) ∈ h ∧ r.yes
  built : args.release_only = false →
    ∃ r, (.popen (dockerRun site args), r) ∈ h ∧ r.raised = none ∧ r.status ≤ 0

/-- The release of the version has been created, and assets are sent to `upload_url`. -/
def Released (h : List Event) (VERSION upload_url : String) : Prop :=
  ∃ token body r rel_id, (create token VERSION body, r) ∈ h ∧ Created r upload_url rel_id

/-- What was read of a file. -/
def Contents (h : List Event) (path content : String) : Prop :=
  ∃ r, (.read path, r) ∈ h ∧ content = r.text.getD ""

/-- A call is one of those the script makes, and has what must come before it. -/
def Justified (site : Site) (args : Args) (h : List Event) : Act → Prop
  | .post _ _ (.json p) => Cleared site args h p.tag_name
  | .post url _ (.data type content) => ∃ VERSION upload_url, Cleared site args h VERSION ∧
      Released h VERSION upload_url ∧
      (type = "application/octet-stream" ∧ url = assetUrl upload_url VERSION ∧
          Contents h (isoPath site VERSION) content ∨
        type = "text/plan" ∧ url = assetUrl upload_url VERSION ++ ".sha256" ∧
          Contents h (isoPath site VERSION ++ ".sha256") content)
  | .remove path => path = rnfile ∨ args.remove ∧ ∃ VERSION, path = isoName VERSION
  | .write path _ => ∃ VERSION, path = isoPath site VERSION ++ ".sha256"
  | .exists path => path = "CHANGELOG.md" ∨ path = rnfile ∨
      ∃ VERSION, path = isoPath site VERSION ∧ Named site args h VERSION
  | .popen line | .system line => Tool site args line
  | _ => True

/-- The calls that nothing is asked of. -/
def Act.free : Act → Bool
  | .post .. | .remove _ | .write .. | .exists _ | .popen _ | .system _ => false
  | _ => true

abbrev justified (site : Site) (args : Args) : Contract (List Event) Act Answer :=
  .history (fun _ _ => True) (Justified site args) fun _ => True

theorem justified_of_free {a : Act} (ha : a.free = true) (site : Site) (args : Args) (h : List Event) :
    Justified site args h a := by
  cases a <;> trivial

theorem Act.plain.justified {a : Act} (ha : a.plain site args) (h : List Event) :
    Justified site args h a := by
  cases a with
  | «exists» path => exact ha.imp_right .inl
  | popen | system => exact ha
  | get | post | delete | remove | write => exact ha.elim
  | _ => trivial

variable {site : Site} {args : Args} {h h' : List Event} {VERSION : String}

theorem Named.published (hV : Named site args h VERSION) (hpub : args.release || args.release_only) :
    VERSION ≠ "" ∧ VERSION ≠ "test" ∧
      ∃ r, (.read (installerPath site), r) ∈ h ∧ extractVersion (r.text.getD "") = VERSION := by
  rwa [Named, if_pos hpub] at hV

theorem Cleared.mono (hc : Cleared site args h VERSION) (hsub : h ⊆ h') :
    Cleared site args h' VERSION where
  read := hc.read.imp fun _ hr => ⟨hsub hr.1, hr.2⟩
  named := hc.named
  there := hc.there.imp fun _ hr => ⟨hsub hr.1, hr.2⟩
  built hb := (hc.built hb).imp fun _ hr => ⟨hsub hr.1, hr.2⟩

section
variable {Q : α → List Event → Prop}

/-- The history after a call has what it had before, and the call. -/
theorem wp_justified {k : Answer → Py α} (hc : Justified site args h c)
    (hk : ∀ r h', h ⊆ h' → (c, r) ∈ h' → wp (justified site args) (k r) Q h') :
    wp (justified site args) ((call c).bind k) Q h := by
  refine wp_call_monitor.mpr ⟨hc, fun r _ => ?_⟩
  dsimp only
  split
  · exact wp_exit.mpr trivial
  · exact hk r _ (List.subset_append_left _ _) (List.mem_append_right _ List.mem_cons_self)

theorem wp_justified_exec {f : PUnit → Py α} (hc : Justified site args h c)
    (hf : ∀ h', h ⊆ h' → wp (justified site args) (f ⟨⟩) Q h') :
    wp (justified site args) ((exec c).bind f) Q h := by
  rw [exec, bind_eq, Script.bind_assoc]
  exact wp_justified hc fun _ h' hh _ => hf h' hh

theorem wp_free {k : Answer → Py α} (hc : c.free = true)
    (hk : ∀ r h', h ⊆ h' → (c, r) ∈ h' → wp (justified site args) (k r) Q h') :
    wp (justified site args) ((call c).bind k) Q h :=
  wp_justified (justified_of_free hc site args h) hk

theorem wp_free_exec {f : PUnit → Py α} (hc : c.free = true)
    (hf : ∀ h', h ⊆ h' → wp (justified site args) (f ⟨⟩) Q h') :
    wp (justified site args) ((exec c).bind f) Q h :=
  wp_justified_exec (justified_of_free hc site args h) hf

theorem wp_free_iprint {f : PUnit → Py α}
    (hf : ∀ h', h ⊆ h' → wp (justified site args) (f ⟨⟩) Q h') :
    wp (justified site args) ((iprint m).bind f) Q h :=
  wp_free_exec rfl hf

/-- A script of plain calls adds to the history. -/
theorem grows_of_plain {p : Py α} (hp : Plain site args p) :
    wp (justified site args) p (fun _ h' => h ⊆ h') h := by
  refine (hp.frame (h ⊆ ·) (fun _ hc => Act.plain.justified hc _) ?_
    (fun _ _ => trivial) (List.Subset.refl h)).mono fun _ _ ha => ha.2
  rintro s c r _ hs _ ⟨-, rfl⟩
  exact List.subset_append_of_subset_left _ hs

theorem wp_free_fprint (m : String) (rc : Int) :
    wp (justified site args) (fprint m rc : Py α) Q h := by
  refine wp_free_exec rfl fun h' _ => ?_
  exact wp_call_monitor.mpr ⟨trivial, fun _ _ => wp_exit.mpr trivial⟩

end

/-! ## Parts of a run -/

/-- The version is the one in the installer, if a release is asked for. -/
theorem version_getIsoFileName (h : List Event) :
    wp (justified site args) (getIsoFileName site args)
      (fun VERSION h' => h ⊆ h' ∧ Named site args h' VERSION) h := by
  unfold getIsoFileName Named
  split
  · refine wp_free rfl fun script h' hh hread => ?_
    dsimp only
    split
    · exact wp_free_fprint _ _
    · next hne =>
      have hne := not_or.mp hne
      exact wp_ret.mpr ⟨hh, hne.1, hne.2, script, hread, rfl⟩
  · exact wp_ret.mpr ⟨List.Subset.refl _, rfl⟩

/-- The image is looked for. -/
theorem wp_looked {k : Answer → Py α} {Q : α → List Event → Prop} (hV : Named site args h VERSION)
    (hk : ∀ r h', h ⊆ h' → (.exists (isoPath site VERSION), r) ∈ h' →
      wp (justified site args) (k r) Q h') :
    wp (justified site args) ((call (.exists (isoPath site VERSION))).bind k) Q h :=
  wp_justified (.inr (.inr ⟨VERSION, rfl, hV⟩)) hk

theorem status_sh (verbose : Bool) (hc : Tool site args c) (h : List Event) :
    wp (justified site args) (sh verbose c) (fun _ h' => h ⊆ h' ∧
      ∃ r, (.popen c, r) ∈ h' ∧ r.raised = none ∧ r.status ≤ 0) h := by
  refine wp_call_monitor.mpr ⟨hc, fun r _ => ?_⟩
  split
  · exact wp_free_fprint _ _
  · exact wp_exit.mpr trivial
  · next hr =>
    have shown : Plain site args (Script.when verbose (exec (.print (r.text.getD "")))) :=
      plain_when fun _ => plain_exec (a := .print _) trivial
    refine wp_bind.mpr ((grows_of_plain shown).mono fun _ h' hh => ?_)
    split
    · exact wp_free_fprint _ _
    · next hrc =>
      refine wp_ret.mpr ⟨fun e he => hh (List.mem_append_left _ he), r, ?_, hr, Int.not_lt.mp hrc⟩
      exact hh (List.mem_append_right _ List.mem_cons_self)

/-! ## The whole run -/

theorem free_dumps {f : String → Py α} {Q : α → List Event → Prop}
    (hf : ∀ dump, wp (justified site args) (f dump) Q h) :
    wp (justified site args) ((dumps r).bind f) Q h := by
  unfold dumps
  cases r.json with
  | none => exact wp_exit.mpr trivial
  | some j => exact hf j.dump

theorem free_member {f : String → Py α} {Q : α → List Event → Prop}
    (hf : ∀ value, r.get name = some value → wp (justified site args) (f value) Q h) :
    wp (justified site args) ((member name r).bind f) Q h := by
  unfold member
  cases hget : r.get name with
  | none => exact wp_exit.mpr trivial
  | some value => exact hf value hget

theorem free_getGHAuthHeader {f : String → Py α} {Q : α → List Event → Prop}
    (hf : ∀ token h', h ⊆ h' → wp (justified site args) (f token) Q h') :
    wp (justified site args) (getGHAuthHeader.bind f) Q h := by
  rw [getGHAuthHeader, bind_eq, Script.bind_assoc]
  refine wp_free rfl fun r h' hh _ => ?_
  cases r.text with
  | none => exact wp_exit.mpr trivial
  | some token => exact hf token h' hh

theorem justified_deleteRelease (h : List Event) :
    wp (justified site args) deleteRelease (fun _ _ => True) h := by
  have deletes : ∀ url token what h, wp (justified site args) (deleteOrFail url token what)
      (fun _ _ => True) h := by
    intro url token what h
    refine wp_free rfl fun res h' _ _ => ?_
    split
    · exact wp_free rfl fun _ _ _ _ => wp_ret.mpr trivial
    · exact free_dumps fun _ => wp_free_fprint _ _
  refine wp_free_iprint fun h _ => free_getGHAuthHeader fun token h _ => wp_free rfl fun r h _ _ => ?_
  refine free_member fun tag _ => free_member fun rel_id _ => wp_free_iprint fun h _ => wp_bind.mpr ?_
  exact (deletes _ _ _ h).mono fun _ h' _ => deletes _ _ _ h'

theorem justified_uploadAssets (hc : Cleared site args h VERSION)
    (hmem : (create token VERSION body, r) ∈ h) (hr : r.status = 201) :
    wp (justified site args) (uploadAssets site token VERSION r) (fun _ _ => True) h := by
  refine free_member fun url hurl => free_member fun rel_id hid => free_member fun html_url hhtml => ?_
  have hcreated : Created r url rel_id := ⟨hr, hurl, hid, by rw [hhtml]; rfl⟩
  refine wp_free rfl fun isoasset h₁ hh₁ hread => wp_free rfl fun blocks h₂ hh₂ _ => ?_
  refine wp_justified_exec ⟨VERSION, rfl⟩ fun h₃ hh₃ => wp_free rfl fun shaasset h₄ hh₄ hsum => ?_
  refine wp_free_iprint fun h₅ hh₅ => ?_
  have hsub : h₁ ⊆ h₅ := fun _ he => hh₅ (hh₄ (hh₃ (hh₂ he)))
  have hc₅ : Cleared site args h₅ VERSION := (hc.mono hh₁).mono hsub
  have hmem₅ : (create token VERSION body, r) ∈ h₅ := hsub (hh₁ hmem)
  have hiso : Justified site args h₅ (sendIso token VERSION url (isoasset.text.getD "")) :=
    ⟨VERSION, url, hc₅, ⟨token, body, r, rel_id, hmem₅, hcreated⟩, .inl ⟨rfl, rfl, isoasset, hsub hread, rfl⟩⟩
  refine wp_justified hiso fun asset h₆ hh₆ _ => ?_
  have hsha : Justified site args h₆ (sendSha token VERSION url (shaasset.text.getD "")) :=
    ⟨VERSION, url, hc₅.mono hh₆, ⟨token, body, r, rel_id, hh₆ hmem₅, hcreated⟩,
      .inr ⟨rfl, rfl, shaasset, hh₆ (hh₅ hsum), rfl⟩⟩
  refine wp_justified_exec hsha fun h₇ _ => ?_
  split
  · exact wp_free rfl fun _ _ _ _ => wp_ret.mpr trivial
  · refine free_dumps fun _ => wp_free_iprint fun _ _ => wp_free_exec rfl fun _ _ =>
      wp_free_exec rfl fun _ _ => wp_free_iprint fun _ _ => ?_
    exact wp_call_monitor.mpr ⟨trivial, fun _ _ => wp_exit.mpr trivial⟩

/-- A release is created when its image is there, and built if need be. -/
theorem justified_release (hpub : args.release || args.release_only)
    (hbuilt : args.release_only = false →
      ∃ r, (.popen (dockerRun site args), r) ∈ h ∧ r.raised = none ∧ r.status ≤ 0) :
    wp (justified site args) (release site args) (fun _ _ => True) h := by
  refine wp_free_iprint fun h₁ hh₁ => free_getGHAuthHeader fun token h₂ hh₂ =>
    wp_free_iprint fun h₃ hh₃ => ?_
  refine wp_bind.mpr ((version_getIsoFileName h₃).mono fun VERSION h₄ hV => ?_)
  obtain ⟨hne, htest, r, hread, hversion⟩ := hV.2.published hpub
  refine wp_looked hV.2 fun there h₅ hh₅ hthere => ?_
  split
  · exact wp_free_fprint _ _
  next hyes =>
  refine wp_bind.mpr ((grows_of_plain plain_releaseNotes).mono fun body h₆ hh₆ => ?_)
  have hc : Cleared site args h₅ VERSION := by
    refine ⟨⟨r, hh₅ hread, hversion⟩, ⟨hne, htest⟩, ⟨there, hthere, by simpa using hyes⟩, fun hb => ?_⟩
    obtain ⟨r, hmem, hr⟩ := hbuilt hb
    exact ⟨r, hh₅ (hV.1 (hh₃ (hh₂ (hh₁ hmem)))), hr⟩
  refine wp_free_iprint fun h₇ hh₇ => wp_free_iprint fun h₈ hh₈ => ?_
  have hcreate : Justified site args h₈ (create token VERSION body) :=
    ((hc.mono hh₆).mono hh₇).mono hh₈
  refine wp_justified hcreate fun r h₉ hh₉ hmem => ?_
  have hremove : ∀ h, wp (justified site args) (exec (.remove rnfile)) (fun _ _ => True) h := fun h =>
    wp_justified (.inl rfl) fun _ _ _ _ => wp_ret.mpr trivial
  dsimp only
  split
  · next hr =>
    have hup := justified_uploadAssets (Cleared.mono hcreate hh₉) hmem hr
    exact wp_bind.mpr (hup.mono fun _ h' _ => hremove h')
  · exact free_dumps fun _ => wp_bind.mpr (wp_free_fprint _ _)

theorem justified_buildIso (h : List Event) :
    wp (justified site args) (buildIso site args) (fun _ _ => True) h := by
  unfold buildIso
  split
  · refine wp_free_iprint fun _ _ => wp_justified Tool.container fun rc _ _ _ => ?_
    exact wp_call_monitor.mpr ⟨trivial, fun _ _ => wp_exit.mpr trivial⟩
  refine wp_free_iprint fun h₁ _ => wp_free_exec rfl fun h₂ _ => ?_
  refine wp_bind.mpr ((status_sh args.verbose .container h₂).mono fun _ h₃ hbuilt => ?_)
  obtain ⟨-, built, hmem, hstatus⟩ := hbuilt
  refine wp_free rfl fun time h₄ hh₄ _ => wp_free_iprint fun h₅ hh₅ => ?_
  refine wp_bind.mpr ((version_getIsoFileName h₅).mono fun VERSION h₆ hV => ?_)
  refine wp_looked hV.2 fun there h₇ hh₇ _ => ?_
  split
  · exact wp_free_fprint _ _
  refine wp_bind.mpr ((grows_of_plain (plain_sendTo VERSION)).mono fun _ h₈ hh₈ => ?_)
  cases hrel : args.release with
  | true =>
    refine justified_release (by simp [hrel]) fun _ => ⟨built, ?_, hstatus⟩
    exact hh₈ (hh₇ (hV.1 (hh₅ (hh₄ hmem))))
  | false => exact wp_ret.mpr trivial

theorem justified_build (site : Site) (args : Args) :
    wp (justified site args) (build site args) (fun _ _ => True) [] := by
  have finish : ∀ h, wp (justified site args) (do
      Script.when args.remove do
        iprint "Auto-removal of created ISO requested, removing ..."
        let VERSION ← getIsoFileName site args
        exec (.remove (isoName VERSION))
      iprint "Work completed") (fun _ _ => True) h := by
    intro h
    have done : ∀ h, wp (justified site args) (iprint "Work completed") (fun _ _ => True) h := fun h =>
      wp_free rfl fun _ _ _ _ => wp_ret.mpr trivial
    refine wp_bind.mpr ?_
    cases hrm : args.remove with
    | true =>
      refine wp_free_iprint fun h _ => wp_bind.mpr ((version_getIsoFileName h).mono fun VERSION h _ => ?_)
      exact wp_justified (.inr ⟨hrm, VERSION, rfl⟩) fun _ h _ _ => wp_ret.mpr (done h)
    | false => exact wp_ret.mpr (done h)
  refine wp_bind.mpr ((grows_of_plain plain_buildImage).mono fun _ h₁ _ => ?_)
  refine wp_bind.mpr ((grows_of_plain plain_fixPerms).mono fun _ h₂ _ => ?_)
  refine wp_bind.mpr ?_
  cases args.delete_latest with
  | true =>
    refine wp_bind.mpr ((justified_deleteRelease h₂).mono fun _ h _ => ?_)
    exact wp_free_iprint fun _ _ => wp_call_monitor.mpr ⟨trivial, fun _ _ => wp_exit.mpr trivial⟩
  | false =>
    refine wp_ret.mpr ?_
    dsimp only
    split
    · next hrel =>
      refine wp_bind.mpr ((justified_release (by simp [hrel]) fun hb => ?_).mono fun _ h _ => finish h)
      rw [hrel] at hb
      cases hb
    split
    · cases args.build_iso with
      | true => exact wp_bind.mpr ((justified_buildIso h₂).mono fun _ h _ => finish h)
      | false => exact finish h₂
    · exact wp_bind.mpr ((justified_buildIso h₂).mono fun _ h _ => finish h)

/-! ## Images are left alone -/

theorem head_append {s : String} (t : String) (h : s.toList.head? = some c) :
    (s ++ t).toList.head? = some c := by
  rw [String.toList_append, List.head?_append, h, Option.some_or]

theorem head_isoName (VERSION : String) : (isoName VERSION).toList.head? = some 'h' :=
  head_append _ (head_append _ (by simp))

theorem head_isoPath (hSD : site.SD.toList.head? = some '/') (VERSION : String) :
    (isoPath site VERSION).toList.head? = some '/' :=
  head_append _ (head_append _ hSD)

theorem getLast_isoPath (site : Site) (VERSION : String) :
    (isoPath site VERSION).toList.getLast? = some 'o' :=
  getLast_append _ (getLast_append _ (by simp))

theorem isoPath_ne_sha (site : Site) (V W : String) : isoPath site V ≠ isoPath site W ++ ".sha256" := by
  intro h
  have hsuffix : ".sha256".toList.getLast? = some '6' := by simp
  have hlast := getLast_isoPath site V
  rw [h, getLast_append (isoPath site W) hsuffix] at hlast
  cases hlast

theorem justified_split (hr : Run (build site args) (pre ++ (c, r) :: post) q) :
    Justified site args pre c :=
  (justified_build site args).guard hr (path_history_iff.mpr ⟨rfl, fun _ _ => trivial⟩)

/-- Each call of a run is justified by those before it, and in none of them the script itself removes or
writes an image. -/
theorem justified_of_run (hSD : site.SD.toList.head? = some '/') (hr : Run (build site args) t q) :
    Throughout (fun pre e => Justified site args pre e.1 ∧ ∀ VERSION,
      e.1 ≠ .remove (isoPath site VERSION) ∧ ∀ text, e.1 ≠ .write (isoPath site VERSION) text) t := by
  rintro pre ⟨c, r⟩ post rfl
  have hc : Justified site args pre c := justified_split hr
  refine ⟨hc, fun VERSION => ⟨?_, ?_⟩⟩
  · rintro rfl
    have hhead := head_isoPath hSD VERSION
    rcases hc with h | ⟨-, V, h⟩
    · rw [h] at hhead
      cases hhead
    · rw [h, head_isoName] at hhead
      cases hhead
  · rintro text rfl
    obtain ⟨V, h⟩ := hc
    exact isoPath_ne_sha site VERSION V h

theorem justified_of_run_back : Throughout (fun pre e => Justified emptyImage publishing pre e.1 ∧
    ∀ VERSION, e.1 ≠ .remove (isoPath emptyImage VERSION) ∧
      ∀ text, e.1 ≠ .write (isoPath emptyImage VERSION) text) takenBack.1 :=
  justified_of_run rfl (run_play (fun _ => overloaded) 200 (build emptyImage publishing))

end HassioInstaller.Release
