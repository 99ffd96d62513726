import HassioInstaller.Release.Functions

/-! # What `build.py` asks of GitHub

The requests of a run, with the answers to them, form a word of a small language (`Talk`): nothing, the
withdrawal of the latest release, or one release that is created, given its assets, and withdrawn again
when the image was not taken. A run that an exception ends has got to some prefix of such a word. -/

namespace HassioInstaller.Release
open Script

def Act.isRequest : Act → Bool
  | .get .. | .post .. | .delete .. => true
  | _ => false

/-- The command lines that a run has executed. -/
inductive Tool (site : Site) (args : Args) : String → Prop
  | image : args.build_dockerimage → Tool site args "docker build -t alpine-build-iso ."
  | permit : args.fix_perms → Tool site args ("chmod -v 777 " ++ site.SD ++ "/vols/tmp")
  | own : args.fix_perms → Tool site args ("chown -cR 1000:300 " ++ site.SD ++ "/vols/build")
  | container : Tool site args (dockerRun site args)
  | send : args.upload_to ≠ "" → Tool site args ("scp " ++ isoPath site VERSION ++ " " ++ host)
  | stub : Tool site args ("cp CHANGELOG.md " ++ rnfile)
  | edit : Tool site args ("vim " ++ rnfile)

/-- The calls of a run that neither ask GitHub anything nor change a file themselves, and do not look for
an image. -/
def Act.plain (site : Site) (args : Args) : Act → Prop
  | .get .. | .post .. | .delete .. | .remove _ | .write .. => False
  | .popen line | .system line => Tool site args line
  | .exists path => path = "CHANGELOG.md" ∨ path = rnfile
  | _ => True

theorem Act.plain.isRequest {a : Act} (h : a.plain site args) : a.isRequest = false := by
  cases a <;> first | rfl | cases h

abbrev Plain (site : Site) (args : Args) (p : Py α) : Prop := Only (Act.plain site args) p fun _ => True

/-- The arguments ask for a release. -/
def Args.publishes (args : Args) : Bool := !args.delete_latest && (args.release || args.release_only)

/-- Where the image of a created release is sent. -/
def assetUrl (upload_url VERSION : String) : String :=
  dropTemplate upload_url ++ "?name=" ++ isoName VERSION

/-- The request that creates the release of a version. -/
def create (token VERSION body : String) : Act :=
  .post (api ++ "/releases") token (.json (payload VERSION body))

/-- The requests for the two assets. -/
def sendIso (token VERSION upload_url iso : String) : Act :=
  .post (assetUrl upload_url VERSION) token (.data "application/octet-stream" iso)

def sendSha (token VERSION upload_url sha : String) : Act :=
  .post (assetUrl upload_url VERSION ++ ".sha256") token (.data "text/plan" sha)

/-- What a release is known by once it is created. -/
structure Created (r : Answer) (upload_url rel_id : String) : Prop where
  status : r.status = 201
  upload_url : r.get "upload_url" = some upload_url
  id : r.get "id" = some rel_id
  html_url : (r.get "html_url").isSome

/-- The requests of a run that no exception ends. -/
inductive Talk (args : Args) : List Event → Prop
  | silent : Talk args []
  | unnamed : args.delete_latest → r.get "tag_name" = none ∨ r.get "id" = none →
    Talk args [(.get (api ++ "/releases/latest") token, r)]
  | kept : args.delete_latest → r.get "id" = some rel_id → d.status ≠ 204 →
    Talk args [(.get (api ++ "/releases/latest") token, r), (.delete (releaseUrl rel_id) token, d)]
  | deleted : args.delete_latest → r.get "id" = some rel_id → r.get "tag_name" = some tag →
    d.status = 204 → Talk args [(.get (api ++ "/releases/latest") token, r),
      (.delete (releaseUrl rel_id) token, d), (.delete (tagUrl tag) token, d')]
  | refused : args.publishes → r.status ≠ 201 → Talk args [(create token VERSION body, r)]
  | hidden : args.publishes → r.get "upload_url" = none ∨ r.get "id" = none ∨ r.get "html_url" = none →
    Talk args [(create token VERSION body, r)]
  /-- The image was taken, or the answer to it is no JSON. -/
  | sent : args.publishes → Created r url rel_id → iso.status = 201 ∨ iso.json = none →
    Talk args [(create token VERSION body, r), (sendIso token VERSION url image, iso),
      (sendSha token VERSION url sum, sha)]
  | withdrawn : args.publishes → Created r url rel_id → iso.status ≠ 201 → iso.json.isSome →
    Talk args [(create token VERSION body, r), (sendIso token VERSION url image, iso),
      (sendSha token VERSION url sum, sha), (.delete (releaseUrl rel_id) token, d),
      (.delete (tagUrl VERSION) token, d')]

/-- The requests so far are the beginning of such a conversation. -/
def Begun (args : Args) (h : List Event) : Prop := ∃ l, Talk args l ∧ h <+: l

theorem Talk.begun (ht : Talk args l) (hpre : h <+: l) : Begun args h := ⟨l, ht, hpre⟩

/-- The record of the requests. Where no answer is an exception, the script ends with a whole
conversation behind it. -/
abbrev talking (args : Args) (answers : Act → Answer → Prop) : Contract (List Event) Act Answer :=
  .record Act.isRequest answers (fun h c => c.isRequest → ∀ r, Begun args (h ++ [(c, r)]))
    fun h => (∀ c r, answers c r → r.raised = none) → Talk args h

section
variable {args : Args} {answers : Act → Answer → Prop} {h : List Event} {Q : α → List Event → Prop}

theorem wp_called {k : Answer → Py α} {r : Answer} (hans : answers c r)
    (hk : wp (talking args answers) (k r) Q h) :
    wp (talking args answers) ((if r.raised.isSome then Script.exit else .ret r).bind k) Q h := by
  by_cases hr : r.raised.isSome
  · rw [if_pos hr]
    refine wp_exit.mpr fun hcalm => ?_
    rw [hcalm c r hans] at hr
    cases hr
  · rw [if_neg hr]
    exact hk

theorem wp_idle {k : Answer → Py α} (hc : c.isRequest = false)
    (hk : ∀ r, wp (talking args answers) (k r) Q h) :
    wp (talking args answers) ((call c).bind k) Q h := by
  refine (wp_record_skip hc).mpr ⟨fun hreq => ?_, fun r hans => wp_called hans (hk r)⟩
  rw [hc] at hreq
  cases hreq

theorem wp_request {k : Answer → Py α} (hc : c.isRequest = true)
    (hh : ∀ r, Begun args (h ++ [(c, r)]))
    (hk : ∀ r, wp (talking args answers) (k r) Q (h ++ [(c, r)])) :
    wp (talking args answers) ((call c).bind k) Q h :=
  (wp_record_keep hc).mpr ⟨fun _ => hh, fun r hans => wp_called hans (hk r)⟩

theorem wp_idle_exec {f : PUnit → Py α} (hc : c.isRequest = false)
    (hf : wp (talking args answers) (f ⟨⟩) Q h) : wp (talking args answers) ((exec c).bind f) Q h := by
  rw [exec, bind_eq, Script.bind_assoc]
  exact wp_idle hc fun _ => hf

theorem wp_request_exec {f : PUnit → Py α} (hc : c.isRequest = true)
    (hh : ∀ r, Begun args (h ++ [(c, r)]))
    (hf : ∀ r, wp (talking args answers) (f ⟨⟩) Q (h ++ [(c, r)])) :
    wp (talking args answers) ((exec c).bind f) Q h := by
  rw [exec, bind_eq, Script.bind_assoc]
  exact wp_request hc hh hf

theorem wp_iprint {f : PUnit → Py α} (hf : wp (talking args answers) (f ⟨⟩) Q h) :
    wp (talking args answers) ((iprint m).bind f) Q h :=
  wp_idle_exec rfl hf

theorem wp_sysExit (ht : Talk args h) : wp (talking args answers) (sysExit rc : Py α) Q h :=
  (wp_record_skip rfl).mpr ⟨fun hreq => (by cases hreq), fun _ _ => wp_exit.mpr fun _ => ht⟩

theorem wp_fprint (ht : Talk args h) : wp (talking args answers) (fprint m rc : Py α) Q h :=
  wp_idle_exec rfl (wp_sysExit ht)

theorem wp_member {f : String → Py α} (hnone : r.get name = none → Talk args h)
    (hf : ∀ value, r.get name = some value → wp (talking args answers) (f value) Q h) :
    wp (talking args answers) ((member name r).bind f) Q h := by
  unfold member
  cases hget : r.get name with
  | none => exact wp_exit.mpr fun _ => hnone hget
  | some value => exact hf value hget

theorem wp_dumps {f : String → Py α} (hnone : r.json = none → Talk args h)
    (hf : r.json.isSome → ∀ dump, wp (talking args answers) (f dump) Q h) :
    wp (talking args answers) ((dumps r).bind f) Q h := by
  unfold dumps
  cases hjson : r.json with
  | none => exact wp_exit.mpr fun _ => hnone hjson
  | some j => exact hf (by rw [hjson]; rfl) j.dump

end

/-! ## Before the release -/

section
variable {site : Site} {args : Args}

theorem plain_call {f : Answer → Py α} {B : α → Prop} (ha : a.plain site args)
    (hf : ∀ r, Only (Act.plain site args) (f r) B) :
    Only (Act.plain site args) ((call a).bind f) B := by
  refine within_bind.mpr (within_call.mpr ⟨ha, fun r => ?_⟩)
  split
  · exact only_exit
  · exact within_ret.mpr (hf r)

theorem plain_exec (ha : a.plain site args) : Plain site args (exec a) :=
  plain_call ha fun _ => within_ret.mpr trivial

theorem plain_exec_bind {f : PUnit → Py α} (ha : a.plain site args) (hf : Plain site args (f ⟨⟩)) :
    Plain site args ((exec a).bind f) :=
  within_bind.mpr ((plain_exec ha).mono fun _ _ => hf)

theorem plain_iprint {f : PUnit → Py α} (hf : Plain site args (f ⟨⟩)) :
    Plain site args ((iprint m).bind f) :=
  plain_exec_bind trivial hf

theorem plain_fprint (m : String) (rc : Int) : Plain site args (fprint m rc : Py α) :=
  plain_exec_bind trivial (within_call.mpr ⟨trivial, fun _ => only_exit⟩)

theorem plain_when {b : Bool} {p : Py PUnit} (h : b = true → Plain site args p) :
    Plain site args (Script.when b p) := by
  cases b with
  | true => exact h rfl
  | false => exact within_ret.mpr trivial

theorem plain_sh (verbose : Bool) (hc : Tool site args c) : Plain site args (sh verbose c) := by
  refine within_call.mpr ⟨hc, fun r => ?_⟩
  split
  · exact plain_fprint _ _
  · exact only_exit
  · have shown : Plain site args (Script.when verbose (exec (.print (r.text.getD "")))) :=
      plain_when fun _ => plain_exec (a := .print _) trivial
    refine within_bind.mpr (shown.mono fun _ _ => ?_)
    split
    · exact plain_fprint _ _
    · exact within_ret.mpr trivial

theorem plain_getIsoFileName : Plain site args (getIsoFileName site args) := by
  unfold getIsoFileName
  split
  · refine plain_call trivial fun script => ?_
    dsimp only
    split
    · exact plain_fprint _ _
    · exact within_ret.mpr trivial
  · exact within_ret.mpr trivial

theorem plain_releaseNotes : Plain site args (releaseNotes args) := by
  have rest : ∀ stub : Bool, Plain site args (do
      Script.when stub (sh args.verbose ("cp CHANGELOG.md " ++ rnfile))
      exec (.input ("Upon pressing ENTER, vim editor will open " ++ rnfile ++ " that you can edit " ++
        "which will be used as release notes."))
      exec (.system ("vim " ++ rnfile))
      let notes ← call (.exists rnfile)
      if !notes.yes then fprint "Release Notes file does not exists! Exiting." 1
      else do
        let body ← call (.read rnfile)
        return body.text.getD "") := by
    intro stub
    refine within_bind.mpr ((plain_when fun _ => plain_sh _ .stub).mono fun _ _ => ?_)
    refine plain_exec_bind trivial (plain_exec_bind Tool.edit (plain_call (.inr rfl) fun notes => ?_))
    split
    · exact plain_fprint _ _
    · exact plain_call trivial fun _ => within_ret.mpr trivial
  refine plain_call (.inl rfl) fun changelog => within_bind.mpr ?_
  split
  · exact plain_call (.inr rfl) fun _ => within_ret.mpr (rest _)
  · exact within_ret.mpr (rest _)

/-- `--build-dockerimage` -/
theorem plain_buildImage : Plain site args (Script.when args.build_dockerimage do
    iprint "Building Docker Image..."
    sh args.verbose "docker build -t alpine-build-iso .") :=
  plain_when fun h => plain_iprint (plain_sh _ (.image h))

/-- `--fix-perms` -/
theorem plain_fixPerms : Plain site args (Script.when args.fix_perms do
    iprint "Fixing permissions"
    sh true ("chmod -v 777 " ++ site.SD ++ "/vols/tmp")
    sh true ("chown -cR 1000:300 " ++ site.SD ++ "/vols/build")) :=
  plain_when fun h => plain_iprint
    (within_bind.mpr ((plain_sh _ (.permit h)).mono fun _ _ => plain_sh _ (.own h)))

/-- `--send-to` -/
theorem plain_sendTo (VERSION : String) : Plain site args (Script.when (args.upload_to ≠ "") do
    let host := if ':' ∈ args.upload_to.toList then args.upload_to else args.upload_to ++ ":"
    iprint ("Upload of ISO Image to remote host requested, sending to " ++ host)
    sh args.verbose ("scp " ++ isoPath site VERSION ++ " " ++ host)) :=
  plain_when fun h => plain_iprint (plain_sh _ (.send (of_decide_eq_true h)))

end

section
variable {args : Args} {answers : Act → Answer → Prop}

theorem idle_of_plain {p : Py α} (hp : Plain site args p) (ht : Talk args h) :
    wp (talking args answers) p (fun _ h' => h' = h) h :=
  (hp.skip (fun c hc => ⟨Act.plain.isRequest hc, fun hreq => by
    rw [Act.plain.isRequest hc] at hreq
    cases hreq⟩) fun _ => ht).mono fun _ _ ha => ha.2

/-- The token has been found; no release is touched without one. -/
theorem talk_getGHAuthHeader {f : String → Py α} {Q : α → List Event → Prop} (ht : Talk args h)
    (hf : ∀ token, wp (talking args answers) (f token) Q h) :
    wp (talking args answers) (getGHAuthHeader.bind f) Q h := by
  rw [getGHAuthHeader, bind_eq, Script.bind_assoc]
  refine wp_idle rfl fun r => ?_
  cases r.text with
  | none => exact wp_exit.mpr fun _ => ht
  | some token => exact hf token

/-! ## Deleting the latest release -/

theorem talk_deleteRelease (hdel : args.delete_latest) :
    wp (talking args answers) deleteRelease (fun _ => Talk args) [] := by
  refine wp_iprint (talk_getGHAuthHeader .silent fun token => ?_)
  have latest : ∀ r, Begun args [(.get (api ++ "/releases/latest") token, r)] := by
    intro r
    cases hid : r.get "id" with
    | none => exact (Talk.unnamed hdel (.inr hid)).begun (List.prefix_refl _)
    | some rel_id =>
      exact (Talk.kept (d := ⟨none, 0, false, none, none⟩) hdel hid (by decide)).begun
        (List.prefix_append [_] _)
  refine wp_request rfl latest fun r => ?_
  refine wp_member (fun h => .unnamed hdel (.inl h)) fun tag htag => ?_
  refine wp_member (fun h => .unnamed hdel (.inr h)) fun rel_id hid => wp_iprint (wp_bind.mpr ?_)
  have one : ∀ d, Begun args
      ([(.get (api ++ "/releases/latest") token, r)] ++ [(.delete (releaseUrl rel_id) token, d)]) := by
    intro d
    by_cases hd : d.status = 204
    · have hdeleted : Talk args ([(.get (api ++ "/releases/latest") token, r)] ++
          [(.delete (releaseUrl rel_id) token, d)] ++ [(.delete (tagUrl tag) token, d)]) :=
        .deleted hdel hid htag hd
      exact hdeleted.begun (List.prefix_append [_, _] _)
    · exact (Talk.kept hdel hid hd).begun (List.prefix_refl _)
  refine wp_request rfl one fun d => ?_
  by_cases hd : d.status = 204
  · rw [if_pos hd]
    have both : ∀ d', Talk args ([(.get (api ++ "/releases/latest") token, r)] ++
        [(.delete (releaseUrl rel_id) token, d)] ++ [(.delete (tagUrl tag) token, d')]) := fun _ =>
      .deleted hdel hid htag hd
    refine wp_idle rfl fun _ => wp_ret.mpr ?_
    refine wp_request rfl (fun d' => (both d').begun (List.prefix_refl _)) fun d' => ?_
    split
    · exact wp_idle rfl fun _ => wp_ret.mpr (both d')
    · exact wp_dumps (fun _ => both d') fun _ _ => wp_fprint (both d')
  · rw [if_neg hd]
    have kept : Talk args ([(.get (api ++ "/releases/latest") token, r)] ++
        [(.delete (releaseUrl rel_id) token, d)]) := .kept hdel hid hd
    exact wp_dumps (fun _ => kept) fun _ _ => wp_fprint kept

/-! ## Publishing a release -/

theorem talk_getIsoFileName (site : Site) {f : String → Py α} {Q : α → List Event → Prop}
    (ht : Talk args h) (hf : ∀ VERSION, wp (talking args answers) (f VERSION) Q h) :
    wp (talking args answers) ((getIsoFileName site args).bind f) Q h := by
  refine wp_bind.mpr ((idle_of_plain (plain_getIsoFileName : Plain site args _) ht).mono ?_)
  rintro VERSION _ rfl
  exact hf VERSION

/-- What the created release is followed by. -/
theorem talk_uploadAssets (site : Site) (hpub : args.publishes) (hr : r.status = 201) :
    wp (talking args answers) (uploadAssets site token VERSION r) (fun _ => Talk args)
      [(create token VERSION body, r)] := by
  refine wp_member (fun h => .hidden hpub (.inl h)) fun url hurl => ?_
  refine wp_member (fun h => .hidden hpub (.inr (.inl h))) fun rel_id hid => ?_
  refine wp_member (fun h => .hidden hpub (.inr (.inr h))) fun html_url hhtml => ?_
  have hcreated : Created r url rel_id := ⟨hr, hurl, hid, by rw [hhtml]; rfl⟩
  refine wp_idle rfl fun isoasset => wp_idle rfl fun blocks => wp_idle_exec rfl (wp_idle rfl
    fun shaasset => wp_iprint ?_)
  generalize isoasset.text.getD "" = image, shaasset.text.getD "" = sum
  have hsent : ∀ iso sha, Begun args ([(create token VERSION body, r)] ++
      [(sendIso token VERSION url image, iso)] ++ [(sendSha token VERSION url sum, sha)]) := by
    intro iso sha
    by_cases hiso : iso.status = 201 ∨ iso.json = none
    · exact (Talk.sent hpub hcreated hiso).begun (List.prefix_refl _)
    · have hiso := not_or.mp hiso
      have hback : Talk args ([(create token VERSION body, r), (sendIso token VERSION url image, iso),
          (sendSha token VERSION url sum, sha)] ++ [(.delete (releaseUrl rel_id) token, sha),
          (.delete (tagUrl VERSION) token, sha)]) :=
        .withdrawn hpub hcreated hiso.1 (Option.isSome_iff_ne_none.mpr hiso.2)
      exact hback.begun (List.prefix_append [_, _, _] _)
  refine wp_request rfl (fun iso => ?_) fun iso => ?_
  · obtain ⟨l, hl, hpre⟩ := hsent iso iso
    exact ⟨l, hl, (List.prefix_append _ _).trans hpre⟩
  refine wp_request_exec rfl (hsent iso) fun sha => ?_
  by_cases hiso : iso.status = 201
  · rw [if_pos hiso]
    exact wp_idle rfl fun _ => wp_ret.mpr (.sent hpub hcreated (.inl hiso))
  rw [if_neg hiso]
  refine wp_dumps (fun hjson => .sent hpub hcreated (.inr hjson)) fun hjson dump => ?_
  have hback : ∀ d d', Talk args ([(create token VERSION body, r)] ++
      [(sendIso token VERSION url image, iso)] ++ [(sendSha token VERSION url sum, sha)] ++
        [(.delete (releaseUrl rel_id) token, d)] ++ [(.delete (tagUrl VERSION) token, d')]) :=
    fun _ _ => .withdrawn hpub hcreated hiso hjson
  refine wp_iprint (wp_request_exec rfl (fun d => ?_) fun d => ?_)
  · exact (hback d d).begun (List.prefix_append _ _)
  refine wp_request_exec rfl (fun d' => (hback d d').begun (List.prefix_refl _)) fun d' => ?_
  exact wp_iprint (wp_sysExit (hback d d'))

theorem begun_create (hpub : args.publishes) (r : Answer) :
    Begun args [(create token VERSION body, r)] := by
  by_cases hr : r.status = 201
  swap
  · exact (Talk.refused hpub hr).begun (List.prefix_refl _)
  by_cases hhidden : r.get "upload_url" = none ∨ r.get "id" = none ∨ r.get "html_url" = none
  · exact (Talk.hidden hpub hhidden).begun (List.prefix_refl _)
  obtain ⟨hurl, hid, hhtml⟩ := not_or.mp hhidden |>.imp_right not_or.mp
  obtain ⟨url, hurl⟩ := Option.ne_none_iff_exists'.mp hurl
  obtain ⟨rel_id, hid⟩ := Option.ne_none_iff_exists'.mp hid
  have hcreated : Created r url rel_id := ⟨hr, hurl, hid, Option.isSome_iff_ne_none.mpr hhtml⟩
  exact (Talk.sent hpub hcreated (.inl hr) : Talk args [_, (sendIso token VERSION url "", r),
    (sendSha token VERSION url "", r)]).begun
    (List.prefix_append [_] _)

theorem talk_release (site : Site) (hpub : args.publishes) :
    wp (talking args answers) (release site args) (fun _ => Talk args) [] := by
  refine wp_iprint (talk_getGHAuthHeader .silent fun token => wp_iprint ?_)
  refine talk_getIsoFileName site .silent fun VERSION => wp_idle rfl fun there => ?_
  split
  · exact wp_fprint .silent
  refine wp_bind.mpr ((idle_of_plain (plain_releaseNotes : Plain site args _) .silent).mono ?_)
  rintro body _ rfl
  refine wp_iprint (wp_iprint (wp_request rfl (begun_create hpub) fun r => ?_))
  split
  · next hr =>
    refine wp_bind.mpr ((talk_uploadAssets site hpub hr).mono fun _ h ht => ?_)
    exact wp_idle rfl fun _ => wp_ret.mpr ht
  · next hr =>
    have refused : Talk args ([] ++ [(create token VERSION body, r)]) := .refused hpub hr
    exact wp_dumps (fun _ => refused) fun _ dump => wp_bind.mpr (wp_fprint refused)

theorem talk_sh {f : PUnit → Py α} {Q : α → List Event → Prop} (hc : Tool site args c)
    (ht : Talk args h)
    (hf : wp (talking args answers) (f ⟨⟩) Q h) :
    wp (talking args answers) ((sh verbose c).bind f) Q h := by
  refine wp_bind.mpr ((idle_of_plain (plain_sh verbose hc) ht).mono ?_)
  rintro _ _ rfl
  exact hf

/-- A build asks nothing of GitHub before its image is there. -/
theorem talk_buildIso (site : Site) (hdel : args.delete_latest = false) :
    wp (talking args answers) (buildIso site args) (fun _ => Talk args) [] := by
  unfold buildIso
  split
  · exact wp_iprint (wp_idle rfl fun rc => wp_sysExit .silent)
  refine wp_iprint (wp_idle_exec rfl (talk_sh .container .silent (wp_idle rfl fun time => wp_iprint ?_)))
  refine talk_getIsoFileName site .silent fun VERSION => wp_idle rfl fun there => ?_
  split
  · exact wp_fprint .silent
  have hrelease : wp (talking args answers) (Script.when args.release (release site args))
      (fun _ => Talk args) [] := by
    cases hrel : args.release with
    | true => exact talk_release site (by simp [Args.publishes, hdel, hrel])
    | false => exact wp_ret.mpr .silent
  refine wp_bind.mpr ((idle_of_plain (plain_sendTo VERSION) .silent).mono ?_)
  rintro _ _ rfl
  exact hrelease

theorem talk_build (site : Site) (args : Args) :
    wp (talking args answers) (build site args) (fun _ => Talk args) [] := by
  have finish : ∀ {h}, Talk args h → wp (talking args answers) (do
      Script.when args.remove do
        iprint "Auto-removal of created ISO requested, removing ..."
        let VERSION ← getIsoFileName site args
        exec (.remove (isoName VERSION))
      iprint "Work completed") (fun _ => Talk args) h := by
    intro h ht
    refine wp_bind.mpr ?_
    cases args.remove with
    | true =>
      refine wp_iprint (talk_getIsoFileName site ht fun VERSION => wp_idle rfl fun _ => wp_ret.mpr ?_)
      exact wp_idle rfl fun _ => wp_ret.mpr ht
    | false => exact wp_ret.mpr (wp_idle rfl fun _ => wp_ret.mpr ht)
  refine wp_bind.mpr ((idle_of_plain (plain_buildImage : Plain site args _) .silent).mono ?_)
  rintro _ _ rfl
  refine wp_bind.mpr ((idle_of_plain (plain_fixPerms : Plain site args _) .silent).mono ?_)
  rintro _ _ rfl
  refine wp_bind.mpr ?_
  cases hdel : args.delete_latest with
  | true =>
    refine wp_bind.mpr ((talk_deleteRelease hdel).mono fun _ h ht => ?_)
    exact wp_iprint (wp_sysExit ht)
  | false =>
    refine wp_ret.mpr ?_
    dsimp only
    split
    · next hrel =>
      exact wp_bind.mpr ((talk_release site (by simp [Args.publishes, hdel, hrel])).mono fun _ _ =>
        finish)
    split
    · cases args.build_iso with
      | true => exact wp_bind.mpr ((talk_buildIso site hdel).mono fun _ _ => finish)
      | false => exact finish .silent
    · exact wp_bind.mpr ((talk_buildIso site hdel).mono fun _ _ => finish)

end

/-- The requests of a trace. -/
def requests (t : List Event) : List Event := t.filter (Act.isRequest ·.1)

theorem begun_of_run (hr : Run (build site args) t q) : Begun args (requests t) := by
  induction t using List.reverseRecOn generalizing q with
  | nil => exact (Talk.silent : Talk args []).begun (List.prefix_refl _)
  | append_singleton pre e ih =>
    obtain ⟨c, r⟩ := e
    obtain ⟨k, hk, -⟩ := Run.split hr
    have hlast : requests (pre ++ [(c, r)]) =
        if c.isRequest then requests pre ++ [(c, r)] else requests pre := by
      rw [requests, List.filter_append]
      cases hc : c.isRequest <;> simp [requests, hc]
    rw [hlast]
    split
    · next hc =>
      have hwp : wp (talking args fun _ _ => True) (build site args) (fun _ => Talk args) [] :=
        talk_build site args
      exact hwp.guard hr (path_record_iff.mpr ⟨rfl, fun _ _ => trivial⟩) hc r
    · exact ih hk

theorem talk_of_ended (hr : Run (build site args) t q) (hq : q.Ended)
    (hcalm : ∀ e ∈ t, e.2.raised = none) : Talk args (requests t) := by
  have hwp : wp (talking args fun _ r => r.raised = none) (build site args) (fun _ => Talk args) [] :=
    talk_build site args
  have hat := hwp t q (requests t) hr (path_record_iff.mpr ⟨rfl, hcalm⟩)
  cases q with
  | ret => exact hat
  | exit => exact hat fun _ _ h => h
  | call | loop => cases hq

/-- The requests of any run are the beginning of one conversation, and a run that ends without an
exception has had a whole one. -/
theorem talk_of_run (hr : Run (build site args) t q) : Begun args (requests t) ∧
    (q.Ended → (∀ e ∈ t, e.2.raised = none) → Talk args (requests t)) :=
  ⟨begun_of_run hr, talk_of_ended hr⟩

/-! ## A release that is taken back -/

/-- `build.py --release-only` -/
def publishing : Args := ⟨false, false, false, "", false, true, false, "", false, false⟩

/-- An empty image in the directory `/hassio-installer`. -/
def emptyImage : Site :=
  ⟨"/hassio-installer", fun _ => "e3b0c44298fc1c149afbf4c8996fb92427ae41e4649b934ca495991b7852b855"⟩

/-- GitHub creates the release, does not take the image, and deletes what it is asked to. -/
def overloaded : Act → Answer
  | .getenv _ => ⟨none, 0, true, some "token", none⟩
  | .read path => ⟨none, 0, true, some (if path = installerPath emptyImage then
      "export INSTALLER_VERSION=\"v0.1.0\"\n" else ""), none⟩
  | .post _ _ (.json _) => ⟨none, 201, true, none, some ⟨[("upload_url",
      "https://uploads.github.com/repos/maretodoric/hassio-installer/releases/1/assets\x7b?name,label\x7d"),
      ("id", "1"), ("html_url",
      "https://github.com/maretodoric/hassio-installer/releases/tag/v0.1.0")], ""⟩⟩
  | .post .. => ⟨none, 503, true, none, some ⟨[], ""⟩⟩
  | .delete .. => ⟨none, 204, true, none, none⟩
  | _ => ⟨none, 0, true, none, none⟩

def takenBack : List Event × Py PUnit := play (fun _ => overloaded) 200 [] (build emptyImage publishing)

theorem talk_of_run_back : Begun publishing (requests takenBack.1) ∧
    (takenBack.2.Ended → (∀ e ∈ takenBack.1, e.2.raised = none) →
      Talk publishing (requests takenBack.1)) :=
  talk_of_run (run_play _ _ _)

end HassioInstaller.Release
