import HassioInstaller.Release.Requests
import Mathlib.Data.Set.Insert

/-! # Releases without an image

What the requests of a run do to the releases on GitHub, which is a parameter here: it does what it is
asked to or nothing, and an answer of success says that it has. The releases of before are kept, and the
new one is left without its image only if the image was not taken and the release was not withdrawn: its
withdrawal failed, or the answer to the image was no JSON, which ends the script before the withdrawal. -/

namespace HassioInstaller.Release
open Script

/-- A release on GitHub. -/
structure Rel where
  id : String
  tag : String
  upload_url : String

/-- The releases, and where assets have been taken. -/
structure Shelf where
  releases : Set Rel
  assets : Set String

namespace Shelf

/-- The image of a release is there. -/
def HasIso (g : Shelf) (x : Rel) : Prop := assetUrl x.upload_url x.tag ∈ g.assets

/-- The release has an id of its own, and nothing has been sent to it. -/
structure New (g : Shelf) (x : Rel) : Prop where
  own : ∀ y ∈ g.releases, y.id ≠ x.id
  bare : ¬ g.HasIso x

/-- Every release that has come has its image. -/
def Whole (g g' : Shelf) : Prop := ∀ x ∈ g'.releases, x ∈ g.releases ∨ g'.HasIso x

end Shelf

def Act.changes : Act → Bool
  | .post .. | .delete .. => true
  | _ => false

/-- The success of a request. -/
def Act.done : Act → Answer → Prop
  | .post .., r => r.status = 201
  | .delete .., r => r.status = 204
  | _, _ => True

/-- What GitHub is relied on for: `Next` is what an answered call may have made of the releases, and
nobody else changes them meanwhile. -/
structure GitHub (Next : Shelf → Act → Answer → Shelf → Prop) : Prop where
  idle : Next g a r g' → a.changes = false → g' = g
  creates : Next g (create token VERSION body) r g' → ¬ r.status = 201 ∧ g' = g ∨
    ∃ x, g.New x ∧ x.tag = VERSION ∧ (r.status = 201 → Created r x.upload_url x.id) ∧
      g' = ⟨insert x g.releases, g.assets⟩
  takes : Next g (.post url token (.data type content)) r g' →
    ¬ r.status = 201 ∧ g' = g ∨ g' = ⟨g.releases, insert url g.assets⟩
  deletes : Next g (.delete url token) r g' →
    ¬ r.status = 204 ∧ g' = g ∨ g' = ⟨{x ∈ g.releases | releaseUrl x.id ≠ url}, g.assets⟩

/-- A request that is not answered with success has done nothing. -/
def Candid (Next : Shelf → Act → Answer → Shelf → Prop) : Prop :=
  ∀ g a r g', Next g a r g' → ¬ a.done r → g' = g

/-- No release was refused. -/
def Accepted (t : List Event) : Prop :=
  ∀ token VERSION body r, (create token VERSION body, r) ∈ t → r.status = 201

/-- Where the image of a created release was not taken, that release was withdrawn. -/
def Recovered (t : List Event) : Prop :=
  ∀ token VERSION body r url rel_id image iso, (create token VERSION body, r) ∈ t →
    Created r url rel_id → (sendIso token VERSION url image, iso) ∈ t → ¬ iso.status = 201 →
    ∃ d, (.delete (releaseUrl rel_id) token, d) ∈ t ∧ d.status = 204

theorem releaseUrl_injective : Function.Injective releaseUrl := by
  intro a b h
  have hlist := congrArg String.toList h
  simp only [releaseUrl, String.toList_append] at hlist
  exact String.toList_injective (List.append_cancel_left hlist)

theorem tagUrl_ne (rel_id tag : String) : releaseUrl rel_id ≠ tagUrl tag := by
  intro h
  have hlist := congrArg String.toList h
  simp only [releaseUrl, tagUrl, String.toList_append, List.append_assoc] at hlist
  have hhead := congrArg (fun l => l[1]?) (List.append_cancel_left hlist)
  simp at hhead

theorem sha_ne (url : String) : url ≠ url ++ ".sha256" := by
  intro h
  have hlen := congrArg List.length (congrArg String.toList h)
  simp at hlen

section
variable {Next : Shelf → Act → Answer → Shelf → Prop} {g g' : Shelf}

/-- Only the requests have to do with the releases. -/
theorem GitHub.path_requests (hN : GitHub Next) (hp : Path Next g t g') :
    Path Next g (requests t) g' := by
  induction hp with
  | nil => exact .nil
  | @cons g c r g₁ t g' hn _ ih =>
    cases hc : c.isRequest with
    | true => simpa [requests, hc] using Path.cons hn ih
    | false =>
      have hidle : c.changes = false := by cases c <;> first | rfl | cases hc
      obtain rfl := hN.idle hn hidle
      simpa [requests, hc] using ih

/-- A release that is answered 201 is there, and the answer names it. -/
theorem GitHub.created (hN : GitHub Next) (hn : Next g (create token VERSION body) r g')
    (hr : Created r url rel_id) :
    g.New ⟨rel_id, VERSION, url⟩ ∧ g' = ⟨insert ⟨rel_id, VERSION, url⟩ g.releases, g.assets⟩ := by
  rcases hN.creates hn with ⟨h, -⟩ | ⟨⟨id, tag, upload_url⟩, hnew, rfl, hsame, rfl⟩
  · exact absurd hr.status h
  · have hsame := hsame hr.status
    obtain rfl : upload_url = url := Option.some.inj (hsame.upload_url.symm.trans hr.upload_url)
    obtain rfl : id = rel_id := Option.some.inj (hsame.id.symm.trans hr.id)
    exact ⟨hnew, rfl⟩

/-- The answer of a release that was created has its members. -/
theorem GitHub.hidden (hN : GitHub Next) (hn : Next g (create token VERSION body) r g')
    (h : r.get "upload_url" = none ∨ r.get "id" = none ∨ r.get "html_url" = none) :
    ¬ r.status = 201 := by
  intro hr
  rcases hN.creates hn with ⟨hno, -⟩ | ⟨x, -, -, hcreated, -⟩
  · exact hno hr
  have hcreated := hcreated hr
  rcases h with h | h | h
  · cases hcreated.upload_url.symm.trans h
  · cases hcreated.id.symm.trans h
  · have hhtml := hcreated.html_url
    rw [h] at hhtml
    cases hhtml

/-- The assets once both were sent: the image is among them if it was taken, and only then if GitHub is
candid. -/
theorem GitHub.sent (hN : GitHub Next)
    (hp : Path Next g [(sendIso token VERSION url image, iso), (sendSha token VERSION url sum, sha)] g')
    (hbare : assetUrl url VERSION ∉ g.assets) : g'.releases = g.releases ∧
      (iso.status = 201 → assetUrl url VERSION ∈ g'.assets) ∧
      (Candid Next → ¬ iso.status = 201 → assetUrl url VERSION ∉ g'.assets) := by
  cases hp with
  | @cons _ _ _ g₁ _ _ hiso hp =>
  cases hp with
  | cons hsha hp =>
  cases hp
  have hmem : assetUrl url VERSION ∈ g'.assets ↔ assetUrl url VERSION ∈ g₁.assets := by
    rcases hN.takes hsha with ⟨-, rfl⟩ | rfl
    · exact Iff.rfl
    · exact Set.mem_insert_iff.trans (or_iff_right (sha_ne _))
  have hrel : g'.releases = g₁.releases := by
    rcases hN.takes hsha with ⟨-, rfl⟩ | rfl <;> rfl
  rw [hmem, hrel]
  rcases hN.takes hiso with ⟨hno, rfl⟩ | rfl
  · exact ⟨rfl, fun hyes => absurd hyes hno, fun _ _ => hbare⟩
  · refine ⟨rfl, fun _ => Set.mem_insert _ _, fun hcandid hno => ?_⟩
    rw [hcandid _ _ _ _ hiso hno]
    exact hbare

/-- The tag of a release is deleted without an effect on the releases. -/
theorem GitHub.deleteTag (hN : GitHub Next) (hn : Next g (.delete (tagUrl tag) token) d g') :
    g' = g := by
  rcases hN.deletes hn with ⟨-, rfl⟩ | rfl
  · rfl
  · have hall : {x ∈ g.releases | releaseUrl x.id ≠ tagUrl tag} = g.releases :=
      Set.sep_eq_self_iff_mem_true.mpr fun x _ => tagUrl_ne x.id tag
    rw [hall]

/-- The releases once a new one was to be withdrawn. -/
theorem GitHub.withdrawn (hN : GitHub Next) {R : Set Rel} (hrel : g.releases = insert x R)
    (hown : ∀ y ∈ R, y.id ≠ x.id)
    (hp : Path Next g [(.delete (releaseUrl x.id) token, d), (.delete (tagUrl tag) token, d')] g') :
    R ⊆ g'.releases ∧ (d.status = 204 → g'.releases = R) ∧
      (Candid Next → ¬ d.status = 204 → g' = g) := by
  cases hp with
  | cons hd hp =>
  cases hp with
  | cons htag hp =>
  cases hp
  obtain rfl := hN.deleteTag htag
  have hrest : {y ∈ insert x R | releaseUrl y.id ≠ releaseUrl x.id} = R := by
    ext y
    constructor
    · rintro ⟨rfl | hy, hne⟩
      · exact absurd rfl hne
      · exact hy
    · exact fun hy => ⟨.inr hy, fun h => hown y hy (releaseUrl_injective h)⟩
  refine ⟨?_, ?_, fun hcandid hno => hcandid _ _ _ _ hd hno⟩
  · rcases hN.deletes hd with ⟨-, rfl⟩ | rfl
    · exact hrel ▸ Set.subset_insert _ _
    · exact (hrel ▸ hrest).superset
  · intro hyes
    rcases hN.deletes hd with ⟨hno, -⟩ | rfl
    · exact absurd hyes hno
    · exact hrel ▸ hrest

end

/-! ## A conversation -/

theorem recovered_of_none (h : ∀ e ∈ t, ∀ token VERSION url image,
    e.1 ≠ sendIso token VERSION url image) : Recovered t :=
  fun _ _ _ _ _ _ _ _ _ _ hmem => absurd rfl (h _ hmem _ _ _ _)

theorem create_ne_data : create token VERSION body ≠ .post url token' (.data type content) := by
  simp [create]

theorem recovered_create : Recovered [(create token VERSION body, r)] := by
  refine recovered_of_none fun e he _ _ _ _ => ?_
  rw [List.mem_singleton.mp he]
  exact create_ne_data

/-- The two assets and what they are followed by. -/
theorem recovered_sent (hr : Created r url rel_id) {rest : List Event}
    (hrest : ∀ e ∈ rest, ∃ url token, e.1 = .delete url token) :
    Recovered ((create token VERSION body, r) :: (sendIso token VERSION url image, iso) ::
      (sendSha token VERSION url sum, sha) :: rest) ↔
    (iso.status = 201 ∨ ∃ d, (.delete (releaseUrl rel_id) token, d) ∈ rest ∧ d.status = 204) := by
  constructor
  · intro h
    refine or_iff_not_imp_left.mpr fun hiso => ?_
    have hsent : (sendIso token VERSION url image, iso) ∈ (create token VERSION body, r) ::
        (sendIso token VERSION url image, iso) :: (sendSha token VERSION url sum, sha) :: rest :=
      List.mem_cons_of_mem _ List.mem_cons_self
    obtain ⟨d, hmem, hd⟩ := h _ _ _ _ _ _ _ _ List.mem_cons_self hr hsent hiso
    exact ⟨d, by simpa [create, sendIso, sendSha] using hmem, hd⟩
  · rintro h token' VERSION' body' r' url' rel_id' image' iso' hcreate hr' hsend hiso'
    have hdelete : ∀ {e : Event} {url token content}, e ∈ rest → e.1 ≠ .post url token content := by
      intro e url token content he hpost
      obtain ⟨_, _, hdel⟩ := hrest e he
      rw [hpost] at hdel
      cases hdel
    have hcreate : (create token' VERSION' body', r') = (create token VERSION body, r) := by
      rcases List.mem_cons.mp hcreate with h | hmem
      · exact h
      rcases List.mem_cons.mp hmem with h | hmem
      · exact absurd (Prod.mk.inj h).1 create_ne_data
      rcases List.mem_cons.mp hmem with h | hmem
      · exact absurd (Prod.mk.inj h).1 create_ne_data
      · exact absurd rfl (hdelete hmem)
    have hiso : iso' = iso := by
      rcases List.mem_cons.mp hsend with h | hmem
      · exact absurd (Prod.mk.inj h).1.symm create_ne_data
      rcases List.mem_cons.mp hmem with h | hmem
      · exact (Prod.mk.inj h).2
      rcases List.mem_cons.mp hmem with h | hmem
      · simp [sendIso, sendSha] at h
      · exact absurd rfl (hdelete hmem)
    obtain ⟨hact, rfl⟩ := Prod.mk.inj hcreate
    obtain rfl : token' = token := (Act.post.inj hact).2.1
    obtain rfl : rel_id' = rel_id := Option.some.inj (hr'.id.symm.trans hr.id)
    subst hiso
    obtain ⟨d, hmem, hd⟩ := h.resolve_left hiso'
    refine ⟨d, ?_, hd⟩
    exact List.mem_cons_of_mem _ (List.mem_cons_of_mem _ (List.mem_cons_of_mem _ hmem))

/-- A release whose image was not taken is to be deleted, and the deletion of its tag is no such thing. -/
theorem recovered_withdrawn (hr : Created r url rel_id) (hiso : ¬ iso.status = 201) :
    Recovered [(create token VERSION body, r), (sendIso token VERSION url image, iso),
      (sendSha token VERSION url sum, sha), (.delete (releaseUrl rel_id) token, d),
      (.delete (tagUrl VERSION) token, d')] ↔ d.status = 204 := by
  rw [recovered_sent hr (by simp), or_iff_right hiso]
  constructor
  · rintro ⟨d₁, hmem, hd₁⟩
    rcases List.mem_cons.mp hmem with hc | hmem
    · rwa [(Prod.mk.inj hc).2] at hd₁
    · have hc := (Prod.mk.inj (List.mem_singleton.mp hmem)).1
      exact absurd (Act.delete.inj hc).1 (tagUrl_ne _ _)
  · exact fun hd => ⟨d, List.mem_cons_self, hd⟩

section
variable {Next : Shelf → Act → Answer → Shelf → Prop} {g g' : Shelf}

theorem whole_refl (h : g'.releases ⊆ g.releases) : g.Whole g' := fun _ hx => .inl (h hx)

/-- One release has come. -/
theorem whole_insert {x : Rel} (hnew : g.New x) (hrel : g'.releases = insert x g.releases) :
    g.Whole g' ↔ g'.HasIso x := by
  constructor
  · intro h
    have hx : x ∉ g.releases := fun hx => hnew.own x hx rfl
    exact (h x (hrel ▸ Set.mem_insert x _)).resolve_left hx
  · rintro hiso y hy
    rw [hrel] at hy
    rcases hy with rfl | hy
    · exact .inr hiso
    · exact .inl hy

/-- A release that is answered otherwise than 201 may be there all the same. -/
theorem GitHub.refused (hN : GitHub Next) (hr : ¬ r.status = 201)
    (hp : Path Next g [(create token VERSION body, r)] g') :
    g.releases ⊆ g'.releases ∧ (Candid Next → g.Whole g') := by
  cases hp with
  | cons hn hp =>
  cases hp
  refine ⟨?_, fun hcandid => ?_⟩
  · rcases hN.creates hn with ⟨-, rfl⟩ | ⟨x, -, -, -, rfl⟩
    · exact subset_rfl
    · exact Set.subset_insert _ _
  · rw [hcandid _ _ _ _ hn hr]
    exact whole_refl subset_rfl

/-- A release is created, is sent its image, and is withdrawn if need be. -/
theorem GitHub.published (hN : GitHub Next) (hr : Created r url rel_id) {rest : List Event}
    (hp : Path Next g ((create token VERSION body, r) :: (sendIso token VERSION url image, iso) ::
      (sendSha token VERSION url sum, sha) :: rest) g') :
    ∃ g₁, g.New ⟨rel_id, VERSION, url⟩ ∧ g₁.releases = insert ⟨rel_id, VERSION, url⟩ g.releases ∧
      (iso.status = 201 → g₁.HasIso ⟨rel_id, VERSION, url⟩) ∧
      (Candid Next → ¬ iso.status = 201 → ¬ g₁.HasIso ⟨rel_id, VERSION, url⟩) ∧
      Path Next g₁ rest g' := by
  cases hp with
  | cons hcreate hp =>
  obtain ⟨hnew, rfl⟩ := hN.created hcreate hr
  obtain ⟨g₁, hsent, hrest⟩ := Path.of_append (t := [(sendIso token VERSION url image, iso),
    (sendSha token VERSION url sum, sha)]) hp
  obtain ⟨hrel, htaken, hnot⟩ := hN.sent hsent hnew.bare
  exact ⟨g₁, hnew, hrel, htaken, hnot, hrest⟩

/-- What a whole conversation about publishing leaves. -/
theorem Talk.settled (hN : GitHub Next) (ht : Talk args l) (hdel : args.delete_latest = false)
    (hp : Path Next g l g') : g.releases ⊆ g'.releases ∧
      (Accepted l → Recovered l → g.Whole g') ∧ (Candid Next → (g.Whole g' ↔ Recovered l)) := by
  have refused : ∀ {token VERSION body r}, l = [(create token VERSION body, r)] →
      ¬ r.status = 201 → g.releases ⊆ g'.releases ∧
      (Accepted l → Recovered l → g.Whole g') ∧ (Candid Next → (g.Whole g' ↔ Recovered l)) := by
    rintro token VERSION body r rfl hr
    obtain ⟨hkept, hwhole⟩ := hN.refused hr hp
    exact ⟨hkept, fun h => absurd (h _ _ _ _ List.mem_cons_self) hr,
      fun hcandid => iff_of_true (hwhole hcandid) recovered_create⟩
  cases ht with
  | silent =>
    cases hp
    have hwhole : g.Whole g := whole_refl subset_rfl
    exact ⟨subset_rfl, fun _ _ => hwhole, fun _ =>
      iff_of_true hwhole (recovered_of_none fun e he => (List.not_mem_nil he).elim)⟩
  | unnamed h | kept h | deleted h => rw [hdel] at h; cases h
  | refused _ hr => exact refused rfl hr
  | @hidden token VERSION body r _ hhidden =>
    cases hp with
    | cons hn hrest => exact refused rfl (hN.hidden hn hhidden)
  | @sent r url rel_id token VERSION body image iso sum sha _ hcreated =>
    obtain ⟨g₁, hnew, hrel, htaken, hnot, hp⟩ := hN.published hcreated hp
    cases hp
    rw [whole_insert hnew hrel, recovered_sent hcreated fun e he => (List.not_mem_nil he).elim]
    have hnone : ¬ ∃ d : Answer, (Act.delete (releaseUrl rel_id) token, d) ∈ ([] : List Event) ∧
        d.status = 204 := fun ⟨_, hd, _⟩ => List.not_mem_nil hd
    rw [or_iff_left hnone]
    refine ⟨hrel ▸ Set.subset_insert _ _, fun _ => htaken, fun hcandid => ⟨fun h => ?_, htaken⟩⟩
    by_contra hiso
    exact hnot hcandid hiso h
  | @withdrawn r url rel_id token VERSION body image iso sum sha d d' _ hcreated hiso =>
    obtain ⟨g₁, hnew, hrel, -, hnot, hp⟩ := hN.published hcreated hp
    obtain ⟨hkept, hgone, hleft⟩ := hN.withdrawn hrel hnew.own hp
    rw [recovered_withdrawn hcreated hiso]
    have hwhole : d.status = 204 → g.Whole g' := fun hd => whole_refl (hgone hd).subset
    refine ⟨hkept, fun _ => hwhole, fun hcandid => ⟨fun h => ?_, hwhole⟩⟩
    by_contra hd
    obtain rfl := hleft hcandid hd
    exact hnot hcandid hiso ((whole_insert hnew hrel).mp h)

/-- At the end of a run that no exception ends, the releases of before are there. Every new one has its
image if no release was refused and each image that was not taken had its release withdrawn; and, if
what GitHub refuses is not done, just if each image that was not taken had its release withdrawn. -/
theorem released_iff_recovered (hN : GitHub Next) (hr : Run (build site args) t q) (hq : q.Ended)
    (hcalm : ∀ e ∈ t, e.2.raised = none) (hdel : args.delete_latest = false) (hp : Path Next g t g') :
    g.releases ⊆ g'.releases ∧
      (Accepted t → Recovered t → g.Whole g') ∧ (Candid Next → (g.Whole g' ↔ Recovered t)) := by
  have hmem : ∀ {a : Act} {r}, a.isRequest = true → ((a, r) ∈ requests t ↔ (a, r) ∈ t) := fun ha =>
    List.mem_filter.trans (and_iff_left ha)
  have hsettled := (talk_of_ended hr hq hcalm).settled hN hdel (hN.path_requests hp)
  have hacc : Accepted (requests t) ↔ Accepted t := by
    simp only [Accepted, create, hmem (a := .post ..) rfl]
  have hrec : Recovered (requests t) ↔ Recovered t := by
    simp only [Recovered, create, sendIso, hmem (a := .post ..) rfl, hmem (a := .delete ..) rfl]
  rwa [hacc, hrec] at hsettled

end

/-- GitHub creates releases and deletes them, but takes no images. -/
inductive Full : Shelf → Act → Answer → Shelf → Prop
  | idle : a.changes = false → Full g a r g
  | creates : g.New ⟨rel_id, p.tag_name, upload_url⟩ → Created r upload_url rel_id →
    Full g (.post url token (.json p)) r ⟨insert ⟨rel_id, p.tag_name, upload_url⟩ g.releases, g.assets⟩
  | takes : ¬ r.status = 201 → Full g (.post url token (.data type content)) r g
  | deletes : r.status = 204 →
    Full g (.delete url token) r ⟨{x ∈ g.releases | releaseUrl x.id ≠ url}, g.assets⟩

theorem github_full : GitHub Full where
  idle h hidle := by
    cases h with
    | idle => rfl
    | creates | takes | deletes => cases hidle
  creates h := by
    unfold create at h
    cases h with
    | idle hidle => cases hidle
    | creates hnew hcreated => exact .inr ⟨_, hnew, rfl, fun _ => hcreated, rfl⟩
  takes h := by
    cases h with
    | idle hidle => cases hidle
    | takes hno => exact .inl ⟨hno, rfl⟩
  deletes h := by
    cases h with
    | idle hidle => cases hidle
    | deletes => exact .inr rfl

theorem candid_full : Candid Full := by
  intro g a r g' h hno
  cases h with
  | idle | takes => rfl
  | creates _ hcreated => exact absurd hcreated.status hno
  | deletes hd => exact absurd hd hno

/-- The changes that GitHub is asked for when the release is taken back. -/
def backAndForth : List Event :=
  let release := overloaded (create "token" "v0.1.0" "")
  let url := "https://uploads.github.com/repos/maretodoric/hassio-installer/releases/1/assets\x7b?name,label\x7d"
  [(create "token" "v0.1.0" "", release),
    (sendIso "token" "v0.1.0" url "", ⟨none, 503, true, none, some ⟨[], ""⟩⟩),
    (sendSha "token" "v0.1.0" url "", ⟨none, 503, true, none, some ⟨[], ""⟩⟩),
    (.delete (releaseUrl "1") "token", ⟨none, 204, true, none, none⟩),
    (.delete (tagUrl "v0.1.0") "token", ⟨none, 204, true, none, none⟩)]

theorem requests_takenBack : requests takenBack.1 = backAndForth := by decide +kernel

/-- What is no request leaves this GitHub as it is. -/
theorem full_of_requests (hp : Path Full g (requests t) g') : Path Full g t g' := by
  induction t generalizing g with
  | nil => exact hp
  | cons e t ih =>
    cases hc : e.1.isRequest with
    | true =>
      have hp : Path Full g (e :: requests t) g' := by simpa [requests, hc] using hp
      cases hp with
      | cons hn hp => exact .cons hn (ih hp)
    | false =>
      have hidle : e.1.changes = false := by cases h : e.1 <;> first | rfl | (rw [h] at hc; cases hc)
      have hp : Path Full g (requests t) g' := by simpa [requests, hc] using hp
      exact .cons (.idle hidle) (ih hp)

theorem full_takenBack : ∃ g', Path Full ⟨∅, ∅⟩ takenBack.1 g' := by
  have hcreate : Full ⟨∅, ∅⟩ (create "token" "v0.1.0" "") (overloaded (create "token" "v0.1.0" "")) _ :=
    .creates ⟨fun _ hy => hy.elim, id⟩ ⟨rfl, rfl, rfl, rfl⟩
  have hp : Path Full ⟨∅, ∅⟩ backAndForth _ := .cons hcreate (.cons (.takes (by decide))
    (.cons (.takes (by decide)) (.cons (.deletes rfl) (.cons (.deletes rfl) .nil))))
  exact ⟨_, full_of_requests (requests_takenBack ▸ hp)⟩

theorem overloaded_calm : ∀ e ∈ takenBack.1, e.2.raised = none := by
  intro e he
  rw [play_answers overloaded 200 _ e he]
  obtain ⟨a, r⟩ := e
  cases a with
  | post _ _ b => cases b <;> rfl
  | _ => rfl

theorem released_iff_recovered_back : ∃ g', (Shelf.mk ∅ ∅).releases ⊆ g'.releases ∧
    (Accepted takenBack.1 → Recovered takenBack.1 → (Shelf.mk ∅ ∅).Whole g') ∧
      ((Shelf.mk ∅ ∅).Whole g' ↔ Recovered takenBack.1) :=
  let ⟨g', hp⟩ := full_takenBack
  have hboth := released_iff_recovered github_full (run_play _ _ _) (by decide +kernel) overloaded_calm
    rfl hp
  ⟨g', hboth.1, hboth.2.1, hboth.2.2 candid_full⟩

end HassioInstaller.Release
