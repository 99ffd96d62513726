import HassioInstaller.Installer.Leaving

/-! # What a run does to drives

The commands of a run that erase or write a drive, and the listing of its partitions, form a word of a
small language: one drive, prepared in one of four ways, and then the image. A run that is cut short has
got to some prefix of such a word. What a log collection does to the drives that `blkid` lists comes
after all that. -/

namespace HassioInstaller
open Installer

/-- The commands that erase or write a drive, and the listing that Quick Erase goes by. -/
def Cmd.works : Cmd → Bool
  | .partedPrint _ | .partedRm .. | .zeroFill .. | .writeImage .. | .securitySetPass _
  | .securityErase _ => true
  | _ => false

/-- What the dialog about flash drives does: the listing of all partitions, `eval` of their labels, and
the mounts, test files and log for them. -/
def Cmd.saves : Cmd → Bool
  | .blkid | .evalWords .. | .mountType .. | .touch _ | .copyLog .. => true
  | _ => false

/-- The commands that a run is described by. -/
def Cmd.deals (c : Cmd) : Bool := c.works || c.saves

/-- What a finished preparation of `disk` has done to it. -/
inductive Prepared (disk : String) : List Event → Prop
  | untouched : Prepared disk []
  /-- Quick Erase, with the partitions that were listed -/
  | quick : es.map Prod.fst = (partNumbers r.out).map (.partedRm disk) →
    Prepared disk ((.partedPrint disk, r) :: es)
  | zeroed : Prepared disk [(.zeroFill disk size msg, r)]
  | secure : Prepared disk [(.securitySetPass disk, r), (.securityErase disk, r')]

/-- A beginning of the preparation of one drive followed by the image for it. -/
def Begun (h : List Event) : Prop :=
  ∃ disk url l r, Prepared disk l ∧ h <+: l ++ [(.writeImage url disk, r)]

theorem Prepared.begun (hp : Prepared disk l) (hpre : h <+: l) : Begun h :=
  ⟨disk, "", l, ⟨0, ""⟩, hp, hpre.trans (List.prefix_append l _)⟩

/-- A beginning, and then what is done for the log. -/
def Said (h : List Event) : Prop := ∃ w f, h = w ++ f ∧ Begun w ∧ ∀ e ∈ f, e.1.saves

theorem Begun.said (hw : Begun h) : Said h :=
  ⟨h, [], (List.append_nil h).symm, hw, fun _ he => (List.not_mem_nil he).elim⟩

theorem Said.concat (hh : Said h) (hc : c.saves) (r : Answer) : Said (h ++ [(c, r)]) := by
  obtain ⟨w, f, rfl, hw, hf⟩ := hh
  refine ⟨w, f ++ [(c, r)], List.append_assoc w f _, hw, fun e he => ?_⟩
  rcases List.mem_append.mp he with he | he
  · exact hf e he
  · rwa [List.mem_singleton.mp he]

theorem begun_nil : Begun [] := (Prepared.untouched : Prepared "" []).begun List.nil_prefix

/-- Some of the listed partitions are gone. -/
theorem begun_quick {r : Answer} (hall : partNumbers r.out = gone ++ rest)
    (hes : es.map Prod.fst = gone.map (.partedRm disk)) : Begun ((.partedPrint disk, r) :: es) := by
  have hquick : Prepared disk
      ((.partedPrint disk, r) :: (es ++ rest.map fun part => (.partedRm disk part, r))) := by
    refine .quick ?_
    rw [List.map_append, hes, List.map_map, hall, List.map_append]
    rfl
  exact hquick.begun (List.prefix_append (_ :: es) _)

namespace Installer
open Script

/-- The record of what is done to drives. -/
abbrev workContract : Contract (List Event) Cmd Answer :=
  .record Cmd.deals (fun _ _ => True)
    (fun h c => ∀ r, Said (if c.deals then h ++ [(c, r)] else h)) fun _ => True

section
variable {Q : α → List Event → Prop} {k : Answer → Sh α}

theorem wp_idle (hc : c.deals = false) (hh : Begun h) (hk : ∀ r, wp workContract (k r) Q h) :
    wp workContract (.call c k) Q h :=
  (wp_record_skip hc).mpr ⟨fun _ => (by rw [hc]; exact hh.said), fun r _ => hk r⟩

theorem wp_work (hc : c.works = true) (hh : ∀ r, Begun (h ++ [(c, r)]))
    (hk : ∀ r, wp workContract (k r) Q (h ++ [(c, r)])) : wp workContract (.call c k) Q h := by
  have hdeals : c.deals = true := by rw [Cmd.deals, hc, Bool.true_or]
  exact (wp_record_keep hdeals).mpr ⟨fun r => by rw [hdeals]; exact (hh r).said, fun r _ => hk r⟩

theorem idle_of_only {p : Sh α} {B : α → Prop} (hp : Only (fun c => c.deals = false) p B)
    (hh : Begun h) : wp workContract p (fun a h' => B a ∧ h' = h) h :=
  hp.skip (fun c hc => ⟨hc, fun _ => by rw [hc]; exact hh.said⟩) trivial

/-- Where no drive is worked on any more logs may be collected. -/
theorem said_of_only {p : Sh α} {B : α → Prop} (hp : Only (fun c => c.works = false) p B)
    (hh : Begun h) : wp workContract p (fun a _ => B a) h := by
  have keeps : ∀ {c h r}, Said h → c.works = false → Said (if c.deals then h ++ [(c, r)] else h) := by
    intro c h r hh hc
    rw [Cmd.deals, hc, Bool.false_or]
    split
    · next hsaves => exact hh.concat hsaves r
    · exact hh
  refine (hp.frame Said (fun hh hc r => keeps hh hc) ?_ (fun _ _ => trivial) hh.said).mono
    fun _ _ ha => ha.1
  rintro h c r _ hh hc ⟨-, rfl⟩
  exact keeps hh hc

end

theorem Cmd.choosing.works {c : Cmd} (h : c.choosing) : c.works = false := by
  cases c <;> first | rfl | cases h

theorem Cmd.kills.deals {c : Cmd} (h : c.kills) : c.deals = false := by
  cases c <;> first | rfl | cases h

theorem Cmd.kills.works {c : Cmd} (h : c.kills) : c.works = false := by
  cases c <;> first | rfl | cases h

theorem work_reboot (env : Env) (msg : String) (hh : Begun h) :
    wp workContract (reboot env msg) (fun _ _ => False) h :=
  said_of_only ((only_reboot env msg).weaken fun _ hc =>
    Cmd.choosing.works (Cmd.passiveOrReboot.choosing hc)) hh

theorem frame_idle (env : Env) :
    Frame workContract env (fun c => c.deals = false) (· = []) where
  guard c h hc hh _ := by
    rw [hc, hh]
    exact begun_nil.said
  next := by
    rintro c _ r _ hc rfl ⟨-, rfl⟩
    dsimp only
    rw [hc]
    rfl
  leaves msg _ hh := work_reboot env msg (hh ▸ begun_nil)
  exits _ _ _ := trivial

/-! ## Preparing a drive -/

/-- The partitions that were listed go one after the other. -/
theorem work_removeEach (r : Answer) (gone rest : List String) (es : List Event)
    (hall : partNumbers r.out = gone ++ rest) (hes : es.map Prod.fst = gone.map (.partedRm disk)) :
    wp workContract (Script.each rest fun part => do
      exec (.log ("Erasing partition " ++ part ++ " of disk " ++ disk))
      exec (.partedRm disk part)) (fun _ h => Prepared disk h) ((.partedPrint disk, r) :: es) := by
  induction rest generalizing gone es with
  | nil =>
    rw [List.append_nil] at hall
    exact wp_ret.mpr (.quick (hall ▸ hes))
  | cons part rest ih =>
    have hpart : ∀ r', (es ++ [(Cmd.partedRm disk part, r')]).map Prod.fst =
        (gone ++ [part]).map (.partedRm disk) := by
      intro r'
      rw [List.map_append, List.map_append, hes]
      rfl
    have hrest : partNumbers r.out = gone ++ [part] ++ rest := by rw [hall, List.append_cons]
    refine wp_bind.mpr (wp_idle rfl (begun_quick hall hes) fun _ => ?_)
    refine wp_work rfl (fun r' => begun_quick hrest (hpart r')) fun r' => ?_
    exact wp_ret.mpr (ih _ _ hrest (hpart r'))

theorem work_quickErase (disk : String) :
    wp workContract (quickErase disk) (fun _ h => Prepared disk h) [] := by
  exact wp_work rfl (fun r => begun_quick (List.nil_append _).symm rfl) fun r =>
    work_removeEach r [] _ [] rfl rfl

theorem work_fullErase (disk msg : String) :
    wp workContract (fullErase disk msg) (fun _ h => Prepared disk h) [] := by
  refine wp_idle rfl begun_nil fun _ => wp_idle rfl begun_nil fun size => ?_
  exact wp_work rfl (fun r => Prepared.zeroed.begun (List.prefix_refl _)) fun r =>
    wp_ret.mpr .zeroed

/-- `_secure_erase` has prepared the drive if it returns 0, and has done nothing to it otherwise. -/
def Returned (disk : String) (rc : Nat) (h : List Event) : Prop :=
  (rc = 0 → Prepared disk h) ∧ (rc ≠ 0 → h = [])

theorem work_secureEraseSsd (disk : String) :
    wp workContract (secureEraseSsd disk) (Returned disk) [] := by
  have hset : ∀ r, Begun [(.securitySetPass disk, r)] := by
    intro r
    have hsecure : Prepared disk ([(.securitySetPass disk, r)] ++ [(.securityErase disk, r)]) :=
      .secure
    exact hsecure.begun (List.prefix_append [_] _)
  refine wp_idle rfl begun_nil fun _ => wp_idle rfl begun_nil fun _ => ?_
  refine wp_work rfl hset fun r => ?_
  refine wp_bind.mpr (wp_ret.mpr (wp_bind.mpr (wp_ret.mpr (wp_bind.mpr ?_))))
  refine (idle_of_only (only_isok (fun _ => rfl) 0) (hset r)).mono ?_
  rintro prepared _ ⟨hp, rfl⟩
  rw [if_neg (not_not.mpr (hp.mpr rfl))]
  have herased : ∀ r', Begun ([(.securitySetPass disk, r)] ++ [(.securityErase disk, r')]) :=
    fun r' => Prepared.secure.begun (List.prefix_refl _)
  refine wp_work rfl herased fun r' => ?_
  refine wp_idle rfl (herased r') fun _ => wp_idle rfl (herased r') fun _ =>
    wp_idle rfl (herased r') fun _ => wp_idle rfl (herased r') fun _ => wp_ret.mpr ?_
  exact ⟨fun _ => .secure, fun h => absurd rfl h⟩

theorem work_fallbackChoice (env : Env) (disk opt msg : String) (hrc : rc ≠ 0) {rest : Sh Nat} :
    wp workContract (if opt = "1" then return rc
      else if opt = "2" then do
        quickErase disk
        return 0
      else do
        reboot env msg
        rest) (Returned disk) [] := by
  split
  · exact wp_ret.mpr ⟨fun h => absurd h hrc, fun _ => rfl⟩
  split
  · exact wp_bind.mpr ((work_quickErase disk).mono fun _ h hp => wp_ret.mpr
      ⟨fun _ => hp, fun h => absurd rfl h⟩)
  · exact (frame_idle env).reboot msg rfl

theorem work_secureErase (env : Env) (disk : String) :
    wp workContract (secureErase env disk) (Returned disk) [] := by
  have isok : ∀ st, wp workContract (isok st) (fun _ h => h = []) [] := fun st =>
    (idle_of_only (only_isok (fun _ => rfl) st) begun_nil).mono fun _ _ ha => ha.2
  have idle : ∀ {α c} {k : Answer → Sh α} {Q}, c.deals = false →
      (∀ r, wp workContract (k r) Q []) → wp workContract (.call c k) Q [] := fun hc hk =>
    wp_idle hc begun_nil hk
  unfold secureErase secureEraseNvme
  split
  · exact idle rfl fun _ => idle rfl fun r => idle rfl fun _ =>
      work_fallbackChoice env disk _ _ (by decide)
  refine idle rfl fun _ => idle rfl fun frozen => ?_
  rw [ret_bind, bind_eq, wp_bind]
  refine (isok _).mono ?_
  rintro st _ rfl
  split
  · exact work_secureEraseSsd disk
  refine idle rfl fun _ => idle rfl fun r => ?_
  rw [ret_bind, bind_eq, wp_bind]
  refine (isok _).mono ?_
  rintro agreed _ rfl
  split
  · refine idle rfl fun _ => idle rfl fun _ => idle rfl fun _ => idle rfl fun _ =>
      idle rfl fun frozen => ?_
    rw [ret_bind, bind_eq, wp_bind]
    refine (isok _).mono ?_
    rintro st _ rfl
    split
    · exact work_secureEraseSsd disk
    · exact idle rfl fun _ => idle rfl fun r => idle rfl fun _ =>
        work_fallbackChoice env disk _ _ (by decide)
  · exact idle rfl fun _ => (frame_idle env).reboot _ rfl

theorem work_eraseWith (env : Env) (disk FORMAT : String) :
    wp workContract (eraseWith env disk FORMAT) (fun _ h => Prepared disk h) [] := by
  unfold eraseWith
  split
  · exact work_quickErase disk
  split
  · refine wp_idle rfl begun_nil fun rotational => ?_
    rw [ret_bind]
    split
    · exact work_fullErase disk _
    refine wp_bind.mpr ((work_secureErase env disk).mono fun st h ⟨h0, hne⟩ => ?_)
    by_cases hst : st = 0
    · subst hst
      exact wp_ret.mpr (h0 rfl)
    · obtain rfl := hne hst
      split
      · exact work_fullErase disk _
      split
      · exact (work_reboot env _ begun_nil).mono fun _ _ => False.elim
      split
      · exact work_fullErase disk _
      split
      · exact work_fullErase disk _
      · exact wp_ret.mpr .untouched
  · exact wp_ret.mpr .untouched

theorem work_eraseDrive (env : Env) (disk : String) :
    wp workContract (eraseDrive env disk) (fun _ h => Prepared disk h) [] := by
  have F := frame_idle env
  refine wp_idle rfl begun_nil fun listed => ?_
  rw [ret_bind]
  split
  · refine F.call rfl rfl fun _ _ hh => F.call rfl hh fun r _ hh => ?_
    rw [ret_bind, bind_eq, wp_bind]
    refine (F.isokReboot (fun _ => rfl) _ _ hh).mono fun _ _ hh => F.call rfl hh.2 fun r _ hh => ?_
    rw [ret_bind, bind_eq, wp_bind]
    refine (F.isokReboot (fun _ => rfl) _ _ hh).mono fun _ _ hh => F.call rfl hh.2 fun _ _ hh => ?_
    subst hh
    exact work_eraseWith env disk _
  · exact wp_ret.mpr .untouched

/-! ## The whole run -/

theorem work_install (env : Env) (url : String) (hp : Prepared disk h) :
    wp workContract (install env url disk) (fun _ _ => True) h := by
  have himage : ∀ r, Begun (h ++ [(.writeImage url disk, r)]) := fun r =>
    ⟨disk, url, h, r, hp, List.prefix_refl _⟩
  refine wp_bind.mpr (wp_idle rfl (hp.begun (List.prefix_refl h)) fun _ =>
    wp_work rfl himage fun r => ?_)
  have hrest : Only (fun c => c.deals = false) (do
      exec (.log "Finished writing data")
      exec (.log "Re-scanning partitions")
      exec .partprobe) fun _ => True := by
    simp only [bind_eq, within_bind, within_exec]
    exact ⟨rfl, rfl, rfl, trivial⟩
  refine (idle_of_only hrest (himage r)).mono ?_
  rintro _ _ ⟨-, rfl⟩
  have hlast : Only (fun c => c.works = false) ((findMarker disk).bind (report env)) fun _ => True :=
    only_conclude (fun c hc => Cmd.choosing.works (Cmd.passive.choosing hc)) rfl (fun _ => rfl) rfl
      env disk
  exact said_of_only hlast (himage r)

theorem work_installer (env : Env) (arg : Mode) :
    wp workContract (installer env arg) (fun _ _ => True) [] := by
  have passive : ∀ c : Cmd, c.passiveOrReboot → c.works = false := fun _ hc =>
    Cmd.choosing.works (Cmd.passiveOrReboot.choosing hc)
  have started : ∀ env, wp workContract (start env) (fun _ _ => True) [] := by
    intro env
    refine wp_bind.mpr ((idle_of_only (only_acquire (fun _ hc => Cmd.kills.deals
      (Cmd.looks.kills hc)) rfl env rfl) begun_nil).mono ?_)
    rintro _ _ ⟨-, rfl⟩
    refine (frame_idle env).mainFlow (fun c hc => by cases c <;> first | rfl | cases hc) ?_ rfl
    rintro url disk _ rfl
    exact (work_eraseDrive env disk).mono fun _ h hp => work_install env url hp
  cases harg : arg.helper with
  | true =>
    exact said_of_only (only_helper passive (fun _ _ => Cmd.kills.works) env harg) begun_nil
  | false =>
    refine wp_bind.mpr ((idle_of_only (only_note fun _ => rfl) begun_nil).mono ?_)
    rintro _ _ ⟨-, rfl⟩
    cases arg with
    | test | plain => exact started _
    | help | addRepo | addSsh | collectLogs | kill => cases harg

/-- What a run erases and writes is one drive, prepared in one of the four ways and then written with one
image, or a beginning of that; what it does to drives for the log comes after it. -/
theorem work_of_run (hr : Run (installer env arg) t q) : ∃ disk url l r w f, Prepared disk l ∧
    t.filter (Cmd.deals ·.1) = w ++ f ∧ w <+: l ++ [(.writeImage url disk, r)] ∧
      ∀ e ∈ f, e.1.saves := by
  have hsaid : Said (t.filter (Cmd.deals ·.1)) := by
    rcases List.eq_nil_or_concat t with rfl | ⟨pre, e, rfl⟩
    · exact begun_nil.said
    obtain ⟨c, r⟩ := e
    rw [List.concat_eq_append] at hr ⊢
    have hguard := (work_installer env arg).guard hr (path_record_iff.mpr ⟨rfl, fun _ _ => trivial⟩) r
    have hrecord : (pre ++ [(c, r)]).filter (Cmd.deals ·.1) = if c.deals then
        pre.filter (Cmd.deals ·.1) ++ [(c, r)] else pre.filter (Cmd.deals ·.1) := by
      rw [List.filter_append]
      cases hc : c.deals <;> simp [hc]
    rw [hrecord]
    exact hguard
  obtain ⟨w, f, ht, ⟨disk, url, l, r, hl, hw⟩, hf⟩ := hsaid
  exact ⟨disk, url, l, r, w, f, hl, ht, hw, hf⟩

/-- A plain start on a machine on which Quick Erase is chosen. -/
def quickTrial : List Event × Sh PUnit :=
  play (fun _ => sample) 200 [] (installer booted .plain)

theorem work_of_run_quick : ∃ disk url l r w f, Prepared disk l ∧
    quickTrial.1.filter (Cmd.deals ·.1) = w ++ f ∧ w <+: l ++ [(.writeImage url disk, r)] ∧
      ∀ e ∈ f, e.1.saves :=
  work_of_run (run_play (fun _ => sample) 200 (installer booted .plain))

end Installer
end HassioInstaller
