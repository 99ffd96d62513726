import HassioInstaller.Shell.Session
import HassioInstaller.Installer.Leaving

/-! # What labels do

The log upload hands the lines of `blkid` to `eval`, which runs the commands in a label. A run does
what its script issues and what the labels run. A `Bash` says what that is; all that comes to `eval`
is a line that `blkid` listed before, and of every listing each line that is not skipped does. -/

namespace HassioInstaller
open Text Shell

namespace Installer

/-- The texts of the skip pattern. -/
abbrev skippedTexts : List String := ["hassos", "iso9660", "squashfs", "alpine"]

theorem skipped_iff : skipped type ↔ ∃ pat ∈ skippedTexts, pat.toList <:+: type.toList := by
  rw [skipped, List.any_eq_true]
  refine exists_congr fun pat => and_congr_right fun _ => ?_
  rw [matchesIn_iff]
  constructor
  · intro h
    obtain ⟨w, hw, hin⟩ := h
    rwa [Pattern.mem_lit.mp hw] at hin
  · intro h
    exact ⟨pat.toList, Pattern.mem_lit.mpr rfl, h⟩

end Installer

/-- The texts of a listing of `blkid` that are handed to `eval`. -/
def evalTexts (listing : String) : List String :=
  ((lines listing).map fun line => (Installer.readPartType line).2).filter fun type =>
    !Installer.skipped type

theorem mem_evalTexts (hline : line ∈ lines listing) (htext : (Installer.readPartType line).2 = text)
    (hskip : ∀ pat ∈ Installer.skippedTexts, ¬ pat.toList <:+: text.toList) :
    text ∈ evalTexts listing := by
  refine List.mem_filter.mpr ⟨List.mem_map.mpr ⟨line, hline, htext⟩, ?_⟩
  have hno : ¬ Installer.skipped text := fun h =>
    let ⟨pat, hpat, hin⟩ := Installer.skipped_iff.mp h
    hskip pat hpat hin
  simpa using hno

/-- The shell that runs the script, with the commands that a text it runs comes to. -/
structure Bash where
  interp : Interp
  session : Session
  commands : (text : String) → List Cmd

namespace Bash
variable (B : Bash)

/-- The commands that `eval $(echo words)` runs. -/
def runs (words : String) : List Cmd := (evaled B.interp B.session words).runs.flatMap B.commands

/-- What is done when the script issues a command. -/
def does : Cmd → List Cmd
  | .evalWords words old => .evalWords words old :: B.runs words
  | c => [c]

/-- The commands that the labels of a listing of `blkid` run. -/
def labelled (listing : String) : List Cmd := (evalTexts listing).flatMap B.runs

end Bash

/-- `blkid` and `eval`. -/
def Cmd.evals : Cmd → Bool
  | .blkid | .evalWords .. => true
  | _ => false

def Cmd.isMenu : Cmd → Bool
  | .menu .. => true
  | _ => false

/-- What is answered by a person or by what is plugged in: the menus and `blkid`. -/
def Cmd.asked (c : Cmd) : Bool := c.isMenu || c == .blkid

theorem Cmd.collects.evals {c : Cmd} (h : c.collects) : c.evals = false := by
  cases c <;> first | rfl | cases h

theorem Cmd.outer.evals {c : Cmd} (h : c.outer) : c.evals = false := by
  cases c <;> first | rfl | cases h

theorem Cmd.seeks.evals {c : Cmd} (h : c.seeks) : c.evals = false := by
  cases c <;> first | rfl | cases h

theorem Cmd.prepares.evals {c : Cmd} (h : c.prepares disk) : c.evals = false := by
  cases c <;> first | rfl | cases h

/-- `blkid` has listed the text. -/
def Listed (words : String) (h : List Event) : Prop := ∃ r, (.blkid, r) ∈ h ∧ words ∈ evalTexts r.out

/-- The text was handed to `eval`. -/
def Evaled (words : String) (h : List Event) : Prop := ∃ old r, (.evalWords words old, r) ∈ h

/-- Of what `blkid` has listed, all but `ws` was handed to `eval`. -/
structure Pending (ws : List String) (h : List Event) : Prop where
  listed : ∀ w ∈ ws, Listed w h
  evaled : ∀ w, Listed w h → w ∈ ws ∨ Evaled w h

theorem Listed.append (hw : Listed w h) (t : List Event) : Listed w (h ++ t) :=
  let ⟨r, hm, hr⟩ := hw
  ⟨r, List.mem_append_left t hm, hr⟩

theorem Evaled.append (hw : Evaled w h) (t : List Event) : Evaled w (h ++ t) :=
  let ⟨old, r, hm⟩ := hw
  ⟨old, r, List.mem_append_left t hm⟩

theorem listed_concat {c : Cmd} (hc : c ≠ .blkid) (r : Answer) : Listed w (h ++ [(c, r)]) ↔ Listed w h := by
  refine ⟨fun hw => ?_, fun hw => hw.append _⟩
  obtain ⟨r', hm, hr⟩ := hw
  rcases List.mem_append.mp hm with hm | hm
  · exact ⟨r', hm, hr⟩
  · cases List.mem_singleton.mp hm
    exact absurd rfl hc

theorem Pending.nil : Pending [] [] := by
  constructor
  · intro w hw
    cases hw
  · rintro w ⟨r, hm, -⟩
    cases hm

theorem Pending.concat (hp : Pending ws h) {c : Cmd} (hc : c ≠ .blkid) (r : Answer) :
    Pending ws (h ++ [(c, r)]) where
  listed w hw := (hp.listed w hw).append _
  evaled w hw := (hp.evaled w ((listed_concat hc r).mp hw)).imp_right (·.append _)

theorem Pending.blkid (hp : Pending [] h) (r : Answer) :
    Pending (evalTexts r.out) (h ++ [(.blkid, r)]) where
  listed _ hw := ⟨r, by simp, hw⟩
  evaled w hw := by
    obtain ⟨r', hm, hr'⟩ := hw
    rcases List.mem_append.mp hm with hm | hm
    · exact .inr (((hp.evaled w ⟨r', hm, hr'⟩).resolve_left List.not_mem_nil).append _)
    · cases List.mem_singleton.mp hm
      exact .inl hr'

theorem Pending.eval (hp : Pending (w :: ws) h) (old : String) (r : Answer) :
    Pending ws (h ++ [(.evalWords w old, r)]) where
  listed w' hw := (hp.listed w' (List.mem_cons_of_mem w hw)).append _
  evaled w' hw := by
    rcases hp.evaled w' ((listed_concat (c := .evalWords w old) nofun r).mp hw) with hmem | he
    · rcases List.mem_cons.mp hmem with rfl | hmem
      · exact .inr ⟨old, r, by simp⟩
      · exact .inl hmem
    · exact .inr (he.append _)

namespace Installer
open Script

section
variable {E : Prop} {A : Cmd → Prop} (hA : ∀ c : Cmd, c.evals = false → A c)
include hA

theorem within_probe (env : Env) (s : Scan) (part : String) (ec : Nat) :
    Within E A (probe env s part ec) fun _ => True := by
  unfold probe
  split
  · exact within_ret.mpr trivial
  simp only [bind_eq, pure_eq, within_bind, within_status]
  refine ⟨hA _ rfl, fun touched => ?_⟩
  split <;> simp only [within_bind, within_exec, within_output, within_ret]
  · exact ⟨hA _ rfl, trivial⟩
  · exact ⟨hA _ rfl, hA _ rfl, hA _ rfl, fun _ => ⟨hA _ rfl, fun _ => ⟨hA _ rfl, fun _ =>
      ⟨hA _ rfl, fun _ => trivial⟩⟩⟩⟩

theorem within_remount (TYPE part : String) (ec : Nat) :
    Within E A (remount TYPE part ec) fun _ => True := by
  unfold remount
  split
  · simp only [bind_eq, within_bind, within_exec, within_status]
    exact ⟨hA _ rfl, hA _ rfl, hA _ rfl, fun _ => trivial⟩
  · exact within_ret.mpr trivial

/-- What a pass does once `eval` has answered. -/
theorem within_mount (env : Env) (s : Scan) (part : String) :
    Within E A (do
      let ec ← status (.mountType s.TYPE part)
      let ec ← remount s.TYPE part ec
      probe env s part ec) fun _ => True := by
  simp only [bind_eq, within_bind, within_status]
  exact ⟨hA _ rfl, fun ec => (within_remount hA _ _ ec.status).mono fun ec _ =>
    within_probe hA env s part ec⟩

end

/-- The history of a run, in which `eval` gets only what `blkid` has listed, and at whose end it got
all of it. -/
abbrev evalContract : Contract (List Event) Cmd Answer :=
  .history (fun _ _ => True) (fun h c => ∀ words old, c = .evalWords words old → Listed words h)
    (Pending [])

/-- Commands other than these two leave the texts that are pending. -/
theorem pending_of_within {p : Sh α} {B : α → Prop}
    (hp : Within False (fun c => c.evals = false) p B) (h : Pending ws hist) :
    wp evalContract p (fun a h => B a ∧ Pending ws h) hist := by
  refine hp.frame (Pending ws) ?_ ?_ False.elim h
  · rintro _ c - hc words old rfl
    cases hc
  · rintro s c r _ hs hc ⟨-, rfl⟩
    refine hs.concat ?_ r
    rintro rfl
    cases hc

theorem pending_scan (env : Env) (ls : List String) (s : Scan)
    (h : Pending ((ls.map fun line => (readPartType line).2).filter fun type => !skipped type) hist) :
    wp evalContract (ls.foldlM (scanLine env) s) (fun _ => Pending []) hist := by
  induction ls generalizing s hist with
  | nil => exact wp_ret.mpr h
  | cons line ls ih =>
    rw [List.foldlM_cons, bind_eq, wp_bind, scanLine, scanPart]
    rw [List.map_cons] at h
    split
    next hskip =>
      rw [List.filter_cons_of_neg (by simp [hskip])] at h
      exact wp_ret.mpr (ih s h)
    next hskip =>
      rw [List.filter_cons_of_pos (by simpa using hskip)] at h
      refine wp_call_monitor.mpr ⟨?_, fun evaled _ => ?_⟩
      · rintro _ _ ⟨⟩
        exact h.listed _ List.mem_cons_self
      rw [ret_bind]
      refine (pending_of_within (within_mount (fun _ hc => hc) env _ _) (h.eval _ evaled)).mono ?_
      exact fun s hist h => ih s h.2

theorem pending_uploadToFlashdrive (env : Env) (h : Pending [] hist) :
    wp evalContract (uploadToFlashdrive env) (fun _ => Pending []) hist := by
  refine wp_loop (fun _ => Pending []) (fun s hist h => ?_) h
  refine wp_call_monitor.mpr ⟨nofun, fun listing _ => ?_⟩
  rw [ret_bind]
  refine wp_bind.mpr ((pending_scan env _ _ (h.blkid listing)).mono fun s hist h => ?_)
  have hrest : Within False (fun c => c.evals = false) (do
      let parts := s.parts ++
        [if s.parts = [] then "r|No drives found. Re-scan drives" else "|r|Re-scan drives"]
      let r ← dialogMenu .flashdrive (" ".intercalate parts)
      let st ← isok r.status
      if st ≠ 0 then return .inl s
      else if r.out = "r" then return .inl s
      else do
        exec (.mountType ((s.parttype.lookup r.out).getD "") r.out)
        let fname ← output (.run "date +\"debug.%Y-%m-%dT%H%M%S.log\"")
        exec (.copyLog fname r.out)
        exec .umount
        exec (.msgbox (.fileSaved fname))
        return .inr ⟨⟩ : Sh (Scan ⊕ PUnit)) fun _ => True := by
    simp only [bind_eq, pure_eq, within_bind, within_dialogMenu]
    refine ⟨rfl, fun r => (only_isok (fun _ => rfl) r.status).mono fun st _ => ?_⟩
    split
    · exact within_ret.mpr trivial
    split
    · exact within_ret.mpr trivial
    simp only [within_bind, within_exec, within_output, within_ret]
    exact ⟨rfl, rfl, fun _ => ⟨rfl, rfl, rfl, trivial⟩⟩
  refine (pending_of_within hrest h).mono fun y hist h => ?_
  cases y with
  | inl s => exact h.2
  | inr b => exact wp_ret.mpr h.2

theorem pending_collectlogs (env : Env) (h : Pending [] hist) :
    wp evalContract (collectlogs env) (fun _ => Pending []) hist := by
  refine wp_collectlogs_of ?_ ?_ (fun _ h => pending_uploadToFlashdrive env h) h
  · rintro c _ hc - words old rfl
    cases hc
  · rintro c s r _ hc hs ⟨-, rfl⟩
    refine hs.concat ?_ r
    rintro rfl
    cases hc

theorem whole_evaluating (env : Env) :
    Frame.Whole evalContract env (fun c => c.evals = false) (Pending []) := by
  have guard : ∀ c s, c.evals = false → Pending [] s → evalContract.guard s c := by
    rintro c _ hc - words old rfl
    cases hc
  have next : ∀ c s r s', c.evals = false → Pending [] s → evalContract.next s c r s' →
      Pending [] s' := by
    rintro c s r _ hc hs ⟨-, rfl⟩
    refine hs.concat ?_ r
    rintro rfl
    cases hc
  have marker : ∀ disk, Within False (fun c => c.evals = false) (findMarker disk) fun _ => True :=
    fun disk => (seeks_findMarker disk).weaken fun _ => Cmd.seeks.evals
  exact {
    toFrame := Frame.of_logs guard next (fun _ => Cmd.outer.evals)
      (fun _ hs => pending_collectlogs env hs) fun _ hs => hs
    outer := fun _ => Cmd.outer.evals
    prepares := fun _ _ => Cmd.prepares.evals
    logs := fun _ hs => pending_collectlogs env hs
    marker := fun disk _ hs => (pending_of_within (marker disk) hs).mono fun _ _ h => h.2
    ends := fun _ hs => hs }

/-- What `eval` gets in a run was listed before. -/
theorem listed_of_installer (hr : Run (installer env arg) (pre ++ (c, r) :: post) q) :
    ∀ words old, c = .evalWords words old → Listed words pre :=
  ((whole_evaluating (arg.env env)).installer .nil).guard hr
    (path_history_iff.mpr ⟨rfl, fun _ _ => trivial⟩)

theorem listed_of_mainFlow (hr : Run (mainFlow env) (pre ++ (c, r) :: post) q) :
    ∀ words old, c = .evalWords words old → Listed words pre :=
  ((whole_evaluating env).mainFlow .nil).guard hr (path_history_iff.mpr ⟨rfl, fun _ _ => trivial⟩)

end Installer

namespace Bash
variable {B : Bash} {c c' : Cmd}

theorem does_of_evals (hc : c.evals = false) : B.does c = [c] := by
  cases c with
  | evalWords => cases hc
  | _ => rfl

theorem self_mem_does (B : Bash) (c : Cmd) : c ∈ B.does c := by
  cases c <;> exact List.mem_cons_self

/-- What is done is what the script issues, or is in a label that was listed. -/
theorem labelled_of_does (hlisted : ∀ words old, c = .evalWords words old → Listed words h)
    (hc : c' ∈ B.does c) : c' = c ∨ ∃ r, (.blkid, r) ∈ h ∧ c' ∈ B.labelled r.out := by
  cases c with
  | evalWords words old =>
    rcases List.mem_cons.mp hc with rfl | hc
    · exact .inl rfl
    · obtain ⟨r, hm, hwords⟩ := hlisted words old rfl
      exact .inr ⟨r, hm, List.mem_flatMap.mpr ⟨words, hwords, hc⟩⟩
  | _ => exact .inl (List.mem_singleton.mp hc)

end Bash

open Script in
/-- At the end of a run all that `blkid` listed has come to `eval`. -/
theorem Installer.pending_of_ended {q : Sh PUnit} (hr : Run (installer env arg) t q) (hq : q.Ended) :
    Pending [] t := by
  have h := ((whole_evaluating (arg.env env)).installer .nil) t q t hr
    (path_history_iff.mpr ⟨rfl, fun _ _ => trivial⟩)
  cases q with
  | ret | exit => exact h
  | call | loop => cases hq

open Script in
/-- A run has done what it issued and, at its end, what is in the labels that were listed. -/
theorem Installer.done_iff (B : Bash) {q : Sh PUnit} (hr : Run (installer env arg) t q) (hq : q.Ended)
    (c : Cmd) : (∃ e ∈ t, c ∈ B.does e.1) ↔
      (∃ r, (c, r) ∈ t) ∨ ∃ r, (.blkid, r) ∈ t ∧ c ∈ B.labelled r.out := by
  constructor
  · rintro ⟨⟨c', r'⟩, he, hc⟩
    obtain ⟨pre, post, rfl⟩ := List.append_of_mem he
    rcases Bash.labelled_of_does (listed_of_installer hr) hc with rfl | ⟨r, hm, hr'⟩
    · exact .inl ⟨r', he⟩
    · exact .inr ⟨r, List.mem_append_left _ hm, hr'⟩
  · rintro (⟨r, hm⟩ | ⟨r, hm, hc⟩)
    · exact ⟨(c, r), hm, B.self_mem_does c⟩
    · obtain ⟨text, htext, hc⟩ := List.mem_flatMap.mp hc
      obtain ⟨old, r', he⟩ :=
        ((pending_of_ended hr hq).evaled text ⟨r, hm, htext⟩).resolve_left List.not_mem_nil
      exact ⟨_, he, List.mem_cons_of_mem _ hc⟩

/-! ## What the log collection can come to

Whatever holds of the answers of the menus and of `blkid`, the others being free, the log collection
can come to its end, and to `eval` with any text that `blkid` may list. -/

namespace Installer
open Script

section
variable {answers : Cmd → Answer → Prop} (free : ∀ c r, c.asked = false → answers c r)
include free

theorem can_exec (c : Cmd) (hc : c.asked = false) : Can answers (exec c) fun _ => True :=
  can_call ⟨0, ""⟩ (free c _ hc) (can_ret trivial)

/-- One command after another. -/
theorem can_then (c : Cmd) (hc : c.asked = false) {f : PUnit → Sh α} {B : α → Prop}
    (h : Can answers (f ⟨⟩) B) : Can answers ((exec c).bind f) B :=
  can_call ⟨0, ""⟩ (free c _ hc) h

theorem can_collectSection (what cmd : String) :
    Can answers (collectSection what cmd) fun _ => True := by
  simp only [collectSection, bind_eq]
  refine can_then free _ rfl ?_
  refine can_then free _ rfl ?_
  exact can_exec free _ rfl

/-- pastebin.com does not answer, or answers the first ping; the induction is on the pings left. -/
theorem can_pingPastebin (reachable : Bool) : Can answers pingPastebin (· = reachable) := by
  have pings : ∀ n count, count + n = 3 → reachable = false ∨ 0 < n → Can answers (.loop
      (fun s : Nat × Bool =>
        if s.1 = 3 ∨ s.2 then (return .inr s.2 : Sh ((Nat × Bool) ⊕ Bool)) else do
          exec (.log ("Try: " ++ toString s.1))
          let st ← status (.run "ping -c1 pastebin.com > /dev/null 2>&1")
          exec (.run "sleep 1")
          return .inl (s.1 + 1, st == 0)) (count, false) Script.ret) (· = reachable) := by
    intro n
    induction n with
    | zero =>
      intro count hn hr
      have h3 : count = 3 := by omega
      have hreachable : reachable = false := hr.resolve_right (by decide)
      subst hreachable
      apply can_loop
      simp only [h3, true_or, if_true]
      exact can_ret rfl
    | succ n ih =>
      intro count hn _
      have h3 : count ≠ 3 := by omega
      apply can_loop
      simp only [h3, false_or, Bool.false_eq_true, if_false, bind_eq, bind_assoc, pure_eq]
      refine can_then free _ rfl ?_
      refine can_call ⟨if reachable then 0 else 1, ""⟩ (free _ _ rfl) ?_
      refine can_then free _ rfl ?_
      cases reachable with
      | false => exact ih (count + 1) (by omega) (.inl rfl)
      | true =>
        apply can_loop
        simp only [BEq.rfl, or_true, if_true]
        exact can_ret rfl
  exact pings 3 0 rfl (.inr (by decide))

theorem can_collecting (reachable : Bool) : Can answers collecting (· = reachable) := by
  have output : ∀ {α} (c : Cmd) {f : String → Sh α} {B}, c.asked = false → Can answers (f "") B →
      Can answers ((output c).bind f) B := fun c _ _ hc h =>
    can_call ⟨0, ""⟩ (free c _ hc) h
  have file : ∀ i, Can answers ((status (.isFile i)).bind fun st => Script.when (st == 0)
      ((exec (.log ("Collecting output from file " ++ i))).bind fun _ =>
        collectSection i ("cat " ++ i))) fun _ => True := fun i =>
    can_call ⟨1, ""⟩ (free _ _ rfl) (can_ret trivial)
  simp only [collecting, bind_eq, pure_eq]
  refine can_then free _ rfl ?_
  refine can_then free _ rfl ?_
  refine output _ rfl ?_
  refine can_then free _ rfl (can_bind ?_)
  refine (can_pingPastebin free reachable).mono ?_
  rintro alive rfl
  refine can_bind ((can_each fun i _ => can_then free _ rfl (can_collectSection free i i)).mono ?_)
  rintro _ -
  refine output _ rfl ?_
  refine output _ rfl ?_
  refine output _ rfl ?_
  refine output _ rfl ?_
  refine output _ rfl ?_
  exact can_bind ((can_each fun i _ => file i).mono fun _ _ => can_ret rfl)

theorem can_collectlogs (env : Env) : Can answers (collectlogs env) fun _ => True := by
  rw [collectlogs_eq]
  refine can_bind ((can_collecting free false).mono ?_)
  rintro _ rfl
  exact can_then free _ rfl (can_exec free _ rfl)

/-- A pass for one line can come to its end. -/
theorem can_scanLine (env : Env) (s : Scan) (line : String) :
    Can answers (scanLine env s line) fun _ => True := by
  have hremount : ∀ TYPE part, remount TYPE part 1 = .ret 1 := fun _ _ =>
    if_neg fun h => absurd h.1 (by decide)
  rw [scanLine, scanPart]
  split
  · exact can_ret trivial
  refine can_call ⟨0, ""⟩ (free _ _ rfl) (can_call ⟨1, ""⟩ (free _ _ rfl) ?_)
  rw [ret_bind, hremount]
  exact can_ret trivial

theorem reaches_scan (env : Env) {ls : List String} (s : Scan) (hw : text ∈ (ls.map fun line =>
      (readPartType line).2).filter fun type => !skipped type) :
    ∃ old, Reaches answers (ls.foldlM (scanLine env) s) (.evalWords text old) := by
  induction ls generalizing s with
  | nil => cases hw
  | cons line ls ih =>
    obtain ⟨hmem, hskip⟩ := List.mem_filter.mp hw
    rw [List.map_cons] at hmem
    rw [List.foldlM_cons]
    rcases List.mem_cons.mp hmem with rfl | hmem
    · refine ⟨s.TYPE, reaches_bind ?_ _⟩
      rw [scanLine, scanPart, if_neg (by simpa using hskip)]
      exact reaches_self
    · obtain ⟨t, s', hr, ht, -⟩ := can_scanLine free env s line
      obtain ⟨old, hreach⟩ := ih s' (List.mem_filter.mpr ⟨hmem, hskip⟩)
      exact ⟨old, reaches_after ⟨t, s', hr, ht, hreach⟩⟩

/-- The log collection can come to the flash drives: pastebin.com is reachable and takes no more logs. -/
theorem comes_to_upload (env : Env) :
    ∃ t, Run (collectlogs env) t (uploadToFlashdrive env) ∧ Admissible answers t := by
  have step : ∀ {c : Cmd} {k : Answer → Sh PUnit} (r : Answer), c.asked = false →
      (∃ t, Run (k r) t (uploadToFlashdrive env) ∧ Admissible answers t) →
      ∃ t, Run (.call c k) t (uploadToFlashdrive env) ∧ Admissible answers t := by
    rintro c k r hc ⟨t, hr, ht⟩
    exact ⟨_, .call r hr, List.forall_mem_cons.mpr ⟨free c r hc, ht⟩⟩
  have hlimit : ∀ url, matchesIn (.lit "https") url = false → matchesIn (.lit "Post limit") url = true →
      ∃ t, Run (shareLog env url) t (uploadToFlashdrive env) ∧ Admissible answers t := by
    intro url hno hyes
    rw [shareLog, hno, hyes]
    exact step ⟨0, ""⟩ rfl ⟨[], .refl, admissible_nil⟩
  have hupload : ∃ t, Run (uploadLog env) t (uploadToFlashdrive env) ∧ Admissible answers t := by
    refine step ⟨0, ""⟩ rfl (step ⟨0, "Post limit, maximum pastes per 24h reached"⟩ rfl ?_)
    cases env.FAKE_URL with
    | true => exact hlimit _ (by decide +kernel) (by decide +kernel)
    | false => exact hlimit _ (by decide +kernel) (by decide +kernel)
  obtain ⟨t, _, hr, ht, rfl⟩ := can_collecting free true
  obtain ⟨t', hr', ht'⟩ := hupload
  rw [collectlogs_eq]
  exact ⟨t ++ t', hr.bind_ret hr', ht.append ht'⟩

/-- The log collection can come to `eval` with any text that `blkid` may list. -/
theorem reaches_eval (env : Env) {listing : Answer} (hl : answers .blkid listing)
    (hw : text ∈ evalTexts listing.out) :
    ∃ old, Reaches answers (collectlogs env) (.evalWords text old) := by
  obtain ⟨old, hscan⟩ := reaches_scan free env ⟨"", [], []⟩ hw
  obtain ⟨t, hr, ht⟩ := comes_to_upload free env
  obtain ⟨t', ⟨k, hr'⟩, ht'⟩ : Reaches answers (uploadToFlashdrive env) (.evalWords text old) :=
    reaches_loop (reaches_call listing hl (reaches_bind hscan _))
  exact ⟨old, t ++ t', ⟨k, hr.trans hr'⟩, ht.append ht'⟩

end
end Installer

/-! ## A label with a command in it -/

/-- A shell that tells two commands from the others. -/
def busybox : Bash where
  interp := mute
  session := noFiles
  commands text :=
    if text = "parted -s -f /dev/sda rm 1" then [.partedRm "/dev/sda" "1"]
    else if text = "reboot" then [.reboot]
    else [.run text]

/-- What `blkid` prints of an NTFS partition with a label, after the device. -/
def labelText (label : String) : String :=
  "LABEL=\"" ++ label ++ "\" UUID=\"2C80B4D480B4A5B6\" TYPE=\"ntfs\""

/-- Its whole line. -/
def labelLine (label : String) : String := "/dev/sdb1: " ++ labelText label

/-- A label that deletes a partition. -/
def deleting : String := "$(parted -s -f /dev/sda rm 1)"

theorem evalTexts_deleting : labelText deleting ∈ evalTexts (labelLine deleting) :=
  have hline : labelLine deleting ∈ lines (labelLine deleting) := by decide +kernel
  mem_evalTexts hline (by decide +kernel) (by decide +kernel)

theorem runs_deleting : busybox.runs (labelText deleting) = [.partedRm "/dev/sda" "1"] := by
  decide +kernel

end HassioInstaller
