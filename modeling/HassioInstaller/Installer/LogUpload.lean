import HassioInstaller.Installer.Leaving
import HassioInstaller.Text.Match

/-! # What is said of the log

A log collection pings pastebin.com up to three times, posts the log if one of the pings was answered,
and tells the user where the log is. Four messages depend on how that went, and each is true whenever
it is shown: in a collection that was asked for, in one before a reboot and in one after a report. -/

namespace HassioInstaller

/-- The messages that depend on how the upload went. -/
def Cmd.tells : Cmd → Bool
  | .msgbox (.logUrl _) | .msgbox (.noUrl _) | .msgbox .insertFlash | .msgbox .noInternet => true
  | _ => false

theorem Cmd.scans.tells {c : Cmd} (h : c.scans) : c.tells = false := by
  cases c with
  | msgbox d => cases d <;> first | rfl | cases h
  | _ => rfl

theorem Cmd.outer.tells {c : Cmd} (h : c.outer) : c.tells = false := by
  cases c with
  | msgbox d => cases d <;> first | rfl | cases h
  | _ => rfl

theorem Cmd.prepares.tells {c : Cmd} (h : c.prepares disk) : c.tells = false := by
  cases c with
  | msgbox d => cases d <;> first | rfl | cases h
  | _ => rfl

namespace Installer
open Script Text

def pingLine : String := "ping -c1 pastebin.com > /dev/null 2>&1"

def pasteLine : String :=
  "curl -s --data-urlencode 'api_paste_code@/debug.log' " ++
    "\"https://pastebin.com/api/api_post.php\" | tee -a /debug.log"

/-- How far a log collection has come: what its pings answered, and what the post printed. -/
structure Sharing where
  pings : List Nat
  posted : Option String

/-- The collection after a command. -/
def share (s : Sharing) : Cmd → Answer → Sharing
  | .log text, _ => if text = "Collecting logs..." then ⟨[], none⟩ else s
  | .run line, r =>
    if line = pingLine then { s with pings := s.pings ++ [r.status] }
    else if line = pasteLine then { s with posted := some r.out }
    else s
  | _, _ => s

/-- The last log collection of a trace. -/
def sharing (t : List Event) : Sharing := t.foldl (fun s e => share s e.1 e.2) ⟨[], none⟩

/-- A ping was answered, after two at the most that were not. -/
def Sharing.Alive (s : Sharing) : Prop :=
  ∃ failed, s.pings = failed ++ [0] ∧ 0 ∉ failed ∧ failed.length ≤ 2

/-- Three pings were not answered. -/
def Sharing.Dead (s : Sharing) : Prop := s.pings.length = 3 ∧ 0 ∉ s.pings

def Contains (text part : String) : Prop := part.toList <:+: text.toList

/-- The message is true. `FAKE_URL` stands for a limit that was reached. -/
def Told (env : Env) (s : Sharing) : Cmd → Prop
  | .msgbox (.logUrl url) =>
    s.Alive ∧ env.FAKE_URL = false ∧ s.posted = some url ∧ Contains url "https"
  | .msgbox (.noUrl url) => s.Alive ∧ env.FAKE_URL = false ∧ s.posted = some url ∧
    ¬ Contains url "https" ∧ ¬ Contains url "Post limit"
  | .msgbox .insertFlash => s.Alive ∧ ∃ url, s.posted = some url ∧
    (env.FAKE_URL = true ∨ ¬ Contains url "https" ∧ Contains url "Post limit")
  | .msgbox .noInternet => s.Dead ∧ s.posted = none
  | _ => True

abbrev tellContract (env : Env) : Contract Sharing Cmd Answer :=
  .monitor (fun _ _ => True) share (Told env) fun _ => True

variable {env : Env} {s : Sharing}

theorem told_of_tells (hc : c.tells = false) : Told env s c := by
  cases c with
  | msgbox d => cases d <;> trivial
  | _ => trivial

section
variable {Q : α → Sharing → Prop} {k : Answer → Sh α}

theorem wp_silent (hc : c.tells = false) (hk : ∀ r, wp (tellContract env) (k r) Q (share s c r)) :
    wp (tellContract env) (.call c k) Q s :=
  wp_call_monitor.mpr ⟨told_of_tells hc, fun r _ => hk r⟩

theorem wp_other_log {f : PUnit → Sh α} (ht : text ≠ "Collecting logs...")
    (hf : wp (tellContract env) (f ⟨⟩) Q s) :
    wp (tellContract env) ((exec (.log text)).bind f) Q s := by
  refine wp_silent rfl fun _ => ?_
  rw [share, if_neg ht]
  exact hf

theorem wp_other_run (hping : line ≠ pingLine) (hpaste : line ≠ pasteLine)
    (hk : ∀ r, wp (tellContract env) (k r) Q s) :
    wp (tellContract env) (.call (.run line) k) Q s := by
  refine wp_silent rfl fun r => ?_
  rw [share, if_neg hping, if_neg hpaste]
  exact hk r

theorem wp_message {f : PUnit → Sh α} (ht : Told env s (.msgbox d))
    (hf : wp (tellContract env) (f ⟨⟩) Q s) :
    wp (tellContract env) ((exec (.msgbox d)).bind f) Q s :=
  wp_call_monitor.mpr ⟨ht, fun _ _ => hf⟩

end

/-! ## The pings -/

/-- The loop of the pings, at its head. -/
structure Pinging (count : Nat) (alive : Bool) (s : Sharing) : Prop where
  posted : s.posted = none
  length : s.pings.length = count
  bound : count ≤ 3
  answered : alive = true → s.Alive
  unanswered : alive = false → 0 ∉ s.pings

theorem Pinging.next (hs : Pinging count false s) (hcount : count ≠ 3) (st : Nat) :
    Pinging (count + 1) (st == 0) { s with pings := s.pings ++ [st] } where
  posted := hs.posted
  length := by rw [List.length_append, hs.length]; rfl
  bound := Nat.lt_of_le_of_ne hs.bound hcount
  answered h := by
    have hlen := hs.length
    have hbound := hs.bound
    refine ⟨s.pings, by rw [of_decide_eq_true h], hs.unanswered rfl, by omega⟩
  unanswered h := by
    have hst : st ≠ 0 := by simpa using h
    rw [List.mem_append, not_or]
    exact ⟨hs.unanswered rfl, by simpa using hst.symm⟩

theorem try_ne (n : Nat) : "Try: " ++ toString n ≠ "Collecting logs..." := by
  intro h
  have hhead := congrArg (fun t => t.toList.head?) h
  simp at hhead

theorem told_pingPastebin (hp : s.pings = []) (hu : s.posted = none) :
    wp (tellContract env) pingPastebin
      (fun alive s => s.posted = none ∧ if alive then s.Alive else s.Dead) s := by
  refine wp_loop (fun x s => Pinging x.1 x.2 s) ?_ ⟨hu, by rw [hp]; rfl, Nat.zero_le 3, ?_, ?_⟩
  · rintro ⟨count, alive⟩ s hs
    dsimp only at hs ⊢
    split
    next hdone =>
      refine wp_ret.mpr (wp_ret.mpr ⟨hs.posted, ?_⟩)
      cases alive with
      | true => exact hs.answered rfl
      | false => exact ⟨hs.length.trans (hdone.resolve_right Bool.false_ne_true), hs.unanswered rfl⟩
    next hdone =>
      obtain ⟨hcount, rfl⟩ : count ≠ 3 ∧ alive = false := by simpa using hdone
      refine wp_other_log (try_ne _) (wp_silent rfl fun r => ?_)
      refine wp_other_run (by decide) (by decide) fun _ => wp_ret.mpr ?_
      exact hs.next hcount r.status
  · exact fun h => by cases h
  · exact fun _ => by simp [hp]

/-! ## The sections -/

/-- A command that has no part in the upload. -/
def Idle (c : Cmd) : Prop := c.tells = false ∧ ∀ s r, share s c r = s

theorem idle_log (ht : text ≠ "Collecting logs...") : Idle (.log text) :=
  ⟨rfl, fun _ _ => if_neg ht⟩

theorem idle_run (hping : line ≠ pingLine) (hpaste : line ≠ pasteLine) : Idle (.run line) :=
  ⟨rfl, fun _ _ => (if_neg hping).trans (if_neg hpaste)⟩

theorem told_of_within {p : Sh α} {B : α → Prop} (hp : Within False Idle p B) :
    wp (tellContract env) p (fun a s' => B a ∧ s' = s) s := by
  refine hp.frame (· = s) ?_ ?_ False.elim rfl
  · rintro _ c rfl hc
    exact told_of_tells hc.1
  · rintro _ c r _ rfl hc ⟨-, rfl⟩
    exact hc.2 _ r

theorem ne_of_head {t u : String} (ht : t.toList.head? = some c) (hu : u.toList.head? ≠ some c) :
    t ≠ u := by
  rintro rfl
  exact hu ht

theorem appended_ne (cmd : String) {line : String} (h : ¬ " >> /debug.log".toList <:+ line.toList) :
    cmd ++ " >> /debug.log" ≠ line := by
  rintro rfl
  rw [String.toList_append] at h
  exact h (List.suffix_append ..)

theorem idle_collectSection (what cmd : String) :
    Within False Idle (collectSection what cmd) fun _ => True := by
  simp only [collectSection, bind_eq, within_bind, within_exec]
  refine ⟨idle_run ?_ ?_, idle_run ?_ ?_, idle_run ?_ ?_, trivial⟩
  · exact ne_of_head (c := 'e') (by simp) (by decide)
  · exact ne_of_head (c := 'e') (by simp) (by decide)
  · exact appended_ne cmd (by decide)
  · exact appended_ne cmd (by decide)
  · exact ne_of_head (c := 'e') (by simp) (by decide)
  · exact ne_of_head (c := 'e') (by simp) (by decide)

theorem append_ne_of_take {t u : String} (n : Nat) (ht : n ≤ t.toList.length)
    (h : t.toList.take n ≠ u.toList.take n) (v : String) : t ++ v ≠ u := by
  rintro rfl
  rw [String.toList_append, List.take_append_of_le_length ht] at h
  exact h rfl

/-! ## The upload -/

theorem contains_iff {text part : String} : matchesIn (.lit part) text ↔ Contains text part := by
  rw [matchesIn_iff]
  constructor
  · rintro ⟨w, hw, hinfix⟩
    rwa [Pattern.mem_lit.mp hw] at hinfix
  · exact fun h => ⟨_, Pattern.mem_lit.mpr rfl, h⟩

/-- What is shared: with `FAKE_URL`, the message of the limit in place of what the post printed. -/
def shared (env : Env) (url : String) : String :=
  if env.FAKE_URL then "Pastebin Post limit reached" else url

theorem shared_fake (h : env.FAKE_URL = true) (url : String) :
    ¬ Contains (shared env url) "https" ∧ Contains (shared env url) "Post limit" := by
  rw [shared, if_pos h]
  constructor
  · rw [← contains_iff]
    decide
  · exact contains_iff.mp (by decide)

theorem told_shareLog (ha : s.Alive) (hs : s.posted = some url) :
    wp (tellContract env) (shareLog env (shared env url)) (fun _ _ => True) s := by
  have hreal : ¬ (¬ Contains (shared env url) "https" ∧ Contains (shared env url) "Post limit") →
      env.FAKE_URL = false ∧ shared env url = url := by
    intro h
    have hfake : ¬ env.FAKE_URL = true := fun hf => h (shared_fake hf url)
    exact ⟨by simpa using hfake, if_neg hfake⟩
  unfold shareLog
  split
  next hhttps =>
    have hin := contains_iff.mp hhttps
    obtain ⟨hfake, hurl⟩ := hreal fun h => h.1 hin
    rw [hurl] at hin ⊢
    refine wp_other_log (append_ne_of_take 1 (by decide) (by decide) _) ?_
    exact wp_call_monitor.mpr ⟨⟨ha, hfake, hs, hin⟩, fun _ _ => wp_ret.mpr trivial⟩
  next hhttps =>
    have hout := contains_iff.not.mp hhttps
    split
    next hlimit =>
      have hin := contains_iff.mp hlimit
      refine wp_message ⟨ha, url, hs, ?_⟩ ?_
      · cases hfake : env.FAKE_URL with
        | true => exact .inl rfl
        | false =>
          rw [shared, hfake] at hout hin
          exact .inr ⟨hout, hin⟩
      · exact ((scans_uploadToFlashdrive env).anywhere (E := False) (fun _ _ hc => told_of_tells
          (Cmd.scans.tells hc)) fun _ => False.elim).mono fun _ _ _ => trivial
    next hlimit =>
      have hno := contains_iff.not.mp hlimit
      obtain ⟨hfake, hurl⟩ := hreal fun h => hno h.2
      rw [hurl] at hout hno ⊢
      refine wp_other_log (append_ne_of_take 1 (by decide) (by decide) _) ?_
      exact wp_call_monitor.mpr ⟨⟨ha, hfake, hs, hout, hno⟩, fun _ _ => wp_ret.mpr trivial⟩

theorem told_uploadLog (ha : s.Alive) :
    wp (tellContract env) (uploadLog env) (fun _ _ => True) s :=
  wp_other_log (by decide) (wp_silent rfl fun _ => told_shareLog ha rfl)

theorem told_collectlogs (env : Env) (s : Sharing) :
    wp (tellContract env) (collectlogs env) (fun _ _ => True) s := by
  refine wp_silent rfl fun _ => wp_silent rfl fun _ => wp_silent rfl fun listing => ?_
  rw [ret_bind]
  refine wp_other_log (by decide) ?_
  rw [bind_eq, wp_bind]
  refine (told_pingPastebin rfl rfl).mono fun alive s ⟨hnone, halive⟩ => ?_
  rw [bind_eq, wp_bind]
  refine (told_of_within (within_commands (fun i => idle_log (append_ne_of_take 12 (by decide)
    (by decide) i)) idle_collectSection _)).mono ?_
  rintro _ _ ⟨-, rfl⟩
  refine wp_silent rfl fun _ => wp_silent rfl fun _ => wp_silent rfl fun _ =>
    wp_silent rfl fun _ => wp_silent rfl fun _ => ?_
  rw [ret_bind, bind_eq, wp_bind]
  refine (told_of_within (within_files (fun _ => ⟨rfl, fun _ _ => rfl⟩) (fun i => idle_log
    (append_ne_of_take 12 (by decide) (by decide) i)) idle_collectSection _)).mono ?_
  rintro _ _ ⟨-, rfl⟩
  cases alive with
  | true => exact told_uploadLog halive
  | false =>
    refine wp_other_log (by decide) ?_
    exact wp_call_monitor.mpr ⟨⟨halive, hnone⟩, fun _ _ => wp_ret.mpr trivial⟩

/-! ## The whole run -/

theorem whole_telling (env : Env) :
    Frame.Whole (tellContract env) env (fun c => c.tells = false) fun _ => True where
  toFrame := Frame.of_logs (fun _ _ hc _ => told_of_tells hc) (fun _ _ _ _ _ _ _ => trivial)
    (fun _ => Cmd.outer.tells) (fun s _ => told_collectlogs env s) fun _ _ => trivial
  outer _ := Cmd.outer.tells
  prepares _ _ := Cmd.prepares.tells
  logs s _ := told_collectlogs env s
  marker disk _ _ := ((scans_findMarker disk).anywhere (E := False) (fun _ _ hc => told_of_tells
    (Cmd.scans.tells hc)) fun _ => False.elim).mono fun _ _ _ => trivial
  ends _ _ := trivial

/-- In every run of every option, what the user is told of the log is true. -/
theorem told_of_run (hr : Run (installer env arg) (pre ++ (c, r) :: post) q) :
    Told env (sharing pre) c := by
  have hwp := (whole_telling (arg.env env)).installer (s := ⟨[], none⟩) trivial
  have htold : Told (arg.env env) (sharing pre) c :=
    hwp.guard hr (path_monitor_iff.mpr ⟨rfl, fun _ _ => trivial⟩)
  cases arg <;> exact htold

/-- Pastebin answers the second ping, and takes the log. -/
def answering (hist : List Event) : Cmd → Answer
  | .run line =>
    if line = pingLine then ⟨if (sharing hist).pings = [] then 1 else 0, ""⟩
    else if line = pasteLine then ⟨0, "https://pastebin.com/Vx3fT2aB"⟩
    else ⟨0, ""⟩
  | c => sample c

def sharedTrial : List Event × Sh PUnit := play answering 200 [] (installer booted .collectLogs)

theorem told_of_run_shared : ∃ pre post, sharedTrial.1 =
    pre ++ (.msgbox (.logUrl "https://pastebin.com/Vx3fT2aB"), ⟨0, ""⟩) :: post ∧
    Told booted (sharing pre) (.msgbox (.logUrl "https://pastebin.com/Vx3fT2aB")) := by
  have hmem : (.msgbox (.logUrl "https://pastebin.com/Vx3fT2aB"), ⟨0, ""⟩) ∈ sharedTrial.1 := by
    decide +kernel
  obtain ⟨pre, post, ht⟩ := List.append_of_mem hmem
  have hr := run_play answering 200 (installer booted .collectLogs)
  exact ⟨pre, post, ht, told_of_run (ht ▸ hr)⟩

end Installer
end HassioInstaller
