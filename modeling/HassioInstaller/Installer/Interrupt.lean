import HassioInstaller.Installer.Effects

/-! # The exit menu

SIGINT runs `_exit` between two commands of the script, and a handler that does not exit returns to
the script it interrupted. Only "Restart Installer" exits, so what the script still had to do
decides whether the menu was final. -/

namespace HassioInstaller

/-- Neither a destructive command nor the report of a success. -/
structure Harmless (c : Cmd) : Prop where
  destructive : c.destructive = false
  success : ∀ debug, c ≠ .msgbox (.success debug)

theorem Harmless.of_choosing {c : Cmd} (h : c.choosing) : Harmless c := by
  constructor
  · cases c <;> first | rfl | cases h
  · rintro debug rfl
    cases h

theorem Harmless.of_kills {c : Cmd} (h : c.kills) : Harmless c := by
  constructor
  · cases c <;> first | rfl | cases h
  · rintro debug rfl
    cases h

namespace Installer
open Script

/-- The script after SIGINT at the point `q`: the handler, then what it returns to. -/
def interrupted (env : Env) (q : Sh PUnit) : Sh PUnit := (exit env).bind fun _ => q

/-- `blkid` prints a listing of `L`. -/
def Lists (L : Set String) (c : Cmd) (r : Answer) : Prop := c = .blkid → r.out ∈ L

/-! ## What follows the menu -/

section
variable {B : Bash} {L : Set String}

theorem lists_free (c : Cmd) (r : Answer) (hc : c.asked = false) : Lists L c r := by
  rintro rfl
  cases hc

theorem can_exitChoice (env : Env) (h3 : opt ≠ "3") :
    Can (Lists L) (exitChoice env opt) fun _ => True := by
  unfold exitChoice
  split
  · exact can_exec lists_free _ rfl
  split
  · exact can_bind ((can_collectlogs lists_free env).mono fun _ _ => can_exec lists_free _ rfl)
  exact can_exec lists_free _ rfl

/-- After the menu returned something other than "3" the handler can return to the script. -/
theorem can_return (env : Env) {r : Answer} (h3 : r.out ≠ "3") (q : Sh PUnit) :
    ∃ t, Run (interrupted env q) ((.exitMenu, r) :: t) q ∧ Admissible (Lists L) t := by
  obtain ⟨t, ⟨⟩, hr, ht, -⟩ := can_exitChoice (L := L) env h3
  exact ⟨t, .call r (hr.bind fun _ => q), ht⟩

/-- Without "Upload Logs" the handler has nothing to do with labels, and "Restart Installer" does not
return. -/
theorem within_exitChoice (env : Env) {opt : String} (h2 : opt ≠ "2") :
    Within (opt = "3") (fun c => Harmless c ∧ c.evals = false) (exitChoice env opt)
      fun _ => opt ≠ "3" := by
  have hreboot : Harmless .reboot := .of_choosing rfl
  unfold exitChoice
  split
  · simp only [within_exec]
    exact ⟨⟨hreboot, rfl⟩, fun h3 => absurd h3 (by rw [‹opt = "1"›]; decide)⟩
  split
  · simp only [bind_eq, within_bind, within_exec, within_exit]
    exact ⟨⟨.of_choosing rfl, rfl⟩, ⟨.of_kills rfl, rfl⟩, ‹opt = "3"›⟩
  · simp only [within_exec]
    exact ⟨⟨hreboot, rfl⟩, ‹¬opt = "3"›⟩

theorem pending_exitChoice (env : Env) (opt : String) :
    wp evalContract (exitChoice env opt) (fun _ _ => True) [] := by
  by_cases h2 : opt = "2"
  · subst h2
    refine wp_bind.mpr ((pending_collectlogs env .nil).mono fun _ hist _ => ?_)
    exact wp_call_monitor.mpr ⟨nofun, fun _ _ => wp_ret.mpr trivial⟩
  · refine ((within_exitChoice env h2).frame (Pending []) ?_ ?_ (fun _ h => h) .nil).mono fun _ _ _ => trivial
    · rintro _ c - hc words old rfl
      cases hc.2
    · rintro s c r _ hs hc ⟨-, rfl⟩
      refine hs.concat ?_ r
      rintro rfl
      cases hc.2

/-- The handler does nothing else than, for "Upload Logs", the labels do that are listed to it. -/
theorem harmless_exitChoice {env : Env}
    (hlabels : opt = "2" → ∀ listing ∈ L, ∀ c ∈ B.labelled listing, Harmless c)
    (hc : Issues (exitChoice env opt) t c) (ht : Admissible (Lists L) t) (hdo : c' ∈ B.does c) :
    Harmless c' := by
  by_cases h2 : opt = "2"
  · have honly : Only Harmless (exitChoice env opt) fun _ => True :=
      only_exitChoice (fun _ hc => .of_choosing (Cmd.passiveOrReboot.choosing hc)) (.of_kills rfl) env
        fun _ => trivial
    obtain ⟨k, hr⟩ := hc
    have hlisted := (wp_call.mp ((pending_exitChoice env opt).run hr
      (path_history_iff.mpr ⟨rfl, fun _ _ => trivial⟩))).1
    rcases Bash.labelled_of_does hlisted hdo with rfl | ⟨r, hm, hmem⟩
    · exact only_iff_issues.mp honly t c' ⟨k, hr⟩
    · exact hlabels h2 r.out (ht _ hm rfl) c' hmem
  · have honly := (within_exitChoice env h2).issues hc
    rw [Bash.does_of_evals honly.2] at hdo
    rw [List.mem_singleton.mp hdo]
    exact honly.1

end

end Installer
end HassioInstaller
