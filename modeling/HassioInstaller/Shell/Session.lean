import HassioInstaller.Shell.Eval
import HassioInstaller.Shell.Test

/-! # The shell of a run

What a text that is not quoted comes to: its words, each after pathname expansion. `eval` gets the
words of such a text, joined by blanks. -/

namespace HassioInstaller
open Text Shell

/-- The shell in which the menus are made: what pathname expansion makes of a word, and what the
operators of `[` find. -/
structure Session where
  expand : String → List String
  primaries : Primaries
  expand_ne_nil : ∀ w, expand w ≠ []
  /-- A word without `*`, `?`, `[` and backslash is no pattern. -/
  expand_plain : ∀ w, (∀ c ∈ w.toList, c ∉ "*?[\\".toList) → expand w = [w]

namespace Session
variable (S : Session)

/-- `[ -z ${disks[@]} ]`. -/
def testEmpty (disks : String) : Bool :=
  S.primaries.test ("-z" :: (words disks).flatMap S.expand) == some true

/-- What `echo` prints of the unquoted text. -/
def echoed (s : String) : String := " ".intercalate ((words s).flatMap S.expand)

variable {S}

/-- Nothing is found empty as long as there is nothing. -/
theorem testEmpty_empty : S.testEmpty "" = true := by
  simp [testEmpty, words_empty, Primaries.test]

end Session

/-- `eval $(echo words)`. -/
def evaled (I : Interp) (S : Session) (words : String) : Effect := I.eval (S.echoed (S.echoed words))

theorem echoed_plain {S : Session} (h : ∀ w ∈ words s, S.expand w = [w]) :
    S.echoed (S.echoed s) = " ".intercalate (words s) := by
  have hexpand : (words s).flatMap S.expand = words s := by
    rw [List.flatMap_congr h, List.flatMap_singleton']
  have hwords : words (" ".intercalate (words s)) = words s :=
    words_intercalate fun w hw => isWord_of_mem_words hw
  rw [Session.echoed, Session.echoed, hexpand, hwords, hexpand]

/-- A shell in a directory without files. -/
def noFiles : Session where
  expand w := [w]
  primaries := ⟨fun _ _ => none, fun _ _ _ => none⟩
  expand_ne_nil _ := List.cons_ne_nil _ _
  expand_plain _ _ := rfl

/-- A shell without variables. -/
def mute : Interp where
  value := String.ofList
  other _ := ⟨[], []⟩
  value_plain _ _ := rfl

end HassioInstaller
