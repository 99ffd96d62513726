import HassioInstaller.Mkimage.Sections
import Mathlib.Data.List.Basic

/-! # A checksum without collisions

The text itself, spelled with three letters. It stands for `sha1sum` where tools have to be given. -/

namespace HassioInstaller.Mkimage

def spellChar (c : Char) : List Char := List.replicate c.toNat 'a' ++ ['b']

def spellWord (s : List Char) : List Char := s.flatMap spellChar ++ ['c']

def spell (l : List String) : String := String.ofList (l.flatMap fun s => spellWord s.toList)

theorem spellChar_append_inj {c c' : Char} {s s' : List Char}
    (h : spellChar c ++ s = spellChar c' ++ s') : c = c' ∧ s = s' := by
  have hrep : ∀ (n m : Nat) {s s' : List Char},
      List.replicate n 'a' ++ 'b' :: s = List.replicate m 'a' ++ 'b' :: s' → n = m ∧ s = s' := by
    intro n
    induction n with
    | zero =>
      intro m s s' h
      cases m with
      | zero => exact ⟨rfl, (List.cons.inj h).2⟩
      | succ m => cases (List.cons.inj h).1
    | succ n ih =>
      intro m s s' h
      cases m with
      | zero => cases (List.cons.inj h).1
      | succ m =>
        obtain ⟨hn, hs⟩ := ih m (List.cons.inj h).2
        exact ⟨congrArg _ hn, hs⟩
  simp only [spellChar, List.append_assoc, List.singleton_append] at h
  obtain ⟨hn, hs⟩ := hrep _ _ h
  exact ⟨Char.toNat_inj.mp hn, hs⟩

theorem spellWord_append_inj {s s' r r' : List Char}
    (h : spellWord s ++ r = spellWord s' ++ r') : s = s' ∧ r = r' := by
  have hne : ∀ c t, ∃ x t', spellChar c ++ t = x :: t' ∧ x ≠ 'c' := by
    intro c t
    cases hn : c.toNat with
    | zero => exact ⟨'b', t, by simp [spellChar, hn], by decide⟩
    | succ n =>
      refine ⟨'a', List.replicate n 'a' ++ 'b' :: t, ?_, by decide⟩
      simp [spellChar, hn, List.replicate_succ]
  induction s generalizing s' with
  | nil =>
    cases s' with
    | nil => exact ⟨rfl, (List.cons.inj h).2⟩
    | cons c' s' =>
      simp only [spellWord, List.flatMap_nil, List.flatMap_cons, List.nil_append,
        List.append_assoc] at h
      obtain ⟨x, t', hx, hxc⟩ := hne c' (s'.flatMap spellChar ++ (['c'] ++ r'))
      rw [hx] at h
      exact absurd (List.cons.inj h).1.symm hxc
  | cons c s ih =>
    simp only [spellWord, List.flatMap_cons, List.append_assoc] at h
    cases s' with
    | nil =>
      obtain ⟨x, t', hx, hxc⟩ := hne c (s.flatMap spellChar ++ (['c'] ++ r))
      rw [hx] at h
      exact absurd (List.cons.inj h).1 hxc
    | cons c' s' =>
      simp only [List.flatMap_cons, List.append_assoc] at h
      obtain ⟨hc, ht⟩ := spellChar_append_inj h
      obtain ⟨hs, hr⟩ := ih (by simpa only [spellWord, List.append_assoc] using ht)
      exact ⟨by rw [hc, hs], hr⟩

theorem spell_injective : Function.Injective spell := by
  intro l l' h
  replace h := String.ofList_injective h
  induction l generalizing l' with
  | nil =>
    cases l' with
    | nil => rfl
    | cons s l' => simp [spellWord] at h
  | cons s l ih =>
    cases l' with
    | nil => simp [spellWord] at h
    | cons s' l' =>
      obtain ⟨hs, hl⟩ := spellWord_append_inj h
      rw [String.toList_injective hs, ih hl]

theorem spell_hex (l : List String) : ∀ c ∈ (spell l).toList, c.isAlphanum := by
  intro c hc
  simp only [spell, String.toList_ofList, List.mem_flatMap, spellWord, spellChar, List.mem_append,
    List.mem_replicate, List.mem_singleton] at hc
  obtain ⟨s, -, ⟨c', -, ⟨-, rfl⟩ | rfl⟩ | rfl⟩ := hc <;> decide

/-- A command of an overlay script as words. -/
def Command.words : Command → List String
  | .makefile perms path (.text lines) => ["makefile", perms, path, "text", lines]
  | .makefile perms path .hostname => ["makefile", perms, path, "hostname"]
  | .rcAdd service level => ["rc_add", service, level]
  | .cp name => ["cp", name]
  | .cpAll name => ["cp -R", name]

theorem Command.words_injective : Function.Injective Command.words := by
  intro c c' h
  rcases c with ⟨_, _, _ | _⟩ | _ | _ | _ <;> rcases c' with ⟨_, _, _ | _⟩ | _ | _ | _ <;>
    simp_all [Command.words]

/-- `apk` lists the packages as the index has them, and the checksum spells. -/
def spelled : KeyTools where
  listing _ _ _ index packages := packages.map fun p => p ++ "-" ++ index
  checksum := spell
  checksumScript o := spell (o.map fun c => spell c.words)

theorem spelled_sound : spelled.Sound where
  injective := spell_injective
  injectiveScript _ _ h := List.map_injective_iff.mpr
    (spell_injective.comp Command.words_injective) (spell_injective h)
  hex := spell_hex
  hexScript _ := spell_hex _

end HassioInstaller.Mkimage
