import HassioInstaller.Script.Alike
import HassioInstaller.Installer.Menus
import HassioInstaller.Installer.Effects

/-! # The labels of flash drives

The log upload hands each line of `blkid` to `eval`, so that the text of a label is read as a part of a
command line. It has no influence just as long as nothing in it ends the quoted text or is executed
there. -/

namespace HassioInstaller
open Text Shell

/-- A file system as `blkid` prints it. Paths, UUIDs and types are of letters, digits, slashes, dashes,
underscores and dots; a label is any text on one line. -/
structure Volume where
  dev : String
  label : Option String
  uuid : String
  type : String
  plain : ∀ s ∈ [dev, uuid, type], ∀ c ∈ s.toList, c.isAlphanum ∨ c ∈ ['/', '-', '_', '.']
  oneLine : ∀ s ∈ label, IsLine s

namespace Volume

/-- The part of a line that does not depend on the label. -/
def fixed (v : Volume) : String := "UUID=\"" ++ v.uuid ++ "\" TYPE=\"" ++ v.type ++ "\""

/-- The values of a line, the label being `label`. -/
def values (v : Volume) (label : Option String) : String :=
  match label with
  | none => v.fixed
  | some s => "LABEL=\"" ++ s ++ "\" " ++ v.fixed

/-- The line of `blkid`. -/
def line (v : Volume) : String := v.dev ++ ": " ++ v.values v.label

/-- Two volumes with the same line but for the text of the label. -/
structure Agree (v w : Volume) : Prop where
  dev : v.dev = w.dev
  uuid : v.uuid = w.uuid
  type : v.type = w.type
  label : v.label.isSome = w.label.isSome

end Volume

/-- The label after `read`. -/
def readLabel (s : String) : String := String.ofList ((Installer.unescape s.toList).map Prod.fst)

namespace Installer

theorem unescape_cons (hc : c ≠ '\\') (cs : List Char) :
    unescape (c :: cs) = (c, false) :: unescape cs := by
  cases cs with
  | nil => simp [unescape, hc]
  | cons => simp [unescape, hc]

theorem unescape_plain {cs : List Char} (h : '\\' ∉ cs) (rest : List Char) :
    unescape (cs ++ rest) = cs.map (·, false) ++ unescape rest := by
  induction cs with
  | nil => rfl
  | cons c cs ih =>
    rw [List.mem_cons, not_or] at h
    rw [List.cons_append, unescape_cons fun hc => h.1 hc.symm, ih h.2]
    rfl

/-- The quote after a label keeps its place, also where the label ends in a backslash. -/
theorem unescape_quote (cs rest : List Char) : ∃ x, unescape (cs ++ '"' :: rest) = x ++ unescape rest ∧
    x.map Prod.fst = (unescape cs).map Prod.fst ++ ['"'] := by
  fun_induction unescape cs with
  | case1 => exact ⟨[('"', false)], unescape_cons (by decide) rest, rfl⟩
  | case2 => exact ⟨[('"', true)], rfl, rfl⟩
  | case3 d ds ih =>
    obtain ⟨x, hx, hmap⟩ := ih
    refine ⟨(d, true) :: x, ?_, ?_⟩
    · exact congrArg ((d, true) :: ·) hx
    · exact congrArg _ hmap
  | case4 c cs hc ih =>
    obtain ⟨x, hx, hmap⟩ := ih
    refine ⟨(c, false) :: x, ?_, ?_⟩
    · rw [List.cons_append, unescape_cons hc, hx]
      rfl
    · exact congrArg _ hmap

/-- A device, a colon with a blank after it, and a rest without blanks around it. -/
theorem readPartType_eq {dev rest : List (Char × Bool)}
    (hline : unescape line.toList = dev ++ (':', false) :: (' ', false) :: rest)
    (hdev : ∀ c ∈ dev, c ≠ (':', false) ∧ c ≠ (' ', false))
    (hhead : rest.head? ≠ some (' ', false)) (hlast : rest.getLast? ≠ some (' ', false)) :
    readPartType line = (String.ofList (dev.map Prod.fst), String.ofList (rest.map Prod.fst)) := by
  have hskip : ∀ cs : List (Char × Bool), cs.head? ≠ some (' ', false) →
      cs.dropWhile (fun c => decide (c = (' ', false))) = cs := by
    intro cs hcs
    cases cs with
    | nil => rfl
    | cons c cs => exact List.dropWhile_cons_of_neg (by simpa using hcs)
  have hstart : (dev ++ (':', false) :: (' ', false) :: rest).head? ≠ some (' ', false) := by
    cases dev with
    | nil => simp
    | cons c cs => simpa using (hdev c List.mem_cons_self).2
  have htake : (dev ++ (':', false) :: (' ', false) :: rest).takeWhile
      (fun c => !(decide (c = (':', false)) || decide (c = (' ', false)))) = dev := by
    rw [List.takeWhile_append_of_pos fun c hc => by simp [hdev c hc],
      List.takeWhile_cons_of_neg (by simp), List.append_nil]
  have hdrop : (dev ++ (':', false) :: (' ', false) :: rest).dropWhile
      (fun c => !(decide (c = (':', false)) || decide (c = (' ', false)))) =
        (':', false) :: (' ', false) :: rest := by
    rw [List.dropWhile_append_of_pos fun c hc => by simp [hdev c hc],
      List.dropWhile_cons_of_neg (by simp)]
  have hcolon := hskip ((':', false) :: (' ', false) :: rest) (by simp)
  have hvalues : ((' ', false) :: rest).dropWhile (fun c => decide (c = (' ', false))) = rest := by
    rw [List.dropWhile_cons_of_pos (by simp), hskip rest hhead]
  have hend := hskip rest.reverse (by rwa [List.head?_reverse])
  simp only [readPartType, hline, hskip _ hstart, htake, hdrop, hcolon, hvalues, hend,
    List.reverse_reverse]

end Installer

namespace Volume
variable (v : Volume)

theorem not_mem_of_plain {s : String} {c : Char}
    (hs : ∀ c ∈ s.toList, c.isAlphanum ∨ c ∈ ['/', '-', '_', '.'])
    (hc : c.isAlphanum = false ∧ c ∉ ['/', '-', '_', '.']) : c ∉ s.toList := by
  intro h
  rcases hs c h with h | h
  · rw [hc.1] at h
    cases h
  · exact hc.2 h

theorem noBackslash_fixed : '\\' ∉ v.fixed.toList := by
  have huuid : '\\' ∉ v.uuid.toList := not_mem_of_plain (v.plain _ (by simp)) (by decide)
  have htype : '\\' ∉ v.type.toList := not_mem_of_plain (v.plain _ (by simp)) (by decide)
  simp [fixed, huuid, htype]

/-- What `read` makes of the values of a line: the label loses its backslashes. -/
theorem unescape_values (label : Option String) : ∃ x,
    Installer.unescape (v.values label).toList = x ++ v.fixed.toList.map (·, false) ∧
      x.map Prod.fst ++ v.fixed.toList = (v.values (label.map readLabel)).toList ∧
        (x = [] ∨ x.head? = some ('L', false)) := by
  have hfixed := Installer.unescape_plain v.noBackslash_fixed []
  rw [List.append_nil] at hfixed
  cases label with
  | none => exact ⟨[], hfixed.trans (List.append_nil _), rfl, .inl rfl⟩
  | some s =>
    obtain ⟨x, hx, hmap⟩ := Installer.unescape_quote s.toList (' ' :: v.fixed.toList)
    have hname := Installer.unescape_plain (show '\\' ∉ "LABEL=\"".toList by decide)
    have hspace := Installer.unescape_plain (show '\\' ∉ [' '] by decide) v.fixed.toList
    refine ⟨"LABEL=\"".toList.map (·, false) ++ x ++ [(' ', false)], ?_, ?_, .inr rfl⟩
    · have hlist : (v.values (some s)).toList =
          "LABEL=\"".toList ++ (s.toList ++ '"' :: (' ' :: v.fixed.toList)) := by
        simp [values]
      rw [List.singleton_append] at hspace
      rw [hlist, hname, hx, hspace, hfixed]
      simp [Installer.unescape]
    · rw [List.map_append, List.map_append, hmap]
      simp [values, readLabel]

theorem head_fixed : v.fixed.toList.head? = some 'U' := by
  simp [fixed]

theorem getLast_fixed : v.fixed.toList.getLast? = some '"' :=
  getLast_append _ rfl

/-- `read` takes the device and the values apart. -/
theorem readPartType_line :
    Installer.readPartType v.line = (v.dev, v.values (v.label.map readLabel)) := by
  have hdev : '\\' ∉ v.dev.toList := not_mem_of_plain (v.plain _ (by simp)) (by decide)
  have hcolon : ':' ∉ v.dev.toList := not_mem_of_plain (v.plain _ (by simp)) (by decide)
  have hspace : ' ' ∉ v.dev.toList := not_mem_of_plain (v.plain _ (by simp)) (by decide)
  obtain ⟨x, hx, hmap, hhead⟩ := v.unescape_values v.label
  have hline : Installer.unescape v.line.toList = v.dev.toList.map (·, false) ++
      (':', false) :: (' ', false) :: (x ++ v.fixed.toList.map (·, false)) := by
    have hlist : v.line.toList = v.dev.toList ++ ([':', ' '] ++ (v.values v.label).toList) := by
      simp [line]
    rw [hlist, Installer.unescape_plain hdev, Installer.unescape_plain (by decide), hx]
    rfl
  have hsep : ∀ c ∈ v.dev.toList.map (·, false), c ≠ (':', false) ∧ c ≠ (' ', false) := by
    intro c hc
    obtain ⟨d, hd, rfl⟩ := List.mem_map.mp hc
    refine ⟨fun h => hcolon ?_, fun h => hspace ?_⟩
    · rw [Prod.mk.injEq] at h
      exact h.1 ▸ hd
    · rw [Prod.mk.injEq] at h
      exact h.1 ▸ hd
  have hstart : (x ++ v.fixed.toList.map (·, false)).head? ≠ some (' ', false) := by
    rcases hhead with rfl | hhead
    · rw [List.nil_append, List.head?_map, v.head_fixed]
      simp
    · rw [List.head?_append, hhead]
      simp
  have hend : (x ++ v.fixed.toList.map (·, false)).getLast? ≠ some (' ', false) := by
    rw [List.getLast?_append, List.getLast?_map, v.getLast_fixed]
    simp
  rw [Installer.readPartType_eq hline hsep hstart hend]
  congr 1
  · simp [Function.comp_def]
  · apply String.toList_injective
    rw [← hmap]
    simp [Function.comp_def]

/-- A label that is not skipped does not decide about its line. -/
theorem skipped_values (hs : Installer.skipped s = false) :
    Installer.skipped (v.values (some s)) = Installer.skipped v.fixed := by
  have hlist : (v.values (some s)).toList =
      "LABEL=".toList ++ '"' :: (s.toList ++ '"' :: ([] ++ ' ' :: v.fixed.toList)) := by
    simp [values]
  rw [Bool.eq_iff_iff, Installer.skipped_iff, Installer.skipped_iff, hlist]
  constructor
  · intro h
    obtain ⟨pat, hpat, hin⟩ := h
    have hquote : ∀ pat ∈ Installer.skippedTexts, '"' ∉ pat.toList := by decide
    have hspace : ∀ pat ∈ Installer.skippedTexts, ' ' ∉ pat.toList := by decide
    have hname : ∀ pat ∈ Installer.skippedTexts, ¬ pat.toList <:+: "LABEL=".toList := by decide
    have hnil : ∀ pat ∈ Installer.skippedTexts, ¬ pat.toList <:+: [] := by decide
    have hlabel : ¬ pat.toList <:+: s.toList := by
      intro hin
      rw [Installer.skipped_iff.mpr ⟨pat, hpat, hin⟩] at hs
      cases hs
    have hrest := (infix_of_append_cons (hquote pat hpat) hin).resolve_left (hname pat hpat)
    have hrest := (infix_of_append_cons (hquote pat hpat) hrest).resolve_left hlabel
    exact ⟨pat, hpat, (infix_of_append_cons (hspace pat hpat) hrest).resolve_left (hnil pat hpat)⟩
  · intro h
    obtain ⟨pat, hpat, hin⟩ := h
    exact ⟨pat, hpat, hin.trans ⟨"LABEL=".toList ++ '"' :: (s.toList ++ ['"', ' ']), [], by simp⟩⟩

end Volume

/-! ## What `eval` gets -/

namespace Volume
variable (v : Volume)

theorem inert_plain {s : String} (hs : ∀ c ∈ s.toList, c.isAlphanum ∨ c ∈ ['/', '-', '_', '.']) :
    inert s.toList := by
  refine inert_of_plain fun c hc hmem => ?_
  have hall : ∀ c ∈ ['"', '`', '$', '\\'], c.isAlphanum = false ∧ c ∉ ['/', '-', '_', '.'] := by
    decide
  exact not_mem_of_plain hs (hall c hmem) hc

theorem noBlank_plain {s : String} (hs : ∀ c ∈ s.toList, c.isAlphanum ∨ c ∈ ['/', '-', '_', '.'])
    (hc : c ∈ s.toList) : isBlank c = false := by
  have hall : ∀ c ∈ [' ', '\t', '\n'], c.isAlphanum = false ∧ c ∉ ['/', '-', '_', '.'] := by decide
  by_contra hblank
  have hmem : c ∈ [' ', '\t', '\n'] := by
    rw [Bool.not_eq_false, isBlank] at hblank
    simpa [or_assoc] using hblank
  exact not_mem_of_plain hs (hall c hmem) hc

/-- The assignments of the part of the line that does not depend on the label. -/
def fixedRow : List Assignment :=
  [.ofInert "UUID".toList v.uuid.toList (by decide) (inert_plain (v.plain _ (by simp))),
    .ofInert "TYPE".toList v.type.toList (by decide) (inert_plain (v.plain _ (by simp)))]

/-- The fixed part without its last quote. There are no blanks to squeeze in it. -/
def opened : List Char :=
  "UUID=\"".toList ++ v.uuid.toList ++ '"' :: ' ' :: ("TYPE=\"".toList ++ v.type.toList)

-- by `delta`, as the equation of the definition takes long to make
theorem opened_eq : v.opened =
    "UUID=\"".toList ++ v.uuid.toList ++ '"' :: ' ' :: ("TYPE=\"".toList ++ v.type.toList) := by
  delta opened
  rfl

theorem toList_fixed : v.fixed.toList = v.opened ++ ['"'] := by
  simp [fixed, opened_eq]

theorem squeeze_opened : squeeze v.opened = v.opened := by
  have huuid : ∀ c ∈ v.uuid.toList, isBlank c = false :=
    fun c hc => noBlank_plain (v.plain _ (by simp)) hc
  have htype : ∀ c ∈ v.type.toList, isBlank c = false :=
    fun c hc => noBlank_plain (v.plain _ (by simp)) hc
  have hend : squeeze v.type.toList = v.type.toList := by
    have h := squeeze_word htype []
    rwa [List.append_nil, squeeze, List.append_nil] at h
  have hblank : ∀ cs : List Char, squeeze (' ' :: ("TYPE=\"".toList ++ cs)) =
      ' ' :: squeeze ("TYPE=\"".toList ++ cs) := fun cs => rfl
  rw [opened_eq, List.append_assoc, squeeze_word (by decide), squeeze_word huuid,
    squeeze_cons (by decide), hblank, squeeze_word (by decide), hend]

theorem row_fixedRow : Assignment.row v.fixedRow = ' ' :: (v.opened ++ ['"']) := by
  simp [Assignment.row, fixedRow, Assignment.text, Assignment.ofInert, opened_eq]

/-- `eval` on a line without a label. -/
theorem evaled_unlabelled (I : Interp) {S : Session}
    (h : ∀ w ∈ words (v.values none), S.expand w = [w]) : evaled I S (v.values none) =
      ⟨[], v.fixedRow.map fun a => (String.ofList a.name, I.value a.body)⟩ := by
  have htext : v.values none = String.ofList (v.opened ++ ['"']) := by
    apply String.toList_injective
    rw [String.toList_ofList, ← toList_fixed]
    rfl
  rw [evaled, echoed_plain h, htext]
  have hrow : ' ' :: (" ".intercalate (words (String.ofList (v.opened ++ ['"'])))).toList =
      Assignment.row v.fixedRow := by
    rw [toList_intercalate_words (by simp [opened_eq, isBlank]) (by simp [opened_eq]), squeeze_opened,
      row_fixedRow]
  exact I.eval_row (List.cons_ne_nil _ _) hrow

/-- `eval` on a line whose label goes to its closing quote. -/
theorem evaled_labelled (I : Interp) {S : Session} {s : String} {runs : List String}
    (h : ∀ w ∈ words (v.values (some s)), S.expand w = [w])
    (hs : ∀ rest, quoted none (squeeze s.toList ++ '"' :: rest) = some ⟨squeeze s.toList, runs, rest⟩) :
    evaled I S (v.values (some s)) = ⟨runs, (("LABEL", I.value (squeeze s.toList)) ::
      v.fixedRow.map fun a => (String.ofList a.name, I.value a.body))⟩ := by
  have htext : v.values (some s) = String.ofList (("LABEL=\"".toList ++ (s.toList ++ '"' :: ' ' ::
      v.opened)) ++ ['"']) := by
    apply String.toList_injective
    rw [String.toList_ofList, List.append_assoc, List.append_assoc, List.cons_append, List.cons_append,
      ← toList_fixed]
    simp [values]
  let label : Assignment := ⟨"LABEL".toList, squeeze s.toList, runs, by decide, hs⟩
  have hopened : squeeze (' ' :: v.opened) = ' ' :: v.opened := by
    have hsq := v.squeeze_opened
    rw [squeeze, if_pos (by decide), hsq, if_neg (by simp [opened_eq, isBlank])]
  have hrow : ' ' :: (" ".intercalate (words (v.values (some s)))).toList =
      Assignment.row (label :: v.fixedRow) := by
    rw [htext, toList_intercalate_words (by simp [isBlank]) (by simp), squeeze_word (by decide),
      squeeze_append (by decide), squeeze_cons (by decide), hopened]
    have hfixed := v.row_fixedRow
    rw [Assignment.row] at hfixed
    rw [Assignment.row, List.flatMap_cons, hfixed]
    simp [label, Assignment.text]
  rw [evaled, echoed_plain h, I.eval_row (List.cons_ne_nil _ _) hrow]
  have hruns : (label :: v.fixedRow).flatMap Assignment.runs = runs := by
    simp [label, fixedRow, Assignment.ofInert]
  rw [hruns]
  rfl

/-- The type is the one of the line. -/
theorem get_type (I : Interp) (runs : List String) (sets : List (String × String)) (old : String) :
    Effect.get ⟨runs, sets ++ v.fixedRow.map fun a => (String.ofList a.name, I.value a.body)⟩
      "TYPE" old = v.type := by
  have hplain : ∀ c ∈ v.type.toList, c ≠ '$' ∧ c ≠ '\\' := by
    intro c hc
    constructor
    · rintro rfl
      exact not_mem_of_plain (v.plain v.type (by simp)) (by decide) hc
    · rintro rfl
      exact not_mem_of_plain (v.plain v.type (by simp)) (by decide) hc
  simp [Effect.get, fixedRow, Assignment.ofInert, I.value_plain _ hplain]

/-- The label has no influence on what the shell does with the line: the line is skipped for its type,
or the label is not skipped, stays as it is in the expansions and is inert. -/
def Harmless (S : Session) (v : Volume) : Prop :=
  Installer.skipped v.fixed ∨ (∀ w ∈ words (v.values (v.label.map readLabel)), S.expand w = [w]) ∧
    ∀ s ∈ v.label, Installer.skipped (readLabel s) = false ∧ inert (readLabel s).toList

/-- The label goes to the quote that closes it, with the commands in it or without. -/
def Closed (S : Session) (v : Volume) : Prop :=
  Installer.skipped v.fixed ∨ (∀ w ∈ words (v.values (v.label.map readLabel)), S.expand w = [w]) ∧
    ∀ s ∈ v.label, Installer.skipped (readLabel s) = false ∧ ∃ runs, ∀ rest,
      quoted none (squeeze (readLabel s).toList ++ '"' :: rest) =
        some ⟨squeeze (readLabel s).toList, runs, rest⟩

variable {v}

theorem Harmless.evaled_eq {S : Session} (h : v.Harmless S) (hs : Installer.skipped v.fixed = false)
    (I : Interp) : ∃ sets, evaled I S (v.values (v.label.map readLabel)) =
      ⟨[], sets ++ v.fixedRow.map fun a => (String.ofList a.name, I.value a.body)⟩ := by
  obtain ⟨hwords, hlabel⟩ := h.resolve_left (by simp [hs])
  cases hv : v.label with
  | none =>
    rw [hv] at hwords
    exact ⟨[], v.evaled_unlabelled I hwords⟩
  | some s =>
    rw [hv] at hwords
    have hinert := (hlabel s hv).2
    rw [← inert_squeeze] at hinert
    exact ⟨[(_, _)], v.evaled_labelled I hwords fun rest => (quoted_iff_inert _ rest).mpr hinert⟩

theorem Harmless.skipped_eq {S : Session} (h : v.Harmless S) :
    Installer.skipped (v.values (v.label.map readLabel)) = Installer.skipped v.fixed := by
  cases hv : v.label with
  | none => rfl
  | some s =>
    rcases h with hskip | h
    · rw [hskip, Installer.skipped_iff]
      obtain ⟨pat, hpat, hin⟩ := Installer.skipped_iff.mp hskip
      refine ⟨pat, hpat, hin.trans ?_⟩
      exact ⟨"LABEL=\"".toList ++ (readLabel s).toList ++ ['"', ' '], [], by simp [values]⟩
    · exact v.skipped_values (h.2 s hv).1

theorem Agree.symm (h : v.Agree w) : w.Agree v :=
  ⟨h.dev.symm, h.uuid.symm, h.type.symm, h.label.symm⟩

theorem Agree.fixed_eq (h : v.Agree w) : v.fixed = w.fixed := by
  rw [fixed, fixed, h.uuid, h.type]

end Volume

/-! ## The runs of the scan -/

namespace Installer
open Script

/-- What is seen of a run: the commands the label texts are taken for, and all commands but `eval`
itself. -/
def seen (I : Interp) (S : Session) : Event → List (String ⊕ Event)
  | (.evalWords words _, _) => (evaled I S words).runs.map .inl
  | e => [.inr e]

/-- The shell evaluates so. -/
def Evaluates (I : Interp) (S : Session) : Cmd → Answer → Prop
  | .evalWords words old, r => r.out = (evaled I S words).get "TYPE" old
  | _, _ => True

/-- What is seen of the runs of a script, with the values they return. -/
def views (I : Interp) (S : Session) (p : Sh α) : Set (List (String ⊕ Event) × Option α) :=
  {view | ∃ t q, Run p t q ∧ Admissible (Evaluates I S) t ∧ view = (t.flatMap (seen I S), q.value)}

/-- The loop over the lines of a listing. -/
def scanLoop (env : Env) (listing : String) (s : Scan) : Sh Scan :=
  (lines listing).foldlM (scanLine env) s

/-- The texts of the labels run nothing, and nothing else tells the listings apart: not the commands
of the scan and their order, and not the menu. -/
def Silent (I : Interp) (S : Session) (L₁ L₂ : List Volume) : Prop :=
  ∀ env listing₁ listing₂ s, lines listing₁ = L₁.map Volume.line →
    lines listing₂ = L₂.map Volume.line →
      views I S (scanLoop env listing₁ s) = views I S (scanLoop env listing₂ s) ∧
        ∀ view ∈ views I S (scanLoop env listing₁ s), ∀ c, .inl c ∉ view.1

/-- Two commands that are not told apart. -/
def Same (I : Interp) (S : Session) (c c' : Cmd) : Prop :=
  c = c' ∨ ∃ words words' old, c = .evalWords words old ∧ c' = .evalWords words' old ∧
    (evaled I S words).runs = (evaled I S words').runs ∧
      (evaled I S words).get "TYPE" old = (evaled I S words').get "TYPE" old

variable {I : Interp} {S : Session}

theorem same_events (h : Alike.Events (Same I S) t t') (ht : Admissible (Evaluates I S) t) :
    Admissible (Evaluates I S) t' ∧ t'.flatMap (seen I S) = t.flatMap (seen I S) := by
  induction h with
  | nil => exact ⟨ht, rfl⟩
  | @cons e e' t t' he _ ih =>
    obtain ⟨he₁, ht⟩ := List.forall_mem_cons.mp ht
    obtain ⟨hadm, hseen⟩ := ih ht
    obtain ⟨c, r⟩ := e
    obtain ⟨c', r'⟩ := e'
    obtain ⟨hsame, hr⟩ := he
    change r = r' at hr
    subst hr
    rw [List.flatMap_cons, List.flatMap_cons, hseen]
    rcases hsame with hc | ⟨words, words', old, hc, hc', hruns, hget⟩
    · change c = c' at hc
      subst hc
      exact ⟨List.forall_mem_cons.mpr ⟨he₁, hadm⟩, rfl⟩
    · change c = _ at hc
      change c' = _ at hc'
      subst hc hc'
      refine ⟨List.forall_mem_cons.mpr ⟨?_, hadm⟩, ?_⟩
      · change r.out = _ at he₁ ⊢
        rw [he₁, hget]
      · simp only [seen, hruns]

theorem views_subset {p p' : Sh α} (h : Alike (Same I S) p p') : views I S p ⊆ views I S p' := by
  intro view hview
  obtain ⟨t, q, hr, ht, rfl⟩ := hview
  obtain ⟨t', q', hr', hevents, hq⟩ := h.run (fun c => .inl rfl) hr
  obtain ⟨ht', hseen⟩ := same_events hevents ht
  exact ⟨t', q', hr', ht', by rw [hseen, hq.value_eq]⟩

/-- Lines that differ in harmless labels are scanned alike. -/
theorem alike_scanLine {v w : Volume} (hv : v.Harmless S) (hw : w.Harmless S) (h : v.Agree w)
    (env : Env) (s : Scan) :
    Alike (Same I S) (scanLine env s v.line) (scanLine env s w.line) := by
  rw [scanLine, scanLine, v.readPartType_line, w.readPartType_line, ← h.dev]
  unfold scanPart
  simp only
  rw [hv.skipped_eq, hw.skipped_eq, ← h.fixed_eq]
  cases hskip : skipped v.fixed with
  | true => exact .ret s
  | false =>
    obtain ⟨sets, heq⟩ := hv.evaled_eq hskip I
    obtain ⟨sets', heq'⟩ := hw.evaled_eq (h.fixed_eq ▸ hskip) I
    refine .call (.inr ⟨_, _, _, rfl, rfl, ?_, ?_⟩) fun r => alike_refl (fun c => .inl rfl) _
    · rw [heq, heq']
    · rw [heq, heq', v.get_type, w.get_type, h.type]

/-- The commands of a scan are those of `eval` for the lines that are not skipped, and others. -/
theorem within_scanPart {A : Cmd → Prop} (hA : ∀ c : Cmd, c.evals = false → A c)
    (env : Env) (s : Scan) (part type : String)
    (heval : skipped type = false → ∀ old, A (.evalWords type old)) :
    Within E A (scanPart env s part type) fun _ => True := by
  unfold scanPart
  split
  · exact within_ret.mpr trivial
  · next hskip =>
    rw [bind_eq, within_bind, within_output]
    exact ⟨heval (by simpa using hskip) s.TYPE, fun evaled => within_mount hA env _ part⟩

/-- Of harmless labels no command is run. -/
theorem quiet_of_harmless {L : List Volume} (hL : ∀ v ∈ L, v.Harmless S)
    (hlines : lines listing = L.map Volume.line) (env : Env) (s : Scan) :
    ∀ view ∈ views I S (scanLoop env listing s), ∀ c, .inl c ∉ view.1 := by
  have hwithin : Only (fun c => ∀ words old, c = .evalWords words old → (evaled I S words).runs = [])
      (scanLoop env listing s) fun _ => True := by
    rw [scanLoop, hlines]
    refine wp_foldlM (fun _ _ => True) (fun s line hline _ _ => ?_) trivial
    obtain ⟨v, hv, rfl⟩ := List.mem_map.mp hline
    rw [scanLine, v.readPartType_line]
    refine within_scanPart (fun c hc words old h => ?_) env s _ _ ?_
    · subst h
      cases hc
    intro hskip old words old' h
    cases h
    rw [(hL v hv).skipped_eq] at hskip
    obtain ⟨sets, heq⟩ := (hL v hv).evaled_eq hskip I
    rw [heq]
  intro view hview c hc
  obtain ⟨t, q, hr, -, rfl⟩ := hview
  obtain ⟨e, he, hmem⟩ := List.mem_flatMap.mp hc
  obtain ⟨pre, post, rfl⟩ := List.append_of_mem he
  obtain ⟨k, hk, -⟩ := hr.split
  have hcmd := only_iff_issues.mp hwithin _ _ ⟨k, hk⟩
  obtain ⟨c', r⟩ := e
  cases c' with
  | evalWords words old =>
    rw [seen, hcmd words old rfl] at hmem
    exact List.not_mem_nil hmem
  | _ => simp [seen] at hmem

theorem views_scanLoop_subset {L₁ L₂ : List Volume} (h : List.Forall₂ Volume.Agree L₁ L₂)
    (hL₁ : ∀ v ∈ L₁, v.Harmless S) (hL₂ : ∀ v ∈ L₂, v.Harmless S)
    (h₁ : lines listing₁ = L₁.map Volume.line) (h₂ : lines listing₂ = L₂.map Volume.line) (env : Env)
    (s : Scan) : views I S (scanLoop env listing₁ s) ⊆ views I S (scanLoop env listing₂ s) := by
  have hlines : List.Forall₂ (fun line line' => ∀ x,
      Alike (Same I S) (scanLine env x line) (scanLine env x line'))
      (L₁.map Volume.line) (L₂.map Volume.line) := by
    refine List.forall₂_map_left_iff.mpr (List.forall₂_map_right_iff.mpr ?_)
    clear h₁ h₂
    induction h with
    | nil => exact .nil
    | cons hvw _ ih =>
      obtain ⟨hv, hL₁⟩ := List.forall_mem_cons.mp hL₁
      obtain ⟨hw, hL₂⟩ := List.forall_mem_cons.mp hL₂
      exact .cons (fun x => alike_scanLine hv hw hvw env x) (ih hL₁ hL₂)
  rw [scanLoop, scanLoop, h₁, h₂]
  exact views_subset (alike_foldlM hlines s)

/-- Listings that differ in harmless labels lead to the same scans. -/
theorem silent_of_harmless {L₁ L₂ : List Volume} (h : List.Forall₂ Volume.Agree L₁ L₂)
    (hL : ∀ v ∈ L₁ ++ L₂, v.Harmless S) : Silent I S L₁ L₂ := by
  intro env listing₁ listing₂ s h₁ h₂
  have hL₁ : ∀ v ∈ L₁, v.Harmless S := fun v hv => hL v (List.mem_append_left _ hv)
  have hL₂ : ∀ v ∈ L₂, v.Harmless S := fun v hv => hL v (List.mem_append_right _ hv)
  have hflip : List.Forall₂ Volume.Agree L₂ L₁ := (h.imp fun _ _ h => h.symm).flip
  refine ⟨Set.Subset.antisymm ?_ ?_, quiet_of_harmless hL₁ h₁ env s⟩
  · exact views_scanLoop_subset h hL₁ hL₂ h₁ h₂ env s
  · exact views_scanLoop_subset hflip hL₂ hL₁ h₂ h₁ env s

/-! ## The labels that are executed -/

/-- No file system can be mounted. -/
def noMounts (I : Interp) (S : Session) : Cmd → Answer
  | .evalWords words old => ⟨0, (evaled I S words).get "TYPE" old⟩
  | .mountType .. => ⟨1, ""⟩
  | _ => ⟨0, ""⟩

theorem evaluates_noMounts (c : Cmd) : Evaluates I S c (noMounts I S c) := by
  cases c with
  | evalWords => simp only [Evaluates, noMounts]
  | _ => trivial

theorem answered_scanPart (env : Env) (s : Scan) (part type : String) :
    ∃ s', (scanPart env s part type).answered (noMounts I S) = some s' := by
  have hremount : ∀ TYPE, remount TYPE part 1 = .ret 1 :=
    fun TYPE => if_neg fun h => absurd h.1 (by decide)
  have hprobe : ∀ s, probe env s part 1 = .ret s := fun s => if_pos (by decide)
  unfold scanPart
  split
  · exact ⟨s, rfl⟩
  · refine Option.isSome_iff_exists.mp ?_
    simp only [bind_eq, output, status, call_bind, ret_bind, answered, noMounts, hremount, hprobe,
      Option.isSome_some]

theorem answered_scanLines (env : Env) (ls : List String) (s : Scan) :
    ∃ s', (ls.foldlM (scanLine env) s).answered (noMounts I S) = some s' := by
  induction ls generalizing s with
  | nil => exact ⟨s, rfl⟩
  | cons l ls ih =>
    obtain ⟨s₁, h₁⟩ := answered_scanPart (I := I) (S := S) env s (readPartType l).1 (readPartType l).2
    obtain ⟨s₂, h₂⟩ := ih s₁
    refine ⟨s₂, ?_⟩
    rw [List.foldlM_cons, bind_eq, answered_bind, scanLine, h₁]
    exact h₂

/-- The commands in a label are run in some scan of the listing. -/
theorem exists_view {L : List Volume} (hv : v ∈ L) (hlines : lines listing = L.map Volume.line)
    (hskip : skipped (v.values (v.label.map readLabel)) = false)
    (hc : c ∈ (evaled I S (v.values (v.label.map readLabel))).runs) (env : Env) (s : Scan) :
    ∃ view ∈ views I S (scanLoop env listing s), .inl c ∈ view.1 := by
  obtain ⟨pre, post, rfl⟩ := List.append_of_mem hv
  obtain ⟨s₁, h₁⟩ := answered_scanLines (I := I) (S := S) env (pre.map Volume.line) s
  obtain ⟨t, hr, ht⟩ := exists_run_of_answered h₁
  have hloop : scanLoop env listing s = ((pre.map Volume.line).foldlM (scanLine env) s).bind fun s =>
      (v.line :: post.map Volume.line).foldlM (scanLine env) s := by
    rw [scanLoop, hlines, List.map_append, foldlM_append]
    rfl
  have hline : ∃ k, (v.line :: post.map Volume.line).foldlM (scanLine env) s₁ =
      .call (.evalWords (v.values (v.label.map readLabel)) s₁.TYPE) k := by
    rw [List.foldlM_cons, scanLine, v.readPartType_line, scanPart, if_neg (by simp [hskip])]
    exact ⟨_, rfl⟩
  obtain ⟨k, hk⟩ := hline
  have hcall : Run ((v.line :: post.map Volume.line).foldlM (scanLine env) s₁) _ _ :=
    hk ▸ Run.call (noMounts I S (.evalWords (v.values (v.label.map readLabel)) s₁.TYPE)) .refl
  have hrun := hr.bind_ret (f := fun s => (v.line :: post.map Volume.line).foldlM (scanLine env) s)
    hcall
  rw [← hloop] at hrun
  refine ⟨_, ⟨_, _, hrun, ?_, rfl⟩, ?_⟩
  · intro e he
    rcases List.mem_append.mp he with he | he
    · exact ht e he ▸ evaluates_noMounts e.1
    · rw [List.mem_singleton.mp he]
      exact evaluates_noMounts _
  · refine List.mem_flatMap.mpr ⟨_, List.mem_append_right _ List.mem_cons_self, ?_⟩
    exact List.mem_map_of_mem hc

theorem isLine_plain {s : String}
    (hs : ∀ c ∈ s.toList, c.isAlphanum ∨ c ∈ ['/', '-', '_', '.']) : IsLine s :=
  Volume.not_mem_of_plain hs (by decide)

theorem isLine_line (v : Volume) : IsLine v.line := by
  have hdev : IsLine v.dev := isLine_plain (v.plain _ (by simp))
  have huuid : IsLine v.uuid := isLine_plain (v.plain _ (by simp))
  have htype : IsLine v.type := isLine_plain (v.plain _ (by simp))
  have hfixed : IsLine v.fixed :=
    ((((show IsLine "UUID=\"" by decide).append huuid).append (by decide)).append htype).append
      (by decide)
  refine (hdev.append (by decide)).append ?_
  cases hv : v.label with
  | none => exact hfixed
  | some s => exact (((show IsLine "LABEL=\"" by decide).append (v.oneLine s hv)).append
      (by decide)).append hfixed

/-- The listing `blkid` prints. -/
theorem exists_listing (L : List Volume) : ∃ listing, lines listing = L.map Volume.line := by
  refine ⟨_, lines_terminated fun l hl => ?_⟩
  obtain ⟨v, -, rfl⟩ := List.mem_map.mp hl
  exact isLine_line v

/-- Labels that go to their closing quote and make no difference are harmless. -/
theorem harmless_of_silent {L₁ L₂ : List Volume} (hL : ∀ v ∈ L₁ ++ L₂, v.Closed S)
    (h : Silent I S L₁ L₂) : ∀ v ∈ L₁ ++ L₂, v.Harmless S := by
  obtain ⟨listing₁, h₁⟩ := exists_listing L₁
  obtain ⟨listing₂, h₂⟩ := exists_listing L₂
  obtain ⟨hviews, hquiet⟩ := h booted listing₁ listing₂ ⟨"", [], []⟩ h₁ h₂
  intro v hv
  cases hskip : skipped v.fixed with
  | true => exact .inl hskip
  | false =>
    obtain ⟨hwords, hlabel⟩ := (hL v hv).resolve_left (by simp [hskip])
    refine .inr ⟨hwords, fun s hs => ⟨(hlabel s hs).1, ?_⟩⟩
    obtain ⟨hs', runs, hquoted⟩ := hlabel s hs
    rw [hs] at hwords
    have heq := v.evaled_labelled I hwords hquoted
    have hskip' : skipped (v.values (v.label.map readLabel)) = false := by
      rw [hs]
      exact (v.skipped_values hs').trans hskip
    have hruns : runs = [] := by
      refine List.eq_nil_iff_forall_not_mem.mpr fun c hc => ?_
      have hmem : c ∈ (evaled I S (v.values (v.label.map readLabel))).runs := by
        rw [hs]
        exact heq ▸ hc
      rcases List.mem_append.mp hv with hv | hv
      · obtain ⟨view, hview, hin⟩ := exists_view hv h₁ hskip' hmem booted ⟨"", [], []⟩
        exact hquiet view hview c hin
      · obtain ⟨view, hview, hin⟩ := exists_view hv h₂ hskip' hmem booted ⟨"", [], []⟩
        exact hquiet view (hviews ▸ hview) c hin
    rw [← inert_squeeze]
    exact (quoted_iff_inert _ []).mp (hruns ▸ hquoted [])

/-- Of listings that differ in the text of labels, those with harmless labels make no difference; and
as long as the labels go to the quotes that close them, only those. -/
theorem scan_silent_iff (I : Interp) (S : Session) {L₁ L₂ : List Volume}
    (h : List.Forall₂ Volume.Agree L₁ L₂) :
    ((∀ v ∈ L₁ ++ L₂, v.Harmless S) → Silent I S L₁ L₂) ∧
      ((∀ v ∈ L₁ ++ L₂, v.Closed S) → Silent I S L₁ L₂ → ∀ v ∈ L₁ ++ L₂, v.Harmless S) :=
  ⟨silent_of_harmless h, harmless_of_silent⟩

/-- A flash drive. -/
def usb (label : String) (h : IsLine label) : Volume where
  dev := "/dev/sdb1"
  label := some label
  uuid := "1A2B-3C4D"
  type := "vfat"
  plain := by decide
  oneLine := fun s hs => Option.some.inj hs ▸ h

theorem agree_usb (label label' : String) (h : IsLine label) (h' : IsLine label') :
    (usb label h).Agree (usb label' h') :=
  ⟨rfl, rfl, rfl, rfl⟩

theorem harmless_usb {label : String} {h : IsLine label} (hskip : skipped (readLabel label) = false)
    (hinert : inert (readLabel label).toList) : (usb label h).Harmless noFiles := by
  refine .inr ⟨fun _ _ => rfl, fun s hs => ?_⟩
  obtain rfl := Option.some.inj hs
  exact ⟨hskip, hinert⟩

theorem scan_silent_iff_usb :
    Silent mute noFiles [usb "MY DISK" (by decide)] [usb "music" (by decide)] := by
  have hagree := agree_usb "MY DISK" "music" (by decide) (by decide)
  refine (scan_silent_iff mute noFiles (.cons hagree .nil)).1 fun v hv => ?_
  rcases List.mem_cons.mp hv with rfl | hv
  · exact harmless_usb (by decide +kernel) (by decide +kernel)
  · rw [List.mem_singleton.mp hv]
    exact harmless_usb (by decide +kernel) (by decide +kernel)

/-- The command in a label is run. -/
theorem label_executed :
    ¬ Silent mute noFiles [usb "MY DISK" (by decide)] [usb "$(reboot)" (by decide)] := by
  intro h
  have hdisk : (usb "MY DISK" (by decide)).Closed noFiles := by
    refine .inr ⟨fun _ _ => rfl, fun s hs => ?_⟩
    obtain rfl := Option.some.inj hs
    exact ⟨by decide +kernel, [], fun rest => (quoted_iff_inert _ rest).mpr (by decide +kernel)⟩
  have hreboot : (usb "$(reboot)" (by decide)).Closed noFiles := by
    refine .inr ⟨fun _ _ => rfl, fun s hs => ?_⟩
    obtain rfl := Option.some.inj hs
    have hlist : squeeze (readLabel "$(reboot)").toList =
        ['$', '(', 'r', 'e', 'b', 'o', 'o', 't', ')'] := by decide +kernel
    rw [hlist]
    refine ⟨by decide +kernel, ["reboot"], fun rest => ?_⟩
    have hclose := quoted_quote rest
    simp [quoted, escapable, Quoted.push] at hclose ⊢
    exact ⟨_, hclose, rfl, rfl, rfl⟩
  have hharmless := harmless_of_silent (by simp [hdisk, hreboot]) h (usb "$(reboot)" (by decide))
    (by simp)
  rcases hharmless with hskip | hlabel
  · exact absurd hskip (by decide +kernel)
  · exact absurd (hlabel.2 "$(reboot)" rfl).2 (by decide +kernel)

end Installer
end HassioInstaller
