import HassioInstaller.Text.Fields

/-! # `eval` of quoted assignments

What `eval` makes of a text that is a row of assignments `NAME="text"`, as bash reads the texts
between double quotes: a backslash escapes a few characters, `$(...)` is executed, a parameter such as
`$HOME` is replaced. What any other text does, with a further quote, a backquote or `${...}` in it, is
a parameter. -/

namespace Shell
open Text

/-- What an `eval` does: the texts it runs as commands and the variables it assigns, in order. -/
structure Effect where
  runs : List String
  sets : List (String × String)

/-- The value of a variable afterwards, `old` being the one before. -/
def Effect.get (e : Effect) (name old : String) : String := (e.sets.reverse.lookup name).getD old

/-- The characters that a backslash escapes between double quotes. -/
def escapable : List Char := ['$', '`', '"', '\\']

/-- The special parameters, one character each. -/
def special : List Char := "@*#?-$!0123456789".toList

/-- A text between double quotes with the commands in it, and what comes after it. -/
structure Quoted where
  body : List Char
  runs : List String
  rest : List Char
  deriving DecidableEq

def Quoted.push (cs : List Char) (q : Quoted) : Quoted := { q with body := cs ++ q.body }

/-- The text up to the closing quote; inside of `$(` the characters of the command so far are carried
along. There is no answer where a command has quotes, expansions or a subshell in it. -/
def quoted : Option (List Char) → List Char → Option Quoted
  | _, [] => none
  | some cmd, c :: cs =>
    if c = ')' then
      (quoted none cs).map fun q => ⟨c :: q.body, String.ofList cmd :: q.runs, q.rest⟩
    else if c ∈ "(\"'`\\$#".toList then none
    else (quoted (some (cmd ++ [c])) cs).map (.push [c])
  | none, c :: cs =>
    if c = '"' then some ⟨[], [], cs⟩
    else if c = '`' then none
    else match cs with
      | [] => none
      | d :: ds =>
        if c = '\\' ∧ d ∈ escapable then (quoted none ds).map (.push [c, d])
        else if c = '$' ∧ d = '(' then (quoted (some []) ds).map (.push [c, d])
        else if c = '$' ∧ d ∈ ['{', '['] then none
        else if c = '$' ∧ d ∈ special then (quoted none ds).map (.push [c, d])
        else (quoted none (d :: ds)).map (.push [c])

/-- Nothing in the text ends it or is executed: it has no quote, no backquote and none of `$(`, `${`
and `$[`, unless escaped, and no backslash before its end. -/
def inert : List Char → Bool
  | [] => true
  | c :: cs =>
    if c = '"' ∨ c = '`' then false
    else match cs with
      | [] => c ≠ '\\'
      | d :: ds =>
        if c = '\\' ∧ d ∈ escapable then inert ds
        else if c = '$' ∧ d ∈ ['(', '{', '['] then false
        else if c = '$' ∧ d ∈ special then inert ds
        else inert (d :: ds)

theorem quoted_quote (cs : List Char) : quoted none ('"' :: cs) = some ⟨[], [], cs⟩ := by
  unfold quoted
  rw [if_pos rfl]

theorem quoted_cons_cons (hc : ¬ (c = '"' ∨ c = '`')) (d : Char) (ds : List Char) :
    quoted none (c :: d :: ds) =
      if c = '\\' ∧ d ∈ escapable then (quoted none ds).map (.push [c, d])
      else if c = '$' ∧ d = '(' then (quoted (some []) ds).map (.push [c, d])
      else if c = '$' ∧ d ∈ ['{', '['] then none
      else if c = '$' ∧ d ∈ special then (quoted none ds).map (.push [c, d])
      else (quoted none (d :: ds)).map (.push [c]) := by
  rw [not_or] at hc
  conv_lhs => unfold quoted
  rw [if_neg hc.1, if_neg hc.2]

/-- A character that starts nothing is taken as it is. -/
theorem quoted_push (hc : ¬ (c = '"' ∨ c = '`')) (hesc : ¬ (c = '\\' ∧ d ∈ escapable))
    (hopen : ¬ (c = '$' ∧ d ∈ ['(', '{', '['])) (hspec : ¬ (c = '$' ∧ d ∈ special)) :
    quoted none (c :: d :: ds) = (quoted none (d :: ds)).map (.push [c]) := by
  have hparen : ¬ (c = '$' ∧ d = '(') := fun h => hopen ⟨h.1, by simp [h.2]⟩
  have hbrace : ¬ (c = '$' ∧ d ∈ ['{', '[']) :=
    fun h => hopen ⟨h.1, List.mem_cons_of_mem _ h.2⟩
  rw [quoted_cons_cons hc, if_neg hesc, if_neg hparen, if_neg hbrace, if_neg hspec]

theorem push_eq_iff (cs : List Char) {q : Option Quoted} :
    q.map (Quoted.push cs) = some ⟨cs ++ body, [], rest⟩ ↔ q = some ⟨body, [], rest⟩ := by
  cases q with
  | none => simp
  | some q =>
    obtain ⟨body', runs, rest'⟩ := q
    simp [Quoted.push]

/-- A command that is begun is run. -/
theorem runs_ne_nil (h : quoted (some cmd) cs = some q) : q.runs ≠ [] := by
  induction cs generalizing cmd q with
  | nil => cases h
  | cons c cs ih =>
    unfold quoted at h
    split at h
    · obtain ⟨q', -, rfl⟩ := Option.map_eq_some_iff.mp h
      exact List.cons_ne_nil _ _
    split at h
    · cases h
    · obtain ⟨q', hq', rfl⟩ := Option.map_eq_some_iff.mp h
      have hruns := ih hq'
      exact hruns

/-- The texts that go to the quote after them and run nothing are the inert ones. -/
theorem quoted_iff_inert (body rest : List Char) :
    quoted none (body ++ '"' :: rest) = some ⟨body, [], rest⟩ ↔ inert body := by
  fun_induction inert body with
  | case1 => exact ⟨fun _ => rfl, fun _ => quoted_quote rest⟩
  | case2 c cs hc =>
    refine ⟨fun h => ?_, fun h => by cases h⟩
    rcases hc with rfl | rfl
    · rw [List.cons_append, quoted_quote] at h
      cases h
    · rw [List.cons_append] at h
      unfold quoted at h
      rw [if_neg (by decide), if_pos rfl] at h
      cases h
  | case3 c hc =>
    have hspec : ¬ (c = '$' ∧ '"' ∈ special) := fun h => absurd h.2 (by decide)
    have hopen : ¬ (c = '$' ∧ '"' ∈ ['(', '{', '[']) := fun h => absurd h.2 (by decide)
    by_cases hback : c = '\\'
    · subst hback
      refine ⟨fun h => ?_, fun h => by simp at h⟩
      rw [List.singleton_append, quoted_cons_cons hc, if_pos ⟨rfl, by decide⟩] at h
      cases hq : quoted none rest with
      | none =>
        rw [hq] at h
        cases h
      | some q =>
        rw [hq] at h
        have := congrArg (fun q : Quoted => q.body) (Option.some.inj h)
        cases this
    · rw [List.singleton_append, quoted_push hc (fun h => hback h.1) hopen hspec, quoted_quote]
      simp [Quoted.push, hback]
  | case4 c hc d ds hesc ih =>
    rw [List.cons_append, List.cons_append, quoted_cons_cons hc, if_pos hesc, ← ih]
    exact push_eq_iff [c, d]
  | case5 c hc d ds hesc hopen =>
    refine ⟨fun h => ?_, fun h => by cases h⟩
    rw [List.cons_append, List.cons_append, quoted_cons_cons hc, if_neg hesc] at h
    split at h
    · obtain ⟨q, hq, hpush⟩ := Option.map_eq_some_iff.mp h
      have hruns := runs_ne_nil hq
      exact absurd (congrArg Quoted.runs hpush) hruns
    · next hparen =>
      have hd : d ∈ ['{', '['] :=
        (List.mem_cons.mp hopen.2).resolve_left fun hd => hparen ⟨hopen.1, hd⟩
      rw [if_pos ⟨hopen.1, hd⟩] at h
      cases h
  | case6 c hc d ds hesc hopen hspec ih =>
    have hparen : ¬ (c = '$' ∧ d = '(') := fun h => hopen ⟨h.1, by simp [h.2]⟩
    have hbrace : ¬ (c = '$' ∧ d ∈ ['{', '[']) :=
      fun h => hopen ⟨h.1, List.mem_cons_of_mem _ h.2⟩
    rw [List.cons_append, List.cons_append, quoted_cons_cons hc, if_neg hesc, if_neg hparen,
      if_neg hbrace, if_pos hspec, ← ih]
    exact push_eq_iff [c, d]
  | case7 c hc d ds hesc hopen hspec ih =>
    rw [List.cons_append, List.cons_append, quoted_push hc hesc hopen hspec, ← List.cons_append,
      ← ih]
    exact push_eq_iff [c]

/-- Letters, digits and punctuation without a meaning are inert. -/
theorem inert_of_plain (h : ∀ c ∈ cs, c ∉ ['"', '`', '$', '\\']) : inert cs := by
  fun_induction inert cs with
  | case1 => rfl
  | case2 c cs hc =>
    have hnot := h c List.mem_cons_self
    rcases hc with rfl | rfl
    · exact absurd (by decide) hnot
    · exact absurd (by decide) hnot
  | case3 c hc =>
    have hnot := h c List.mem_cons_self
    simp only [List.mem_cons, not_or] at hnot
    simpa using hnot.2.2.2.1
  | case4 c hc d ds hesc ih =>
    exact absurd (by rw [hesc.1]; decide) (h c List.mem_cons_self)
  | case5 c hc d ds hesc hopen =>
    exact absurd (by rw [hopen.1]; decide) (h c List.mem_cons_self)
  | case6 c hc d ds hesc hopen hspec ih =>
    exact absurd (by rw [hspec.1]; decide) (h c List.mem_cons_self)
  | case7 c hc d ds hesc hopen hspec ih => exact ih fun c hc => h c (List.mem_cons_of_mem _ hc)

/-! ## Assignments -/

def isNameChar (c : Char) : Bool := c.isAlphanum || c = '_'

/-- The assignments a text consists of and the commands in them. Each uses up a name and two quotes, so
the length is fuel enough. -/
def assignments : Nat → List Char → Option (List (String × List Char) × List String)
  | 0, _ => none
  | fuel + 1, cs =>
    let cs := cs.dropWhile isBlank
    if cs = [] then some ([], [])
    else if cs.head?.any Char.isDigit then none
    else
      match cs.takeWhile isNameChar, cs.dropWhile isNameChar with
      | name@(_ :: _), '=' :: '"' :: text =>
        match quoted none text with
        | some q =>
          if q.rest.head?.all isBlank then
            (assignments fuel q.rest).map fun r =>
              ((String.ofList name, q.body) :: r.1, q.runs ++ r.2)
          else none
        | none => none
      | _, _ => none

/-- What the shell makes of a text between double quotes, and of a text that is no row of
assignments. -/
structure Interp where
  value : List Char → String
  other : String → Effect
  value_plain : ∀ body, (∀ c ∈ body, c ≠ '$' ∧ c ≠ '\\') → value body = String.ofList body

/-- `eval text`. -/
def Interp.eval (I : Interp) (text : String) : Effect :=
  match assignments (text.toList.length + 1) text.toList with
  | some r => ⟨r.2, r.1.map fun a => (a.1, I.value a.2)⟩
  | none => I.other text

/-- The name of a variable. -/
def IsName (name : List Char) : Prop :=
  name.head?.any (fun c => !isBlank c && !c.isDigit) ∧ ∀ c ∈ name, isNameChar c

instance (name : List Char) : Decidable (IsName name) := inferInstanceAs (Decidable (_ ∧ _))

/-- The first assignment of a text, which has blanks after its closing quote. -/
theorem assignments_cons (hname : IsName name) (hq : quoted none text = some q)
    (hrest : q.rest.head?.all isBlank) (fuel : Nat) :
    assignments (fuel + 1) (name ++ '=' :: '"' :: text) =
      (assignments fuel q.rest).map fun r => ((String.ofList name, q.body) :: r.1, q.runs ++ r.2) := by
  obtain ⟨hstart, hchars⟩ := hname
  obtain ⟨c, cs, rfl⟩ : ∃ c cs, name = c :: cs := by
    cases name with
    | nil => cases hstart
    | cons c cs => exact ⟨c, cs, rfl⟩
  obtain ⟨hblank, hdigit⟩ : isBlank c = false ∧ c.isDigit = false := by simpa using hstart
  have htake : ((c :: cs) ++ '=' :: '"' :: text).takeWhile isNameChar = c :: cs := by
    rw [List.takeWhile_append_of_pos hchars, List.takeWhile_cons_of_neg (by decide), List.append_nil]
  have hdrop : ((c :: cs) ++ '=' :: '"' :: text).dropWhile isNameChar = '=' :: '"' :: text := by
    rw [List.dropWhile_append_of_pos hchars, List.dropWhile_cons_of_neg (by decide)]
  have hskip : ((c :: cs) ++ '=' :: '"' :: text).dropWhile isBlank =
      (c :: cs) ++ '=' :: '"' :: text := by
    rw [List.cons_append, List.dropWhile_cons_of_neg (by simp [hblank])]
  have hfirst : ((c :: cs) ++ '=' :: '"' :: text).head?.any Char.isDigit = false := by
    simpa using hdigit
  rw [assignments]
  simp only [hskip, htake, hdrop, hfirst, hq]
  rw [if_neg (by simp), if_neg Bool.false_ne_true, if_pos hrest]

theorem assignments_blank (fuel : Nat) (cs : List Char) :
    assignments fuel (' ' :: cs) = assignments fuel cs := by
  cases fuel with
  | zero => rfl
  | succ fuel =>
    conv_lhs => unfold assignments
    conv_rhs => unfold assignments
    rw [List.dropWhile_cons_of_pos (by decide)]

/-- An assignment of a quoted text that goes to its closing quote, with the commands in it. -/
structure Assignment where
  name : List Char
  body : List Char
  runs : List String
  isName : IsName name
  closes : ∀ rest, quoted none (body ++ '"' :: rest) = some ⟨body, runs, rest⟩

namespace Assignment

def text (a : Assignment) : List Char := a.name ++ '=' :: '"' :: (a.body ++ ['"'])

/-- The assignment of an inert text. -/
def ofInert (name body : List Char) (hname : IsName name) (h : inert body) : Assignment :=
  ⟨name, body, [], hname, fun rest => (quoted_iff_inert body rest).mpr h⟩

/-- Assignments with a blank before each. -/
def row (as : List Assignment) : List Char := as.flatMap fun a => ' ' :: a.text

theorem length_row (as : List Assignment) : 2 * as.length ≤ (row as).length := by
  induction as with
  | nil => exact Nat.zero_le _
  | cons a as ih =>
    rw [row, List.flatMap_cons, List.length_append, List.length_cons, List.length_cons, text,
      List.length_append, List.length_cons]
    rw [row] at ih
    omega

theorem assignments_row (as : List Assignment) (h : as.length < fuel) :
    assignments fuel (row as) =
      some (as.map fun a => (String.ofList a.name, a.body), as.flatMap runs) := by
  induction as generalizing fuel with
  | nil =>
    obtain ⟨fuel, rfl⟩ := Nat.exists_eq_succ_of_ne_zero (Nat.ne_of_gt h)
    rfl
  | cons a as ih =>
    obtain ⟨fuel, rfl⟩ := Nat.exists_eq_succ_of_ne_zero (Nat.ne_of_gt (Nat.zero_lt_of_lt h))
    have hblank : (row as).head?.all isBlank := by
      cases as with
      | nil => rfl
      | cons => rfl
    have htext : row (a :: as) = ' ' :: (a.name ++ '=' :: '"' :: (a.body ++ '"' :: row as)) := by
      simp [row, text]
    rw [List.length_cons] at h
    rw [htext, assignments_blank, assignments_cons (q := ⟨a.body, a.runs, row as⟩) a.isName
      (a.closes (row as)) hblank, ih (by omega)]
    rfl

end Assignment

/-- What `eval` does with a row of assignments. -/
theorem Interp.eval_row (I : Interp) {as : List Assignment} (hne : as ≠ [])
    (hs : ' ' :: s.toList = Assignment.row as) : I.eval s =
      ⟨as.flatMap Assignment.runs, as.map fun a => (String.ofList a.name, I.value a.body)⟩ := by
  have hlen := Assignment.length_row as
  have hpos := List.length_pos_iff.mpr hne
  have hrow : assignments (s.toList.length + 1) s.toList =
      some (as.map fun a => (String.ofList a.name, a.body), as.flatMap Assignment.runs) := by
    rw [← assignments_blank, hs]
    refine Assignment.assignments_row as ?_
    rw [← hs, List.length_cons] at hlen
    omega
  rw [eval, hrow]
  simp only [List.map_map]
  rfl

/-! ## The blanks that are left -/

/-- A text in which every run of blanks is one blank. -/
def squeeze : List Char → List Char
  | [] => []
  | c :: cs =>
    if isBlank c then if cs.head?.any isBlank then squeeze cs else ' ' :: squeeze cs
    else c :: squeeze cs

theorem squeeze_cons (h : isBlank c = false) (cs : List Char) :
    squeeze (c :: cs) = c :: squeeze cs := by
  rw [squeeze, h, if_neg Bool.false_ne_true]

theorem head_squeeze (c : Char) (cs : List Char) :
    (squeeze (c :: cs)).head? = some (if isBlank c then ' ' else c) := by
  induction cs generalizing c with
  | nil =>
    cases hc : isBlank c with
    | false => rw [squeeze_cons hc]; rfl
    | true => rw [squeeze, hc]; rfl
  | cons d ds ih =>
    cases hc : isBlank c with
    | false => rw [squeeze_cons hc]; rfl
    | true =>
      rw [squeeze, if_pos hc]
      cases hd : isBlank d with
      | false => simp [hd]
      | true =>
        have := ih d
        simpa [hd] using this

theorem inert_cons_cons (hc : ¬ (c = '"' ∨ c = '`')) (d : Char) (ds : List Char) :
    inert (c :: d :: ds) =
      if c = '\\' ∧ d ∈ escapable then inert ds
      else if c = '$' ∧ d ∈ ['(', '{', '['] then false
      else if c = '$' ∧ d ∈ special then inert ds
      else inert (d :: ds) := by
  conv_lhs => unfold inert
  rw [if_neg hc]

/-- A plain character in front changes nothing. -/
theorem inert_plain_cons (hc : c ∉ ['"', '`', '$', '\\']) (cs : List Char) :
    inert (c :: cs) = inert cs := by
  simp only [List.mem_cons, not_or] at hc
  have hquote : ¬ (c = '"' ∨ c = '`') := fun h => h.elim hc.1 hc.2.1
  cases cs with
  | nil =>
    unfold inert
    rw [if_neg hquote]
    simpa using hc.2.2.2.1
  | cons d ds =>
    rw [inert_cons_cons hquote, if_neg fun h => hc.2.2.2.1 h.1, if_neg fun h => hc.2.2.1 h.1,
      if_neg fun h => hc.2.2.1 h.1]

/-- No escape, expansion or closing quote is made or undone by squeezing blanks. -/
theorem inert_squeeze (cs : List Char) : inert (squeeze cs) = inert cs := by
  have hesc : ∀ d ∈ escapable, isBlank d = false := by decide
  have hspec : ∀ d ∈ special, isBlank d = false := by decide
  have hbracket : ∀ d ∈ ['(', '{', '['], isBlank d = false := by decide
  fun_induction inert cs with
  | case1 => rfl
  | case2 c cs hc =>
    have hblank : isBlank c = false := by
      rcases hc with rfl | rfl
      · decide
      · decide
    rw [squeeze_cons hblank]
    unfold inert
    rw [if_pos hc]
  | case3 c hc =>
    cases hblank : isBlank c with
    | false =>
      rw [squeeze_cons hblank]
      unfold inert
      rw [if_neg hc]
      rfl
    | true =>
      have hback : c ≠ '\\' := by
        rintro rfl
        exact absurd hblank (by decide)
      rw [squeeze, if_pos hblank]
      simp [squeeze, hback]
      rfl
  | case4 c hc d ds hpair ih =>
    have hback : isBlank c = false := by rw [hpair.1]; rfl
    rw [squeeze_cons hback, squeeze_cons (hesc d hpair.2), inert_cons_cons hc, if_pos hpair]
    exact ih
  | case5 c hc d ds hpair hopen =>
    have hdollar : isBlank c = false := by rw [hopen.1]; rfl
    rw [squeeze_cons hdollar, squeeze_cons (hbracket d hopen.2), inert_cons_cons hc, if_neg hpair,
      if_pos hopen]
  | case6 c hc d ds hpair hopen hparam ih =>
    have hdollar : isBlank c = false := by rw [hparam.1]; rfl
    rw [squeeze_cons hdollar, squeeze_cons (hspec d hparam.2), inert_cons_cons hc, if_neg hpair,
      if_neg hopen, if_pos hparam]
    exact ih
  | case7 c hc d ds hpair hopen hparam ih =>
    cases hblank : isBlank c with
    | true =>
      rw [squeeze, if_pos hblank]
      split
      · exact ih
      · rw [inert_plain_cons (by decide)]
        exact ih
    | false =>
      obtain ⟨e, es, hsq⟩ : ∃ e es, squeeze (d :: ds) = e :: es := by
        have hhead := head_squeeze d ds
        cases hcs : squeeze (d :: ds) with
        | nil =>
          rw [hcs] at hhead
          cases hhead
        | cons e es => exact ⟨e, es, rfl⟩
      -- the character after `c` is the same as before, or a blank
      have he : e = d ∨ e = ' ' := by
        have hhead := head_squeeze d ds
        rw [hsq] at hhead
        have heq := Option.some.inj hhead
        split at heq
        · exact .inr heq
        · exact .inl heq
      have hsame : ∀ l : List Char, ' ' ∉ l → d ∉ l → e ∉ l := by
        intro l hl hd hel
        rcases he with rfl | rfl
        · exact hd hel
        · exact hl hel
      rw [squeeze_cons hblank, hsq, inert_cons_cons hc,
        if_neg fun h => hsame escapable (by decide) (fun hd => hpair ⟨h.1, hd⟩) h.2,
        if_neg fun h => hsame ['(', '{', '['] (by decide) (fun hd => hopen ⟨h.1, hd⟩) h.2,
        if_neg fun h => hsame special (by decide) (fun hd => hparam ⟨h.1, hd⟩) h.2, ← hsq]
      exact ih

theorem squeeze_append (hc : isBlank c = false) (a b : List Char) :
    squeeze (a ++ c :: b) = squeeze a ++ squeeze (c :: b) := by
  induction a with
  | nil => rfl
  | cons d a ih =>
    have hhead : (a ++ c :: b).head?.any isBlank = a.head?.any isBlank := by
      cases a with
      | nil => simpa using hc
      | cons => rfl
    rw [List.cons_append, squeeze, squeeze, hhead, ih]
    split
    · split <;> rfl
    · rfl

theorem squeeze_word (h : ∀ c ∈ w, isBlank c = false) (cs : List Char) :
    squeeze (w ++ cs) = w ++ squeeze cs := by
  induction w with
  | nil => rfl
  | cons c w ih =>
    obtain ⟨hc, hw⟩ := List.forall_mem_cons.mp h
    rw [List.cons_append, squeeze_cons hc, ih hw]
    rfl

/-- The words of a text with one blank between them, and one in front if the text starts with a
blank. -/
def respaced (cs : List Char) : List Char :=
  let joined := [' '].intercalate ((cs.splitOnP isBlank).filter (· ≠ []))
  if cs.head?.any isBlank then ' ' :: joined else joined

theorem respaced_blank (hc : isBlank c) (cs : List Char) : respaced (c :: cs) =
    if cs.head?.any isBlank then respaced cs else ' ' :: respaced cs := by
  have hjoined : ((c :: cs).splitOnP isBlank).filter (· ≠ []) =
      (cs.splitOnP isBlank).filter (· ≠ []) := by
    rw [List.splitOnP_cons_eq_if_modifyHead, if_pos hc, List.filter_cons_of_neg (by simp)]
  have hhead : (c :: cs).head?.any isBlank = true := by simpa using hc
  simp only [respaced, hjoined, hhead, if_true]
  split <;> rfl

theorem filter_split_ne_nil {cs : List Char} (h : ∃ c ∈ cs, isBlank c = false) :
    (cs.splitOnP isBlank).filter (· ≠ []) ≠ [] := by
  induction cs with
  | nil =>
    obtain ⟨c, hc, -⟩ := h
    exact (List.not_mem_nil hc).elim
  | cons c cs ih =>
    rw [List.splitOnP_cons_eq_if_modifyHead]
    split
    · next hblank =>
      rw [List.filter_cons_of_neg (by simp)]
      obtain ⟨d, hd, hword⟩ := h
      refine ih ⟨d, (List.mem_cons.mp hd).resolve_left ?_, hword⟩
      rintro rfl
      rw [hword] at hblank
      cases hblank
    · obtain ⟨first, rest, hsplit⟩ := List.exists_cons_of_ne_nil (List.splitOnP_ne_nil isBlank cs)
      rw [hsplit, List.modifyHead_cons, List.filter_cons_of_pos (by simp)]
      exact List.cons_ne_nil _ _

/-- Not before the end: a blank is followed by a further word. -/
theorem respaced_cons (hc : isBlank c = false) (hcs : ∃ d ∈ cs, isBlank d = false) :
    respaced (c :: cs) = c :: respaced cs := by
  obtain ⟨d, ds, rfl⟩ : ∃ d ds, cs = d :: ds := by
    obtain ⟨d, hd, -⟩ := hcs
    exact ⟨_, _, (List.cons_head_tail (List.ne_nil_of_mem hd)).symm⟩
  obtain ⟨first, rest, hsplit⟩ := List.exists_cons_of_ne_nil (List.splitOnP_ne_nil isBlank (d :: ds))
  have hhead : (c :: d :: ds).head?.any isBlank = false := by simpa using hc
  have hjoined : ((c :: d :: ds).splitOnP isBlank).filter (· ≠ []) =
      (c :: first) :: rest.filter (· ≠ []) := by
    rw [List.splitOnP_cons_eq_if_modifyHead, hc, if_neg Bool.false_ne_true, hsplit,
      List.modifyHead_cons, List.filter_cons_of_pos (by simp)]
  simp only [respaced, hjoined, hhead, Bool.false_eq_true, if_false]
  rw [List.intercalate_cons_cons_left, hsplit]
  congr 1
  cases hd : isBlank d with
  | true =>
    have hfirst := hsplit
    rw [List.splitOnP_cons_eq_if_modifyHead, if_pos hd] at hfirst
    obtain ⟨hnil, -⟩ := List.cons.inj hfirst
    have hrest := filter_split_ne_nil hcs
    rw [hsplit, ← hnil, List.filter_cons_of_neg (by simp)] at hrest
    rw [← hnil, List.intercalate_cons_of_ne_nil hrest, List.filter_cons_of_neg (by simp)]
    simp [hd]
  | false =>
    have hfirst := hsplit
    rw [List.splitOnP_cons_eq_if_modifyHead, hd, if_neg Bool.false_ne_true] at hfirst
    have hne : first ≠ [] := by
      obtain ⟨first', rest', hds⟩ := List.exists_cons_of_ne_nil (List.splitOnP_ne_nil isBlank ds)
      rw [hds, List.modifyHead_cons] at hfirst
      rw [← (List.cons.inj hfirst).1]
      exact List.cons_ne_nil _ _
    rw [List.filter_cons_of_pos (by simpa using hne)]
    simp [hd]

theorem respaced_quote (text : List Char) : respaced (text ++ ['"']) = squeeze text ++ ['"'] := by
  induction text with
  | nil => decide
  | cons c cs ih =>
    cases hc : isBlank c with
    | false =>
      rw [List.cons_append, respaced_cons hc ⟨'"', by simp, by decide⟩, ih, squeeze_cons hc]
      rfl
    | true =>
      have hhead : (cs ++ ['"']).head?.any isBlank = cs.head?.any isBlank := by
        cases cs with
        | nil => decide
        | cons => rfl
      rw [List.cons_append, respaced_blank hc, hhead, ih, squeeze, if_pos hc]
      split <;> rfl

/-- The words of a text up to a quote, with one blank between them. -/
theorem toList_intercalate_words {text : List Char} (h : text.head?.any isBlank = false)
    (hne : text ≠ []) : (" ".intercalate (words (String.ofList (text ++ ['"'])))).toList =
      squeeze text ++ ['"'] := by
  have hhead : (text ++ ['"']).head?.any isBlank = false := by
    cases text with
    | nil => exact absurd rfl hne
    | cons => exact h
  have hrespaced := respaced_quote text
  simp only [respaced, hhead, Bool.false_eq_true, if_false] at hrespaced
  rw [← hrespaced, String.toList_intercalate, words_eq, String.toList_ofList, List.map_map]
  congr 1
  simp [Function.comp_def]

end Shell
