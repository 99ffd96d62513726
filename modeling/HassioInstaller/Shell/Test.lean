import Mathlib.Data.List.Infix

/-! # The `test` command of bash

What `[ args ]` makes of its arguments: by their number up to four, and as an expression of `!`,
`-a`, `-o` and parentheses from there on. What an operator finds in the file system, in a number or
in a variable is a parameter. -/

namespace Shell

/-- The operators of one argument. -/
def unaryOps : List String :=
  ["-a", "-b", "-c", "-d", "-e", "-f", "-g", "-h", "-k", "-n", "-o", "-p", "-r", "-s", "-t", "-u",
    "-v", "-w", "-x", "-z", "-G", "-L", "-N", "-O", "-R", "-S"]

/-- The operators between two arguments. -/
def binaryOps : List String :=
  ["=", "==", "!=", "<", ">", "-nt", "-ot", "-ef", "-eq", "-ne", "-lt", "-le", "-gt", "-ge"]

/-- What the operators find; `none` is an error. -/
structure Primaries where
  unary : (op arg : String) → Option Bool
  binary : (arg op arg' : String) → Option Bool

namespace Primaries

def eval₁ (P : Primaries) (op arg : String) : Option Bool :=
  if op = "-z" then some (arg = "")
  else if op = "-n" then some (arg ≠ "")
  else P.unary op arg

def eval₂ (P : Primaries) (arg op arg' : String) : Option Bool :=
  if op = "=" ∨ op = "==" then some (arg = arg')
  else if op = "!=" then some (arg ≠ arg')
  else P.binary arg op arg'

variable (P : Primaries)

mutual

/-- A term at the head of the arguments, with its value and what comes after it. -/
def term : Nat → List String → Option (Bool × List String)
  | 0, _ | _ + 1, [] => none
  | fuel + 1, a :: args =>
    if a = "!" then (term fuel args).map fun r => (!r.1, r.2)
    else if a = "(" then
      match expr fuel args with
      | some (v, ")" :: rest) => some (v, rest)
      | _ => none
    else
      match args with
      | op :: arg :: rest =>
        if op ∈ binaryOps then (P.eval₂ a op arg).map (·, rest)
        else if a ∈ unaryOps then (P.eval₁ a op).map (·, arg :: rest)
        else some (a ≠ "", args)
      | [arg] => if a ∈ unaryOps then (P.eval₁ a arg).map (·, []) else some (a ≠ "", args)
      | [] => some (a ≠ "", [])

def andExpr : Nat → List String → Option (Bool × List String)
  | 0, _ => none
  | fuel + 1, args =>
    match term fuel args with
    | some (v, "-a" :: rest) => (andExpr fuel rest).map fun r => (v && r.1, r.2)
    | r => r

def expr : Nat → List String → Option (Bool × List String)
  | 0, _ => none
  | fuel + 1, args =>
    match andExpr fuel args with
    | some (v, "-o" :: rest) => (expr fuel rest).map fun r => (v || r.1, r.2)
    | r => r

end

/-- An expression that takes up all arguments. Each of them is passed at most three times on the way
down. -/
def whole (args : List String) : Option Bool :=
  match P.expr (3 * args.length + 3) args with
  | some (v, []) => some v
  | _ => none

def two (a b : String) : Option Bool :=
  if a = "!" then some (b = "") else if a ∈ unaryOps then P.eval₁ a b else none

def three (a b c : String) : Option Bool :=
  if b ∈ binaryOps then P.eval₂ a b c
  else if b = "-a" then some (a ≠ "" ∧ c ≠ "")
  else if b = "-o" then some (a ≠ "" ∨ c ≠ "")
  else if a = "!" then (P.two b c).map (!·)
  else if a = "(" ∧ c = ")" then some (b ≠ "")
  else none

/-- `[ args ]`; `none` is an error, with status 2. -/
def test : List String → Option Bool
  | [] => some false
  | [a] => some (a ≠ "")
  | [a, b] => P.two a b
  | [a, b, c] => P.three a b c
  | [a, b, c, d] =>
    if a = "!" then (P.three b c d).map (!·)
    else if a = "(" ∧ d = ")" then P.two b c
    else P.whole [a, b, c, d]
  | args => P.whole args

example : (⟨fun _ _ => none, fun _ _ _ => none⟩ : Primaries).test ["-z", "x", "-o", "y"] =
    some true := by decide +kernel

/-! ## What is left of the arguments -/

theorem eq_some_of_map {f : α → β} {o : Option α} (h : o.map f = some b) :
    ∃ a, o = some a ∧ f a = b := Option.map_eq_some_iff.mp h

/-- What comes after an expression is the end of its arguments. -/
theorem suffix (fuel : Nat) :
    (∀ args v rest, P.term fuel args = some (v, rest) → rest <:+ args) ∧
    (∀ args v rest, P.andExpr fuel args = some (v, rest) → rest <:+ args) ∧
    (∀ args v rest, P.expr fuel args = some (v, rest) → rest <:+ args) := by
  induction fuel with
  | zero =>
    refine ⟨?_, ?_, ?_⟩
    all_goals
      intro args v rest h
      cases h
  | succ fuel ih =>
    obtain ⟨hterm, hand, hexpr⟩ := ih
    refine ⟨fun args v rest h => ?_, fun args v rest h => ?_, fun args v rest h => ?_⟩
    · cases args with
      | nil => cases h
      | cons a args =>
        unfold term at h
        split at h
        · obtain ⟨r, hr, heq⟩ := eq_some_of_map h
          cases heq
          exact (hterm _ _ _ hr).trans (List.suffix_cons a args)
        split at h
        · split at h
          · next hr =>
            cases h
            exact ((List.suffix_cons _ _).trans (hexpr _ _ _ hr)).trans (List.suffix_cons a args)
          · cases h
        split at h
        · split at h
          · obtain ⟨r, -, heq⟩ := eq_some_of_map h
            cases heq
            exact ⟨[_, _, _], rfl⟩
          split at h
          · obtain ⟨r, -, heq⟩ := eq_some_of_map h
            cases heq
            exact ⟨[_, _], rfl⟩
          · cases h
            exact List.suffix_cons _ _
        · split at h
          · obtain ⟨r, -, heq⟩ := eq_some_of_map h
            cases heq
            exact List.nil_suffix
          · cases h
            exact List.suffix_cons _ _
        · cases h
          exact List.nil_suffix
    · rw [andExpr] at h
      split at h
      · next hr =>
        obtain ⟨r, hr', heq⟩ := eq_some_of_map h
        cases heq
        exact ((hand _ _ _ hr').trans (List.suffix_cons _ _)).trans (hterm _ _ _ hr)
      · exact hterm _ _ _ h
    · rw [expr] at h
      split at h
      · next hr =>
        obtain ⟨r, hr', heq⟩ := eq_some_of_map h
        cases heq
        exact ((hexpr _ _ _ hr').trans (List.suffix_cons _ _)).trans (hand _ _ _ hr)
      · exact hand _ _ _ h

section
variable {P} {w : String}

theorem eval_z (hw : w ≠ "") : P.eval₁ "-z" w = some false := by
  rw [eval₁, if_pos rfl]
  exact congrArg some (decide_eq_false hw)

theorem term_z (hw : w ≠ "") (hop : w ∉ binaryOps) (hlen : 2 ≤ ws.length) :
    P.term (fuel + 1) ("-z" :: w :: ws) = some (false, ws) := by
  obtain ⟨x, ws, rfl⟩ := List.exists_cons_of_length_pos (l := ws) (by omega)
  unfold term
  rw [if_neg (by decide), if_neg (by decide)]
  simp only
  rw [if_neg hop, if_pos (by decide), eval_z hw]
  rfl

theorem andExpr_z (hw : w ≠ "") (hop : w ∉ binaryOps) (hlen : 2 ≤ ws.length)
    (h : P.andExpr (fuel + 2) ("-z" :: w :: ws) = some (v, rest)) : v = false := by
  unfold andExpr at h
  rw [term_z hw hop hlen] at h
  split at h
  · next hr =>
    cases hr
    obtain ⟨r, -, heq⟩ := eq_some_of_map h
    cases heq
    rfl
  · cases h
    rfl

/-- `-z` of a text that is not empty makes the test true only where an `-o` comes after it. -/
theorem or_of_test_z (hw : w ≠ "") (hop : w ∉ "-a" :: "-o" :: binaryOps)
    (h : P.test ("-z" :: w :: ws) = some true) : "-o" ∈ ws := by
  have hand : w ≠ "-a" := fun h => hop (by simp [h])
  have hor : w ≠ "-o" := fun h => hop (by simp [h])
  have hbin : w ∉ binaryOps := fun h => hop (by simp [h])
  have hwhole : 2 ≤ ws.length → P.whole ("-z" :: w :: ws) = some true → "-o" ∈ ws := by
    intro hlen h
    unfold whole at h
    split at h
    · next v hexpr =>
      obtain rfl := Option.some.inj h
      have hfuel : 3 * ("-z" :: w :: ws).length + 3 = 3 * ws.length + 6 + 2 + 1 := by
        simp only [List.length_cons]
        omega
      rw [hfuel] at hexpr
      unfold expr at hexpr
      split at hexpr
      · next hr =>
        have hmem : "-o" ∈ "-z" :: w :: ws :=
          ((P.suffix _).2.1 _ _ _ hr).subset List.mem_cons_self
        rcases List.mem_cons.mp hmem with h | hmem
        · exact absurd h (by decide)
        · exact (List.mem_cons.mp hmem).resolve_left fun h => hor h.symm
      · exact absurd (andExpr_z hw hbin hlen hexpr) (by decide)
    · cases h
  match ws, h with
  | [], h =>
    have hz : P.two "-z" w = some false := by
      rw [two, if_neg (by decide), if_pos (by decide), eval_z hw]
    exact absurd (hz.symm.trans h) (by decide)
  | [x], h =>
    have hz : P.three "-z" w x = none := by
      rw [three, if_neg hbin, if_neg hand, if_neg hor, if_neg (by decide), if_neg (by simp)]
    exact absurd (hz.symm.trans h) (by decide)
  | [x, y], h =>
    have hz : P.test ["-z", w, x, y] = P.whole ["-z", w, x, y] := by
      rw [test, if_neg (by decide), if_neg (by simp)]
    exact hwhole (by simp) (hz.symm.trans h)
  | x :: y :: z :: ws, h => exact hwhole (by simp) h

end

end Primaries
end Shell
