import Mathlib.Computability.RegularExpressions

/-! # Shell text filters

The filters the scripts put between commands: lines, words, `cut`, `tail`, `awk '{print $1}'`,
`grep -E`, `grep -o`, `basename`. Patterns are Mathlib's regular expressions over characters;
`grep -o` prints the leftmost longest matches of each line, one after the other. -/

namespace Text

/-- A property of the characters of a text is decided character by character, and not by running
through all characters there are. -/
instance decidableAllChars (p : Char → Prop) [DecidablePred p] (cs : List Char) :
    Decidable (∀ c ∈ cs, p c) :=
  List.decidableBAll p cs

/-- The lines of a text. A last newline ends the last line and starts no further one. -/
def lines (text : String) : List String :=
  let ls := (text.toList.splitOn '\n').map String.ofList
  if ls.getLast? = some "" then ls.dropLast else ls

/-- Field splitting of an unquoted expansion at blanks and newlines. -/
def words (text : String) : List String :=
  ((text.toList.splitOnP fun c => c = ' ' || c = '\t' || c = '\n').filter (· ≠ [])).map
    String.ofList

/-- `cut -d c -f n` on one line. A line without the delimiter is passed whole. -/
def cut (c : Char) (n : Nat) (line : String) : String :=
  match line.toList.splitOn c with
  | [_] => line
  | fields => String.ofList (fields.getD (n - 1) [])

/-- `tail` prints the last ten lines. -/
def tail (ls : List α) : List α := ls.drop (ls.length - 10)

/-- `awk '{print $1}'` on one line. -/
def firstWord (line : String) : String := (words line).headD ""

/-- `basename path`: what follows the last slash. -/
def basename (path : String) : String :=
  String.ofList ((path.toList.splitOn '/').getLastD [])

/-- A pattern of `grep -E`. -/
abbrev Pattern := RegularExpression Char

namespace Pattern

/-- The pattern of a literal text. -/
def lit (s : String) : Pattern := s.toList.foldr (fun c p => .char c * p) 1

/-- A bracket expression, as the list of its characters. -/
def oneOf (cs : List Char) : Pattern := cs.foldr (fun c p => .char c + p) 0

def plus (p : Pattern) : Pattern := p * p.star

def lower : Pattern := oneOf "abcdefghijklmnopqrstuvwxyz".toList

def digit : Pattern := oneOf "0123456789".toList

end Pattern

/-- The length of the longest match of the pattern at the start of the text. -/
def longest (p : Pattern) (s : List Char) : Option Nat :=
  ((List.range (s.length + 1)).filter fun n => p.rmatch (s.take n)).getLast?

/-- `grep -E`: the pattern matches somewhere in the line. -/
def matchesIn (p : Pattern) (line : String) : Bool :=
  line.toList.tails.any fun s => (longest p s).isSome

def grepOAux (p : Pattern) : Nat → List Char → List (List Char)
  | 0, _ => []
  | _ + 1, [] => []
  | fuel + 1, c :: s =>
    match longest p (c :: s) with
    | some (n + 1) => (c :: s).take (n + 1) :: grepOAux p fuel ((c :: s).drop (n + 1))
    | _ => grepOAux p fuel s

/-- `grep -Eo` on one line. A match uses up at least one character, so the length is fuel enough. -/
def grepO (p : Pattern) (line : String) : List String :=
  (grepOAux p line.toList.length line.toList).map String.ofList

/-- The number a text of digits stands for. -/
def number (text : String) : Option Nat :=
  if text.toList ≠ [] ∧ text.toList.all Char.isDigit then
    some (text.toList.foldl (fun n c => 10 * n + (c.toNat - '0'.toNat)) 0)
  else none

/-- `[ text -eq n ]`: false, with an error, on a text that is no number. -/
def isNumber (text : String) (n : Nat) : Bool := number text == some n

example : grepO (.lit "sd" * Pattern.plus .lower) "Disk sdab: sdc" = ["sdab", "sdc"] := by
  decide +kernel

end Text
