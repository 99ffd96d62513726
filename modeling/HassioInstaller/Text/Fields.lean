import HassioInstaller.Text.Match

/-! # Lines and words

What the filters of `Text` make of a text put together from its lines or its words. -/

namespace Text

/-- A text that is one line. -/
def IsLine (s : String) : Prop := '\n' ∉ s.toList

theorem IsLine.append (hs : IsLine s) (ht : IsLine t) : IsLine (s ++ t) := by
  intro h
  rw [String.toList_append, List.mem_append] at h
  exact h.elim hs ht

instance (s : String) : Decidable (IsLine s) := inferInstanceAs (Decidable (¬ _))

theorem append_ne_empty (s : String) {t : String} (h : t ≠ "") : s ++ t ≠ "" := by
  intro hnil
  have hlist := congrArg String.toList hnil
  rw [String.toList_append] at hlist
  exact h (String.toList_eq_nil_iff.mp (List.append_eq_nil_iff.mp hlist).2)

theorem mem_intercalate {sep : String} {ls : List String} (h : c ∈ (sep.intercalate ls).toList) :
    c ∈ sep.toList ∨ ∃ l ∈ ls, c ∈ l.toList := by
  induction ls with
  | nil => exact (List.not_mem_nil h).elim
  | cons l ls ih =>
    cases ls with
    | nil => exact .inr ⟨l, List.mem_cons_self, h⟩
    | cons l' ls =>
      rw [String.intercalate_cons_cons, String.toList_append, String.toList_append,
        List.mem_append, List.mem_append] at h
      rcases h with (h | h) | h
      · exact .inr ⟨l, List.mem_cons_self, h⟩
      · exact .inl h
      · rcases ih h with h | ⟨l', hl', hc⟩
        · exact .inl h
        · exact .inr ⟨l', List.mem_cons_of_mem l hl', hc⟩

section
variable {x u v : List Char}

/-- A text that ends in `c` lies in front of a part without `c`. -/
theorem infix_of_append_left (h : y ++ [c] <:+: u ++ v) (hc : c ∉ v) : y ++ [c] <:+: u := by
  obtain ⟨pre, post, h⟩ := h
  rcases List.append_eq_append_iff.mp h with ⟨a, rfl, -⟩ | ⟨a, hu, rfl⟩
  · exact ⟨pre, a, rfl⟩
  · rcases List.eq_nil_or_concat a with rfl | ⟨a, c', rfl⟩
    · exact ⟨pre, [], by simpa using hu⟩
    · have hlast : pre ++ y ++ [c] = u ++ a ++ [c'] := by simpa using hu
      have hcc : c = c' := by simpa using (List.append_inj' hlast rfl).2
      exact absurd (by simp [hcc]) hc

/-- A text that starts with `c` lies behind a part without `c`. -/
theorem infix_of_append_right (h : c :: y <:+: u ++ v) (hc : c ∉ u) : c :: y <:+: v := by
  obtain ⟨pre, post, h⟩ := h
  rw [List.append_assoc] at h
  rcases List.append_eq_append_iff.mp h with ⟨a, rfl, ha⟩ | ⟨a, -, rfl⟩
  · cases a with
    | nil => exact ⟨[], post, ha⟩
    | cons c' a =>
      have hcc : c = c' := by simpa using congrArg List.head? ha
      exact absurd (by simp [hcc]) hc
  · exact ⟨a, post, by simp⟩

/-- A text without `c` lies on one side of it. -/
theorem infix_of_append_cons (hc : c ∉ y) (h : y <:+: u ++ c :: v) : y <:+: u ∨ y <:+: v := by
  obtain ⟨pre, post, h⟩ := h
  rcases List.append_eq_append_iff.mp h with ⟨a, hu, -⟩ | ⟨a, hpre, hv⟩
  · exact .inl ⟨pre, a, hu.symm⟩
  · cases a with
    | nil =>
      rw [List.append_nil] at hpre
      exact .inl ⟨pre, [], by rw [List.append_nil, hpre]⟩
    | cons c' a =>
      obtain ⟨rfl, rfl⟩ := List.cons.inj hv
      rcases List.append_eq_append_iff.mp hpre with ⟨b, -, hb⟩ | ⟨b, -, hb⟩
      · exact absurd (by rw [hb]; simp) hc
      · cases b with
        | nil => exact absurd (by rw [List.nil_append] at hb; rw [← hb]; exact List.mem_cons_self) hc
        | cons c'' b =>
          obtain ⟨-, rfl⟩ := List.cons.inj hb
          exact .inr ⟨b, post, rfl⟩

end

/-- Field separators. -/
def isBlank (c : Char) : Bool := c = ' ' || c = '\t' || c = '\n'

/-- A text that is one word. -/
def IsWord (s : String) : Prop := s ≠ "" ∧ ∀ c ∈ s.toList, isBlank c = false

instance (s : String) : Decidable (IsWord s) := inferInstanceAs (Decidable (_ ∧ _))

/-- A text is its lines, if the last is not empty. -/
theorem lines_intercalate (hne : ls ≠ []) (hlast : ls.getLast hne ≠ "") (h : ∀ l ∈ ls, IsLine l) :
    lines ("\n".intercalate ls) = ls := by
  have hsplit : ("\n".intercalate ls).toList.splitOn '\n' = ls.map String.toList := by
    rw [String.toList_intercalate]
    refine List.splitOn_intercalate '\n' ?_ (by simpa using hne)
    intro cs hcs
    obtain ⟨l, hl, rfl⟩ := List.mem_map.mp hcs
    exact h l hl
  have hmap : (ls.map String.toList).map String.ofList = ls := by
    simp [Function.comp_def]
  rw [lines, hsplit]
  simp only [hmap]
  rw [if_neg]
  rw [List.getLast?_eq_some_getLast hne]
  exact fun h => hlast (Option.some.inj h)

/-- A text whose every line is ended by a newline. -/
theorem lines_terminated (h : ∀ l ∈ ls, IsLine l) : lines ("\n".intercalate (ls ++ [""])) = ls := by
  have hsplit : ("\n".intercalate (ls ++ [""])).toList.splitOn '\n' =
      (ls ++ [""]).map String.toList := by
    rw [String.toList_intercalate]
    refine List.splitOn_intercalate '\n' ?_ (by simp)
    intro cs hcs
    obtain ⟨l, hl, rfl⟩ := List.mem_map.mp hcs
    rcases List.mem_append.mp hl with hl | hl
    · exact h l hl
    · rw [List.mem_singleton.mp hl]
      decide
  have hmap : ((ls ++ [""]).map String.toList).map String.ofList = ls ++ [""] := by
    simp [Function.comp_def]
  rw [lines, hsplit]
  simp only [hmap]
  rw [if_pos List.getLast?_concat, List.dropLast_concat]

/-! ## Fields -/

/-- The fields of a text between the separators `c`. -/
def fields (c : Char) (s : String) : List String := (s.toList.splitOn c).map String.ofList

theorem fields_append (c : Char) (s t : String) :
    fields c (s ++ String.singleton c ++ t) = fields c s ++ fields c t := by
  have hlist : (s ++ String.singleton c ++ t).toList = s.toList ++ c :: t.toList := by simp
  rw [fields, hlist, List.splitOn_eq_splitOnP, List.splitOnP_append_cons _ _ (by simp),
    List.map_append]
  rfl

theorem fields_self (h : c ∉ s.toList) : fields c s = [s] := by
  have hne : ∀ x ∈ s.toList, (x == c) = false := by
    intro x hx
    exact beq_false_of_ne fun hxc => h (hxc ▸ hx)
  rw [fields, List.splitOn_eq_splitOnP, List.splitOnP_eq_singleton hne, List.map_singleton,
    String.ofList_toList]

/-- Field splitting of an unquoted expansion, `c` being the `IFS`: an empty field at the end is
none. -/
def splitIFS (c : Char) (s : String) : List String :=
  if (fields c s).getLast? = some "" then (fields c s).dropLast else fields c s

theorem splitIFS_of_terminated (h : fields c s = fs ++ [""]) : splitIFS c s = fs := by
  rw [splitIFS, h, List.getLast?_concat, if_pos rfl, List.dropLast_concat]

/-- The rows of a list of arguments, two to a row. -/
def pairs : List α → List (α × α)
  | a :: b :: l => (a, b) :: pairs l
  | _ => []

theorem pairs_flatMap (rows : List (α × α)) : pairs (rows.flatMap fun r => [r.1, r.2]) = rows := by
  induction rows with
  | nil => rfl
  | cons r rows ih => exact congrArg (r :: ·) ih

/-- The second field. -/
theorem cut_two {c : Char} {x y z : String} (hx : c ∉ x.toList) (hy : c ∉ y.toList) :
    cut c 2 (x ++ String.singleton c ++ y ++ String.singleton c ++ z) = y := by
  have hsplit : (x ++ String.singleton c ++ y ++ String.singleton c ++ z).toList.splitOn c =
      x.toList :: y.toList :: z.toList.splitOn c := by
    have hfields : fields c (x ++ String.singleton c ++ y ++ String.singleton c ++ z) =
        x :: y :: fields c z := by
      rw [fields_append, fields_append, fields_self hx, fields_self hy]
      rfl
    have hmap := congrArg (List.map String.toList) hfields
    simpa [fields, Function.comp_def] using hmap
  rw [cut, hsplit]
  split
  next hnil => cases hnil
  next => exact String.ofList_toList

/-- The third of three fields. -/
theorem cut_three {c : Char} {x y z : String} (hx : c ∉ x.toList) (hy : c ∉ y.toList)
    (hz : c ∉ z.toList) :
    cut c 3 (x ++ String.singleton c ++ y ++ String.singleton c ++ z) = z := by
  have hfields : fields c (x ++ String.singleton c ++ y ++ String.singleton c ++ z) = [x, y, z] := by
    rw [fields_append, fields_append, fields_self hx, fields_self hy, fields_self hz]
    rfl
  have hsplit : (x ++ String.singleton c ++ y ++ String.singleton c ++ z).toList.splitOn c =
      [x.toList, y.toList, z.toList] := by
    have hmap := congrArg (List.map String.toList) hfields
    simpa [fields, Function.comp_def] using hmap
  rw [cut, hsplit]
  exact String.ofList_toList

/-! ## Words -/

theorem words_eq (s : String) :
    words s = ((s.toList.splitOnP isBlank).filter (· ≠ [])).map String.ofList := rfl

theorem words_append (hc : isBlank c) (s t : String) :
    words (s ++ String.singleton c ++ t) = words s ++ words t := by
  have hlist : (s ++ String.singleton c ++ t).toList = s.toList ++ c :: t.toList := by simp
  rw [words_eq, hlist, List.splitOnP_append_cons _ _ hc, List.filter_append, List.map_append]
  rfl

theorem words_self (h : IsWord w) : words w = [w] := by
  have hne : w.toList ≠ [] := fun hw => h.1 (String.toList_eq_nil_iff.mp hw)
  rw [words_eq, List.splitOnP_eq_singleton h.2]
  simp [hne]

theorem words_empty : words "" = [] := rfl

theorem mem_of_mem_splitOnP {p : Char → Bool} {cs w : List Char} (hw : w ∈ cs.splitOnP p)
    (hc : c ∈ w) : c ∈ cs := by
  induction cs generalizing w with
  | nil =>
    rw [List.splitOnP_nil, List.mem_singleton] at hw
    exact hw ▸ hc
  | cons d cs ih =>
    obtain ⟨first, rest, hsplit⟩ := List.exists_cons_of_ne_nil (List.splitOnP_ne_nil p cs)
    rw [List.splitOnP_cons_eq_if_modifyHead, hsplit] at hw
    rw [hsplit] at ih
    split at hw
    · rcases List.mem_cons.mp hw with rfl | hw
      · exact (List.not_mem_nil hc).elim
      · exact List.mem_cons_of_mem d (ih hw hc)
    · rcases List.mem_cons.mp hw with rfl | hw
      · rcases List.mem_cons.mp hc with rfl | hc
        · exact List.mem_cons_self
        · exact List.mem_cons_of_mem d (ih List.mem_cons_self hc)
      · exact List.mem_cons_of_mem d (ih (List.mem_cons_of_mem _ hw) hc)

/-- The characters of a word are those of the text. -/
theorem mem_of_mem_words (hw : w ∈ words s) (hc : c ∈ w.toList) : c ∈ s.toList := by
  rw [words_eq] at hw
  obtain ⟨cs, hcs, rfl⟩ := List.mem_map.mp hw
  exact mem_of_mem_splitOnP (List.mem_filter.mp hcs).1 (by simpa using hc)

/-- A text that does not start with a blank starts with its first word. -/
theorem words_cons (hs : s.toList = c :: cs) (hc : isBlank c = false) :
    ∃ w ws, words s = w :: ws ∧ w.toList.head? = some c := by
  obtain ⟨first, rest, hsplit⟩ := List.exists_cons_of_ne_nil (List.splitOnP_ne_nil isBlank cs)
  rw [words_eq, hs, List.splitOnP_cons_eq_if_modifyHead, hc, if_neg Bool.false_ne_true, hsplit,
    List.modifyHead_cons, List.filter_cons_of_pos (by simp), List.map_cons]
  exact ⟨_, _, rfl, by simp⟩

theorem not_of_mem_splitOnP {p : Char → Bool} {cs w : List Char} (hw : w ∈ cs.splitOnP p)
    (hc : c ∈ w) : p c = false := by
  induction cs generalizing w with
  | nil =>
    rw [List.splitOnP_nil, List.mem_singleton] at hw
    subst hw
    exact (List.not_mem_nil hc).elim
  | cons d cs ih =>
    obtain ⟨first, rest, hsplit⟩ := List.exists_cons_of_ne_nil (List.splitOnP_ne_nil p cs)
    rw [List.splitOnP_cons_eq_if_modifyHead, hsplit] at hw
    rw [hsplit] at ih
    split at hw
    · rcases List.mem_cons.mp hw with rfl | hw
      · exact (List.not_mem_nil hc).elim
      · exact ih hw hc
    · next hd =>
      rcases List.mem_cons.mp hw with rfl | hw
      · rcases List.mem_cons.mp hc with rfl | hc
        · simpa using hd
        · exact ih List.mem_cons_self hc
      · exact ih (List.mem_cons_of_mem _ hw) hc

/-- A column has no separator in it. -/
theorem not_mem_cut (c : Char) (n : Nat) (line : String) : c ∉ (cut c n line).toList := by
  have hpiece : ∀ w ∈ line.toList.splitOn c, c ∉ w := fun w hw hc => by
    rw [List.splitOn_eq_splitOnP] at hw
    simpa using not_of_mem_splitOnP hw hc
  rw [cut]
  split
  next w hsplit =>
    have hline : [c].intercalate (line.toList.splitOn c) = line.toList :=
      List.intercalate_splitOn c
    rw [hsplit, List.intercalate_singleton] at hline
    exact hline ▸ hpiece w (hsplit ▸ List.mem_singleton_self w)
  next =>
    rw [String.toList_ofList, List.getD_eq_getElem?_getD]
    cases hget : (line.toList.splitOn c)[n - 1]? with
    | none => exact List.not_mem_nil
    | some w => exact hpiece w (List.mem_of_getElem? hget)

theorem isWord_of_mem_words (hw : w ∈ words s) : IsWord w := by
  rw [words_eq] at hw
  obtain ⟨cs, hcs, rfl⟩ := List.mem_map.mp hw
  obtain ⟨hsplit, hne⟩ := List.mem_filter.mp hcs
  refine ⟨?_, fun c hc => not_of_mem_splitOnP hsplit (by simpa using hc)⟩
  simpa using hne

/-- Words with blanks between them. -/
theorem words_intercalate (h : ∀ w ∈ ws, IsWord w) : words (" ".intercalate ws) = ws := by
  induction ws with
  | nil => exact words_empty
  | cons w ws ih =>
    obtain ⟨hw, hws⟩ := List.forall_mem_cons.mp h
    cases ws with
    | nil => exact words_self hw
    | cons w' ws =>
      have hcons : " ".intercalate (w :: w' :: ws) =
          w ++ String.singleton ' ' ++ " ".intercalate (w' :: ws) := String.intercalate_cons_cons
      rw [hcons, words_append rfl, words_self hw, ih hws]
      rfl

/-- A line that begins with a keyword. -/
theorem words_keyword (s k : String) (c : Char) (hk : words k = [k]) (hc : isBlank c)
    (hs : s = k ++ String.singleton c) (t : String) : words (s ++ t) = k :: words t := by
  rw [hs, words_append hc, hk]
  rfl

theorem words_space (s t : String) : words (s ++ " " ++ t) = words s ++ words t :=
  words_append (c := ' ') rfl s t

theorem IsWord.append (hs : IsWord s) (ht : ∀ c ∈ t.toList, isBlank c = false) : IsWord (s ++ t) := by
  refine ⟨fun he => hs.1 (String.append_eq_empty_iff.mp he).1, fun c hc => ?_⟩
  rw [String.toList_append] at hc
  exact (List.mem_append.mp hc).elim (hs.2 c) (ht c)

/-- A text is one word at most, or it has a first blank. -/
theorem exists_first_blank (s : List Char) : (∀ c ∈ s, isBlank c = false) ∨
    ∃ x c y, s = x ++ c :: y ∧ isBlank c ∧ ∀ d ∈ x, isBlank d = false := by
  induction s with
  | nil => exact .inl fun c hc => by cases hc
  | cons c s ih =>
    cases hc : isBlank c with
    | true => exact .inr ⟨[], c, s, rfl, hc, fun d hd => by cases hd⟩
    | false =>
      rcases ih with hs | ⟨x, b, y, rfl, hb, hx⟩
      · exact .inl (List.forall_mem_cons.mpr ⟨hc, hs⟩)
      · exact .inr ⟨c :: x, b, y, rfl, hb, List.forall_mem_cons.mpr ⟨hc, hx⟩⟩

theorem words_ofList_append {c : Char} (hc : isBlank c) (x y : List Char) :
    words (String.ofList (x ++ c :: y)) = words (String.ofList x) ++ words (String.ofList y) := by
  have hsplit : String.ofList (x ++ c :: y) =
      String.ofList x ++ String.singleton c ++ String.ofList y := by
    apply String.toList_injective
    simp
  rw [hsplit, words_append hc]

theorem words_ofList_self {x : List Char} (h : ∀ c ∈ x, isBlank c = false) :
    words (String.ofList x) = if x = [] then [] else [String.ofList x] := by
  split
  next hx =>
    rw [hx]
    rfl
  next hx => exact words_self ⟨fun he => hx (by simpa using he), by simpa using h⟩

theorem words_blanks (h : ∀ c ∈ s.toList, isBlank c) : words s = [] := by
  have hsplit : ∀ cs : List Char, (∀ c ∈ cs, isBlank c) →
      (cs.splitOnP isBlank).filter (· ≠ []) = [] := by
    intro cs hcs
    induction cs with
    | nil => rfl
    | cons c cs ih =>
      obtain ⟨hc, hcs⟩ := List.forall_mem_cons.mp hcs
      have happ := List.splitOnP_append_cons (p := isBlank) [] cs hc
      rw [List.nil_append] at happ
      rw [happ, List.filter_append, ih hcs]
      rfl
  rw [words_eq]
  exact congrArg (List.map String.ofList) (hsplit s.toList h)

/-- The first word of a row whose first column is indented. -/
theorem firstWord_row (hpad : ∀ c ∈ pad.toList, isBlank c) (hw : IsWord w) (rest : String) :
    firstWord (pad ++ w ++ " " ++ rest) = w := by
  have hwords : words (pad ++ w) = [w] := by
    rcases List.eq_nil_or_concat pad.toList with hnil | ⟨cs, c, hcs⟩
    · rw [String.toList_eq_nil_iff.mp hnil, String.empty_append, words_self hw]
    · have hpad' : pad = String.ofList cs ++ String.singleton c := by
        apply String.toList_injective
        simp [hcs]
      have hc : isBlank c := hpad c (by simp [hcs])
      have hcs' : words (String.ofList cs) = [] :=
        words_blanks fun c' hc' => hpad c' (by simp_all)
      rw [hpad', words_append hc, hcs', words_self hw]
      rfl
  have hspace : " " = String.singleton ' ' := rfl
  rw [firstWord, hspace, words_append rfl, hwords]
  rfl

theorem firstWord_append (hw : IsWord w) (rest : String) : firstWord (w ++ " " ++ rest) = w := by
  have hrow : firstWord ("" ++ w ++ " " ++ rest) = w :=
    firstWord_row (fun _ h => (List.not_mem_nil h).elim) hw rest
  rwa [String.empty_append] at hrow

/-! ## Numbers -/

theorem toList_toString (n : Nat) : (toString n).toList = Nat.toDigits 10 n := Nat.toList_repr

theorem isDigit_of_mem_toString {n : Nat} (h : c ∈ (toString n).toList) : c.isDigit := by
  rw [toList_toString] at h
  exact Nat.isDigit_of_mem_toDigits (by decide) (by decide) h

theorem not_mem_toString {n : Nat} (hc : c.isDigit = false) : c ∉ (toString n).toList := by
  intro h
  rw [isDigit_of_mem_toString h] at hc
  cases hc

theorem toString_ne_empty (n : Nat) : toString n ≠ "" := by
  intro h
  have hnil := String.toList_eq_nil_iff.mpr h
  rw [toList_toString] at hnil
  exact Nat.toDigits_ne_nil hnil

theorem isBlank_of_isDigit {c : Char} (h : c.isDigit) : isBlank c = false := by
  have hall : ∀ c ∈ "0123456789".toList, isBlank c = false := by decide
  exact hall c (Pattern.mem_digit.mpr h)

theorem isWord_toString (n : Nat) : IsWord (toString n) :=
  ⟨toString_ne_empty n, fun _ h => isBlank_of_isDigit (isDigit_of_mem_toString h)⟩

@[simp] theorem number_toString (n : Nat) : number (toString n) = some n := by
  have hne : (toString n).toList ≠ [] :=
    fun h => toString_ne_empty n (String.toList_eq_nil_iff.mp h)
  have hall : (toString n).toList.all Char.isDigit :=
    List.all_eq_true.mpr fun c hc => isDigit_of_mem_toString hc
  rw [number, if_pos ⟨hne, hall⟩, toList_toString, ← Nat.ofDigitChars_eq_foldl,
    Nat.ofDigitChars_toDigits (by decide) (by decide)]

end Text
