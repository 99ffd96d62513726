import HassioInstaller.Text

/-! # What the filters match

The languages of the patterns the scripts are written with, the match `longest` finds, and the
matches `grep -o` prints. -/

namespace Text

namespace Pattern

theorem mem_lit {l : List Char} : l ∈ (lit s).matches' ↔ l = s.toList := by
  rw [lit]
  generalize s.toList = cs
  induction cs generalizing l with
  | nil => exact Language.mem_one l
  | cons c cs ih =>
    rw [List.foldr_cons, RegularExpression.matches'_mul, Language.mem_mul]
    constructor
    · rintro ⟨a, ha, b, hb, rfl⟩
      rw [Set.mem_singleton_iff.mp ha, ih.mp hb]
      rfl
    · rintro rfl
      exact ⟨[c], rfl, cs, ih.mpr rfl, rfl⟩

theorem mem_add {p q : Pattern} : l ∈ (p + q).matches' ↔ l ∈ p.matches' ∨ l ∈ q.matches' := by
  rw [RegularExpression.matches'_add, Language.mem_add]

theorem mem_mul {p q : Pattern} :
    l ∈ (p * q).matches' ↔ ∃ a ∈ p.matches', ∃ b ∈ q.matches', l = a ++ b := by
  rw [RegularExpression.matches'_mul, Language.mem_mul]
  simp only [eq_comm]

theorem mem_lit_mul {p : Pattern} :
    l ∈ (lit s * p).matches' ↔ ∃ b ∈ p.matches', l = s.toList ++ b := by
  rw [mem_mul]
  constructor
  · rintro ⟨a, ha, b, hb, rfl⟩
    exact ⟨b, hb, by rw [mem_lit.mp ha]⟩
  · rintro ⟨b, hb, rfl⟩
    exact ⟨s.toList, mem_lit.mpr rfl, b, hb, rfl⟩

theorem mem_oneOf {l : List Char} : l ∈ (oneOf cs).matches' ↔ ∃ c ∈ cs, l = [c] := by
  rw [oneOf]
  induction cs with
  | nil => exact ⟨fun h => h.elim, fun ⟨_, h, _⟩ => (List.not_mem_nil h).elim⟩
  | cons c cs ih =>
    rw [List.foldr_cons, RegularExpression.matches'_add, Language.mem_add, ih]
    constructor
    · rintro (h | ⟨c', hc', rfl⟩)
      · exact ⟨c, List.mem_cons_self, Set.mem_singleton_iff.mp h⟩
      · exact ⟨c', List.mem_cons_of_mem c hc', rfl⟩
    · rintro ⟨c', hc', rfl⟩
      rcases List.mem_cons.mp hc' with rfl | hc'
      · exact .inl rfl
      · exact .inr ⟨c', hc', rfl⟩

theorem mem_star_oneOf {l : List Char} : l ∈ (oneOf cs).star.matches' ↔ ∀ c ∈ l, c ∈ cs := by
  rw [RegularExpression.matches'_star, Language.mem_kstar]
  constructor
  · rintro ⟨L, rfl, hL⟩ c hc
    obtain ⟨w, hw, hcw⟩ := List.mem_flatten.mp hc
    obtain ⟨c', hc', rfl⟩ := mem_oneOf.mp (hL w hw)
    rwa [List.mem_singleton.mp hcw]
  · intro h
    have hflat : l = (l.map fun c => [c]).flatten := by
      rw [← List.flatMap_def, List.flatMap_singleton']
    refine ⟨l.map fun c => [c], hflat, fun w hw => ?_⟩
    obtain ⟨c, hc, rfl⟩ := List.mem_map.mp hw
    exact mem_oneOf.mpr ⟨c, h c hc, rfl⟩

theorem mem_plus_oneOf {l : List Char} :
    l ∈ (plus (oneOf cs)).matches' ↔ l ≠ [] ∧ ∀ c ∈ l, c ∈ cs := by
  rw [plus, RegularExpression.matches'_mul, Language.mem_mul]
  constructor
  · rintro ⟨a, ha, b, hb, rfl⟩
    obtain ⟨c, hc, rfl⟩ := mem_oneOf.mp ha
    refine ⟨by simp, fun c' hc' => ?_⟩
    rcases List.mem_cons.mp hc' with rfl | hc'
    · exact hc
    · exact mem_star_oneOf.mp hb c' hc'
  · rintro ⟨hne, h⟩
    cases l with
    | nil => exact absurd rfl hne
    | cons c l =>
      obtain ⟨hc, hl⟩ := List.forall_mem_cons.mp h
      exact ⟨[c], mem_oneOf.mpr ⟨c, hc, rfl⟩, l, mem_star_oneOf.mpr hl, rfl⟩

theorem mem_digit {c : Char} : c ∈ "0123456789".toList ↔ c.isDigit := by
  constructor
  · intro h
    revert c
    decide
  · intro h
    have hc : 48 ≤ c.toNat ∧ c.toNat ≤ 57 := by
      simpa [Char.isDigit, UInt32.le_iff_toNat_le] using h
    have hof : c = Char.ofNat c.toNat := (Char.ofNat_toNat c).symm
    rw [hof]
    have : ∀ n, 48 ≤ n → n ≤ 57 → Char.ofNat n ∈ "0123456789".toList := by decide
    exact this _ hc.1 hc.2

end Pattern

/-! ## The longest match at the start of a text -/

theorem longest_eq_none {p : Pattern} :
    longest p s = none ↔ ∀ n ≤ s.length, s.take n ∉ p.matches' := by
  rw [longest, List.getLast?_eq_none_iff, List.filter_eq_nil_iff]
  constructor
  · intro h n hn hm
    exact h n (List.mem_range.mpr (by omega)) (p.rmatch_iff_matches' _ |>.mpr hm)
  · intro h n hn hm
    have hn := List.mem_range.mp hn
    exact h n (by omega) (p.rmatch_iff_matches' _ |>.mp hm)

theorem longest_eq_some {p : Pattern} (hn : n ≤ s.length) (hm : s.take n ∈ p.matches')
    (hmax : ∀ m, n < m → m ≤ s.length → s.take m ∉ p.matches') : longest p s = some n := by
  have hafter : ((List.range (s.length - n)).map (n + 1 + ·)).filter
      (fun m => p.rmatch (s.take m)) = [] := by
    rw [List.filter_eq_nil_iff]
    intro m hm hr
    obtain ⟨k, hk, rfl⟩ := List.mem_map.mp hm
    have hk := List.mem_range.mp hk
    exact hmax (n + 1 + k) (by omega) (by omega) (p.rmatch_iff_matches' _ |>.mp hr)
  have hsplit : List.range (s.length + 1) =
      List.range n ++ [n] ++ (List.range (s.length - n)).map (n + 1 + ·) := by
    rw [← List.range_succ, ← List.range_add]
    congr 1
    omega
  have hmatch : p.rmatch (s.take n) = true := p.rmatch_iff_matches' _ |>.mpr hm
  rw [longest, hsplit, List.filter_append, hafter, List.append_nil, List.filter_append]
  simp [hmatch]

theorem mem_of_longest {p : Pattern} (h : longest p s = some n) :
    n ≤ s.length ∧ s.take n ∈ p.matches' := by
  have hmem := List.mem_of_getLast? h
  obtain ⟨hr, hm⟩ := List.mem_filter.mp hmem
  have hr := List.mem_range.mp hr
  exact ⟨by omega, p.rmatch_iff_matches' _ |>.mp hm⟩

/-- No longer prefix matches. -/
theorem longest_max {p : Pattern} (h : longest p s = some n) (hm : n < m) (hlen : m ≤ s.length) :
    s.take m ∉ p.matches' := by
  intro hmatch
  have hgreatest := Nat.findGreatest_spec (P := fun k => p.rmatch (s.take k) = true) hlen
    (p.rmatch_iff_matches' _ |>.mpr hmatch)
  have hle := Nat.le_findGreatest (P := fun k => p.rmatch (s.take k) = true) hlen
    (p.rmatch_iff_matches' _ |>.mpr hmatch)
  have hlast := longest_eq_some (Nat.findGreatest_le s.length) (p.rmatch_iff_matches' _ |>.mp hgreatest)
    fun k hk hks hk' => Nat.findGreatest_is_greatest hk hks (p.rmatch_iff_matches' _ |>.mpr hk')
  rw [h] at hlast
  have hn := Option.some.inj hlast
  omega

/-- `grep` prints a line just if a part of it matches. -/
theorem matchesIn_iff {p : Pattern} :
    matchesIn p line ↔ ∃ w ∈ p.matches', w <:+: line.toList := by
  rw [matchesIn, List.any_eq_true]
  constructor
  · intro h
    obtain ⟨s, hs, hsome⟩ := h
    obtain ⟨n, hn⟩ := Option.isSome_iff_exists.mp hsome
    have htake := (mem_of_longest hn).2
    exact ⟨_, htake, (List.take_prefix n s).isInfix.trans ((List.mem_tails _ _).mp hs).isInfix⟩
  · intro h
    obtain ⟨w, hw, pre, post, hline⟩ := h
    refine ⟨w ++ post, (List.mem_tails _ _).mpr ⟨pre, by rw [← hline, List.append_assoc]⟩, ?_⟩
    by_contra hnone
    have hnone : longest p (w ++ post) = none := by simpa using hnone
    have htake := longest_eq_none.mp hnone w.length (by simp)
    rw [List.take_left] at htake
    exact htake hw

/-- A line that begins with a text has a match for it. -/
theorem matchesIn_of_start {s : String} (h : s.toList <+: line.toList) :
    matchesIn (.lit s) line :=
  matchesIn_iff.mpr ⟨s.toList, Pattern.mem_lit.mpr rfl, h.isInfix⟩

/-! ## The matches `grep -o` prints -/

section
variable {p : Pattern} {s : List Char}

theorem grepOAux_nil : grepOAux p fuel [] = [] := by
  cases fuel <;> rfl

/-- Where no match starts, the search goes on at the next character. -/
theorem grepOAux_skip (h : longest p (c :: s) = none) :
    grepOAux p (fuel + 1) (c :: s) = grepOAux p fuel s := by
  rw [grepOAux, h]

theorem grepOAux_match (fuel : Nat) (h : longest p (c :: s) = some (n + 1)) :
    grepOAux p (fuel + 1) (c :: s) =
      (c :: s).take (n + 1) :: grepOAux p fuel ((c :: s).drop (n + 1)) := by
  rw [grepOAux, h]

/-- More fuel than there are characters makes no difference. -/
theorem grepOAux_fuel (h : s.length ≤ fuel) : grepOAux p fuel s = grepOAux p s.length s := by
  induction fuel using Nat.strong_induction_on generalizing s with
  | _ fuel ih =>
    cases s with
    | nil => rw [grepOAux_nil, grepOAux_nil]
    | cons c s =>
      obtain ⟨fuel, rfl⟩ : ∃ f, fuel = f + 1 := ⟨fuel - 1, by simp at h; omega⟩
      have hlen : s.length ≤ fuel := by simpa using h
      have same : ∀ s' : List Char, s'.length ≤ s.length →
          grepOAux p fuel s' = grepOAux p s.length s' := by
        intro s' hs'
        rw [ih fuel (by omega) (by omega)]
        rcases Nat.lt_or_ge s.length (fuel + 1) with hlt | hge
        · exact (ih s.length hlt hs').symm
        · omega
      rw [List.length_cons, grepOAux, grepOAux]
      split
      · rw [same _ (by simp)]
      · exact same s le_rfl

/-- No match starts in the first part of the text. -/
theorem grepOAux_append (h : ∀ t, t <:+ pre → t ≠ [] → longest p (t ++ s) = none) :
    grepOAux p (pre.length + fuel) (pre ++ s) = grepOAux p fuel s := by
  induction pre with
  | nil => rw [List.length_nil, Nat.zero_add, List.nil_append]
  | cons c pre ih =>
    have hskip : longest p (c :: (pre ++ s)) = none :=
      h (c :: pre) List.suffix_rfl (List.cons_ne_nil c pre)
    rw [List.length_cons, Nat.add_right_comm, List.cons_append, grepOAux_skip hskip]
    exact ih fun t ht => h t (ht.trans (List.suffix_cons c pre))

/-- What is printed matches. -/
theorem mem_of_mem_grepOAux (h : w ∈ grepOAux p fuel s) : w ∈ p.matches' := by
  induction fuel generalizing s with
  | zero => cases h
  | succ fuel ih =>
    cases s with
    | nil => cases h
    | cons c s =>
      rw [grepOAux] at h
      split at h
      · next n hn =>
        rcases List.mem_cons.mp h with rfl | h
        · exact (mem_of_longest hn).2
        · exact ih h
      · exact ih h

theorem mem_of_mem_grepO {w : String} (h : w ∈ grepO p line) : w.toList ∈ p.matches' := by
  obtain ⟨cs, hcs, rfl⟩ := List.mem_map.mp h
  rw [String.toList_ofList]
  exact mem_of_mem_grepOAux hcs

theorem grepOAux_eq_nil (h : ∀ t, t <:+ s → longest p t = none) : grepOAux p fuel s = [] := by
  induction s generalizing fuel with
  | nil => exact grepOAux_nil
  | cons c s ih =>
    cases fuel with
    | zero => rfl
    | succ fuel =>
      rw [grepOAux_skip (h _ List.suffix_rfl)]
      exact ih fun t ht => h t (ht.trans (List.suffix_cons c s))

/-- A word that is a match as a whole is printed as it is. -/
theorem grepO_self {w : String} (hne : w ≠ "") (h : w.toList ∈ p.matches') : grepO p w = [w] := by
  have hw : w.toList ≠ [] := fun h => hne (String.toList_eq_nil_iff.mp h)
  obtain ⟨c, s, hs⟩ := List.exists_cons_of_ne_nil hw
  have hlongest : longest p (c :: s) = some (s.length + 1) := by
    refine longest_eq_some (by simp) ?_ fun m hm hm' => ?_
    · rw [← List.length_cons, List.take_length, ← hs]
      exact h
    · simp at hm'
      omega
  rw [grepO, hs, List.length_cons, grepOAux_match _ hlongest, ← List.length_cons, List.take_length,
    List.drop_length, grepOAux_nil, ← hs, List.map_singleton, String.ofList_toList]

end

end Text
