import HassioInstaller.Text.Fields

/-! # Rows of a table

A table of rows, each a tag and a text, is passed on as one text with a separator between all tags
and texts. Splitting that text and expanding the fields gives the table back just if no tag and no
text has a separator in it and each expands to itself. -/

namespace Text

/-- A text without the blanks around it. -/
def trim (s : String) : String :=
  String.ofList ((s.toList.dropWhile isBlank).reverse.dropWhile isBlank).reverse

theorem trim_append_blank (hc : isBlank c) (s : String) : trim (s ++ String.singleton c) = trim s := by
  have hlist : (s ++ String.singleton c).toList = s.toList ++ [c] := by simp
  rw [trim, trim, hlist, List.dropWhile_append]
  split
  · next hblank =>
    have hnil : s.toList.dropWhile isBlank = [] := by simpa using hblank
    rw [hnil, List.dropWhile_cons_of_pos hc]
    rfl
  · rw [List.reverse_append, List.reverse_singleton, List.singleton_append,
      List.dropWhile_cons_of_pos hc]

/-! ## The last field -/

theorem fields_ne_nil (c : Char) (s : String) : fields c s ≠ [] := by
  intro h
  exact List.splitOn_ne_nil c s.toList (List.map_eq_nil_iff.mp h)

/-- Behind the last separator there is the last field. -/
theorem exists_last_field (c : Char) (s : String) : ∃ fs last, fields c s = fs ++ [last] ∧
    last.toList <:+ s.toList ∧ (last = "" → s = "" ∨ s.toList.getLast? = some c) := by
  by_cases hc : c ∈ s.toList
  · obtain ⟨post, pre, hrev, hpost⟩ := List.eq_append_cons_of_mem (List.mem_reverse.mpr hc)
    have hlist : s.toList = pre.reverse ++ c :: post.reverse := by
      have := congrArg List.reverse hrev
      simpa using this
    have hs : s = String.ofList pre.reverse ++ String.singleton c ++ String.ofList post.reverse := by
      apply String.toList_injective
      simp [hlist]
    have hlast : c ∉ (String.ofList post.reverse).toList := by simpa using hpost
    refine ⟨fields c (String.ofList pre.reverse), String.ofList post.reverse, ?_, ?_, ?_⟩
    · conv_lhs => rw [hs]
      rw [fields_append, fields_self hlast]
    · rw [hlist, String.toList_ofList]
      exact ⟨pre.reverse ++ [c], by simp⟩
    · intro hempty
      have hnil : post.reverse = [] := by
        have := congrArg String.toList hempty
        simpa using this
      right
      rw [hlist, hnil, List.getLast?_concat]
  · exact ⟨[], s, fields_self hc, List.suffix_rfl, .inl⟩

/-- A text that does not end in the separator is split into all its fields. -/
theorem splitIFS_eq_fields (hs : s.toList.getLast? = some d) (hd : d ≠ c) :
    splitIFS c s = fields c s := by
  obtain ⟨fs, last, hfields, -, hlast⟩ := exists_last_field c s
  rw [splitIFS, if_neg]
  rw [hfields, List.getLast?_concat]
  intro h
  rcases hlast (Option.some.inj h) with rfl | hend
  · cases hs
  · exact hd (Option.some.inj (hs.symm.trans hend))

theorem fields_intercalate (hne : ss ≠ []) :
    fields c ((String.singleton c).intercalate ss) = ss.flatMap (fields c) := by
  induction ss with
  | nil => exact absurd rfl hne
  | cons s ss ih =>
    cases ss with
    | nil => exact (List.append_nil _).symm
    | cons s' ss =>
      rw [String.intercalate_cons_cons, fields_append, ih (List.cons_ne_nil _ _)]
      rfl

theorem intercalate_concat (sep : String) (hne : ss ≠ []) (s : String) :
    sep.intercalate (ss ++ [s]) = sep.intercalate ss ++ sep ++ s := by
  rw [String.intercalate_append_of_ne_nil hne (List.cons_ne_nil s []), String.intercalate_singleton]

theorem intercalate_head (sep s t : String) (ss : List String) :
    sep.intercalate ((s ++ t) :: ss) = s ++ sep.intercalate (t :: ss) := by
  cases ss with
  | nil => rfl
  | cons t' ss =>
    simp only [String.intercalate_cons_cons, String.append_assoc]

theorem getLast_append (s : String) (ht : t.toList.getLast? = some d) :
    (s ++ t).toList.getLast? = some d := by
  rw [String.toList_append, List.getLast?_append, ht]
  rfl

theorem getLast_intercalate (sep : String) (ss : List String) (hs : s.toList.getLast? = some d) :
    (sep.intercalate (ss ++ [s])).toList.getLast? = some d := by
  by_cases hss : ss = []
  · subst hss
    exact hs
  · rw [intercalate_concat sep hss]
    exact getLast_append _ hs

/-! ## Rows -/

/-- A tag and a text, and how they are written. -/
abbrev Row := String × String

def Row.text (c : Char) (r : Row) : String := r.1 ++ String.singleton c ++ r.2

/-- The fields that are made of a row. -/
def Row.items (c : Char) (r : Row) : List String := fields c r.1 ++ fields c r.2

theorem fields_text (c : Char) (r : Row) : fields c (Row.text c r) = Row.items c r :=
  fields_append c r.1 r.2

/-- The fields of rows that are joined by the separator, if they do not end in it. -/
theorem splitIFS_rows (rows : List Row) (hlast : last.2.toList.getLast? = some d) (hd : d ≠ c) :
    splitIFS c ((String.singleton c).intercalate ((rows ++ [last]).map (Row.text c))) =
      (rows ++ [last]).flatMap (Row.items c) := by
  have hend : ((String.singleton c).intercalate ((rows ++ [last]).map (Row.text c))).toList.getLast? =
      some d := by
    rw [List.map_append, List.map_singleton]
    exact getLast_intercalate _ _ (getLast_append _ hlast)
  rw [splitIFS_eq_fields hend hd, fields_intercalate (by simp), List.flatMap_map]
  exact List.flatMap_congr fun r _ => fields_text c r

/-- Rows without a separator in them are their own items. -/
theorem flatMap_items {rows : List Row} (h : ∀ r ∈ rows, c ∉ r.1.toList ∧ c ∉ r.2.toList) :
    rows.flatMap (Row.items c) = rows.flatMap fun r => [r.1, r.2] := by
  refine List.flatMap_congr fun r hr => ?_
  rw [Row.items, fields_self (h r hr).1, fields_self (h r hr).2]
  rfl

/-- The arguments are the tags and the texts of the rows one after the other, up to blanks around the
texts. -/
def Shows : List Row → List String → Prop
  | [], args => args = []
  | row :: rows, tag :: text :: args => tag = row.1 ∧ trim text = trim row.2 ∧ Shows rows args
  | _ :: _, _ => False

instance decidableShows : (rows : List Row) → (args : List String) → Decidable (Shows rows args)
  | [], args => inferInstanceAs (Decidable (args = []))
  | row :: rows, tag :: text :: args =>
    have := decidableShows rows args
    inferInstanceAs (Decidable (tag = row.1 ∧ trim text = trim row.2 ∧ Shows rows args))
  | _ :: _, [] => .isFalse id
  | _ :: _, [_] => .isFalse id

theorem Shows.length (h : Shows rows args) : args.length = 2 * rows.length := by
  induction rows generalizing args with
  | nil => exact congrArg List.length h
  | cons row rows ih =>
    match args, h with
    | tag :: text :: args, h =>
      have := ih h.2.2
      simp only [List.length_cons]
      omega

/-- The first argument is the first tag. -/
theorem Shows.head (h : Shows (row :: rows) args) : args.head? = some row.1 := by
  match args, h with
  | tag :: text :: args, h => exact congrArg some h.1

/-- Rows with the same tags and the same texts, up to blanks, are shown alike. -/
theorem shows_congr (h : List.Forall₂ (fun r r' : Row => r.1 = r'.1 ∧ trim r.2 = trim r'.2) rows rows')
    (args : List String) : Shows rows args ↔ Shows rows' args := by
  induction h generalizing args with
  | nil => exact Iff.rfl
  | cons hr _ ih =>
    match args with
    | [] | [_] => exact Iff.rfl
    | tag :: text :: args => simp only [Shows, hr.1, hr.2, ih]

section
variable {c : Char} {expand : String → List String}

/-- A row whose tag and text come through splitting and expansion, each as one argument. -/
def Row.Fits (c : Char) (expand : String → List String) (r : Row) : Prop :=
  (c ∉ r.1.toList ∧ c ∉ r.2.toList) ∧
    expand r.1 = [r.1] ∧ ∃ text, expand r.2 = [text] ∧ trim text = trim r.2

theorem one_le_length_expand (hexpand : ∀ w, expand w ≠ []) (s : String) :
    1 ≤ ((fields c s).flatMap expand).length := by
  obtain ⟨w, ws, hfields⟩ := List.exists_cons_of_ne_nil (fields_ne_nil c s)
  have hpos := List.length_pos_iff.mpr (hexpand w)
  rw [hfields, List.flatMap_cons, List.length_append]
  omega

/-- A text that becomes one argument has no separator in it and expands to one word. -/
theorem expand_of_length (hexpand : ∀ w, expand w ≠ [])
    (h : ((fields c s).flatMap expand).length = 1) :
    c ∉ s.toList ∧ (fields c s).flatMap expand = expand s := by
  have hc : c ∉ s.toList := by
    intro hc
    obtain ⟨pre, post, hlist, -⟩ := List.eq_append_cons_of_mem hc
    have hs : s = String.ofList pre ++ String.singleton c ++ String.ofList post := by
      apply String.toList_injective
      simp [hlist]
    rw [hs, fields_append, List.flatMap_append, List.length_append] at h
    have hpre := one_le_length_expand (c := c) hexpand (String.ofList pre)
    have hpost := one_le_length_expand (c := c) hexpand (String.ofList post)
    omega
  rw [fields_self hc, List.flatMap_singleton]
  exact ⟨hc, rfl⟩

theorem two_le_length_items (hexpand : ∀ w, expand w ≠ []) (r : Row) :
    2 ≤ ((Row.items c r).flatMap expand).length := by
  have htag := one_le_length_expand (c := c) hexpand r.1
  have htext := one_le_length_expand (c := c) hexpand r.2
  rw [Row.items, List.flatMap_append, List.length_append]
  omega

theorem length_items (hexpand : ∀ w, expand w ≠ []) (rows : List Row) :
    2 * rows.length ≤ ((rows.flatMap (Row.items c)).flatMap expand).length := by
  induction rows with
  | nil => exact Nat.zero_le _
  | cons r rows ih =>
    have hr := two_le_length_items (c := c) hexpand r
    rw [List.flatMap_cons, List.flatMap_append, List.length_append, List.length_cons]
    omega

/-- A table comes through just if each of its rows does. -/
theorem shows_iff_fits (hexpand : ∀ w, expand w ≠ []) (rows : List Row) :
    Shows rows ((rows.flatMap (Row.items c)).flatMap expand) ↔ ∀ r ∈ rows, Row.Fits c expand r := by
  induction rows with
  | nil => exact ⟨fun _ _ h => (List.not_mem_nil h).elim, fun _ => rfl⟩
  | cons r rows ih =>
    rw [List.forall_mem_cons, ← ih, List.flatMap_cons, List.flatMap_append]
    constructor
    · intro h
      have htag := one_le_length_expand (c := c) hexpand r.1
      have htext := one_le_length_expand (c := c) hexpand r.2
      have hrest := length_items (c := c) hexpand rows
      -- no row can have less than its two arguments, so none has more
      have hlen := h.length
      rw [Row.items, List.flatMap_append] at h hlen
      simp only [List.length_append, List.length_cons] at hlen
      obtain ⟨hc₁, htag'⟩ := expand_of_length (c := c) (s := r.1) hexpand (by omega)
      obtain ⟨hc₂, htext'⟩ := expand_of_length (c := c) (s := r.2) hexpand (by omega)
      obtain ⟨tag, htagEq⟩ := List.length_eq_one_iff.mp
        (show ((fields c r.1).flatMap expand).length = 1 by omega)
      obtain ⟨text, htextEq⟩ := List.length_eq_one_iff.mp
        (show ((fields c r.2).flatMap expand).length = 1 by omega)
      rw [htagEq, htextEq] at h
      obtain ⟨rfl, htrim, hrows⟩ := h
      exact ⟨⟨⟨hc₁, hc₂⟩, htag'.symm.trans htagEq, text, htext'.symm.trans htextEq, htrim⟩, hrows⟩
    · intro h
      obtain ⟨⟨⟨hc₁, hc₂⟩, htag, text, htext, htrim⟩, hrows⟩ := h
      rw [Row.items, fields_self hc₁, fields_self hc₂, List.flatMap_append, List.flatMap_singleton,
        List.flatMap_singleton, htag, htext]
      exact ⟨rfl, htrim, hrows⟩

end

/-! ## Lists in one text -/

/-- Texts put in front of one another. -/
theorem foldl_intercalate (sep : String) (ps : List String) {l : List String} (hl : l ≠ []) :
    ps.foldl (fun joined p => p ++ sep ++ joined) (sep.intercalate l) =
      sep.intercalate (ps.reverse ++ l) := by
  induction ps generalizing l with
  | nil => rfl
  | cons p ps ih =>
    have hcons : p ++ sep ++ sep.intercalate l = sep.intercalate (p :: l) := by
      rw [← List.singleton_append, String.intercalate_append_of_ne_nil (List.cons_ne_nil p []) hl,
        String.intercalate_singleton]
    rw [List.foldl_cons, hcons, ih (List.cons_ne_nil p l), List.reverse_cons, List.append_assoc]
    rfl

theorem length_flatMap_fields (ss : List String) : ss.length ≤ (ss.flatMap (fields c)).length := by
  induction ss with
  | nil => exact Nat.le_refl 0
  | cons s ss ih =>
    have hpos := List.length_pos_iff.mpr (fields_ne_nil c s)
    rw [List.flatMap_cons, List.length_append, List.length_cons]
    omega

/-- Texts are their own fields just if none has a separator in it. -/
theorem flatMap_fields_iff {ss : List String} :
    ss.flatMap (fields c) = ss ↔ ∀ s ∈ ss, c ∉ s.toList := by
  induction ss with
  | nil => exact iff_of_true rfl fun _ h => by cases h
  | cons s ss ih =>
    rw [List.forall_mem_cons, ← ih, List.flatMap_cons]
    constructor
    · intro h
      have hrest := length_flatMap_fields (c := c) ss
      have hpos := List.length_pos_iff.mpr (fields_ne_nil c s)
      have hlen := congrArg List.length h
      rw [List.length_append, List.length_cons] at hlen
      have hone : ((fields c s).flatMap fun w => [w]).length = 1 := by
        rw [List.flatMap_singleton']
        omega
      obtain ⟨hc, -⟩ := expand_of_length (fun _ => List.cons_ne_nil _ _) hone
      rw [fields_self hc] at h
      exact ⟨hc, (List.cons.inj h).2⟩
    · rintro ⟨hc, h⟩
      rw [fields_self hc, h]
      rfl

end Text
