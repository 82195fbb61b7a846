import TableShell.Proofs.InsertionPatterns

/-
The search for a keyword as a whole word.

It is the search for the first match of a pattern of its own. A character that is in no word parts
the search in two: the keyword is in front of the character or behind it, and what stands on the
other side is passed over.
-/
namespace TableShell
namespace Text

/-- A keyword as a whole word. -/
def wholeWord (word : List Char) : Pattern :=
  [.boundary, .keyword word, .boundary]

section Keyword

variable {word : List Char}

theorem wholeWord_occurs_iff (hne : word ≠ []) (hw : ∀ p ∈ word, isWordChar p = true)
    {s : List Char} : (wholeWord word).Occurs s ↔
      ∃ before t r, s = before ++ t ∧ inWordBehind false before = false ∧
        stripWord? word t = some r := by
  simp only [Pattern.Occurs, wholeWord, Pattern.Matches, Insertion.inWordBehind_eq_false_iff,
    stripWord?_eq_some_iff, strip?_eq_some_iff]
  constructor
  · intro h
    obtain ⟨before, _, after, rfl, _, _, rfl, hbefore, n, _, rfl, hn, _, _, rfl, hafter, rfl⟩ := h
    rw [List.append_assoc] at hbefore
    obtain ⟨rfl, hin⟩ := (boundary_matches_before hne hw hn).1 hbefore
    obtain ⟨rfl, hr⟩ := (boundary_matches_behind hne hw hn).1 hafter
    exact ⟨before, n ++ after, after, by simp, hin, ⟨n, hn, rfl⟩, hr⟩
  · intro h
    obtain ⟨before, _, after, rfl, hin, ⟨n, hn, rfl⟩, hr⟩ := h
    refine ⟨before, n, after, rfl, [], n, rfl, ?_, n, [], by simp, hn, [], [], rfl, ?_, rfl⟩
    · exact (boundary_matches_before hne hw hn).2 ⟨rfl, hin⟩
    · exact (boundary_matches_behind hne hw hn).2 ⟨rfl, hr⟩

/-- The search finds nothing exactly where the keyword is nowhere a whole word. -/
theorem findWord?_eq_none_iff (hne : word ≠ []) (hw : ∀ p ∈ word, isWordChar p = true)
    {s : List Char} :
    findWord? word some false s = none ↔ ¬ (wholeWord word).Occurs s := by
  rw [wholeWord_occurs_iff hne hw]
  constructor
  · intro h hoccurs
    obtain ⟨before, t, r, rfl, hin, hr⟩ := hoccurs
    obtain ⟨before', a, hfind, -⟩ := @exists_findWord? _ word some hne _ _ _ r hr rfl _ hin
    rw [h] at hfind
    exact absurd hfind (by simp)
  · intro h
    rw [Option.eq_none_iff_forall_ne_some]
    rintro ⟨before, a⟩ hfind
    obtain ⟨t, r, hs, hin, hr, -⟩ := findWord?_spec hfind
    exact h ⟨before, t, r, hs, hin, hr⟩

/-- The keyword is found in front of a character that is in no word, or else behind it. -/
theorem findWord?_append_cons (hne : word ≠ []) (hw : ∀ p ∈ word, isWordChar p = true) {c : Char}
    (hc : isWordChar c = false) (inWord : Bool) (t s : List Char) :
    findWord? word some inWord (t ++ c :: s) =
      ((findWord? word some inWord t).map fun (before, r) => (before, r ++ c :: s)).or
        ((findWord? word some false s).map fun (before, r) => (t ++ c :: before, r)) := by
  induction t generalizing inWord with
  | nil => exact findWord?_cons_of_not_word hne hw hc inWord s
  | cons d t ih =>
    have hstrip := Insertion.stripWord?_append_cons hw hc (d :: t) s
    rw [List.cons_append] at hstrip ⊢
    rw [findWord?, findWord?, Option.bind_fun_some, Option.bind_fun_some, hstrip, ih]
    cases inWord <;> cases stripWord? word (d :: t) <;>
      cases findWord? word some (isWordChar d) t <;> simp [Function.comp_def]

theorem findWord?_append_blank (hne : word ≠ []) (hw : ∀ p ∈ word, isWordChar p = true)
    {w : List Char} (hb : ∀ c ∈ w, isBlank c = true) (s : List Char) :
    findWord? word some false (w ++ s) =
      (findWord? word some false s).map fun (before, r) => (w ++ before, r) := by
  induction w with
  | nil => simp
  | cons c w ih =>
    rw [List.cons_append,
      findWord?_cons_of_not_word hne hw (isWordChar_of_isBlank (hb c List.mem_cons_self)),
      ih fun d hd => hb d (List.mem_cons_of_mem c hd), Option.map_map]
    rfl

/-- Blanks at the end are part of what stands behind the keyword. -/
theorem findWord?_blank_append (hne : word ≠ []) (hw : ∀ p ∈ word, isWordChar p = true)
    {w : List Char} (hb : ∀ c ∈ w, isBlank c = true) (t : List Char) :
    findWord? word some false (t ++ w) =
      (findWord? word some false t).map fun (before, r) => (before, r ++ w) := by
  cases w with
  | nil => simp
  | cons c w =>
    have hrest := findWord?_append_blank hne hw (fun d hd => hb d (List.mem_cons_of_mem c hd)) []
    rw [List.append_nil] at hrest
    rw [findWord?_append_cons hne hw (isWordChar_of_isBlank (hb c List.mem_cons_self)), hrest]
    simp [findWord?]

/-- The search passes over a text in which no character is the first one of the keyword. -/
theorem findWord?_append_of_ne {p : Char} {t : List Char} (ht : ∀ c ∈ t, foldCase c ≠ p)
    (inWord : Bool) (s : List Char) :
    findWord? (p :: word) some inWord (t ++ s) =
      (findWord? (p :: word) some (inWordBehind inWord t) s).map
        fun (before, r) => (t ++ before, r) := by
  induction t generalizing inWord with
  | nil => simp [inWordBehind]
  | cons c t ih =>
    rw [List.forall_mem_cons] at ht
    have hstrip : stripWord? (p :: word) (c :: (t ++ s)) = none := by
      rw [stripWord?, strip?, if_neg ht.1, Option.filter_none]
    rw [List.cons_append, findWord?, hstrip, Option.bind_none, ite_self, ih ht.2]
    simp only [Option.map_map]
    rfl

end Keyword

/-- A text that is ASCII letters up to ASCII case is so up to simple case folding. -/
theorem map_foldCase_of_map_toLower {s word : List Char} (h : s.map Char.toLower = word)
    (hw : word.all (·.toNat < 128) = true) : s.map foldCase = word := by
  rw [← h]
  refine List.map_congr_left fun c hc => ?_
  have hlower : c.toLower.toNat < 128 :=
    of_decide_eq_true (List.all_eq_true.1 hw _ (h ▸ List.mem_map_of_mem hc))
  have hlt : c.toNat < 128 := Nat.lt_of_le_of_lt (Name.toNat_le_toLower c) hlower
  have hs : c ≠ '\u017f' := by
    rintro rfl
    exact absurd hlt (by decide)
  have hk : c ≠ '\u212a' := by
    rintro rfl
    exact absurd hlt (by decide)
  rw [foldCase, if_neg hs, if_neg hk]

end Text
end TableShell
