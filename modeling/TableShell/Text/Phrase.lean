/-
Fixed phrases at the start of a text, read up to letter case.

A phrase is given in its folded spelling. The folding is a parameter: commands are recognised up
to the case of the ASCII letters, the keywords inside statements up to the folding of
`Text.foldCase`.
-/
namespace TableShell
namespace Text

/-- The rest of the text behind the phrase, when the text starts with it. -/
def strip? (fold : Char → Char) : List Char → List Char → Option (List Char)
  | [], s => some s
  | _ :: _, [] => none
  | p :: ps, c :: s => if fold c = p then strip? fold ps s else none

/-- The whole text is the phrase, up to the case of ASCII letters. -/
def isPhrase (phrase s : List Char) : Bool :=
  s.map Char.toLower == phrase

theorem strip?_eq_some_iff {fold : Char → Char} {phrase s r : List Char} :
    strip? fold phrase s = some r ↔ ∃ h, h.map fold = phrase ∧ s = h ++ r := by
  induction phrase generalizing s with
  | nil => simp [strip?, eq_comm]
  | cons p ps ih =>
    cases s with
    | nil =>
      simp only [strip?, reduceCtorEq, false_iff, not_exists, not_and]
      rintro (_ | ⟨c, h⟩) hh <;> simp at hh ⊢
    | cons c s =>
      by_cases hc : fold c = p
      · simp only [strip?, hc, if_true, ih]
        constructor
        · rintro ⟨h, hh, rfl⟩
          exact ⟨c :: h, by simp [hc, hh], rfl⟩
        · rintro ⟨h, hh, hs⟩
          cases h with
          | nil => simp at hh
          | cons d h =>
            simp only [List.cons_append, List.cons.injEq, List.map_cons] at hs hh
            exact ⟨h, hh.2, hs.2⟩
      · simp only [strip?, hc, if_false, reduceCtorEq, false_iff, not_exists, not_and]
        rintro h hh hs
        cases h with
        | nil => simp at hh
        | cons d h =>
          simp only [List.cons_append, List.cons.injEq, List.map_cons] at hs hh
          exact hc (hs.1 ▸ hh.1)

theorem strip?_append {fold : Char → Char} {phrase h : List Char} (hh : h.map fold = phrase)
    (r : List Char) : strip? fold phrase (h ++ r) = some r :=
  strip?_eq_some_iff.2 ⟨h, hh, rfl⟩

theorem exists_strip?_iff {fold : Char → Char} {phrase s : List Char} :
    (∃ r, strip? fold phrase s = some r) ↔ phrase <+: s.map fold := by
  constructor
  · intro h
    obtain ⟨r, hr⟩ := h
    obtain ⟨h, rfl, rfl⟩ := strip?_eq_some_iff.1 hr
    rw [List.map_append]
    exact List.prefix_append _ _
  · intro h
    obtain ⟨t, ht⟩ := h
    obtain ⟨h, r, rfl, hh, -⟩ := List.map_eq_append_iff.1 ht.symm
    exact ⟨r, strip?_append hh r⟩

theorem strip?_eq_none_iff {fold : Char → Char} {phrase s : List Char} :
    strip? fold phrase s = none ↔ ¬ phrase <+: s.map fold := by
  rw [← exists_strip?_iff, ← Option.isSome_iff_exists, Option.not_isSome_iff_eq_none]

end Text
end TableShell
