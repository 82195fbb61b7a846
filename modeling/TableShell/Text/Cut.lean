/-
Cutting a text in two at the first or the last character of a class. The character itself belongs to
neither part.
-/
namespace TableShell
namespace Text

/-- The parts before and after the first character of class `p`. -/
def cut? (p : Char → Bool) : List Char → Option (List Char × List Char)
  | [] => none
  | c :: s => if p c then some ([], s) else (cut? p s).map fun (a, b) => (c :: a, b)

/-- The parts before and after the last character of class `p`. -/
def cutLast? (p : Char → Bool) (s : List Char) : Option (List Char × List Char) :=
  (cut? p s.reverse).map fun (b, a) => (a.reverse, b.reverse)

theorem cut?_eq_none_iff {p : Char → Bool} {s : List Char} :
    cut? p s = none ↔ ∀ c ∈ s, p c = false := by
  induction s with
  | nil => simp [cut?]
  | cons c s ih => by_cases h : p c = true <;> simp [cut?, h, ih]

/-- A cut loses one character of the class, and the first part has none. -/
theorem cut?_eq_some_iff {p : Char → Bool} {s a b : List Char} :
    cut? p s = some (a, b) ↔
      ∃ c, p c = true ∧ (∀ d ∈ a, p d = false) ∧ s = a ++ c :: b := by
  induction s generalizing a with
  | nil => simp [cut?]
  | cons e s ih =>
    by_cases h : p e = true
    · simp only [cut?, h, if_true, Option.some.injEq, Prod.mk.injEq]
      constructor
      · rintro ⟨rfl, rfl⟩
        exact ⟨e, h, by simp, rfl⟩
      · rintro ⟨c, -, ha, hs⟩
        cases a with
        | nil => simp only [List.nil_append, List.cons.injEq] at hs; exact ⟨rfl, hs.2⟩
        | cons d a =>
          simp only [List.cons_append, List.cons.injEq] at hs
          have := ha d List.mem_cons_self
          rw [← hs.1, h] at this
          exact absurd this (by decide)
    · simp only [cut?, h, if_false, Bool.false_eq_true, Option.map_eq_some_iff, Prod.mk.injEq,
        Prod.exists]
      constructor
      · rintro ⟨x, y, hxy, rfl, rfl⟩
        obtain ⟨c, hc, ha, hs⟩ := ih.1 hxy
        refine ⟨c, hc, ?_, by rw [hs, List.cons_append]⟩
        intro d hd
        rcases List.mem_cons.1 hd with rfl | hd
        · simpa using h
        · exact ha d hd
      · rintro ⟨c, hc, ha, hs⟩
        cases a with
        | nil =>
          simp only [List.nil_append, List.cons.injEq] at hs
          exact absurd (hs.1 ▸ hc) h
        | cons d a =>
          simp only [List.cons_append, List.cons.injEq] at hs
          exact ⟨a, b, ih.2 ⟨c, hc, fun d hd => ha d (List.mem_cons_of_mem _ hd), hs.2⟩,
            by rw [hs.1], rfl⟩

theorem cut?_append {p : Char → Bool} {a : List Char} {c : Char} (ha : ∀ d ∈ a, p d = false)
    (hc : p c = true) (b : List Char) : cut? p (a ++ c :: b) = some (a, b) :=
  cut?_eq_some_iff.2 ⟨c, hc, ha, rfl⟩

/-- A text is parted in one way where a character first stands. -/
theorem append_cons_injective {c : Char} {s s' r r' : List Char} (h : c ∉ s) (h' : c ∉ s')
    (hs : s ++ c :: r = s' ++ c :: r') : s = s' ∧ r = r' := by
  have hcut : ∀ {a : List Char}, c ∉ a → ∀ b, cut? (· == c) (a ++ c :: b) = some (a, b) := by
    intro a ha b
    refine cut?_append (p := (· == c)) (fun d hd => ?_) (beq_self_eq_true c) b
    rw [beq_eq_false_iff_ne]
    rintro rfl
    exact ha hd
  have hsome := hcut h r
  rw [hs, hcut h' r', Option.some.injEq, Prod.mk.injEq] at hsome
  exact ⟨hsome.1.symm, hsome.2.symm⟩

/-- A text without characters of the class belongs to the second part at its end and to the first at
its start. -/
theorem cut?_append_right {p : Char → Bool} {w : List Char} (hw : ∀ c ∈ w, p c = false)
    (s : List Char) : cut? p (s ++ w) = (cut? p s).map fun (a, b) => (a, b ++ w) := by
  cases hs : cut? p s with
  | none =>
    rw [cut?_eq_none_iff] at hs
    exact cut?_eq_none_iff.2 (List.forall_mem_append.2 ⟨hs, hw⟩)
  | some parts =>
    obtain ⟨a, b⟩ := parts
    obtain ⟨c, hc, ha, rfl⟩ := cut?_eq_some_iff.1 hs
    rw [List.append_assoc, List.cons_append, cut?_append ha hc]
    rfl

theorem cut?_append_left {p : Char → Bool} {t : List Char} (ht : ∀ c ∈ t, p c = false)
    (s : List Char) : cut? p (t ++ s) = (cut? p s).map fun (a, b) => (t ++ a, b) := by
  cases hs : cut? p s with
  | none =>
    rw [cut?_eq_none_iff] at hs
    exact cut?_eq_none_iff.2 (List.forall_mem_append.2 ⟨ht, hs⟩)
  | some parts =>
    obtain ⟨a, b⟩ := parts
    obtain ⟨c, hc, ha, rfl⟩ := cut?_eq_some_iff.1 hs
    rw [← List.append_assoc, cut?_append (List.forall_mem_append.2 ⟨ht, ha⟩) hc]
    rfl

/-- A cut at the last of them loses one character of the class, and the second part has none. -/
theorem cutLast?_eq_some_iff {p : Char → Bool} {s a b : List Char} :
    cutLast? p s = some (a, b) ↔
      ∃ c, p c = true ∧ (∀ d ∈ b, p d = false) ∧ s = a ++ c :: b := by
  have hreverse : ∀ c, s.reverse = b.reverse ++ c :: a.reverse ↔ s = a ++ c :: b := by
    intro c
    rw [List.reverse_eq_iff]
    simp
  have hcut : cutLast? p s = some (a, b) ↔ cut? p s.reverse = some (b.reverse, a.reverse) := by
    simp only [cutLast?, Option.map_eq_some_iff, Prod.mk.injEq, Prod.exists,
      List.reverse_eq_iff]
    exact ⟨fun ⟨_, _, h, ha, hb⟩ => ha ▸ hb ▸ h, fun h => ⟨_, _, h, rfl, rfl⟩⟩
  simp only [hcut, cut?_eq_some_iff, List.mem_reverse, hreverse]

theorem cutLast?_append {p : Char → Bool} {b : List Char} {c : Char} (a : List Char)
    (hc : p c = true) (hb : ∀ d ∈ b, p d = false) : cutLast? p (a ++ c :: b) = some (a, b) :=
  cutLast?_eq_some_iff.2 ⟨c, hc, hb, rfl⟩

end Text
end TableShell
