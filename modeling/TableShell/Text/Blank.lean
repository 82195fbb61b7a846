/-
Blank characters and the trimming of texts at both ends.

Texts are lists of characters here, so that every function below is a structural recursion or one of
the list operations. A blank is a character with the White_Space property.
-/
namespace TableShell
namespace Text

/-- White_Space: the tabulation and line characters, the space, the next-line control, and the
spaces and separators of general punctuation. -/
def isBlank (c : Char) : Bool :=
  let n := c.toNat
  (9 ≤ n && n ≤ 13) || n == 0x20 || n == 0x85 || n == 0xA0 || n == 0x1680 ||
    (0x2000 ≤ n && n ≤ 0x200A) || n == 0x2028 || n == 0x2029 || n == 0x202F || n == 0x205F ||
    n == 0x3000

def trimStart (s : List Char) : List Char :=
  s.dropWhile isBlank

def trimEnd (s : List Char) : List Char :=
  (s.reverse.dropWhile isBlank).reverse

def trim (s : List Char) : List Char :=
  trimEnd (trimStart s)

/-- The text without the characters of class `p` at its ends. -/
def trimOf (p : Char → Bool) (s : List Char) : List Char :=
  ((s.dropWhile p).reverse.dropWhile p).reverse

/-- The text behind the blanks at its start, of which there has to be one. -/
def skipBlanks? : List Char → Option (List Char)
  | [] => none
  | c :: s => if isBlank c then some (trimStart s) else none

/-- A text with nothing to trim. -/
def Trimmed (s : List Char) : Prop :=
  (∀ c, s.head? = some c → isBlank c = false) ∧ (∀ c, s.getLast? = some c → isBlank c = false)

theorem trimStart_cons_of_blank {c : Char} (h : isBlank c = true) (s : List Char) :
    trimStart (c :: s) = trimStart s := by
  simp only [trimStart, List.dropWhile_cons, h, if_true]

theorem trimStart_cons_of_not_blank {c : Char} (h : isBlank c = false) (s : List Char) :
    trimStart (c :: s) = c :: s := by
  simp only [trimStart, List.dropWhile_cons, h, if_false, Bool.false_eq_true]

/-- Leading blanks do not matter to trimming at the start. -/
theorem trimStart_append {w : List Char} (h : ∀ c ∈ w, isBlank c = true) (s : List Char) :
    trimStart (w ++ s) = trimStart s := by
  induction w with
  | nil => rfl
  | cons c w ih =>
    rw [List.cons_append, trimStart_cons_of_blank (h c List.mem_cons_self)]
    exact ih fun d hd => h d (List.mem_cons_of_mem _ hd)

theorem trimEnd_append {w : List Char} (h : ∀ c ∈ w, isBlank c = true) (s : List Char) :
    trimEnd (s ++ w) = trimEnd s := by
  have hw : ∀ c ∈ w.reverse, isBlank c = true := fun c hc => h c (List.mem_reverse.1 hc)
  have := trimStart_append hw s.reverse
  simp only [trimStart] at this
  simp only [trimEnd, List.reverse_append, this]

theorem head?_trimStart {s : List Char} {c : Char} (h : (trimStart s).head? = some c) :
    isBlank c = false := by
  induction s with
  | nil => simp [trimStart] at h
  | cons d s ih =>
    cases hd : isBlank d with
    | true => rw [trimStart_cons_of_blank hd] at h; exact ih h
    | false =>
      rw [trimStart_cons_of_not_blank hd] at h
      simp only [List.head?_cons, Option.some.injEq] at h
      exact h ▸ hd

theorem getLast?_trimEnd {s : List Char} {c : Char} (h : (trimEnd s).getLast? = some c) :
    isBlank c = false := by
  simp only [trimEnd, List.getLast?_reverse] at h
  exact head?_trimStart h

theorem trimStart_eq_self {s : List Char} (h : ∀ c, s.head? = some c → isBlank c = false) :
    trimStart s = s := by
  cases s with
  | nil => rfl
  | cons c s => exact trimStart_cons_of_not_blank (h c rfl) s

theorem trimEnd_eq_self {s : List Char} (h : ∀ c, s.getLast? = some c → isBlank c = false) :
    trimEnd s = s := by
  have := @trimStart_eq_self s.reverse (by simpa only [List.head?_reverse] using h)
  simp only [trimStart] at this
  simp only [trimEnd, this, List.reverse_reverse]

theorem trimOf_isBlank (s : List Char) : trimOf isBlank s = trim s := rfl

theorem trimmed_of_forall {s : List Char} (h : ∀ c ∈ s, isBlank c = false) : Trimmed s :=
  ⟨fun c hc => h c (List.mem_of_mem_head? hc), fun c hc => h c (List.mem_of_mem_getLast? hc)⟩

theorem trim_eq_self {s : List Char} (h : Trimmed s) : trim s = s := by
  rw [trim, trimStart_eq_self h.1, trimEnd_eq_self h.2]

theorem trimEnd_isPrefix (s : List Char) : trimEnd s <+: s := by
  have h := List.dropWhile_suffix isBlank (l := s.reverse)
  rw [← List.reverse_prefix, List.reverse_reverse] at h
  exact h

theorem trimmed_trim (s : List Char) : Trimmed (trim s) := by
  refine ⟨fun c h => ?_, fun c h => getLast?_trimEnd h⟩
  obtain ⟨t, ht⟩ := trimEnd_isPrefix (trimStart s)
  rw [trim] at h
  apply head?_trimStart (s := s)
  rw [← ht, List.head?_append, h]
  rfl

theorem trim_trim (s : List Char) : trim (trim s) = trim s :=
  trim_eq_self (trimmed_trim s)

end Text
end TableShell
