import TableShell.Text.Blank

/-
Comma-separated fields, bare or in single quotes.

A bare field runs to the next comma. A quoted field runs to its closing quote, whatever stands
inside; a quote written twice inside it stands for one. Text between the closing quote and the
comma is kept, an unclosed quote runs to the end, and every field is trimmed at the end.
-/
namespace TableShell
namespace Text
namespace Fields

def quoteChar : Char := '\x27'

def isComma (c : Char) : Bool :=
  c == ','

/-- The body of a quoted field behind its opening quote, and the text behind the closing one. -/
def body : List Char → List Char × List Char
  | [] => ([], [])
  | [c] => if c = quoteChar then ([], []) else ([c], [])
  | c :: d :: s =>
    if c = quoteChar then
      if d = quoteChar then
        let rest := body s
        (quoteChar :: rest.1, rest.2)
      else ([], d :: s)
    else
      let rest := body (d :: s)
      (c :: rest.1, rest.2)

/-- The first field, untrimmed, and the text from its comma on. -/
def rawField (s : List Char) : List Char × List Char :=
  match trimStart s with
  | [] => ([], [])
  | c :: s =>
    if c = quoteChar then
      let inner := body s
      (inner.1 ++ inner.2.takeWhile (!isComma ·), inner.2.dropWhile (!isComma ·))
    else ((c :: s).takeWhile (!isComma ·), (c :: s).dropWhile (!isComma ·))

theorem length_body_le (s : List Char) : (body s).2.length ≤ s.length := by
  fun_induction body s with
  | case1 => simp
  | case2 => simp
  | case3 => simp
  | case4 s rest ih => simp only [rest, List.length_cons]; omega
  | case5 => simp only [List.length_cons]; omega
  | case6 c d s h rest ih => simp only [rest, List.length_cons] at ih ⊢; omega

theorem length_rawField_le (s : List Char) : (rawField s).2.length ≤ s.length := by
  have hs : (trimStart s).length ≤ s.length := (List.dropWhile_sublist _).length_le
  unfold rawField
  split
  · simp
  · next c r h =>
    rw [h, List.length_cons] at hs
    split
    · have h₁ := length_body_le r
      have h₂ := (List.dropWhile_sublist (!isComma ·) (l := (body r).2)).length_le
      simp only
      omega
    · have h₂ := (List.dropWhile_sublist (!isComma ·) (l := c :: r)).length_le
      simp only [List.length_cons] at h₂ ⊢
      omega

/-- The fields of a text, each trimmed. There is always one. -/
def split (s : List Char) : List (List Char) :=
  let field := rawField s
  trim field.1 ::
    match _rest : field.2 with
    | [] => []
    | _ :: s' => split s'
termination_by s.length
decreasing_by
  have := length_rawField_le s
  rw [_rest, List.length_cons] at this
  omega

/-- Each quote written twice. -/
def doubled : List Char → List Char
  | [] => []
  | c :: s => if c = quoteChar then c :: c :: doubled s else c :: doubled s

/-- A text written as a quoted field. -/
def quoted (s : List Char) : List Char :=
  quoteChar :: doubled s ++ [quoteChar]

theorem split_ne_nil (s : List Char) : split s ≠ [] := by
  rw [split]
  exact List.cons_ne_nil _ _

/-- A quoted text is read back, whatever follows it, unless another quote does. -/
theorem body_doubled (s : List Char) {r : List Char} (hr : r.head? ≠ some quoteChar) :
    body (doubled s ++ quoteChar :: r) = (s, r) := by
  induction s with
  | nil =>
    cases r with
    | nil => simp [doubled, body]
    | cons d r =>
      have hd : d ≠ quoteChar := by simpa using hr
      simp [doubled, body, hd]
  | cons c s ih =>
    by_cases hc : c = quoteChar
    · subst hc
      simp [doubled, body, ih]
    · simp only [doubled, hc, if_false, List.cons_append]
      cases hq : doubled s ++ quoteChar :: r with
      | nil => simp at hq
      | cons d t => rw [body, if_neg hc, ← hq, ih]

end Fields
end Text
end TableShell
