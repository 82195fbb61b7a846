import TableShell.Proofs.Quoting

/-
Reading back a list of fields.

A text that is written for a field, bare or quoted, is read as that field wherever it is followed
by a comma or by nothing, so a list of such texts is read one by one.
-/
namespace TableShell
namespace Text

theorem not_mem_intercalate {c : Char} {sep : List Char} (hs : c ∉ sep) {ts : List (List Char)}
    (ht : ∀ t ∈ ts, c ∉ t) : c ∉ sep.intercalate ts := by
  induction ts with
  | nil => exact List.not_mem_nil
  | cons t ts ih =>
    have hc := ht t List.mem_cons_self
    have := ih fun u hu => ht u (List.mem_cons_of_mem _ hu)
    cases ts with
    | nil => rwa [List.intercalate_singleton]
    | cons t' ts => simp [List.intercalate_cons_cons, hc, hs, this]

namespace Fields

/-- A comma comes next, or nothing does. -/
def atEnd (r : List Char) : Prop :=
  ∀ c, r.head? = some c → isComma c = true

theorem atEnd_nil : atEnd [] := by
  rintro c ⟨⟩

theorem atEnd_comma (r : List Char) : atEnd (',' :: r) := by
  rintro c ⟨⟩
  rfl

theorem takeWhile_of_atEnd {r : List Char} (h : atEnd r) : r.takeWhile (!isComma ·) = [] := by
  cases r with
  | nil => rfl
  | cons c r => rw [List.takeWhile_cons, h c rfl, Bool.not_true, if_neg (by decide)]

theorem dropWhile_of_atEnd {r : List Char} (h : atEnd r) : r.dropWhile (!isComma ·) = r := by
  cases r with
  | nil => rfl
  | cons c r => rw [List.dropWhile_cons, h c rfl, Bool.not_true, if_neg (by decide)]

/-- The text is read as the field, up to its end. -/
def IsRead (text field : List Char) : Prop :=
  ∃ raw, trim raw = field ∧ ∀ r, atEnd r → rawField (text ++ r) = (raw, r)

theorem split_of_rawField_nil {s raw : List Char} (h : rawField s = (raw, [])) :
    split s = [trim raw] := by
  rw [split, h]

theorem split_of_rawField_cons {s raw r : List Char} {c : Char} (h : rawField s = (raw, c :: r)) :
    split s = trim raw :: split r := by
  rw [split, h]

theorem rawField_append_blank {w : List Char} (hw : ∀ c ∈ w, isBlank c = true) (s : List Char) :
    rawField (w ++ s) = rawField s := by
  rw [rawField, rawField, trimStart_append hw]

theorem split_append_blank {w : List Char} (hw : ∀ c ∈ w, isBlank c = true) (s : List Char) :
    split (w ++ s) = split s := by
  rw [split, split, rawField_append_blank hw]

theorem split_isRead {text field : List Char} (h : IsRead text field) : split text = [field] := by
  obtain ⟨raw, rfl, hraw⟩ := h
  have := hraw [] atEnd_nil
  rw [List.append_nil] at this
  exact split_of_rawField_nil this

theorem split_isRead_cons {text field : List Char} (h : IsRead text field) (s : List Char) :
    split (text ++ ',' :: s) = field :: split s := by
  obtain ⟨raw, rfl, hraw⟩ := h
  exact split_of_rawField_cons (hraw _ (atEnd_comma s))

theorem split_isRead_append {text field : List Char} (h : IsRead text field) (s : List Char) :
    split (text ++ ',' :: ' ' :: s) = field :: split s := by
  rw [split_isRead_cons h]
  exact congrArg _ (split_append_blank (w := [' ']) (List.all_eq_true.1 rfl) s)

/-- What stands between two fields and belongs to neither. -/
def Separates (sep : List Char) : Prop :=
  ∀ {text field : List Char}, IsRead text field → ∀ s, split (text ++ (sep ++ s)) = field :: split s

/-- The fields of a list are those that its texts are written for. -/
theorem split_intercalate_of_separates {sep : List Char} (hsep : Separates sep)
    {l : List (List Char × List Char)} (hne : l ≠ []) (h : ∀ t ∈ l, IsRead t.1 t.2) :
    split (sep.intercalate (l.map Prod.fst)) = l.map Prod.snd := by
  induction l with
  | nil => exact absurd rfl hne
  | cons t l ih =>
    have ht := h t List.mem_cons_self
    cases l with
    | nil =>
      simp only [List.map_cons, List.map_nil, List.intercalate_singleton]
      exact split_isRead ht
    | cons t' l =>
      have := ih (List.cons_ne_nil _ _) fun u hu => h u (List.mem_cons_of_mem _ hu)
      simp only [List.map_cons] at this ⊢
      rw [List.intercalate_cons_cons, List.append_assoc, hsep ht, this]

theorem split_intercalate {l : List (List Char × List Char)} (hne : l ≠ [])
    (h : ∀ t ∈ l, IsRead t.1 t.2) :
    split ([',', ' '].intercalate (l.map Prod.fst)) = l.map Prod.snd :=
  split_intercalate_of_separates split_isRead_append hne h

theorem split_intercalate_comma {l : List (List Char × List Char)} (hne : l ≠ [])
    (h : ∀ t ∈ l, IsRead t.1 t.2) :
    split ([','].intercalate (l.map Prod.fst)) = l.map Prod.snd :=
  split_intercalate_of_separates split_isRead_cons hne h

/-- A quoted text is read up to its closing quote, and what follows belongs to the field up to the
next comma. -/
theorem rawField_quoted (s : List Char) {r : List Char} (hr : r.head? ≠ some quoteChar) :
    rawField (quoted s ++ r) = (s ++ r.takeWhile (!isComma ·), r.dropWhile (!isComma ·)) := by
  have hs : trimStart (quoted s ++ r) = quoteChar :: (doubled s ++ quoteChar :: r) := by
    rw [quoted, List.cons_append, List.cons_append, List.append_assoc, List.singleton_append]
    exact trimStart_cons_of_not_blank (by decide) _
  rw [rawField, hs]
  simp only [if_true, body_doubled s hr]

theorem isRead_quoted (s : List Char) : IsRead (quoted s) (trim s) := by
  refine ⟨s, rfl, ?_⟩
  intro r hr
  have hq : r.head? ≠ some quoteChar := fun h => absurd (hr _ h) (by decide)
  rw [rawField_quoted s hq, takeWhile_of_atEnd hr, dropWhile_of_atEnd hr, List.append_nil]

/-- A bare text without commas that does not open with a blank or a quote is read up to where it
ends. -/
theorem rawField_bare {c : Char} (hb : isBlank c = false) (hq : c ≠ quoteChar) {s : List Char}
    (hs : ∀ d ∈ c :: s, isComma d = false) (r : List Char) :
    rawField (c :: s ++ r) =
      (c :: s ++ r.takeWhile (!isComma ·), r.dropWhile (!isComma ·)) := by
  have hs' : ∀ d ∈ c :: s, (!isComma d) = true := fun d hd => by rw [hs d hd, Bool.not_false]
  rw [rawField, List.cons_append, trimStart_cons_of_not_blank hb]
  simp only [hq, if_false]
  rw [← List.cons_append, List.takeWhile_append_of_pos hs', List.dropWhile_append_of_pos hs']

theorem isRead_bare {c : Char} (hb : isBlank c = false) (hq : c ≠ quoteChar) {s : List Char}
    (hs : ∀ d ∈ c :: s, isComma d = false) : IsRead (c :: s) (trim (c :: s)) := by
  refine ⟨c :: s, rfl, ?_⟩
  intro r hr
  rw [rawField_bare hb hq hs, takeWhile_of_atEnd hr, dropWhile_of_atEnd hr, List.append_nil]

/-- A text without blanks, quotes and commas is read as it stands. -/
theorem isRead_plain {s : List Char} (hne : s ≠ [])
    (h : ∀ c ∈ s, isBlank c = false ∧ c ≠ quoteChar ∧ isComma c = false) : IsRead s s := by
  have htrim : trim s = s := trim_eq_self (trimmed_of_forall fun c hc => (h c hc).1)
  obtain ⟨c, t, rfl⟩ := List.exists_cons_of_ne_nil hne
  obtain ⟨hb, hq, -⟩ := h c List.mem_cons_self
  have := isRead_bare hb hq fun d hd => (h d hd).2.2
  rwa [htrim] at this

end Fields

theorem split_literal (text : String) :
    Fields.split (literal text).toList = [trim text.toList] := by
  rw [literal, String.toList_ofList]
  exact Fields.split_isRead (Fields.isRead_quoted text.toList)

end Text
end TableShell
