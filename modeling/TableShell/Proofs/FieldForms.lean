import Mathlib.Data.Bool.AllAny
import TableShell.Proofs.FieldLists

/-
The forms in which a field can be written.

A field stands in quotes, with its quotes doubled, or bare, where it has no comma and opens with no
quote; blanks may stand on both sides of it. Each form is read as its content, trimmed, so a list of
fields is read back whatever the forms are.
-/
namespace TableShell
namespace Text
namespace Fields

/-- The content of a field and the form it is written in. -/
inductive Form
  | quoted (content : List Char)
  | bare (content : List Char) (no_comma : ∀ c ∈ content, isComma c = false)
      (no_quote : (trimStart content).head? ≠ some quoteChar)

namespace Form

def content : Form → List Char
  | quoted s => s
  | bare s _ _ => s

def text : Form → List Char
  | quoted s => Fields.quoted s
  | bare s _ _ => s

end Form

/-- A field as it is written between two commas. -/
structure Written where
  before : List Char := []
  form : Form
  after : List Char := []
  before_blank : ∀ c ∈ before, isBlank c = true := by exact List.all_eq_true.1 rfl
  after_blank : ∀ c ∈ after, isBlank c = true := by exact List.all_eq_true.1 rfl

namespace Written

def text (f : Written) : List Char :=
  f.before ++ f.form.text ++ f.after

def field (f : Written) : List Char :=
  trim f.form.content

end Written

/-! ### Reading one field -/

theorem isComma_of_isBlank {c : Char} (h : isBlank c = true) : isComma c = false := by
  rw [isComma, beq_eq_false_iff_ne]
  rintro rfl
  exact absurd h (by decide)

/-- The part of a text behind a field that still belongs to it. -/
theorem takeWhile_blank {w r : List Char} (hw : ∀ c ∈ w, isBlank c = true) (hr : atEnd r) :
    (w ++ r).takeWhile (!isComma ·) = w ∧ (w ++ r).dropWhile (!isComma ·) = r := by
  have hw' : ∀ c ∈ w, (!isComma c) = true := fun c hc => by
    rw [isComma_of_isBlank (hw c hc), Bool.not_false]
  rw [List.takeWhile_append_of_pos hw', List.dropWhile_append_of_pos hw', takeWhile_of_atEnd hr,
    dropWhile_of_atEnd hr, List.append_nil]
  exact ⟨rfl, rfl⟩

theorem isRead_quoted_blank {a b : List Char} (ha : ∀ c ∈ a, isBlank c = true)
    (hb : ∀ c ∈ b, isBlank c = true) (s : List Char) : IsRead (a ++ quoted s ++ b) (trim s) := by
  refine ⟨s ++ b, trim_append hb s, fun r hr => ?_⟩
  have hq : (b ++ r).head? ≠ some quoteChar := by
    intro h
    cases b with
    | nil => exact absurd (hr _ h) (by decide)
    | cons c b =>
      have hc := hb c List.mem_cons_self
      rw [Option.some.inj h] at hc
      exact absurd hc (by decide)
  obtain ⟨htake, hdrop⟩ := takeWhile_blank hb hr
  rw [List.append_assoc, List.append_assoc, rawField_append_blank ha, rawField_quoted s hq, htake,
    hdrop]

theorem trimStart_of_blank {w : List Char} (hw : ∀ c ∈ w, isBlank c = true) : trimStart w = [] := by
  rw [← List.append_nil w, trimStart_append hw]
  rfl

/-- A text without commas that does not open with a quote is read as it stands. -/
theorem isRead_of_no_comma {s : List Char} (hs : ∀ c ∈ s, isComma c = false)
    (hq : (trimStart s).head? ≠ some quoteChar) : IsRead s (trim s) := by
  obtain ⟨w, hw, hsplit⟩ : ∃ w, (∀ c ∈ w, isBlank c = true) ∧ s = w ++ trimStart s :=
    ⟨s.takeWhile isBlank, List.all_eq_true.1 List.all_takeWhile,
      List.takeWhile_append_dropWhile.symm⟩
  have hcomma : ∀ c ∈ trimStart s, isComma c = false := fun c hc =>
    hs c (List.dropWhile_subset isBlank hc)
  have hhead : ∀ c, (trimStart s).head? = some c → isBlank c = false := fun _ => head?_trimStart
  generalize trimStart s = t at hq hsplit hcomma hhead
  subst hsplit
  refine ⟨t, by rw [trim, trim, trimStart_append hw], fun r hr => ?_⟩
  rw [List.append_assoc, rawField_append_blank hw]
  cases t with
  | nil =>
    cases r with
    | nil => rfl
    | cons d r =>
      obtain rfl : d = ',' := beq_iff_eq.1 (hr d rfl)
      rfl
  | cons c t =>
    have hc : c ≠ quoteChar := fun h => hq (congrArg some h)
    rw [rawField_bare (hhead c rfl) hc hcomma, takeWhile_of_atEnd hr, dropWhile_of_atEnd hr,
      List.append_nil]

namespace Written

theorem isRead (f : Written) : IsRead f.text f.field := by
  obtain ⟨before, form, after, hbefore, hafter⟩ := f
  cases form with
  | quoted s => exact isRead_quoted_blank hbefore hafter s
  | bare s hs hq =>
    have hcomma : ∀ c ∈ before ++ s ++ after, isComma c = false := by
      simp only [List.forall_mem_append]
      exact ⟨⟨fun c hc => isComma_of_isBlank (hbefore c hc), hs⟩,
        fun c hc => isComma_of_isBlank (hafter c hc)⟩
    have hquote : (trimStart (before ++ s ++ after)).head? ≠ some quoteChar := by
      rw [List.append_assoc, trimStart_append hbefore, trimStart, List.dropWhile_append,
        ← trimStart, ← trimStart]
      cases ht : trimStart s with
      | nil => rw [List.isEmpty_nil, if_pos rfl, trimStart_of_blank hafter]; simp
      | cons c t =>
        rw [ht] at hq
        exact hq
    have hread := isRead_of_no_comma hcomma hquote
    rwa [trim_between hbefore hafter] at hread

end Written

/-! ### Reading a list of fields -/

theorem trim_of_mem_split {s field : List Char} (h : field ∈ split s) : trim field = field := by
  induction s using split.induct with
  | case1 s raw ih =>
    rw [split] at h
    rcases List.mem_cons.1 h with rfl | h
    · exact trim_trim _
    · split at h
      · exact absurd h List.not_mem_nil
      · next c rest hrest => exact ih c rest hrest h

/-- Fields in any form, with any blanks about them, are read back. So are the fields of any text
whatever, when they are written in quotes. -/
theorem split_written :
    (∀ fields : List Written, fields ≠ [] →
      split ([','].intercalate (fields.map Written.text)) = fields.map Written.field) ∧
      ∀ s : List Char, split ([','].intercalate ((split s).map quoted)) = split s := by
  refine ⟨fun fields hne => ?_, fun s => ?_⟩
  · have h := split_intercalate_comma (l := fields.map fun f => (f.text, f.field))
      (fun h => hne (List.map_eq_nil_iff.1 h)) (List.forall_mem_map.2 fun f _ => f.isRead)
    rwa [List.map_map, List.map_map] at h
  · have h := split_intercalate_comma (l := (split s).map fun f => (quoted f, trim f))
      (fun h => split_ne_nil s (List.map_eq_nil_iff.1 h))
      (List.forall_mem_map.2 fun f _ => isRead_quoted f)
    rw [List.map_map, List.map_map] at h
    calc split ([','].intercalate ((split s).map quoted)) = (split s).map trim := h
      _ = (split s).map id := List.map_congr_left fun f hf => trim_of_mem_split hf
      _ = split s := List.map_id _

/-- Quotes, commas and blanks in quotes, a quote in a bare text, a blank field and a quote alone. -/
theorem split_written_mixed :
    split " 'it''s, here ' ,no 'quote,  ,''''\n".toList =
      ["it's, here".toList, "no 'quote".toList, [], "'".toList] :=
  split_written.1
    [{ before := [' '], form := .quoted "it's, here ".toList, after := [' '] },
      { form := .bare "no 'quote".toList (List.all_iff_forall_prop.1 (by decide)) (by decide) },
      { before := [' '], form := .bare [' '] (List.all_iff_forall_prop.1 (by decide)) (by decide) },
      { form := .quoted ['\x27'], after := ['\n'] }]
    (List.cons_ne_nil _ _)

end Fields
end Text
end TableShell
