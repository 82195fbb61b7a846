import Mathlib.Data.List.Basic
import Mathlib.Data.List.Induction
import TableShell.Proofs.ListMarks

/-
What the searches for the two lists of an insertion find.

Each search is described by what it could find and by which of these it takes: the column list is
the longest that closes, and the value list the longest that opens. Where a list ends is told by the
text behind the keyword, since that is what the two lists have in common.
-/
namespace TableShell

namespace Text

/-- Whether a word character stands before what follows the text. -/
def inWordBehind (inWord : Bool) (before : List Char) : Bool :=
  before.foldl (fun _ c => isWordChar c) inWord

theorem inWordBehind_append_singleton (inWord : Bool) (before : List Char) (c : Char) :
    inWordBehind inWord (before ++ [c]) = isWordChar c := by
  rw [inWordBehind, List.foldl_append, List.foldl_cons, List.foldl_nil]

section Keyword

variable {α : Type} {word : List Char} {accept : List Char → Option α}

/-- A find parts the text: what stands before, the whole keyword, and a rest that is accepted. -/
theorem findWord?_spec {inWord : Bool} {s before : List Char} {a : α}
    (h : findWord? word accept inWord s = some (before, a)) :
    ∃ t r, s = before ++ t ∧ inWordBehind inWord before = false ∧ stripWord? word t = some r ∧
      accept r = some a := by
  induction s generalizing inWord before with
  | nil => exact absurd h (by simp [findWord?])
  | cons c s ih =>
    rw [findWord?] at h
    split at h
    · next b hb =>
      obtain ⟨rfl, rfl⟩ := Prod.mk.inj (Option.some.inj h)
      cases inWord with
      | true => exact absurd hb (by simp)
      | false =>
        rw [if_neg Bool.false_ne_true] at hb
        obtain ⟨r, hr, ha⟩ := Option.bind_eq_some_iff.1 hb
        exact ⟨c :: s, r, rfl, rfl, hr, ha⟩
    · obtain ⟨⟨b, a'⟩, hb, he⟩ := Option.map_eq_some_iff.1 h
      obtain ⟨rfl, rfl⟩ := Prod.mk.inj he
      obtain ⟨t, r, hs, hin, hr, ha⟩ := ih hb
      exact ⟨t, r, by rw [hs, List.cons_append], hin, hr, ha⟩

/-- Where a whole keyword could be found, one is, and none before it is passed over. -/
theorem exists_findWord? (hne : word ≠ []) {before t r : List Char} {a : α}
    (hr : stripWord? word t = some r) (ha : accept r = some a) {inWord : Bool}
    (hin : inWordBehind inWord before = false) :
    ∃ before' a', findWord? word accept inWord (before ++ t) = some (before', a') ∧
      before'.length ≤ before.length := by
  induction before generalizing inWord with
  | nil =>
    cases t with
    | nil =>
      cases word with
      | nil => exact absurd rfl hne
      | cons p ps => exact absurd hr (by simp [stripWord?, strip?])
    | cons c t =>
      have hin' : inWord = false := hin
      refine ⟨[], a, ?_, Nat.le_refl _⟩
      rw [List.nil_append, findWord?, hin', if_neg Bool.false_ne_true, hr, Option.bind_some, ha]
  | cons c before ih =>
    have hin' : inWordBehind (isWordChar c) before = false := hin
    rw [List.cons_append, findWord?]
    split
    · exact ⟨[], _, rfl, Nat.zero_le _⟩
    · obtain ⟨before', a', hb, hlen⟩ := ih hin'
      exact ⟨c :: before', a', by rw [hb]; rfl, Nat.succ_le_succ hlen⟩

end Keyword
end Text

namespace Insertion

open Text

/-! ### The column list -/

/-- The column list could be this one: it is on one line, and what follows is a parenthesis and, but
for blanks, the whole keyword. -/
def ClosesAt (lists columns behind : List Char) : Prop :=
  '\n' ∉ columns ∧ ∃ blanks word, lists = columns ++ ')' :: (blanks ++ (word ++ behind)) ∧
    (∀ c ∈ blanks, isBlank c = true) ∧ word.map foldCase = "values".toList ∧
      atBoundary behind = true

theorem closesAt_iff {lists columns behind : List Char} : ClosesAt lists columns behind ↔
    '\n' ∉ columns ∧ ∃ r, lists = columns ++ ')' :: r ∧ behindValues? r = some behind := by
  refine and_congr_right fun _ => ?_
  constructor
  · intro h
    obtain ⟨blanks, word, hs, h⟩ := h
    exact ⟨_, hs, behindValues?_eq_some_iff.2 ⟨blanks, word, rfl, h⟩⟩
  · intro h
    obtain ⟨r, hs, hr⟩ := h
    obtain ⟨blanks, word, rfl, h⟩ := behindValues?_eq_some_iff.1 hr
    exact ⟨blanks, word, hs, h⟩

theorem closesAt_cons_iff {c d : Char} {s columns behind : List Char} :
    ClosesAt (c :: s) (d :: columns) behind ↔ c = d ∧ d ≠ '\n' ∧ ClosesAt s columns behind := by
  simp only [closesAt_iff, List.mem_cons, not_or, List.cons_append, List.cons.injEq, ne_eq,
    eq_comm (a := '\n')]
  constructor
  · intro h
    obtain ⟨⟨hd, hl⟩, r, ⟨hc, hs⟩, hr⟩ := h
    exact ⟨hc, hd, hl, r, hs, hr⟩
  · intro h
    obtain ⟨hc, hd, hl, r, hs, hr⟩ := h
    exact ⟨⟨hd, hl⟩, r, ⟨hc, hs⟩, hr⟩

theorem closesAt_nil_iff {c : Char} {s behind : List Char} :
    ClosesAt (c :: s) [] behind ↔ c = ')' ∧ behindValues? s = some behind := by
  simp only [closesAt_iff, List.not_mem_nil, not_false_eq_true, true_and, List.nil_append,
    List.cons.injEq, and_assoc, exists_and_left, exists_eq_left']

theorem closesAt_of_longest? {s columns : List Char} (h : longest? s = some columns) :
    ∃ behind, ClosesAt s columns behind := by
  induction s generalizing columns with
  | nil => exact absurd h (by simp [longest?])
  | cons c s ih =>
    rw [longest?] at h
    split at h
    · exact absurd h (by simp)
    · next hc =>
      split at h
      · next list hl =>
        obtain ⟨behind, hb⟩ := ih hl
        rw [← Option.some.inj h]
        exact ⟨behind, closesAt_cons_iff.2 ⟨rfl, hc, hb⟩⟩
      · split at h
        · next hp =>
          obtain ⟨behind, hb⟩ := Option.isSome_iff_exists.1 hp.2
          rw [← Option.some.inj h]
          exact ⟨behind, closesAt_nil_iff.2 ⟨hp.1, hb⟩⟩
        · exact absurd h (by simp)

theorem exists_longest? {s columns behind : List Char} (h : ClosesAt s columns behind) :
    ∃ list, longest? s = some list ∧ columns.length ≤ list.length := by
  induction s generalizing columns with
  | nil =>
    obtain ⟨-, r, hs, -⟩ := closesAt_iff.1 h
    exact absurd hs (by simp)
  | cons c s ih =>
    cases columns with
    | nil =>
      obtain ⟨rfl, hb⟩ := closesAt_nil_iff.1 h
      rw [longest?, if_neg (by decide)]
      cases longest? s with
      | some list => exact ⟨_, rfl, Nat.zero_le _⟩
      | none => exact ⟨[], if_pos ⟨rfl, by rw [hb]; rfl⟩, Nat.le_refl _⟩
    | cons d columns =>
      obtain ⟨rfl, hc, hs⟩ := closesAt_cons_iff.1 h
      obtain ⟨list, hl, hlen⟩ := ih hs
      refine ⟨c :: list, ?_, Nat.succ_le_succ hlen⟩
      rw [longest?, if_neg hc, hl]

/-- The longer the list, the less stands behind its keyword: the parenthesis that closes the longer
list is part of neither the blanks nor the keyword behind the shorter one. -/
theorem length_behind_le {s columns columns' behind behind' : List Char}
    (h : ClosesAt s columns behind) (h' : ClosesAt s columns' behind')
    (hlen : columns'.length ≤ columns.length) : behind.length ≤ behind'.length := by
  obtain ⟨-, r, hs, hr⟩ := closesAt_iff.1 h
  obtain ⟨-, r', hs', hr'⟩ := closesAt_iff.1 h'
  have hbehind : behind.length ≤ r.length := by
    obtain ⟨blanks, word, rfl, -⟩ := behindValues?_eq_some_iff.1 hr
    simp only [List.length_append]
    omega
  obtain ⟨d, rfl⟩ : columns' <+: columns :=
    List.prefix_of_prefix_length_le ⟨_, hs'.symm⟩ ⟨_, hs.symm⟩ hlen
  rw [hs, List.append_assoc, List.append_right_inj] at hs'
  cases d with
  | nil =>
    rw [← (List.cons.inj hs').2, hr] at hr'
    exact Nat.le_of_eq (congrArg List.length (Option.some.inj hr'))
  | cons p d =>
    have hparen : isWordChar ')' = false ∧ isBlank ')' = false := by decide
    rw [← (List.cons.inj hs').2, List.append_eq,
      behindValues?_append_cons hparen.1 hparen.2] at hr'
    obtain ⟨e, -, rfl⟩ := Option.map_eq_some_iff.1 hr'
    simp only [List.length_append, List.length_cons]
    omega

/-- The column list closes, and is the longest that does. -/
theorem columnList?_longest {lists columns : List Char} (h : columnList? lists = some columns) :
    columns ≠ [] ∧ (∃ behind, ClosesAt lists columns behind) ∧
      ∀ columns' behind', ClosesAt lists columns' behind' → columns'.length ≤ columns.length := by
  cases lists with
  | nil => exact absurd h (by simp [columnList?])
  | cons c s =>
    rw [columnList?] at h
    split at h
    · exact absurd h (by simp)
    · next hc =>
      obtain ⟨list, hl, rfl⟩ := Option.map_eq_some_iff.1 h
      obtain ⟨behind, hb⟩ := closesAt_of_longest? hl
      refine ⟨List.cons_ne_nil _ _, ⟨behind, closesAt_cons_iff.2 ⟨rfl, hc, hb⟩⟩, ?_⟩
      intro columns' behind' h'
      cases columns' with
      | nil => exact Nat.zero_le _
      | cons d columns' =>
        obtain ⟨-, -, hs⟩ := closesAt_cons_iff.1 h'
        obtain ⟨list', hl', hlen⟩ := exists_longest? hs
        rw [Option.some.inj (hl.symm.trans hl')]
        exact Nat.succ_le_succ hlen

/-- The column list closes, and no keyword that could close it stands further behind. -/
theorem columnList?_spec {lists columns : List Char} (h : columnList? lists = some columns) :
    ∃ behind, ClosesAt lists columns behind ∧
      ∀ columns' behind', ClosesAt lists columns' behind' → behind.length ≤ behind'.length := by
  obtain ⟨-, ⟨behind, hb⟩, hlongest⟩ := columnList?_longest h
  exact ⟨behind, hb, fun _ _ h' => length_behind_le hb h' (hlongest _ _ h')⟩

/-- Where a list that is not empty could close, the search finds one. -/
theorem exists_columnList? {lists columns behind : List Char} (hne : columns ≠ [])
    (h : ClosesAt lists columns behind) : ∃ list, columnList? lists = some list := by
  obtain ⟨d, columns, rfl⟩ := List.exists_cons_of_ne_nil hne
  cases lists with
  | nil =>
    obtain ⟨-, r, hs, -⟩ := closesAt_iff.1 h
    exact absurd hs (by simp)
  | cons c s =>
    obtain ⟨rfl, hline, hs⟩ := closesAt_cons_iff.1 h
    obtain ⟨list, hl, -⟩ := exists_longest? hs
    exact ⟨c :: list, by rw [columnList?, if_neg hline, hl, Option.map_some]⟩

/-! ### The value list -/

/-- The text is, but for blanks before it, a list in parentheses: not empty, on one line. -/
def IsList (s values : List Char) : Prop :=
  values ≠ [] ∧ '\n' ∉ values ∧ ∃ blanks, s = blanks ++ '(' :: (values ++ [')']) ∧
    ∀ c ∈ blanks, isBlank c = true

theorem onOneLine_iff {s : List Char} : onOneLine s = true ↔ '\n' ∉ s := by
  simp [onOneLine]

theorem lastList?_eq_some_iff {s values : List Char} :
    lastList? s = some values ↔ IsList s values := by
  constructor
  · intro h
    rw [lastList?] at h
    split at h
    · exact absurd h (by simp)
    · next c t ht =>
      simp only [Option.ite_none_right_eq_some, Option.some.injEq, Bool.and_eq_true, beq_iff_eq,
        Bool.not_eq_true', List.isEmpty_eq_false_iff, onOneLine_iff] at h
      obtain ⟨⟨⟨⟨rfl, hlast⟩, hne⟩, hl⟩, rfl⟩ := h
      refine ⟨hne, hl, s.takeWhile isBlank, ?_, ?_⟩
      · rw [List.dropLast_append_getLast? _ hlast, ← ht]
        exact List.takeWhile_append_dropWhile.symm
      · exact fun c hc => List.all_eq_true.1 List.all_takeWhile c hc
  · intro h
    obtain ⟨hne, hl, blanks, rfl, hb⟩ := h
    have hne' : values.isEmpty = false := List.isEmpty_eq_false_iff.2 hne
    rw [lastList?, trimStart_append hb, trimStart_cons_of_not_blank (by decide)]
    simp only [List.dropLast_concat, List.getLast?_concat, hne', onOneLine_iff.2 hl,
      beq_self_eq_true, Bool.not_false, Bool.and_self, if_true]

theorem atBoundary_of_isList {s values : List Char} (h : IsList s values) :
    atBoundary s = true := by
  obtain ⟨-, -, blanks, rfl, hb⟩ := h
  cases blanks with
  | nil => rfl
  | cons c blanks =>
    rw [List.cons_append, atBoundary, isWordChar_of_isBlank (hb c List.mem_cons_self),
      Bool.not_false]

/-- The value list may open here: behind the whole keyword nothing stands but the list. -/
def OpensAt (target behind values : List Char) : Prop :=
  ∃ before word, target = before ++ (word ++ behind) ∧ word.map foldCase = "values".toList ∧
    (∀ c, before.getLast? = some c → isWordChar c = false) ∧ IsList behind values

theorem inWordBehind_eq_false_iff {before : List Char} :
    inWordBehind false before = false ↔ ∀ c, before.getLast? = some c → isWordChar c = false := by
  cases before using List.reverseRecOn with
  | nil => simp [inWordBehind]
  | append_singleton before c =>
    rw [inWordBehind_append_singleton, List.getLast?_concat]
    simp

/-- Where the value list could open, the search finds one, and passes over no place before it. -/
theorem exists_findWord?_of_opensAt {before word behind values : List Char}
    (hw : word.map foldCase = "values".toList)
    (hin : ∀ c, before.getLast? = some c → isWordChar c = false) (hl : IsList behind values) :
    ∃ before' values', findWord? "values".toList lastList? false (before ++ (word ++ behind)) =
      some (before', values') ∧ before'.length ≤ before.length :=
  exists_findWord? (by decide)
    (stripWord?_eq_some_iff.2 ⟨strip?_append hw behind, atBoundary_of_isList hl⟩)
    (lastList?_eq_some_iff.2 hl) (inWordBehind_eq_false_iff.2 hin)

theorem exists_valueList? {target behind values : List Char} (h : OpensAt target behind values) :
    ∃ list, valueList? target = some list := by
  obtain ⟨before, word, rfl, hw, hin, hl⟩ := h
  obtain ⟨before', list, hf, -⟩ := exists_findWord?_of_opensAt hw hin hl
  exact ⟨list, by rw [valueList?, hf, Option.map_some]⟩

/-- The value list opens, and no keyword that could open it stands further in front. -/
theorem valueList?_spec {target values : List Char} (h : valueList? target = some values) :
    ∃ behind, OpensAt target behind values ∧
      ∀ values' behind', OpensAt target behind' values' → behind'.length ≤ behind.length := by
  obtain ⟨⟨before, a⟩, hf, rfl⟩ := Option.map_eq_some_iff.1 h
  obtain ⟨t, behind, hs, hin, hr, ha⟩ := findWord?_spec hf
  obtain ⟨hstrip, -⟩ := stripWord?_eq_some_iff.1 hr
  obtain ⟨word, hw, rfl⟩ := strip?_eq_some_iff.1 hstrip
  refine ⟨behind, ⟨before, word, hs, hw, inWordBehind_eq_false_iff.1 hin,
    lastList?_eq_some_iff.1 ha⟩, ?_⟩
  intro values' behind' h'
  obtain ⟨before', word', hs', hw', hin', hl'⟩ := h'
  obtain ⟨before'', a'', hf', hlen⟩ := exists_findWord?_of_opensAt hw' hin' hl'
  rw [← hs', hf] at hf'
  obtain ⟨rfl, rfl⟩ := Prod.mk.inj (Option.some.inj hf')
  have hword : word.length = word'.length := by
    rw [← List.length_map foldCase, hw, ← hw', List.length_map]
  have htarget := congrArg List.length (hs.symm.trans hs')
  simp only [List.length_append] at htarget
  omega

/-! ### Both lists -/

theorem exists_closesAt_of_closes {s : List Char} (h : closes s = true) :
    ∃ columns behind values, ClosesAt s columns behind ∧ IsList behind values := by
  induction s with
  | nil => exact absurd h Bool.false_ne_true
  | cons c s ih =>
    rw [closes, Bool.or_eq_true, Bool.and_eq_true, Bool.and_eq_true, beq_iff_eq, bne_iff_ne] at h
    rcases h with ⟨rfl, h⟩ | ⟨hc, h⟩
    · obtain ⟨values, hv⟩ := Option.isSome_iff_exists.1 h
      obtain ⟨behind, hb, hl⟩ := Option.bind_eq_some_iff.1 hv
      exact ⟨[], behind, values, closesAt_nil_iff.2 ⟨rfl, hb⟩, lastList?_eq_some_iff.1 hl⟩
    · obtain ⟨columns, behind, values, hs, hl⟩ := ih h
      exact ⟨c :: columns, behind, values, closesAt_cons_iff.2 ⟨rfl, hc, hs⟩, hl⟩

/-- The shape is that of a column list which is not empty, with the value list behind its
keyword. -/
theorem isShaped_iff {lists : List Char} : isShaped lists = true ↔
    ∃ columns behind values,
      columns ≠ [] ∧ ClosesAt lists columns behind ∧ IsList behind values := by
  constructor
  · intro h
    cases lists with
    | nil => exact absurd h Bool.false_ne_true
    | cons c s =>
      rw [isShaped, Bool.and_eq_true, bne_iff_ne] at h
      obtain ⟨columns, behind, values, hc, hl⟩ := exists_closesAt_of_closes h.2
      exact ⟨c :: columns, behind, values, List.cons_ne_nil _ _,
        closesAt_cons_iff.2 ⟨rfl, h.1, hc⟩, hl⟩
  · intro h
    obtain ⟨columns, behind, values, hne, hc, hl⟩ := h
    obtain ⟨d, columns, rfl⟩ := List.exists_cons_of_ne_nil hne
    cases lists with
    | nil =>
      obtain ⟨-, r, hs, -⟩ := closesAt_iff.1 hc
      exact absurd hs (by simp)
    | cons c s =>
      obtain ⟨rfl, hline, hs⟩ := closesAt_cons_iff.1 hc
      obtain ⟨hcolumns, r, rfl, hr⟩ := closesAt_iff.1 hs
      rw [isShaped, bne_iff_ne.2 hline, Bool.true_and]
      apply closes_append hcolumns
      rw [hr, Option.bind_some, lastList?_eq_some_iff.2 hl, Option.isSome_some]

/-- A keyword that closes the column list opens the value list where nothing but that follows. -/
theorem opensAt_of_closesAt {lists columns behind values : List Char}
    (hc : ClosesAt lists columns behind) (hl : IsList behind values) (table : List Char) :
    OpensAt (table ++ '(' :: lists) behind values := by
  obtain ⟨-, blanks, word, rfl, hb, hw, -⟩ := hc
  refine ⟨table ++ '(' :: columns ++ ')' :: blanks, word, ?_, hw, ?_, hl⟩
  · simp only [List.append_assoc, List.cons_append]
  · intro c h
    rw [List.getLast?_append_of_ne_nil _ (List.cons_ne_nil _ _)] at h
    rcases List.mem_cons.1 (List.mem_of_getLast? h) with rfl | h
    · decide
    · exact isWordChar_of_isBlank (hb c h)

end Insertion
end TableShell
