import TableShell.Proofs.Entries
import TableShell.Proofs.ListMarks

/-
The layout of a written insertion, and what reading makes of it.

An insertion is laid out with the names of its columns between the first two parentheses and some
text for its values between the last two. The searches that reading consists of are followed over
this layout once, whatever the text for the values is; what they find depends on it only in one
point, which is whether the column list could run on into it.
-/
namespace TableShell

namespace Text

theorem intercalate_ne_nil {sep : List Char} {ts : List (List Char)} (hne : ts ≠ [])
    (ht : ∀ t ∈ ts, t ≠ []) : sep.intercalate ts ≠ [] := by
  obtain ⟨t, ts, rfl⟩ := List.exists_cons_of_ne_nil hne
  have ht' := ht t List.mem_cons_self
  cases ts with
  | nil => rwa [List.intercalate_singleton]
  | cons t' ts => simp [List.intercalate_cons_cons, ht']

namespace Fields

theorem plain_of_isNameChar {c : Char} (h : Name.isNameChar c = true) :
    isBlank c = false ∧ c ≠ quoteChar ∧ isComma c = false :=
  ⟨Name.isBlank_of_isNameChar h, Name.ne_of_isNameChar h (by decide),
    beq_eq_false_iff_ne.2 (Name.ne_of_isNameChar h (by decide))⟩

theorem isRead_name {n : String} (h : Name.isValid n = true) : IsRead n.toList n.toList := by
  obtain ⟨hne, hn⟩ := Name.isValid_iff.1 h
  exact isRead_plain hne fun c hc => plain_of_isNameChar (hn c hc)

/-- A name opens with no blank and no quote, and has no comma. -/
theorem exists_bare {n : String} (h : Name.isValid n = true) : ∃ c s, n.toList = c :: s ∧
    isBlank c = false ∧ c ≠ quoteChar ∧ ∀ d ∈ c :: s, isComma d = false := by
  obtain ⟨hne, hn⟩ := Name.isValid_iff.1 h
  obtain ⟨c, s, hs⟩ := List.exists_cons_of_ne_nil hne
  rw [hs] at hn
  obtain ⟨hb, hq, -⟩ := plain_of_isNameChar (hn c List.mem_cons_self)
  exact ⟨c, s, hs, hb, hq, fun d hd => (plain_of_isNameChar (hn d hd)).2.2⟩

end Fields
end Text

namespace Insertion

open Text

/-! ### The searches -/

theorem lastList?_of_ne {c : Char} (hb : isBlank c = false) (hc : c ≠ '(') (s : List Char) :
    lastList? (c :: s) = none := by
  rw [lastList?, trimStart_cons_of_not_blank hb]
  simp only [beq_eq_false_iff_ne.2 hc, Bool.false_and, Bool.false_eq_true, if_false]

theorem lastList?_eq {list : List Char} (hne : list ≠ []) (hl : '\n' ∉ list) :
    lastList? (' ' :: '(' :: (list ++ [')'])) = some list := by
  rw [lastList?, trimStart_cons_of_blank rfl, trimStart_cons_of_not_blank rfl]
  have hl' : onOneLine list = true := by
    simpa [onOneLine] using hl
  simp [hne, hl']

theorem behindValues?_eq {s : List Char} (hs : atBoundary s = true) :
    behindValues? (' ' :: ("values".toList ++ s)) = some s := by
  have hk : "values".toList.map foldCase = "values".toList := by decide
  rw [behindValues?, trimStart_cons_of_blank rfl,
    trimStart_keyword (by decide) isWordChar_of_mem_values hk,
    stripWord?_eq_some_iff.2 ⟨strip?_append hk s, hs⟩]

/-- The search for the value list passes over a name, unless it is the keyword and opens one. -/
theorem valueList?_name {n : List Char} (hn : ∀ c ∈ n, isWordChar c = true) {c : Char}
    (hc : isWordChar c = false) {s : List Char}
    (h : n.map foldCase = "values".toList → lastList? (c :: s) = none) :
    valueList? (n ++ c :: s) = valueList? s := by
  rw [valueList?, findWord?_name (by decide) isWordChar_of_mem_values hn hc h, Option.map_map,
    valueList?]
  rfl

theorem valueList?_cons {c : Char} (hc : isWordChar c = false) (s : List Char) :
    valueList? (c :: s) = valueList? s :=
  valueList?_name (n := []) (by simp) hc fun h => absurd h (by decide)

theorem valueList?_names {names : List String} (hne : names ≠ [])
    (hn : ∀ n ∈ names, Name.isValid n = true) (s : List Char) :
    valueList? ([',', ' '].intercalate (names.map String.toList) ++ ')' :: s) = valueList? s := by
  induction names with
  | nil => exact absurd rfl hne
  | cons n names ih =>
    have hv : ∀ c ∈ n.toList, isWordChar c = true := fun c hc =>
      Name.isWordChar_of_isNameChar ((Name.isValid_iff.1 (hn n List.mem_cons_self)).2 c hc)
    cases names with
    | nil =>
      simp only [List.map_cons, List.map_nil, List.intercalate_singleton]
      exact valueList?_name hv (by decide) fun _ => lastList?_of_ne (by decide) (by decide) s
    | cons n' names =>
      have := ih (List.cons_ne_nil _ _) fun u hu => hn u (List.mem_cons_of_mem _ hu)
      simp only [List.map_cons] at this ⊢
      rw [List.intercalate_cons_cons, List.append_assoc, List.append_assoc, List.cons_append,
        List.singleton_append,
        valueList?_name hv (by decide) fun _ => lastList?_of_ne (by decide) (by decide) _,
        valueList?_cons (by decide), this]

/-! ### The layout -/

/-- Names as a list of fields. -/
def nameList (names : List String) : List Char :=
  [',', ' '].intercalate (names.map String.toList)

/-- What stands behind the parenthesis that closes the column list. -/
def behindColumns (values : List Char) : List Char :=
  ' ' :: ("values".toList ++ ' ' :: '(' :: (values ++ [')']))

def layout (table : String) (columns : List String) (values : List Char) : List Char :=
  "insert".toList ++ ' ' :: ("into".toList ++ ' ' ::
    (table.toList ++ ' ' :: '(' :: (nameList columns ++ ')' :: behindColumns values)))

theorem toList_layout (table : String) (columns values : List String) :
    ("insert into " ++ table ++ " (" ++ ", ".intercalate columns ++ ") values (" ++
      ", ".intercalate values ++ ")").toList =
        layout table columns ([',', ' '].intercalate (values.map String.toList)) := by
  have hinsert : "insert into ".toList = "insert".toList ++ ' ' :: ("into".toList ++ [' ']) := rfl
  have hvalues : ") values (".toList = ')' :: ' ' :: ("values".toList ++ [' ', '(']) := rfl
  have hopen : " (".toList = [' ', '('] := rfl
  have hcomma : ", ".toList = [',', ' '] := rfl
  have hclose : ")".toList = [')'] := rfl
  unfold layout nameList behindColumns
  simp only [String.toList_append, String.toList_intercalate, hinsert, hvalues, hopen, hcomma,
    hclose, List.append_assoc, List.cons_append, List.nil_append]

section Layout

variable {table : String} {columns : List String} {values : List Char}

theorem trim_layout (table : String) (columns : List String) (values : List Char) :
    trim (layout table columns values) = layout table columns values := by
  apply trim_eq_self
  constructor
  · intro d hd
    rw [← Option.some.inj hd]
    rfl
  · intro d hd
    unfold layout behindColumns at hd
    simp only [List.getLast?_append, List.getLast?_cons, Option.some_or,
      Option.getD_some, Option.some.injEq] at hd
    rw [← hd]
    rfl

theorem target?_layout (ht : Name.isValid table = true) :
    target? (layout table columns values) =
      some (table.toList ++ ' ' :: '(' :: (nameList columns ++ ')' :: behindColumns values)) := by
  obtain ⟨c, n, hs, hc, -⟩ := Fields.exists_bare ht
  have hi : "insert".toList.map foldCase = "insert".toList := by decide
  have ho : "into".toList.map foldCase = "into".toList := by decide
  have hinto : ∀ r, trimStart ("into".toList ++ r) = "into".toList ++ r := fun r =>
    trimStart_cons_of_not_blank (by decide) _
  unfold layout
  rw [target?, strip?_append hi, Option.bind_some, skipBlanks?, if_pos (by decide),
    Option.bind_some, hinto, strip?_append ho, Option.bind_some, skipBlanks?, if_pos (by decide),
    hs, List.cons_append, trimStart_cons_of_not_blank hc]

theorem nameList_ne_nil (hne : columns ≠ []) (hc : ∀ n ∈ columns, Name.isValid n = true) :
    nameList columns ≠ [] := by
  refine intercalate_ne_nil (by simpa using hne) ?_
  intro t ht
  obtain ⟨n, hn, rfl⟩ := List.mem_map.1 ht
  exact (Name.isValid_iff.1 (hc n hn)).1

theorem not_mem_nameList (hc : ∀ n ∈ columns, Name.isValid n = true) : '\n' ∉ nameList columns := by
  apply not_mem_intercalate (by decide)
  intro t ht hm
  obtain ⟨n, hn, rfl⟩ := List.mem_map.1 ht
  exact Name.ne_of_isNameChar ((Name.isValid_iff.1 (hc n hn)).2 _ hm) (by decide) rfl

theorem exists_nameList (hne : columns ≠ []) (hc : ∀ n ∈ columns, Name.isValid n = true) :
    ∃ c s, nameList columns = c :: s ∧ c ≠ '\n' ∧ '\n' ∉ s := by
  obtain ⟨c, s, hs⟩ := List.exists_cons_of_ne_nil (nameList_ne_nil hne hc)
  have hnl := not_mem_nameList hc
  rw [hs, List.mem_cons, not_or] at hnl
  exact ⟨c, s, hs, Ne.symm hnl.1, hnl.2⟩

theorem split_nameList (hne : columns ≠ []) (hc : ∀ n ∈ columns, Name.isValid n = true) :
    (Fields.split (nameList columns)).map String.ofList = columns := by
  have hsplit := Fields.split_intercalate
    (l := columns.map fun n => (n.toList, n.toList)) (by simpa using hne) (by
      intro t ht
      obtain ⟨n, hn, rfl⟩ := List.mem_map.1 ht
      exact Fields.isRead_name (hc n hn))
  simp only [List.map_map, Function.comp_def] at hsplit
  simp only [nameList, hsplit, List.map_map, Function.comp_def, String.ofList_toList, List.map_id']

theorem not_mem_behindColumns (hl : '\n' ∉ values) : '\n' ∉ behindColumns values := by
  simp [behindColumns, hl]

/-- The layout is marked behind its column list exactly where the text for its values is. -/
theorem marked_behindColumns (values : List Char) :
    marked (behindColumns values) = marked (values ++ [')']) := by
  have hparen : ')' ∉ ' ' :: ("values".toList ++ [' ', '(']) := by decide
  have happ : behindColumns values =
      (' ' :: ("values".toList ++ [' ', '('])) ++ (values ++ [')']) := by
    rw [behindColumns, List.cons_append, List.append_assoc]
    rfl
  rw [happ, marked_append_of_not_mem hparen]

theorem columnList?_of_not_marked (hne : columns ≠ [])
    (hc : ∀ n ∈ columns, Name.isValid n = true) (hl : '\n' ∉ values)
    (hm : marked (values ++ [')']) = false) :
    columnList? (nameList columns ++ ')' :: behindColumns values) = some (nameList columns) := by
  rw [← marked_behindColumns] at hm
  obtain ⟨c, s, hs, hfirst, hnl⟩ := exists_nameList hne hc
  have hopens : (behindValues? (behindColumns values)).isSome = true := by
    rw [behindColumns, behindValues?_eq rfl, Option.isSome_some]
  have hlong : longest? (')' :: behindColumns values) = some [] := by
    rw [longest?, if_neg (by decide), (longest?_eq_none_iff (not_mem_behindColumns hl)).2 hm]
    exact if_pos ⟨rfl, hopens⟩
  rw [hs, List.cons_append, columnList?, if_neg hfirst, longest?_append hnl hlong,
    List.append_nil, Option.map_some]

theorem columnList?_of_marked (hne : columns ≠ []) (hc : ∀ n ∈ columns, Name.isValid n = true)
    (hl : '\n' ∉ values) (hm : marked (values ++ [')']) = true) :
    ∃ list, columnList? (nameList columns ++ ')' :: behindColumns values) =
      some (nameList columns ++ ')' :: list) := by
  rw [← marked_behindColumns] at hm
  obtain ⟨c, s, hs, hfirst, hnl⟩ := exists_nameList hne hc
  have hsome : longest? (behindColumns values) ≠ none := by
    rw [Ne, longest?_eq_none_iff (not_mem_behindColumns hl), hm]
    decide
  obtain ⟨list, hlist⟩ := Option.ne_none_iff_exists'.1 hsome
  refine ⟨list, ?_⟩
  have hlong : longest? (')' :: behindColumns values) = some (')' :: list) := by
    rw [longest?, if_neg (by decide), hlist]
  rw [hs, List.cons_append, columnList?, if_neg hfirst, longest?_append hnl hlong,
    Option.map_some, List.cons_append]

theorem isShaped_layout (hne : columns ≠ []) (hc : ∀ n ∈ columns, Name.isValid n = true)
    (hv : values ≠ []) (hl : '\n' ∉ values) :
    isShaped (nameList columns ++ ')' :: behindColumns values) = true := by
  obtain ⟨c, s, hs, hfirst, hnl⟩ := exists_nameList hne hc
  have hlast : ((behindValues? (behindColumns values)).bind lastList?).isSome = true := by
    rw [behindColumns, behindValues?_eq rfl, Option.bind_some, lastList?_eq hv hl,
      Option.isSome_some]
  rw [hs, List.cons_append, isShaped, closes_append hnl hlast, Bool.and_true,
    bne_iff_ne.2 hfirst]

/-- Up to the keyword nothing but names and separators stands, so the value list is that of the
layout whatever it holds. -/
theorem valueList?_layout (ht : Name.isValid table = true)
    (hk : isPhrase "values".toList table.toList = false) (hne : columns ≠ [])
    (hc : ∀ n ∈ columns, Name.isValid n = true) (hv : values ≠ []) (hl : '\n' ∉ values) :
    valueList? (table.toList ++ ' ' :: '(' :: (nameList columns ++ ')' :: behindColumns values)) =
      some values := by
  have hn := (Name.isValid_iff.1 ht).2
  rw [valueList?_name (fun c hc => Name.isWordChar_of_isNameChar (hn c hc)) (by decide)
      fun h => absurd h (Name.map_foldCase hn hk),
    valueList?_cons (by decide), nameList, valueList?_names hne hc, behindColumns,
    valueList?_cons (by decide), valueList?,
    findWord?_keyword (by decide) (by decide) rfl (lastList?_eq hv hl), Option.map_some]

theorem read_layout (ht : Name.isValid table = true)
    (hk : isPhrase "values".toList table.toList = false) (hne : columns ≠ [])
    (hc : ∀ n ∈ columns, Name.isValid n = true) (hv : values ≠ []) (hl : '\n' ∉ values)
    {statement : String} (hs : statement.toList = layout table columns values) {list : List Char}
    (h : columnList? (nameList columns ++ ')' :: behindColumns values) = some list) :
    read statement = pair table.toList list values := by
  obtain ⟨hn, hname⟩ := Name.isValid_iff.1 ht
  have hcut : cut? (· == '(') (table.toList ++ ' ' :: '(' ::
      (nameList columns ++ ')' :: behindColumns values)) =
        some (table.toList ++ [' '], nameList columns ++ ')' :: behindColumns values) := by
    have happ : table.toList ++ ' ' :: '(' :: (nameList columns ++ ')' :: behindColumns values) =
        (table.toList ++ [' ']) ++ '(' :: (nameList columns ++ ')' :: behindColumns values) := by
      rw [List.append_assoc, List.singleton_append]
    rw [happ]
    refine cut?_append ?_ rfl _
    intro c hc
    rcases List.mem_append.1 hc with hc | hc
    · exact beq_eq_false_iff_ne.2 (Name.ne_of_isNameChar (hname c hc) (by decide))
    · rw [List.mem_singleton.1 hc]
      decide
  have hline : onOneLine (table.toList ++ [' ']) = true := by
    have hnl : '\n' ∉ table.toList := fun hm =>
      Name.ne_of_isNameChar (hname _ hm) (by decide) rfl
    simpa [onOneLine] using hnl
  have htrim : trim (table.toList ++ [' ']) = table.toList :=
    trim_append_blank hn (Name.trimmed_of_isNameChar hname) (List.all_eq_true.1 rfl)
  have hempty : (table.toList ++ [' ']).isEmpty = false := by simp
  simp only [read, hs, trim_layout, target?_layout ht, hcut, hempty, hline,
    isShaped_layout hne hc hv hl, h, valueList?_layout ht hk hne hc hv hl, htrim, Bool.not_true,
    Bool.or_false, Bool.false_eq_true, if_false]

/-- Where the column list cannot run on, the columns are paired with the fields that the texts are
written for. -/
theorem read_texts {α : Type} {given : List α} {column : α → String} {text field : α → List Char}
    (ht : Name.isValid table = true) (hk : isPhrase "values".toList table.toList = false)
    (hne : given ≠ []) (hc : ∀ a ∈ given, Name.isValid (column a) = true)
    (hr : ∀ a ∈ given, Fields.IsRead (text a) (field a)) (hx : ∀ a ∈ given, text a ≠ [])
    (hl : ∀ a ∈ given, '\n' ∉ text a)
    (hm : marked ([',', ' '].intercalate (given.map text) ++ [')']) = false) {statement : String}
    (hs : statement.toList =
      layout table (given.map column) ([',', ' '].intercalate (given.map text))) :
    read statement =
      .ok ⟨table, .ofList (given.map fun a => (column a, .text (String.ofList (field a))))⟩ := by
  have hcolumns : given.map column ≠ [] := fun h => hne (List.map_eq_nil_iff.1 h)
  have hvalid : ∀ n ∈ given.map column, Name.isValid n = true := List.forall_mem_map.2 hc
  have hvalues : [',', ' '].intercalate (given.map text) ≠ [] :=
    intercalate_ne_nil (fun h => hne (List.map_eq_nil_iff.1 h)) (List.forall_mem_map.2 hx)
  have hlines : '\n' ∉ [',', ' '].intercalate (given.map text) :=
    not_mem_intercalate (by decide) (List.forall_mem_map.2 hl)
  have hsplit := Fields.split_intercalate (l := given.map fun a => (text a, field a))
    (fun h => hne (List.map_eq_nil_iff.1 h)) (List.forall_mem_map.2 hr)
  simp only [List.map_map, Function.comp_def] at hsplit
  rw [read_layout ht hk hcolumns hvalid hvalues hlines hs
    (columnList?_of_not_marked hcolumns hvalid hlines hm), pair]
  simp only [split_nameList hcolumns hvalid, hsplit, List.length_map, if_true,
    String.ofList_toList, List.map_map, Function.comp_def, List.zip_map']

end Layout

end Insertion
end TableShell
