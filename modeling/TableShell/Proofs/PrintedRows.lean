import TableShell.Proofs.DisplayedValues
import TableShell.Proofs.Framing

/-
Printed rows read back.

A printed cell says where it ends: a text at its second quote, if it has none of its own, anything
else at the comma behind it. So the cells of a line can be told apart, whatever commas, digits or
blanks are in the texts, and the lines can be told apart where no text has a line feed. Rows of one
schema that are printed alike are the same rows.
-/
namespace TableShell

open Text

/-- Two beginnings without commas that end at a comma, or with the text, are the same. -/
theorem Text.Fields.append_injective {a b r r' : List Char} (ha : ∀ c ∈ a, isComma c = false)
    (hb : ∀ c ∈ b, isComma c = false) (hr : atEnd r) (hr' : atEnd r') (h : a ++ r = b ++ r') :
    a = b ∧ r = r' := by
  have htake : ∀ {t s : List Char}, (∀ c ∈ t, isComma c = false) → atEnd s →
      (t ++ s).takeWhile (!isComma ·) = t := by
    intro t s ht hs
    rw [List.takeWhile_append_of_pos fun c hc => by rw [ht c hc, Bool.not_false],
      takeWhile_of_atEnd hs, List.append_nil]
  have hab : a = b := by rw [← htake ha hr, h, htake hb hr']
  rw [hab] at h
  exact ⟨hab, List.append_cancel_left h⟩

namespace Value

/-- The value is no text with a quote in it. -/
def Unquoted : Value → Prop
  | text s => Fields.quoteChar ∉ s.toList
  | _ => True

instance : DecidablePred Unquoted
  | text s => inferInstanceAs (Decidable (Fields.quoteChar ∉ s.toList))
  | null | int _ => isTrue trivial

/-- The value is printed as it is displayed. -/
def IsBare : Value → Prop
  | text _ => False
  | _ => True

theorem isBare_or_text (v : Value) : v.IsBare ∨ ∃ s, v = text s := by
  cases v with
  | text s => exact Or.inr ⟨s, rfl⟩
  | _ => exact Or.inl trivial

theorem IsBare.plain {v : Value} (h : v.IsBare) :
    ∀ c ∈ v.display.toList, c ≠ Fields.quoteChar ∧ Fields.isComma c = false := by
  cases v with
  | null =>
    have hname : Name.isValid null.display = true := by decide
    exact fun c hc => (Fields.plain_of_isNameChar ((Name.isValid_iff.1 hname).2 c hc)).2
  | int n =>
    rw [display, String.toList_ofList]
    exact fun c hc => (Fields.plain_of_mem_write hc).2
  | text s => exact h.elim

theorem IsBare.display_ne_nil {v : Value} (h : v.IsBare) : v.display.toList ≠ [] := by
  cases v with
  | null => decide
  | int n =>
    rw [display, String.toList_ofList]
    exact Numeral.Integer.write_ne_nil n.toInt
  | text s => exact h.elim

theorem display_int_ne_null (n : Int64) : (int n).display ≠ null.display := by
  intro h
  have hm : 'N' ∈ (int n).display.toList := by
    rw [h]
    decide
  rw [display, String.toList_ofList] at hm
  rcases Numeral.Integer.mem_write hm with hc | hc <;> exact absurd hc (by decide)

theorem IsBare.display_injective {v w : Value} (hv : v.IsBare) (hw : w.IsBare)
    (h : v.display = w.display) : v = w := by
  cases v with
  | null =>
    cases w with
    | null => rfl
    | int m => exact absurd h.symm (display_int_ne_null m)
    | text s => exact hw.elim
  | int n =>
    cases w with
    | null => exact absurd h (display_int_ne_null n)
    | int m =>
      have hn := readInt64?_display n
      rw [h, readInt64?_display m] at hn
      rw [Option.some.inj hn]
    | text s => exact hw.elim
  | text s => exact hv.elim

end Value

namespace Row

theorem printCell_of_isBare {v : Value} (h : v.IsBare) : printCell v = v.display := by
  cases v with
  | text s => exact h.elim
  | _ => rfl

theorem toList_printCell_text (s : String) :
    (printCell (.text s)).toList = Fields.quoteChar :: (s.toList ++ [Fields.quoteChar]) := by
  rw [printCell, String.toList_append, String.toList_append]
  rfl

/-- What is printed of a bare value is not what is printed of a text, whatever follows. -/
theorem printCell_append_ne {v : Value} (h : v.IsBare) (s : String) (r r' : List Char) :
    (printCell v).toList ++ r ≠ (printCell (.text s)).toList ++ r' := by
  obtain ⟨c, t, ht⟩ := List.exists_cons_of_ne_nil h.display_ne_nil
  rw [printCell_of_isBare h, toList_printCell_text, ht]
  intro he
  exact (h.plain c (ht ▸ List.mem_cons_self)).1 (List.cons.inj he).1

/-- A printed cell determines both the value and where it ends. -/
theorem printCell_append_injective {v w : Value} (hv : v.Unquoted) (hw : w.Unquoted)
    {r r' : List Char} (hr : Fields.atEnd r) (hr' : Fields.atEnd r')
    (h : (printCell v).toList ++ r = (printCell w).toList ++ r') : v = w ∧ r = r' := by
  rcases v.isBare_or_text with hbare | ⟨s, rfl⟩
  · rcases w.isBare_or_text with hbare' | ⟨s', rfl⟩
    · rw [printCell_of_isBare hbare, printCell_of_isBare hbare'] at h
      obtain ⟨hdisplay, hrest⟩ := Fields.append_injective (fun c hc => (hbare.plain c hc).2)
        (fun c hc => (hbare'.plain c hc).2) hr hr' h
      exact ⟨hbare.display_injective hbare' (String.toList_inj.1 hdisplay), hrest⟩
    · exact absurd h (printCell_append_ne hbare s' r r')
  · rcases w.isBare_or_text with hbare' | ⟨s', rfl⟩
    · exact absurd h.symm (printCell_append_ne hbare' s r' r)
    · rw [toList_printCell_text, toList_printCell_text, List.cons_append, List.cons_append,
        List.append_assoc, List.append_assoc] at h
      obtain ⟨htext, hrest⟩ := append_cons_injective hv hw (List.cons.inj h).2
      exact ⟨congrArg Value.text (String.toList_inj.1 htext), hrest⟩

/-- The cells of a line are told apart, from the first on. -/
theorem printCells_injective {vs ws : List Value} (hv : ∀ v ∈ vs, v.Unquoted)
    (hw : ∀ w ∈ ws, w.Unquoted) (hlength : vs.length = ws.length)
    (h : [',', ' '].intercalate (vs.map fun v => (printCell v).toList) =
      [',', ' '].intercalate (ws.map fun w => (printCell w).toList)) : vs = ws := by
  induction vs generalizing ws with
  | nil => exact (List.length_eq_zero_iff.1 hlength.symm).symm
  | cons v vs ih =>
    obtain ⟨w, ws, rfl⟩ := List.exists_cons_of_length_eq_add_one hlength.symm
    rw [List.forall_mem_cons] at hv hw
    rw [List.length_cons, List.length_cons, Nat.add_right_cancel_iff] at hlength
    cases vs with
    | nil =>
      obtain rfl := List.length_eq_zero_iff.1 hlength.symm
      simp only [List.map_cons, List.map_nil, List.intercalate_singleton] at h
      have hcell := printCell_append_injective hv.1 hw.1 Fields.atEnd_nil Fields.atEnd_nil
        (congrArg (· ++ []) h)
      rw [hcell.1]
    | cons v' vs =>
      obtain ⟨w', ws, rfl⟩ := List.exists_cons_of_length_eq_add_one hlength.symm
      simp only [List.map_cons, List.intercalate_cons_cons, List.append_assoc] at h
      obtain ⟨rfl, hrest⟩ := printCell_append_injective hv.1 hw.1 (Fields.atEnd_comma _)
        (Fields.atEnd_comma _) h
      rw [ih hv.2 hw.2 hlength (by simpa using hrest)]

/-- The row has a cell under each column of the schema, and none is a text with a quote or a line
feed in it. -/
structure PlainOver (row : Row) (schema : Schema) : Prop where
  keys_eq : row.keys = schema.map Attribute.name
  unquoted : ∀ e ∈ row.entries, e.2.Unquoted
  oneLine : ∀ e ∈ row.entries, e.2.OneLine

instance (row : Row) (schema : Schema) : Decidable (row.PlainOver schema) :=
  decidable_of_iff (row.keys = schema.map Attribute.name ∧
      (∀ e ∈ row.entries, e.2.Unquoted) ∧ ∀ e ∈ row.entries, e.2.OneLine)
    ⟨fun h => ⟨h.1, h.2.1, h.2.2⟩, fun h => ⟨h.keys_eq, h.unquoted, h.oneLine⟩⟩

theorem eq_of_print_eq {schema : Schema} {row row' : Row} (h : row.PlainOver schema)
    (h' : row'.PlainOver schema) (hprint : row.print = row'.print) : row = row' := by
  have hkeys : row.keys = row'.keys := h.keys_eq.trans h'.keys_eq.symm
  have hlength : row.values.length = row'.values.length := by
    have := congrArg List.length hkeys
    simpa [OrderedMap.keys, OrderedMap.values] using this
  have hvalues : row.values = row'.values := by
    refine printCells_injective (List.forall_mem_map.2 h.unquoted)
      (List.forall_mem_map.2 h'.unquoted) hlength ?_
    have htext := congrArg String.toList hprint
    rw [print, print, String.toList_intercalate, String.toList_intercalate, List.map_map,
      List.map_map] at htext
    exact htext
  apply OrderedMap.ext
  calc row.entries = row.keys.zip row.values := List.zip_of_prod rfl rfl
    _ = row'.keys.zip row'.values := by rw [hkeys, hvalues]
    _ = row'.entries := (List.zip_of_prod rfl rfl).symm

theorem eq_of_map_print_eq {schema : Schema} {rows rows' : List Row}
    (h : ∀ row ∈ rows, row.PlainOver schema) (h' : ∀ row ∈ rows', row.PlainOver schema)
    (hprint : rows.map print = rows'.map print) : rows = rows' := by
  induction rows generalizing rows' with
  | nil => exact (List.map_eq_nil_iff.1 hprint.symm).symm
  | cons row rows ih =>
    obtain ⟨row', rows', rfl, hrow, hrows⟩ := List.map_eq_cons_iff.1 hprint.symm
    rw [List.forall_mem_cons] at h h'
    rw [eq_of_print_eq h.1 h'.1 hrow.symm, ih h.2 h'.2 hrows.symm]

end Row

namespace Table

variable {table : Table}

theorem splitOn_printAll_of_plain (h : table.WellFormed) {rows : List Row}
    (hrows : ∀ row ∈ rows, row.PlainOver table.schema) :
    (Row.printAll rows).toList.splitOn '\n' = (Row.lines rows).map String.toList ∧
      (Row.printAll rows).toList.count '\n' = rows.length :=
  Row.splitOn_printAll (newline_not_mem_lines_of_keys h (fun row hr => (hrows row hr).keys_eq)
    fun row hr => (hrows row hr).oneLine)

/-- Rows over the schema of a table are told by what is printed of them, and only where there are
none it is said that there are none. -/
theorem printAll_eq_iff (h : table.Built) {rows rows' : List Row}
    (hrows : ∀ row ∈ rows, row.PlainOver table.schema)
    (hrows' : ∀ row ∈ rows', row.PlainOver table.schema) :
    (Row.printAll rows = Row.printAll rows' ↔ rows = rows') ∧
      (Row.printAll rows = "No rows" ↔ rows = []) := by
  obtain ⟨hlines, hcount⟩ := splitOn_printAll_of_plain h.wellFormed hrows
  obtain ⟨hlines', hcount'⟩ := splitOn_printAll_of_plain h.wellFormed hrows'
  refine ⟨⟨fun heq => ?_, fun heq => by rw [heq]⟩, fun heq => ?_, fun heq => by rw [heq]; rfl⟩
  · rw [heq, hlines'] at hlines
    have hsame : Row.lines rows' = Row.lines rows :=
      List.map_injective_iff.2 (fun _ _ => String.toList_inj.1) hlines
    rw [heq, hcount'] at hcount
    cases rows with
    | nil => exact (List.length_eq_zero_iff.1 hcount).symm
    | cons row rows =>
      obtain ⟨row', rows', rfl⟩ := List.exists_cons_of_length_eq_add_one hcount
      exact Row.eq_of_map_print_eq hrows hrows' (List.cons.inj hsame).2.symm
  · rw [heq] at hcount
    exact List.length_eq_zero_iff.1 (hcount.symm.trans (by decide))

/-- A null and the word for it, a comma and a digit in a text, and the words for no rows. -/
theorem printAll_eq_iff_similar :
    ∃ table, create "t" [("a", "int"), ("b", "varchar")] = .ok table ∧
      let row : Row := .ofList [("a", .int 1), ("b", .text ", 2")]
      let row' : Row := .ofList [("a", .null), ("b", .text "NULL")]
      let row'' : Row := .ofList [("a", .null), ("b", .null)]
      Row.printAll [row, row'] ≠ Row.printAll [row, row''] ∧
        Row.printAll [row, row'] ≠ "No rows" := by
  have hcreate : create "t" [("a", "int"), ("b", "varchar")] = .ok _ := rfl
  refine ⟨_, hcreate, ?_⟩
  intro row row' row''
  have hplain : ∀ r ∈ [row, row'], r.PlainOver [⟨"a", .int⟩, ⟨"b", .varchar⟩] := by decide
  have hplain' : ∀ r ∈ [row, row''], r.PlainOver [⟨"a", .int⟩, ⟨"b", .varchar⟩] := by decide
  obtain ⟨hsame, hnone⟩ := printAll_eq_iff (.create hcreate) hplain hplain'
  exact ⟨mt hsame.1 (by decide), mt hnone.1 (by decide)⟩

end Table
end TableShell
