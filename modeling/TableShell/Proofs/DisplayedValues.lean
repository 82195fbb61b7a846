import TableShell.Proofs.InsertionLayout
import TableShell.Proofs.WellFormed

/-
Values by the texts they are displayed as.

An integer is displayed in decimal and a text as it stands, so a value is read back from its display
and, among the values of its type, is the only one that its display meets. A selection by a
displayed value is therefore one by the value: it returns the rows that have it, and no null.
-/
namespace TableShell

open Text

theorem Text.Fields.plain_of_mem_write {n : Int} {c : Char} (h : c ∈ Numeral.Integer.write n) :
    isBlank c = false ∧ c ≠ quoteChar ∧ isComma c = false := by
  rcases Numeral.Integer.mem_write h with rfl | hd
  · decide
  · have hname : Name.isNameChar c = true := by
      rw [Name.isNameChar, Char.isAlphanum, hd, Bool.or_true, Bool.true_or]
    exact plain_of_isNameChar hname

namespace Value

theorem readInt64?_display (n : Int64) :
    Numeral.Integer.readInt64? (trim (int n).display.toList) = some n := by
  have htrim : trim (Numeral.Integer.write n.toInt) = Numeral.Integer.write n.toInt := by
    apply trim_eq_self
    exact trimmed_of_forall fun c hc => (Fields.plain_of_mem_write hc).1
  rw [display, String.toList_ofList, htrim, Numeral.Integer.readInt64?,
    Numeral.Integer.read?_write, Option.bind_some, Numeral.Integer.toInt64?_toInt]

/-- A number in decimal is stored as the number in an integer column. -/
theorem coerce_display (n : Int64) : (text (int n).display).coerce .int = int n := by
  rw [coerce, readInt64]
  simp only [readInt64?_display]

/-- Among null and the values of one type, a displayed value meets itself alone. -/
theorem looselyEquals_display_iff {v w : Value} {t : DataType} (hv : v.type? = some t)
    (hw : w.HasType t) : w.looselyEquals v.display = true ↔ w = v := by
  rcases hw with rfl | hw
  · have hne : null ≠ v := by
      rintro rfl
      exact absurd hv (by simp [type?])
    simp [looselyEquals, hne]
  · have htype : w.type? = v.type? := hw.trans hv.symm
    cases v with
    | null => exact absurd hv (by simp [type?])
    | int n =>
      cases w with
      | int m =>
        rw [looselyEquals, equalsNumeral]
        simp only [readInt64?_display]
        rw [beq_iff_eq, int.injEq, eq_comm]
      | _ => exact absurd htype (by simp [type?])
    | text s =>
      cases w with
      | text s' => rw [looselyEquals, display, beq_iff_eq, text.injEq]
      | _ => exact absurd htype (by simp [type?])

end Value

namespace Row

variable {row : Row} {schema : Schema}

/-- The row has a cell under each attribute, and the cell is null or of the type. -/
theorem exists_cell_of_fits (h : row.Fits schema) {a : Attribute} (ha : a ∈ schema) :
    ∃ v, row.get? a.name = some v ∧ v.HasType a.type := by
  obtain ⟨⟨column, v⟩, he, rfl, hv⟩ := exists_mem_of_forall₂ h ha
  exact ⟨v, OrderedMap.get?_eq_some_iff.2 he, hv⟩

theorem exists_attribute_of_fits (h : row.Fits schema) {column : String} {v : Value}
    (hv : row.get? column = some v) : ∃ type, ⟨column, type⟩ ∈ schema ∧ v.HasType type := by
  obtain ⟨⟨name, type⟩, ha, rfl, htype⟩ :=
    exists_mem_of_forall₂ h.flip (OrderedMap.get?_eq_some_iff.1 hv)
  exact ⟨type, ha, htype⟩

/-- A row is kept by a displayed value exactly where it has the value. -/
theorem keeps_display_iff (h : row.Fits schema) {column : String} {type : DataType}
    (hc : ⟨column, type⟩ ∈ schema) {v : Value} (hv : v.type? = some type) :
    Condition.keeps ⟨column, v.display⟩ row.entries = true ↔ row.get? column = some v := by
  obtain ⟨w, hw, htype⟩ := exists_cell_of_fits h hc
  have hlookup : row.entries.lookup column = some w := hw
  rw [Condition.keeps, hlookup, Option.any_some, Value.looselyEquals_display_iff hv htype, hw,
    Option.some.injEq]

end Row

namespace Table

variable {table : Table}

/-- A selection keeps rows of the whole table, in their order. -/
theorem select_some (h : table.WellFormed) (condition : Condition) :
    table.select (some condition) =
      (table.select none).filter fun row => condition.keeps row.entries := by
  have hinj : Function.Injective (List.map OrderedMap.entries : List Row → List Record) :=
    List.map_injective_iff.2 fun _ _ => OrderedMap.ext
  apply hinj
  rw [entries_select h, ← entries_select_none h, List.filter_map]
  rfl

/-- Selecting by a displayed value is selecting by the value. -/
theorem select_display_eq_filter (h : table.Built) :
    (∀ column type value, ⟨column, type⟩ ∈ table.schema → value.type? = some type →
      table.select (some ⟨column, value.display⟩) =
        (table.select none).filter fun row => row.get? column = some value) ∧
    ∀ row ∈ table.select none, ∀ column value, row.get? column = some value → value ≠ .null →
      row ∈ table.select (some ⟨column, value.display⟩) := by
  have hw := h.wellFormed
  have hfits : ∀ row ∈ table.select none, row.Fits table.schema := fun row hr =>
    fits_of_mem_select hw hr
  refine ⟨fun column type value hc hv => ?_, fun row hr column value hcell hne => ?_⟩
  · rw [select_some hw]
    apply List.filter_congr
    intro row hr
    rw [Bool.eq_iff_iff, decide_eq_true_iff]
    exact Row.keeps_display_iff (hfits row hr) hc hv
  · obtain ⟨type, hc, htype⟩ := Row.exists_attribute_of_fits (hfits row hr) hcell
    rw [select_some hw, List.mem_filter]
    exact ⟨hr, (Row.keeps_display_iff (hfits row hr) hc (htype.resolve_left hne)).2 hcell⟩

/-- The values that stand for null in the vectors, and the least number. -/
theorem select_display_eq_filter_placeholders :
    ∃ table, create "t" [("n", "int"), ("s", "varchar")] = .ok table ∧
      let grown := table.insertAll [.ofList [("n", .int 0)], .ofList [("s", .text "")],
        .ofList [("n", .int Int64.minValue), ("s", .text "0")]]
      (grown.select (some ⟨"n", (Value.int 0).display⟩)).map OrderedMap.entries =
          [[("n", .int 0), ("s", .null)]] ∧
        (grown.select (some ⟨"s", (Value.text "").display⟩)).map OrderedMap.entries =
          [[("n", .null), ("s", .text "")]] ∧
        ∀ row ∈ grown.select none, row.get? "n" = some (.int Int64.minValue) →
          row ∈ grown.select (some ⟨"n", (Value.int Int64.minValue).display⟩) := by
  have hcreate : create "t" [("n", "int"), ("s", "varchar")] = .ok _ := rfl
  refine ⟨_, hcreate, ?_⟩
  intro grown
  have hbuilt : grown.Built := .insert (.insert (.insert (.create hcreate) _) _) _
  obtain ⟨hselect, hfound⟩ := select_display_eq_filter hbuilt
  refine ⟨?_, ?_, fun row hr hcell => hfound row hr "n" _ hcell (by decide)⟩
  · rw [hselect "n" .int (.int 0) (by decide) rfl]
    decide +kernel
  · rw [hselect "s" .varchar (.text "") (by decide) rfl]
    decide +kernel

end Table
end TableShell
