import TableShell.Proofs.DefinitionLayout
import TableShell.Proofs.WellFormed

/-
Tables made anew from what can be read out of them.

A table is determined by its name, its schema and its records: what its vectors hold beside the
cells are placeholders, which stand under the nulls and nowhere else. A selected row is stored as it
is. So a table that is created from the declaration of another and takes the rows of the other is
the other.
-/
namespace TableShell

namespace Cells

theorem get?_eq_none {cells : Cells} {i : Nat} (h : cells.size ≤ i) : cells.get? i = none := by
  cases cells with
  | ints ws => rw [get?, Array.getElem?_eq_none h, Option.map_none]
  | texts ts => rw [get?, Array.getElem?_eq_none h, Option.map_none]

theorem ext_get? {cells cells' : Cells} {t : DataType} (h : cells.HasType t)
    (h' : cells'.HasType t) (hget : ∀ i, cells.get? i = cells'.get? i) : cells = cells' := by
  cases cells with
  | ints ws =>
    cases cells' with
    | ints ws' =>
      exact congrArg ints (Array.ext_getElem? fun i =>
        Option.map_injective (fun _ _ => Value.int.inj) (hget i))
    | texts ts => exact absurd (h.symm.trans h') (by decide)
  | texts ts =>
    cases cells' with
    | ints ws => exact absurd (h.symm.trans h') (by decide)
    | texts ts' =>
      exact congrArg texts (Array.ext_getElem? fun i =>
        Option.map_injective (fun _ _ => Value.text.inj) (hget i))

end Cells

namespace Column

variable {column column' : Column}

theorem get?_eq_none {i : Nat} (h : column.size ≤ i) : column.get? i = none := by
  rw [get?, Array.getElem?_eq_none h, Option.bind_none]

/-- The mark and the entry of the vector at a place, from the cell that they make up. -/
theorem parts_of_get? (h : column.WellFormed) (i : Nat) :
    column.nulls[i]? = (column.get? i).map Value.isNull ∧
      column.cells.get? i = (column.get? i).map fun v =>
        if v.isNull then Cells.placeholder column.type else v := by
  rcases Nat.lt_or_ge i column.size with hi | hi
  · have hnull : column.nulls[i]? = some column.nulls[i] := Array.getElem?_eq_getElem hi
    rw [get?, hnull, Option.bind_some]
    cases hmark : column.nulls[i] with
    | true =>
      rw [hmark] at hnull
      exact ⟨rfl, h.placeholder_eq i hnull⟩
    | false =>
      obtain ⟨v, hv⟩ := Option.isSome_iff_exists.1 (Cells.isSome_get? (h.size_eq ▸ hi))
      have hne : v.isNull = false := by
        have htype := Cells.type?_of_get? h.hasType hv
        cases v <;> simp_all [Value.isNull, Value.type?]
      rw [if_neg Bool.false_ne_true, hv, Option.map_some, Option.map_some, hne]
      exact ⟨rfl, rfl⟩
  · rw [get?_eq_none hi, Cells.get?_eq_none (h.size_eq ▸ hi), Array.getElem?_eq_none hi]
    exact ⟨rfl, rfl⟩

/-- Columns of one name and type with the same cells are one column. -/
theorem ext_cells (h : column.WellFormed) (h' : column'.WellFormed)
    (hname : column.name = column'.name) (htype : column.type = column'.type)
    (hsize : column.size = column'.size)
    (hcells : ∀ i < column.size, (column.get? i).getD .null = (column'.get? i).getD .null) :
    column = column' := by
  have hget : ∀ i, column.get? i = column'.get? i := by
    intro i
    rcases Nat.lt_or_ge i column.size with hi | hi
    · obtain ⟨v, hv⟩ := Option.isSome_iff_exists.1 (isSome_get? h hi)
      obtain ⟨v', hv'⟩ := Option.isSome_iff_exists.1 (isSome_get? h' (hsize ▸ hi))
      have hcell := hcells i hi
      rw [hv, hv', Option.getD_some, Option.getD_some] at hcell
      rw [hv, hv', hcell]
    · rw [get?_eq_none hi, get?_eq_none (hsize ▸ hi)]
  have hnulls : column.nulls = column'.nulls := by
    apply Array.ext_getElem?
    intro i
    rw [(parts_of_get? h i).1, (parts_of_get? h' i).1, hget]
  have hvector : column.cells = column'.cells := by
    refine Cells.ext_get? h.hasType (htype ▸ h'.hasType) fun i => ?_
    rw [(parts_of_get? h i).2, (parts_of_get? h' i).2, hget, htype]
  cases column
  cases column'
  cases hname
  cases htype
  cases hnulls
  cases hvector
  rfl

end Column

namespace Table

variable {table table' : Table}

theorem recordAt_of_records_eq (h : table.records = table'.records) :
    table.rowCount = table'.rowCount ∧
      ∀ i < table.rowCount, table.recordAt i = table'.recordAt i := by
  have hcount : table.rowCount = table'.rowCount := by
    rw [← length_records, h, length_records]
  refine ⟨hcount, fun i hi => ?_⟩
  have hi' := congrArg (·[i]?) h
  simp only [getElem?_records, if_pos hi, if_pos (hcount ▸ hi), Option.some.injEq] at hi'
  exact hi'

/-- The cells of a column are those at its place in the records. -/
theorem columns_of_records_eq (h : table.WellFormed) (h' : table'.WellFormed)
    (hschema : table.schema = table'.schema) (hrecords : table.records = table'.records) :
    table.columns = table'.columns := by
  obtain ⟨hcount, hrecordAt⟩ := recordAt_of_records_eq hrecords
  have hattributes := h.columns_eq.trans (hschema.trans h'.columns_eq.symm)
  refine List.ext_getElem (by simpa using congrArg List.length hattributes) fun k hk hk' => ?_
  have hattribute := List.getElem_of_eq hattributes (by simpa using hk)
  rw [List.getElem_map, List.getElem_map, Attribute.mk.injEq] at hattribute
  have hw := h.columns_wellFormed _ (List.getElem_mem hk)
  have hw' := h'.columns_wellFormed _ (List.getElem_mem hk')
  have hsize := h.size_eq _ (List.getElem_mem hk)
  have hsize' := h'.size_eq _ (List.getElem_mem hk')
  refine Column.ext_cells hw hw' hattribute.1 hattribute.2
    (hsize.trans (hcount.trans hsize'.symm)) fun i hi => ?_
  have hcell := List.getElem_of_eq (hrecordAt i (hsize ▸ hi)) (by simpa [recordAt] using hk)
  simp only [recordAt, List.getElem_map, Prod.mk.injEq] at hcell
  exact hcell.2

/-- Well-formed tables of one name and schema with the same records are one table. -/
theorem ext_records (h : table.WellFormed) (h' : table'.WellFormed)
    (hname : table.name = table'.name) (hschema : table.schema = table'.schema)
    (hrecords : table.records = table'.records) : table = table' := by
  have hcolumns := columns_of_records_eq h h' hschema hrecords
  have hcount := (recordAt_of_records_eq hrecords).1
  cases table
  cases table'
  cases hname
  cases hschema
  cases hcolumns
  cases hcount
  rfl

end Table

/-- A row of the schema is stored as it is. -/
theorem Schema.record_of_fits {schema : Schema} {row : Row} (h : row.Fits schema) :
    schema.record row = row.entries := by
  have hmem : List.Forall₂ (fun (e : String × Value) (a : Attribute) =>
      e ∈ row.entries ∧ e.1 = a.name ∧ e.2.HasType a.type) row.entries schema :=
    (List.forall₂_and_left _ _).2 ⟨fun _ he => he, h.flip⟩
  rw [record, ← List.forall₂_eq_eq_eq, List.forall₂_map_left_iff]
  refine hmem.flip.imp fun a e he => ?_
  obtain ⟨he, hname, htype⟩ := he
  rw [← hname, OrderedMap.get?_eq_some_iff.2 he, Option.map_some, Option.getD_some,
    Value.coerce_of_hasType htype]

namespace Table

variable {table : Table}

/-- A table created from the declaration of another and filled with its rows is the other. -/
theorem insertAll_select (h : table.Built) :
    ∃ fresh, create table.name table.schema.declaration = .ok fresh ∧
      fresh.insertAll (table.select none) = table := by
  have hw := h.wellFormed
  have hcreate := create_declaration_of_wellFormed hw
  refine ⟨_, hcreate, ?_⟩
  have hfresh := create_wellFormed hcreate
  have hrecords : (table.select none).map table.schema.record =
      (table.select none).map OrderedMap.entries :=
    List.map_congr_left fun row hr => Schema.record_of_fits (fits_of_mem_select hw hr)
  refine ext_records (insertAll_wellFormed hfresh _) hw ?_ ?_ ?_
  · rw [name_insertAll]
  · rw [schema_insertAll]
  · rw [records_insertAll hfresh, records_create hcreate, List.nil_append, hrecords,
      entries_select_none hw]

/-- Types in another spelling and declared over, values that are converted, and nulls beside the
placeholders. -/
theorem insertAll_select_converted :
    ∃ table, create "t" [("n", "INT"), ("s", "int"), ("s", "VarChar")] = .ok table ∧
      let grown := table.insertAll [.ofList [("n", .text " 2.7"), ("x", .int 1)],
        .ofList [("s", .int 0), ("n", .int 0)], .ofList [("s", .text "")]]
      ∃ fresh, create "t" [("n", "int"), ("s", "varchar")] = .ok fresh ∧
        fresh.insertAll [.ofList [("n", .int 2), ("s", .null)],
          .ofList [("n", .int 0), ("s", .text "0")], .ofList [("n", .null), ("s", .text "")]] =
            grown := by
  have hcreate : create "t" [("n", "INT"), ("s", "int"), ("s", "VarChar")] = .ok _ := rfl
  refine ⟨_, hcreate, ?_⟩
  intro grown
  have hbuilt : grown.Built := .insert (.insert (.insert (.create hcreate) _) _) _
  have hrows : grown.select none = [.ofList [("n", .int 2), ("s", .null)],
      .ofList [("n", .int 0), ("s", .text "0")], .ofList [("n", .null), ("s", .text "")]] := by
    decide +kernel
  obtain ⟨fresh, hfresh, hgrown⟩ := insertAll_select hbuilt
  rw [hrows] at hgrown
  exact ⟨fresh, hfresh, hgrown⟩

end Table
end TableShell
