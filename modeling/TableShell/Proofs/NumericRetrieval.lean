import TableShell.Proofs.Growth
import TableShell.Proofs.NumericText

/-
Rows found again by the number they were given.

An insertion cuts a number off to a word and a condition compares the number as it stands, so a row
is found by the spelling it was given only where nothing was cut off.
-/
namespace TableShell
namespace Table

open Numeral

section Created

variable {name : String} {columns : List (String × String)} {table : Table}
    (h : create name columns = .ok table)
include h

/-- The row of an insertion, among any others, is selected where its record is kept. -/
theorem mem_select_iff (before after : List (OrderedMap Value)) (given : OrderedMap Value)
    (condition : Condition) :
    let grown := table.insertAll (before ++ given :: after)
    ∃ row, grown.row? before.length = some row ∧ row.entries = table.schema.record given ∧
      (row ∈ grown.select (some condition) ↔
        condition.keeps (table.schema.record given) = true) := by
  intro grown
  have hw : grown.WellFormed := insertAll_wellFormed (create_wellFormed h) _
  have hrecords : grown.records =
      before.map table.schema.record ++ table.schema.record given ::
        after.map table.schema.record := by
    rw [records_insertAll (create_wellFormed h), records_create h, List.nil_append,
      List.map_append, List.map_cons]
  have hrow : (grown.row? before.length).map OrderedMap.entries =
      some (table.schema.record given) := by
    rw [entries_row? hw, hrecords, List.getElem?_append_right (by rw [List.length_map]),
      List.length_map, Nat.sub_self, List.getElem?_cons_zero]
  obtain ⟨row, hrow, hentries⟩ := Option.map_eq_some_iff.1 hrow
  refine ⟨row, hrow, hentries, ?_⟩
  have hmem : table.schema.record given ∈ grown.records := by
    rw [hrecords]
    exact List.mem_append_right _ List.mem_cons_self
  rw [← List.mem_map_of_injective fun _ _ => OrderedMap.ext, entries_select hw, hentries,
    List.mem_filter, Option.all_some, and_iff_right hmem]

end Created

/-- A row is found by the number it was given exactly where the number is rounded to a whole one
within the bounds or to the first one beyond. Every whole number up to there is, and no other with a
numerator below `2 ^ 53`, unless it vanishes. -/
theorem number_selected_iff {text : String} {s : Spelling} (h : Text.trim text.toList = s.text) :
    (((Value.text text).coerce .int).looselyEquals text = true ↔ s.RoundsToWhole) ∧
      (∀ m : Int, s.value = m → m.natAbs ≤ 2 ^ 63 → s.RoundsToWhole) ∧
      (s.value.num.natAbs < 2 ^ 53 → s.value.den < 2 * Binary64.scale →
        (s.RoundsToWhole ↔ ∃ m : Int, s.value = m)) ∧
      ∀ (name column : String) (columns : List (String × String)) (table : Table)
        (before after : List (OrderedMap Value)) (given : OrderedMap Value),
        create name columns = .ok table → ⟨column, .int⟩ ∈ table.schema →
        given.get? column = some (.text text) →
          let grown := table.insertAll (before ++ given :: after)
          ∃ row, grown.row? before.length = some row ∧
            (row ∈ grown.select (some ⟨column, text⟩) ↔ s.RoundsToWhole) := by
  have hself := Value.looselyEquals_coerce_iff h
  refine ⟨hself, fun m => Spelling.roundsToWhole_of_value_eq, Spelling.roundsToWhole_iff, ?_⟩
  intro name column columns table before after given hcreate hcolumn hgiven grown
  obtain ⟨row, hrow, -, hselect⟩ := mem_select_iff hcreate before after given ⟨column, text⟩
  refine ⟨row, hrow, ?_⟩
  rw [hselect, Condition.keeps_record (create_wellFormed hcreate).names_nodup hcolumn hgiven, hself]

/-- A whole number with a point, between two other rows. -/
theorem number_selected_whole :
    ∃ table, create "t" [("c", "int")] = .ok table ∧
      let grown := table.insertAll ([.ofList [("c", .text "1")]] ++
        .ofList [("c", .text "6.0")] :: [.ofList [("c", .text "2.7")]])
      ∃ row, grown.row? 1 = some row ∧ row ∈ grown.select (some ⟨"c", "6.0"⟩) := by
  let s : Spelling := .mk .none ['6'] (some ['0']) none
  have h : Text.trim "6.0".toList = s.text := by decide +kernel
  obtain ⟨-, hwhole, -, hfound⟩ := number_selected_iff h
  refine ⟨_, rfl, ?_⟩
  obtain ⟨row, hrow, hselect⟩ := hfound "t" "c" [("c", "int")] _ [.ofList [("c", .text "1")]]
    [.ofList [("c", .text "2.7")]] (.ofList [("c", .text "6.0")]) rfl (by decide) (by decide)
  exact ⟨row, hrow, hselect.2 (hwhole 6 (by decide +kernel) (by decide))⟩

/-- A fraction is cut off when it is stored, and the row is not found by the spelling it was given.
-/
theorem number_not_selected_fraction :
    ∃ table, create "t" [("c", "int")] = .ok table ∧
      let grown := table.insertAll [.ofList [("c", .text "2.7")]]
      grown.rowCount = 1 ∧ grown.select (some ⟨"c", "2.7"⟩) = [] ∧
        ((Value.text "2.7").coerce .int).looselyEquals "2.7" = false :=
  ⟨_, rfl, by decide +kernel⟩

end Table
end TableShell
