import Mathlib.Data.List.Forall2
import TableShell.Proofs.Entries
import TableShell.Table

/-
Definitions that make a table, and what is said of one that makes none.

A definition counts by its settled columns: each name once, where it is declared first, with the
type it is declared with last. A type that is declared over is never looked at. Of all that is wrong
with a definition the first is reported: its name, that it has no columns, the first of the settled
names that is invalid, the first of the settled types that is none.
-/
namespace TableShell

theorem exists_mem_of_forall₂ {α β : Type} {R : α → β → Prop} {l : List α} {l' : List β}
    (h : List.Forall₂ R l l') {a : α} (ha : a ∈ l) : ∃ b ∈ l', R a b := by
  induction h with
  | nil => exact absurd ha List.not_mem_nil
  | cons hr _ ih =>
    rcases List.mem_cons.1 ha with rfl | ha
    · exact ⟨_, List.mem_cons_self, hr⟩
    · obtain ⟨b, hb, hab⟩ := ih ha
      exact ⟨b, List.mem_cons_of_mem _ hb, hab⟩

namespace OrderedMap

universe u

variable {α : Type u}

/-- The entries that count of a list: each name at its first place with its last value. -/
def settled (es : List (String × α)) : List (String × α) :=
  (es.map Prod.fst).eraseDups.filterMap fun key => (es.reverse.lookup key).map (key, ·)

theorem entries_eq_filterMap (m : OrderedMap α) :
    m.entries = m.keys.filterMap fun key => (m.get? key).map (key, ·) := by
  have hfound : ∀ e ∈ m.entries, (m.get? e.1).map (e.1, ·) = some e := by
    intro e he
    rw [get?_eq_some_iff.2 he]
    rfl
  rw [keys, List.filterMap_map]
  exact ((List.filterMap_eq_map_iff_forall_eq_some (g := id)).2 hfound).trans (List.map_id _)
    |>.symm

theorem entries_ofList_eq_settled (es : List (String × α)) : (ofList es).entries = settled es := by
  simp only [entries_eq_filterMap (ofList es), keys_ofList, get?_ofList, settled]

theorem mem_of_mem_settled {es : List (String × α)} {e : String × α} (h : e ∈ settled es) :
    e ∈ es :=
  mem_entries_ofList (entries_ofList_eq_settled es ▸ h)

/-- Names that are declared once each are settled as they are. -/
theorem settled_of_nodup {es : List (String × α)} (h : (es.map Prod.fst).Nodup) :
    settled es = es :=
  (entries_ofList_eq_settled es).symm.trans (entries_ofList h)

theorem settled_eq_nil_iff {es : List (String × α)} : settled es = [] ↔ es = [] := by
  rw [← entries_ofList_eq_settled, ← List.map_eq_nil_iff (f := Prod.fst), ← keys, keys_ofList]
  cases es with
  | nil => simp
  | cons e es => simp [List.eraseDups_cons]

end OrderedMap

open OrderedMap (settled)

theorem Text.toList_toLower (s : String) : s.toLower.toList = s.toList.map Char.toLower :=
  String.toList_map

namespace DataType

/-- The text is that of a type, whatever the case of its letters. -/
def isSupported (s : String) : Bool :=
  s.toLower == int.text || s.toLower == varchar.text

theorem isPhrase_iff {phrase s : String} :
    Text.isPhrase phrase.toList s.toList = true ↔ s.toLower = phrase := by
  rw [Text.isPhrase, beq_iff_eq, ← String.toList_inj, Text.toList_toLower]

theorem read_eq_ok_iff {s : String} {t : DataType} : read s = .ok t ↔ s.toLower = t.text := by
  rw [read]
  simp only [isPhrase_iff]
  split
  · next h => cases t <;> simp [h, text]
  · split
    · next h => cases t <;> simp [h, text]
    · next h₁ h₂ => cases t <;> simp [h₁, h₂, text]

theorem exists_read {s : String} (h : isSupported s = true) : ∃ t, read s = .ok t := by
  simp only [read_eq_ok_iff]
  rw [isSupported, Bool.or_eq_true, beq_iff_eq, beq_iff_eq] at h
  rcases h with h | h
  · exact ⟨.int, h⟩
  · exact ⟨.varchar, h⟩

theorem read_of_not_isSupported {s : String} (h : isSupported s = false) :
    read s = .error (.unsupportedType s) := by
  simp only [isSupported, Bool.or_eq_false_iff, beq_eq_false_iff_ne, text] at h
  simp only [read, isPhrase_iff, h.1, h.2, if_false]

end DataType

/-- The attribute has the declared name and the declared type. -/
def Attribute.DeclaredBy (a : Attribute) (entry : String × String) : Prop :=
  a.name = entry.1 ∧ entry.2.toLower = a.type.text

namespace Schema

variable {declared columns : List (String × String)} {e : Error}

theorem checkNames_eq_ok_iff : checkNames declared = .ok () ↔
    ∀ entry ∈ declared, Name.isValid entry.1 = true := by
  induction declared with
  | nil => simp [checkNames]
  | cons entry declared ih =>
    rw [checkNames, List.forall_mem_cons, ← ih, ← Name.checkColumn_eq_ok_iff]
    cases h : Name.checkColumn entry.1 <;> simp

theorem checkNames_eq_error_iff : checkNames declared = .error e ↔
    ∃ entry, declared.find? (fun entry => !Name.isValid entry.1) = some entry ∧
      e = .invalidColumnName entry.1 := by
  induction declared with
  | nil => simp [checkNames]
  | cons entry declared ih =>
    rw [checkNames, Name.checkColumn, List.find?_cons]
    cases hv : Name.isValid entry.1 with
    | true => simpa using ih
    | false => simp [eq_comm]

/-- Types are read into the places of their columns. -/
theorem readTypes_eq_ok_iff {schema : Schema} : readTypes declared = .ok schema ↔
    List.Forall₂ (fun entry a => a.DeclaredBy entry) declared schema := by
  induction declared generalizing schema with
  | nil => simp [readTypes, eq_comm]
  | cons entry declared ih =>
    rw [readTypes]
    constructor
    · intro h
      split at h
      · exact absurd h (by simp)
      · next type htype =>
        split at h
        · exact absurd h (by simp)
        · next rest hrest =>
          rw [← Except.ok.inj h]
          exact .cons ⟨rfl, DataType.read_eq_ok_iff.1 htype⟩ (ih.1 hrest)
    · intro h
      cases h with
      | @cons _ a _ rest ha hrest =>
        obtain ⟨hname, htype⟩ := ha
        simp only [DataType.read_eq_ok_iff.2 htype, ih.2 hrest, ← hname]

theorem names_of_declaredBy {schema : Schema}
    (h : List.Forall₂ (fun entry a => a.DeclaredBy entry) declared schema) :
    schema.map Attribute.name = declared.map Prod.fst := by
  rw [← List.forall₂_eq_eq_eq, List.forall₂_map_left_iff, List.forall₂_map_right_iff]
  exact h.flip.imp fun _ _ hdeclared => hdeclared.1

theorem readTypes_eq_error_iff : readTypes declared = .error e ↔
    ∃ entry, declared.find? (fun entry => !DataType.isSupported entry.2) = some entry ∧
      e = .unsupportedType entry.2 := by
  induction declared with
  | nil => simp [readTypes]
  | cons entry declared ih =>
    rw [readTypes, List.find?_cons]
    cases hs : DataType.isSupported entry.2 with
    | true =>
      obtain ⟨type, htype⟩ := DataType.exists_read hs
      rw [Bool.not_true, ← ih, htype]
      cases readTypes declared <;> simp
    | false =>
      rw [DataType.read_of_not_isSupported hs]
      simp [eq_comm]

/-- Of the settled columns the names are checked and then the types are read. -/
theorem declare_of_ne_nil (h : columns ≠ []) : declare columns =
    (checkNames (settled columns)).bind fun _ => readTypes (settled columns) := by
  have hne : (settled columns).isEmpty = false :=
    List.isEmpty_eq_false_iff.2 (mt OrderedMap.settled_eq_nil_iff.1 h)
  simp only [declare, OrderedMap.entries_ofList_eq_settled, hne, Bool.false_eq_true, if_false]
  cases checkNames (settled columns) <;> rfl

end Schema

namespace Table

/-- What is said of a definition: the first of all that is wrong with it, or the table it makes. -/
inductive Judged (name : String) (columns : List (String × String)) : Except Error Table → Prop
  | invalidName (hname : Name.isValid name = false) :
    Judged name columns (.error (.invalidName name))
  | noColumns (hname : Name.isValid name = true) (hcolumns : columns = []) :
    Judged name columns (.error .noColumns)
  | invalidColumnName (hname : Name.isValid name = true) {column type : String}
    (hfirst : (settled columns).find? (fun entry => !Name.isValid entry.1) = some (column, type)) :
    Judged name columns (.error (.invalidColumnName column))
  | unsupportedType (hname : Name.isValid name = true)
    (hcolumns : ∀ entry ∈ settled columns, Name.isValid entry.1 = true) {column type : String}
    (hfirst : (settled columns).find? (fun entry => !DataType.isSupported entry.2) =
      some (column, type)) :
    Judged name columns (.error (.unsupportedType type))
  | created (hname : Name.isValid name = true) (hne : columns ≠ [])
    (hcolumns : ∀ entry ∈ settled columns, Name.isValid entry.1 = true) {schema : Schema}
    (hschema : List.Forall₂ (fun entry a => a.DeclaredBy entry) (settled columns) schema) :
    Judged name columns (.ok ⟨name, schema, schema.map fun a => .empty a.name a.type, 0⟩)

variable {name : String} {columns : List (String × String)}

theorem create_of_isValid (h : Name.isValid name = true) : create name columns =
    (Schema.declare columns).map
      fun schema => ⟨name, schema, schema.map fun a => .empty a.name a.type, 0⟩ := by
  rw [create, Name.check_eq_ok_iff.2 h]
  cases Schema.declare columns <;> rfl

theorem judged_create (name : String) (columns : List (String × String)) :
    Judged name columns (create name columns) := by
  cases hname : Name.isValid name with
  | false =>
    rw [create, Name.check, hname]
    exact .invalidName hname
  | true =>
    rw [create_of_isValid hname]
    by_cases hne : columns = []
    · subst hne
      exact .noColumns hname rfl
    · rw [Schema.declare_of_ne_nil hne]
      cases hcheck : Schema.checkNames (settled columns) with
      | error e =>
        obtain ⟨⟨column, type⟩, hfirst, rfl⟩ := Schema.checkNames_eq_error_iff.1 hcheck
        exact .invalidColumnName hname hfirst
      | ok _ =>
        have hcolumns := Schema.checkNames_eq_ok_iff.1 hcheck
        rw [Except.bind]
        cases hread : Schema.readTypes (settled columns) with
        | error e =>
          obtain ⟨⟨column, type⟩, hfirst, rfl⟩ := Schema.readTypes_eq_error_iff.1 hread
          exact .unsupportedType hname hcolumns hfirst
        | ok schema =>
          exact .created hname hne hcolumns (Schema.readTypes_eq_ok_iff.1 hread)

theorem create_of_judged {result : Except Error Table} (h : Judged name columns result) :
    create name columns = result := by
  have hne : ∀ {p : String × String → Bool} {entry : String × String},
      (settled columns).find? p = some entry → columns ≠ [] := by
    rintro p entry hfirst rfl
    exact absurd hfirst (by simp [settled])
  cases h with
  | invalidName hname => rw [create, Name.check, hname]; rfl
  | noColumns hname hcolumns => rw [create_of_isValid hname, hcolumns]; rfl
  | invalidColumnName hname hfirst =>
    rw [create_of_isValid hname, Schema.declare_of_ne_nil (hne hfirst),
      Schema.checkNames_eq_error_iff.2 ⟨_, hfirst, rfl⟩]
    rfl
  | unsupportedType hname hcolumns hfirst =>
    rw [create_of_isValid hname, Schema.declare_of_ne_nil (hne hfirst),
      Schema.checkNames_eq_ok_iff.2 hcolumns, Except.bind,
      Schema.readTypes_eq_error_iff.2 ⟨_, hfirst, rfl⟩]
    rfl
  | created hname hne hcolumns hschema =>
    rw [create_of_isValid hname, Schema.declare_of_ne_nil hne,
      Schema.checkNames_eq_ok_iff.2 hcolumns, Except.bind, Schema.readTypes_eq_ok_iff.2 hschema]
    rfl

/-- Creation accepts exactly the valid definitions, and says of every other what is wrong first. -/
theorem create_eq_iff_judged {result : Except Error Table} :
    create name columns = result ↔ Judged name columns result := by
  constructor
  · rintro rfl
    exact judged_create name columns
  · exact create_of_judged

/-- The type that is declared over does not matter, and the next is reported. -/
example : create "t" [("a", "double"), ("b", "blob"), ("a", "INT")] =
    .error (.unsupportedType "blob") := by
  decide +kernel

end Table
end TableShell
