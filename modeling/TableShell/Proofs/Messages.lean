import Mathlib.Data.List.Pairwise
import TableShell.Proofs.Reachability

/-
Answers and errors told apart by their texts.

An error is a name in a frame of fixed texts, and so is a confirmation. No two frames can be filled
to the same text, and a listing of names is unlike any of them: behind its first word there is a
comma or a line feed, where a frame has a space.
-/
namespace TableShell

/-- The texts that stand before and behind a name. -/
structure Frame where
  lead : String
  tail : String
deriving DecidableEq

namespace Frame

def fill (frame : Frame) (name : String) : String :=
  frame.lead ++ name ++ frame.tail

/-- Neither text before the name continues the other, or neither text behind it does. -/
def Apart (f g : Frame) : Prop :=
  (¬ f.lead.toList <+: g.lead.toList ∧ ¬ g.lead.toList <+: f.lead.toList) ∨
    (¬ f.tail.toList <:+ g.tail.toList ∧ ¬ g.tail.toList <:+ f.tail.toList)

instance (f g : Frame) : Decidable (f.Apart g) :=
  inferInstanceAs (Decidable (_ ∨ _))

theorem apart_symm {f g : Frame} (h : f.Apart g) : g.Apart f :=
  h.imp And.symm And.symm

theorem toList_fill (f : Frame) (x : String) :
    (f.fill x).toList = f.lead.toList ++ (x.toList ++ f.tail.toList) := by
  rw [fill, String.toList_append, String.toList_append, List.append_assoc]

theorem fill_ne {f g : Frame} (h : f.Apart g) (x y : String) : f.fill x ≠ g.fill y := by
  intro he
  have hl := congrArg String.toList he
  rw [toList_fill, toList_fill] at hl
  rcases h with ⟨h₁, h₂⟩ | ⟨h₁, h₂⟩
  · have hf : f.lead.toList <+: f.lead.toList ++ (x.toList ++ f.tail.toList) :=
      List.prefix_append _ _
    have hg : g.lead.toList <+: f.lead.toList ++ (x.toList ++ f.tail.toList) :=
      hl ▸ List.prefix_append _ _
    exact (List.prefix_or_prefix_of_prefix hf hg).elim h₁ h₂
  · rw [← List.append_assoc, ← List.append_assoc] at hl
    have hf : f.tail.toList <:+ f.lead.toList ++ x.toList ++ f.tail.toList :=
      List.suffix_append _ _
    have hg : g.tail.toList <:+ f.lead.toList ++ x.toList ++ f.tail.toList :=
      hl ▸ List.suffix_append _ _
    exact (List.suffix_or_suffix_of_suffix hf hg).elim h₁ h₂

theorem fill_injective (f : Frame) : Function.Injective f.fill := by
  intro x y he
  have hl := congrArg String.toList he
  rw [toList_fill, toList_fill, List.append_cancel_left_eq, List.append_cancel_right_eq] at hl
  exact String.toList_injective hl

end Frame

namespace Error

/-- The frames of the messages, each with the error that a name in it stands for. -/
def forms : List (Frame × (String → Error)) := [
  (⟨"Name ", " is invalid"⟩, invalidName),
  (⟨"Column name ", " is invalid"⟩, invalidColumnName),
  (⟨"Database ", " already exists"⟩, databaseExists),
  (⟨"Table ", " already exists"⟩, tableExists),
  (⟨"No columns defined", ""⟩, fun _ => noColumns),
  (⟨"Column ", " has no data type"⟩, missingType),
  (⟨"Type ", " is not supported"⟩, unsupportedType),
  (⟨"Create table syntax invalid", ""⟩, fun _ => createTableSyntax),
  (⟨"Select syntax invalid", ""⟩, fun _ => selectSyntax),
  (⟨"Insert syntax invalid", ""⟩, fun _ => insertSyntax),
  (⟨"Number of columns and values does not match", ""⟩, fun _ => countMismatch),
  (⟨"Unknown command", ""⟩, fun _ => unknownCommand),
  (⟨"No active database", ""⟩, fun _ => noActiveDatabase),
  (⟨"Unknown database ", ""⟩, unknownDatabase),
  (⟨"Table ", " does not exist"⟩, unknownTable)]

/-- A message is a frame with a name in it; where the error has no name, any would do. -/
theorem exists_form (e : Error) :
    ∃ form ∈ forms, ∃ name, e = form.2 name ∧ e.message = form.1.fill name := by
  cases e with
  | invalidName name => exact ⟨_, List.mem_of_getElem? (i := 0) rfl, name, rfl, rfl⟩
  | invalidColumnName name => exact ⟨_, List.mem_of_getElem? (i := 1) rfl, name, rfl, rfl⟩
  | databaseExists name => exact ⟨_, List.mem_of_getElem? (i := 2) rfl, name, rfl, rfl⟩
  | tableExists name => exact ⟨_, List.mem_of_getElem? (i := 3) rfl, name, rfl, rfl⟩
  | noColumns => exact ⟨_, List.mem_of_getElem? (i := 4) rfl, "", rfl, by decide⟩
  | missingType column => exact ⟨_, List.mem_of_getElem? (i := 5) rfl, column, rfl, rfl⟩
  | unsupportedType type => exact ⟨_, List.mem_of_getElem? (i := 6) rfl, type, rfl, rfl⟩
  | createTableSyntax => exact ⟨_, List.mem_of_getElem? (i := 7) rfl, "", rfl, by decide⟩
  | selectSyntax => exact ⟨_, List.mem_of_getElem? (i := 8) rfl, "", rfl, by decide⟩
  | insertSyntax => exact ⟨_, List.mem_of_getElem? (i := 9) rfl, "", rfl, by decide⟩
  | countMismatch => exact ⟨_, List.mem_of_getElem? (i := 10) rfl, "", rfl, by decide⟩
  | unknownCommand => exact ⟨_, List.mem_of_getElem? (i := 11) rfl, "", rfl, by decide⟩
  | noActiveDatabase => exact ⟨_, List.mem_of_getElem? (i := 12) rfl, "", rfl, by decide⟩
  | unknownDatabase name =>
    exact ⟨_, List.mem_of_getElem? (i := 13) rfl, name, rfl, String.append_empty.symm⟩
  | unknownTable name => exact ⟨_, List.mem_of_getElem? (i := 14) rfl, name, rfl, rfl⟩

theorem frames_apart : (forms.map Prod.fst).Pairwise Frame.Apart := by
  decide +kernel

theorem message_injective : Function.Injective message := by
  intro e e' h
  obtain ⟨form, hform, name, rfl, hm⟩ := exists_form e
  obtain ⟨form', hform', name', rfl, hm'⟩ := exists_form e'
  rw [hm, hm'] at h
  have hsymm : Std.Symm fun f g : Frame × (String → Error) => f.1.Apart g.1 :=
    ⟨fun _ _ => Frame.apart_symm⟩
  by_cases hf : form = form'
  · subst hf
    rw [Frame.fill_injective _ h]
  · exact absurd h (Frame.fill_ne ((List.pairwise_map.1 frames_apart).forall hform hform' hf) _ _)

end Error

/-! ### Words -/

/-- The first character of a text that is in no name. -/
def firstMark (s : List Char) : Option Char :=
  s.find? fun c => !Name.isNameChar c

theorem firstMark_name {name : String} (h : Name.isValid name = true) (s : List Char) :
    firstMark (name.toList ++ s) = firstMark s := by
  have hn : name.toList.find? (fun c => !Name.isNameChar c) = none := by
    rw [List.find?_eq_none]
    intro c hc
    rw [(Name.isValid_iff.1 h).2 c hc]
    decide
  rw [firstMark, List.find?_append, hn, Option.none_or, firstMark]

/-- Behind the first of listed names a comma follows, if anything does. -/
theorem firstMark_listed {names : List String} (hne : names ≠ [])
    (h : ∀ name ∈ names, Name.isValid name = true) {s : List Char} (hs : firstMark s ≠ some ' ') :
    firstMark ((", ".intercalate names).toList ++ s) ≠ some ' ' := by
  obtain ⟨name, names, rfl⟩ := List.exists_cons_of_ne_nil hne
  have hname := h name List.mem_cons_self
  cases names with
  | nil => rwa [String.intercalate_singleton, firstMark_name hname]
  | cons name' names =>
    rw [String.intercalate_cons_cons, String.toList_append, String.toList_append,
      List.append_assoc, List.append_assoc, firstMark_name hname]
    exact fun h => absurd (Option.some.inj h) (by decide)

theorem Error.firstMark_message (e : Error) : firstMark e.message.toList = some ' ' := by
  have hall : ∀ f ∈ forms.map Prod.fst, firstMark f.lead.toList = some ' ' := by decide +kernel
  obtain ⟨form, hform, name, -, hm⟩ := exists_form e
  have hlead := hall _ (List.mem_map_of_mem hform)
  rw [firstMark] at hlead ⊢
  rw [hm, Frame.toList_fill, List.find?_append, hlead, Option.some_or]

namespace Session

/-- The frames of the answers that confirm something or say that there is nothing. -/
def confirmations : List Frame := [
  ⟨"Database ", " created"⟩, ⟨"No databases", ""⟩, ⟨"Active database: ", ""⟩,
  ⟨"No tables in database ", ""⟩, ⟨"Table ", " created"⟩, ⟨"No rows", ""⟩,
  ⟨"1 row inserted into ", ""⟩]

theorem confirmations_apart :
    ∀ f ∈ confirmations, ∀ g ∈ Error.forms.map Prod.fst, f.Apart g := by
  decide +kernel

/-- A text in one of the frames, or one whose first word has no space behind it. -/
def IsAnswer (text : String) : Prop :=
  (∃ frame ∈ confirmations, ∃ name, text = frame.fill name) ∨ firstMark text.toList ≠ some ' '

theorem ne_message_of_isAnswer {text : String} (h : IsAnswer text) (e : Error) :
    text ≠ e.message := by
  intro he
  rcases h with ⟨frame, hframe, name, rfl⟩ | h
  · obtain ⟨form, hform, name', -, hm⟩ := e.exists_form
    rw [hm] at he
    exact Frame.fill_ne (confirmations_apart frame hframe _ (List.mem_map_of_mem hform)) _ _ he
  · exact h (he ▸ e.firstMark_message)

theorem isAnswer_enumerate {names : List String}
    (h : ∀ name ∈ names, Name.isValid name = true) {ifEmpty : String} (he : IsAnswer ifEmpty) :
    IsAnswer (enumerate names ifEmpty) := by
  cases names with
  | nil => exact he
  | cons name names =>
    have hmark := firstMark_listed (List.cons_ne_nil _ _) h (s := []) (by decide)
    rw [List.append_nil] at hmark
    exact Or.inr hmark

theorem isAnswer_printAll {table : Table} (h : table.WellFormed) {rows : List Row}
    (hrows : ∀ row ∈ rows, row.Fits table.schema) : IsAnswer (Row.printAll rows) := by
  cases rows with
  | nil => exact Or.inl ⟨⟨"No rows", ""⟩, by decide, "", by decide⟩
  | cons row rows =>
    have hkeys := Row.keys_of_fits (hrows row List.mem_cons_self)
    have hne : row.keys ≠ [] := by
      rw [hkeys]
      exact fun hnil => h.schema_ne_nil (List.map_eq_nil_iff.1 hnil)
    have hvalid : ∀ name ∈ row.keys, Name.isValid name = true := by
      rw [hkeys]
      intro name hm
      obtain ⟨a, ha, rfl⟩ := List.mem_map.1 hm
      exact h.names_valid a ha
    right
    rw [Row.printAll, List.map_cons, String.intercalate_cons_cons, String.toList_append,
      String.toList_append, List.append_assoc]
    exact firstMark_listed hne hvalid fun h => absurd (Option.some.inj h) (by decide)

/-- What a command answers in a well-formed session. -/
theorem isAnswer_of_effect {session session' : Session} {command : Command} {text : String}
    (h : session.WellFormed) (he : session.Effect command text session') : IsAnswer text := by
  have hcatalog := h.catalog_wellFormed
  cases he with
  | createDatabase hn hnew => exact Or.inl ⟨_, List.mem_of_getElem? (i := 0) rfl, _, rfl⟩
  | listDatabases =>
    exact isAnswer_enumerate hcatalog.names_valid
      (Or.inl ⟨_, List.mem_of_getElem? (i := 1) rfl, "", by decide⟩)
  | useDatabase hm =>
    exact Or.inl ⟨_, List.mem_of_getElem? (i := 2) rfl, _, String.append_empty.symm⟩
  | listTables hd =>
    exact isAnswer_enumerate (wellFormed_of_database? h hd).names_valid
      (Or.inl ⟨_, List.mem_of_getElem? (i := 3) rfl, _, String.append_empty.symm⟩)
  | createTable ha hd ht hnew => exact Or.inl ⟨_, List.mem_of_getElem? (i := 4) rfl, _, rfl⟩
  | select hd hq ht =>
    have htable := Database.wellFormed_of_table? (wellFormed_of_database? h hd) ht
    exact isAnswer_printAll htable fun row hr => Table.fits_of_mem_select htable hr
  | insert ha hd hi ht =>
    exact Or.inl ⟨_, List.mem_of_getElem? (i := 6) rfl, _, String.append_empty.symm⟩

/-- What the user reads says what came of the command: no answer in a reachable session is the
message of an error, and errors with one message are one error, down to the name in it. -/
theorem reachable_texts_apart {session : Session} (h : session.Reachable) (session' : Session)
    (command command' : Command) :
    (∀ text e, (session.execute command).answer = .ok text →
      (session'.execute command').answer = .error e → text ≠ e.message) ∧
    ∀ e e', (session.execute command).answer = .error e →
      (session'.execute command').answer = .error e' → e.message = e'.message → e = e' := by
  refine ⟨?_, fun e e' _ _ hm => Error.message_injective hm⟩
  intro text e ha _
  exact ne_message_of_isAnswer (isAnswer_of_effect h.wellFormed (effect_of_answer ha)) e

/-- A listing that differs from a message by its comma, and the message of a name that itself reads
like one. -/
theorem reachable_texts_apart_unknown :
    let session := (start .empty).run [.createDatabase "Unknown", .createDatabase "command"]
    session.Reachable ∧
      (session.execute .listDatabases).answer = .ok "Unknown, command" ∧
      (session.execute .unknown).answer = .error .unknownCommand ∧
      "Unknown, command" ≠ Error.unknownCommand.message ∧
      (session.execute (.createDatabase "No is invalid")).answer =
        .error (.invalidName "No is invalid") ∧
      ∀ e, (session.execute (.createDatabase "No is invalid")).answer = .error e →
        e.message = "Name No is invalid is invalid" → e = .invalidName "No is invalid" := by
  intro session
  have hreachable : session.Reachable := ⟨.empty, .empty, _, rfl⟩
  have hlist : (session.execute .listDatabases).answer = .ok "Unknown, command" := by
    decide +kernel
  have hunknown : (session.execute .unknown).answer = .error .unknownCommand := rfl
  have hinvalid : (session.execute (.createDatabase "No is invalid")).answer =
      .error (.invalidName "No is invalid") := by decide +kernel
  refine ⟨hreachable, hlist, hunknown, ?_, hinvalid, ?_⟩
  · exact (reachable_texts_apart hreachable session .listDatabases .unknown).1 _ _ hlist hunknown
  · intro e he hm
    exact (reachable_texts_apart hreachable session _ _).2 e _ he hinvalid hm

end Session
end TableShell
