import TableShell.OrderedMap
import Mathlib.Data.List.Induction

/-
What ordered maps hold: the entries after an insertion or a change, and the map of a list of
entries.
-/
namespace TableShell
namespace OrderedMap

universe u

variable {α : Type u}

theorem mem_put {key : String} {value : α} {es : List (String × α)} {e : String × α}
    (h : e ∈ put key value es) : e = (key, value) ∨ e ∈ es := by
  induction es with
  | nil => exact Or.inl (List.mem_singleton.1 h)
  | cons e' es ih =>
    rw [put] at h
    split at h
    · next hk =>
      rcases List.mem_cons.1 h with rfl | h
      · exact Or.inl (by rw [hk])
      · exact Or.inr (List.mem_cons_of_mem _ h)
    · rcases List.mem_cons.1 h with rfl | h
      · exact Or.inr List.mem_cons_self
      · exact (ih h).imp_right (List.mem_cons_of_mem _)

theorem mem_entries_insert {m : OrderedMap α} {key : String} {value : α} {e : String × α}
    (h : e ∈ (m.insert key value).entries) : e = (key, value) ∨ e ∈ m.entries :=
  mem_put h

theorem mem_entries_modify {m : OrderedMap α} {key : String} {f : α → α} {e : String × α}
    (h : e ∈ (m.modify key f).entries) :
    e ∈ m.entries ∨ ∃ value, (key, value) ∈ m.entries ∧ e = (key, f value) := by
  obtain ⟨e', he', he⟩ := List.mem_map.1 h
  split at he
  · next hk =>
    subst hk
    exact Or.inr ⟨e'.2, he', he.symm⟩
  · exact Or.inl (he ▸ he')

/-- The names are distinct, so what stands under one is what is found under it. -/
theorem get?_eq_some_iff {m : OrderedMap α} {key : String} {value : α} :
    m.get? key = some value ↔ (key, value) ∈ m.entries := by
  obtain ⟨es, hes⟩ := m
  simp only [get?]
  induction es with
  | nil => simp
  | cons e es ih =>
    obtain ⟨k, v⟩ := e
    rw [List.map_cons, List.nodup_cons] at hes
    rw [lookup_cons, List.mem_cons, Prod.mk.injEq]
    by_cases hk : key = k
    · subst hk
      have hn : (key, value) ∉ es := fun hm => hes.1 (List.mem_map.2 ⟨_, hm, rfl⟩)
      rw [if_pos rfl, Option.some.injEq, eq_comm]
      simp only [true_and, hn, or_false]
    · rw [if_neg hk, ih hes.2]
      simp only [hk, false_and, false_or]

theorem lookup_map {β : Type u} (es : List (String × β)) (f : β → α) (key : String) :
    (es.map fun e => (e.1, f e.2)).lookup key = (es.lookup key).map f := by
  induction es with
  | nil => rfl
  | cons e es ih =>
    rw [List.map_cons, lookup_cons, lookup_cons, ih]
    split <;> rfl

/-- Every value stands under its own name and has the property. -/
def Keyed (name : α → String) (P : α → Prop) (m : OrderedMap α) : Prop :=
  ∀ e ∈ m.entries, name e.2 = e.1 ∧ P e.2

variable {name : α → String} {P : α → Prop} {m : OrderedMap α}

theorem keyed_empty : Keyed name P empty :=
  fun _ he => absurd he List.not_mem_nil

theorem keyed_insert (h : m.Keyed name P) {value : α} (hv : P value) :
    (m.insert (name value) value).Keyed name P := by
  intro e he
  rcases mem_entries_insert he with rfl | he
  · exact ⟨rfl, hv⟩
  · exact h e he

theorem keyed_modify (h : m.Keyed name P) {key : String} {f : α → α}
    (hf : ∀ value, m.get? key = some value → P (f value) ∧ name (f value) = name value) :
    (m.modify key f).Keyed name P := by
  intro e he
  rcases mem_entries_modify he with he | ⟨value, hm, rfl⟩
  · exact h e he
  · obtain ⟨hv, hn⟩ := hf value (get?_eq_some_iff.2 hm)
    exact ⟨hn.trans (h _ hm).1, hv⟩

theorem keyed_get? (h : m.Keyed name P) {key : String} {value : α}
    (hv : m.get? key = some value) : name value = key ∧ P value :=
  h _ (get?_eq_some_iff.1 hv)

/-- What holds of the names of all values holds of the names in the map. -/
theorem keyed_keys (h : m.Keyed name P) {Q : String → Prop}
    (hq : ∀ value, P value → Q (name value)) : ∀ key ∈ m.keys, Q key := by
  intro key hk
  obtain ⟨e, he, rfl⟩ := List.mem_map.1 hk
  rw [← (h e he).1]
  exact hq e.2 (h e he).2

theorem ofList_concat (es : List (String × α)) (key : String) (value : α) :
    ofList (es ++ [(key, value)]) = (ofList es).insert key value := by
  simp only [ofList, List.foldl_append, List.foldl_cons, List.foldl_nil]

theorem mem_entries_ofList {es : List (String × α)} {e : String × α}
    (h : e ∈ (ofList es).entries) : e ∈ es := by
  induction es using List.reverseRecOn with
  | nil => exact h
  | append_singleton es e' ih =>
    rw [ofList_concat] at h
    rcases mem_entries_insert h with rfl | h
    · exact List.mem_append_right es List.mem_cons_self
    · exact List.mem_append_left _ (ih h)

theorem keys_insert (m : OrderedMap α) (key : String) (value : α) :
    (m.insert key value).keys = if key ∈ m.keys then m.keys else m.keys ++ [key] := by
  split
  · next h => exact keys_insert_of_mem h value
  · next h => exact keys_insert_of_not_mem h value

/-- Each name stands at its first place. -/
theorem keys_ofList (es : List (String × α)) :
    (ofList es).keys = (es.map Prod.fst).eraseDups := by
  induction es using List.reverseRecOn with
  | nil => rfl
  | append_singleton es e ih =>
    rw [ofList_concat, keys_insert, ih, List.map_append, List.eraseDups_append]
    simp only [List.mem_eraseDups, List.map_cons, List.map_nil]
    split
    · next h => simp [List.removeAll, h]
    · next h => simp [List.removeAll, h, List.eraseDups_cons]

/-- Each name has its last value. -/
theorem get?_ofList (es : List (String × α)) (key : String) :
    (ofList es).get? key = es.reverse.lookup key := by
  induction es using List.reverseRecOn with
  | nil => rfl
  | append_singleton es e ih =>
    rw [ofList_concat, get?_insert, ih, List.reverse_append, List.reverse_singleton,
      List.singleton_append, lookup_cons]

theorem mem_keys_ofList {es : List (String × α)} {key : String} :
    key ∈ (ofList es).keys ↔ key ∈ es.map Prod.fst := by
  rw [keys_ofList, List.mem_eraseDups]

/-- Entries under distinct names are kept as they are. -/
theorem entries_ofList {es : List (String × α)} (h : (es.map Prod.fst).Nodup) :
    (ofList es).entries = es := by
  induction es using List.reverseRecOn with
  | nil => rfl
  | append_singleton es e ih =>
    rw [List.map_append, List.map_cons, List.map_nil, List.nodup_append] at h
    obtain ⟨hes, -, hne⟩ := h
    have hk : e.1 ∉ (ofList es).keys := by
      rw [mem_keys_ofList]
      exact fun hm => hne _ hm _ (List.mem_singleton_self _) rfl
    rw [ofList_concat, entries_insert_of_not_mem hk, ih hes]

end OrderedMap
end TableShell
