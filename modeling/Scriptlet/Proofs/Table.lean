import Scriptlet.Table

/-!
# Entries and look-ups

A table is a list of entries, and it is used by looking names up. As its names strictly increase, a
name has at most one entry, and looking it up finds that (`Table.get?_eq_some_iff`); so a table is
told by its look-ups (`Table.ext_get?`). Binding several names in turn changes no other name, and
each of them has one of the values it was bound to in the end; so the names are then those of before
and those (`Table.mem_names_insertAll_iff`).
-/

namespace Scriptlet

namespace Table

variable {α : Type} {t : Table α} {name : Bytes} {a : α} {es : List (Bytes × α)}

theorem mem_entries_of_find? (h : find? name es = some a) : (name, a) ∈ es := by
  induction es with
  | nil => cases h
  | cons e es ih =>
    rw [find?] at h
    split at h
    · rename_i hname
      rw [← hname, ← Option.some.inj h]
      exact List.mem_cons_self
    · exact List.mem_cons_of_mem _ (ih h)

/-- An entry is found under its name, since no other one has it. -/
theorem find?_of_mem_entries (hsorted : es.Pairwise fun e e' => Bytes.order e.1 e'.1 = .lt)
    (h : (name, a) ∈ es) : find? name es = some a := by
  induction es with
  | nil => cases h
  | cons e es ih =>
    obtain ⟨he, hes⟩ := List.pairwise_cons.1 hsorted
    rcases List.mem_cons.1 h with rfl | h
    · rw [find?, if_pos rfl]
    · have hne : e.1 ≠ name := by
        intro heq
        have hlt := he _ h
        rw [heq, Bytes.order_eq_iff.2 rfl] at hlt
        cases hlt
      rw [find?, if_neg hne]
      exact ih hes h

/-- **Looking a name up** finds its entry. -/
theorem get?_eq_some_iff : t.get? name = some a ↔ (name, a) ∈ t.entries :=
  ⟨mem_entries_of_find?, find?_of_mem_entries t.sorted⟩

/-- **Tables with the same look-ups are the same.** -/
theorem ext_get? {t t' : Table α} (h : ∀ name, t.get? name = t'.get? name) : t = t' := by
  have hirrefl : ∀ {e e' : Bytes × α}, Bytes.order e.1 e'.1 = .lt → e ≠ e' := by
    rintro e _ hlt rfl
    rw [Bytes.order_eq_iff.2 rfl] at hlt
    cases hlt
  have hmem : ∀ e, e ∈ t.entries ↔ e ∈ t'.entries := fun e => by
    rw [← get?_eq_some_iff, h, get?_eq_some_iff]
  have hperm := (List.perm_ext_iff_of_nodup (t.sorted.imp hirrefl) (t'.sorted.imp hirrefl)).2 hmem
  have hentries : t.entries = t'.entries :=
    hperm.eq_of_pairwise (fun e e' _ _ hlt hgt =>
      absurd rfl (hirrefl (Bytes.order_lt_trans hlt hgt))) t.sorted t'.sorted
  obtain ⟨es, hs⟩ := t
  obtain ⟨es', hs'⟩ := t'
  cases hentries
  rfl

/-! ### Names -/

/-- The names of a table are those that a look-up finds. -/
theorem mem_names_iff : name ∈ t.names ↔ ∃ a, t.get? name = some a := by
  simp only [names, List.mem_map, Prod.exists, get?_eq_some_iff]
  constructor
  · rintro ⟨_, a, ha, rfl⟩
    exact ⟨a, ha⟩
  · rintro ⟨a, ha⟩
    exact ⟨name, a, ha, rfl⟩

theorem nodup_names (t : Table α) : t.names.Nodup := by
  refine List.pairwise_map.2 (t.sorted.imp fun {e e'} hlt heq => ?_)
  rw [heq, Bytes.order_eq_iff.2 rfl] at hlt
  cases hlt

/-! ### Several names in turn -/

theorem insertAll_append (t : Table α) (es es' : List (Bytes × α)) :
    t.insertAll (es ++ es') = (t.insertAll es).insertAll es' := by
  induction es generalizing t with
  | nil => rfl
  | cons e es ih => exact ih _

theorem get?_insertAll_of_not_mem (t : Table α) (h : name ∉ es.map Prod.fst) :
    (t.insertAll es).get? name = t.get? name := by
  induction es generalizing t with
  | nil => rfl
  | cons e es ih =>
    obtain ⟨hne, hes⟩ := not_or.1 (mt List.mem_cons.2 h)
    rw [insertAll, ih _ hes, get?_insert, if_neg hne]

/-- After several entries are put in, one of those with a name is found under it. -/
theorem exists_get?_insertAll_of_mem (t : Table α) (h : name ∈ es.map Prod.fst) :
    ∃ a, (name, a) ∈ es ∧ (t.insertAll es).get? name = some a := by
  induction es generalizing t with
  | nil => cases h
  | cons e es ih =>
    obtain ⟨n, b⟩ := e
    by_cases hes : name ∈ es.map Prod.fst
    · obtain ⟨a, ha, hget⟩ := ih (t.insert n b) hes
      exact ⟨a, List.mem_cons_of_mem _ ha, hget⟩
    · obtain rfl : name = n := (List.mem_cons.1 h).resolve_right hes
      refine ⟨b, List.mem_cons_self, ?_⟩
      rw [insertAll, get?_insertAll_of_not_mem _ hes, get?_insert, if_pos rfl]

/-- Names are those that were there and those that are put in. -/
theorem mem_names_insertAll_iff :
    name ∈ (t.insertAll es).names ↔ name ∈ t.names ∨ name ∈ es.map Prod.fst := by
  rw [mem_names_iff, mem_names_iff]
  by_cases h : name ∈ es.map Prod.fst
  · obtain ⟨a, -, hget⟩ := exists_get?_insertAll_of_mem t h
    exact ⟨fun _ => .inr h, fun _ => ⟨a, hget⟩⟩
  · rw [get?_insertAll_of_not_mem t h]
    exact ⟨.inl, fun hname => hname.resolve_right h⟩

end Table

end Scriptlet
