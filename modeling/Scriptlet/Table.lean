import Scriptlet.Bytes

/-!
# Tables

A **table** binds names to values: the variables of a scope, the functions of a script, the
documents an editor has open. Its entries are kept in the order of their names, each name
once, and the proof of that is part of the table; so two tables with the same look-ups are
the same table, and listing a table needs no sorting.
-/

namespace Scriptlet

/-- A finite map from names to values. -/
structure Table (α : Type) where
  /-- The entries, in the order of their names. -/
  entries : List (Bytes × α)
  /-- The names strictly increase. -/
  sorted : entries.Pairwise fun e e' => Bytes.order e.1 e'.1 = .lt

namespace Table

variable {α : Type}

/-- The table without entries. -/
def empty : Table α := ⟨[], .nil⟩

instance : Inhabited (Table α) := ⟨empty⟩

/-! ### Entries in order -/

/-- The value of a name in a list of entries. -/
def find? (name : Bytes) : List (Bytes × α) → Option α
  | [] => none
  | (n, a) :: es => if n = name then some a else find? name es

/-- The entries with a name bound anew. -/
def place (name : Bytes) (a : α) : List (Bytes × α) → List (Bytes × α)
  | [] => [(name, a)]
  | (n, b) :: es =>
    match Bytes.order name n with
    | .lt => (name, a) :: (n, b) :: es
    | .eq => (name, a) :: es
    | .gt => (n, b) :: place name a es

theorem fst_mem_place {name : Bytes} {a : α} {es : List (Bytes × α)} {e : Bytes × α}
    (h : e ∈ place name a es) : e.1 = name ∨ ∃ e' ∈ es, e'.1 = e.1 := by
  induction es with
  | nil => simp_all [place]
  | cons x es ih =>
    simp only [place] at h
    split at h
    · rcases List.mem_cons.1 h with rfl | h
      · exact .inl rfl
      · exact .inr ⟨e, h, rfl⟩
    · rcases List.mem_cons.1 h with rfl | h
      · exact .inl rfl
      · exact .inr ⟨e, List.mem_cons_of_mem _ h, rfl⟩
    · rcases List.mem_cons.1 h with rfl | h
      · exact .inr ⟨_, List.mem_cons_self, rfl⟩
      · rcases ih h with h | ⟨e', he', h'⟩
        · exact .inl h
        · exact .inr ⟨e', List.mem_cons_of_mem _ he', h'⟩

theorem sorted_place (name : Bytes) (a : α) {es : List (Bytes × α)}
    (h : es.Pairwise fun e e' => Bytes.order e.1 e'.1 = .lt) :
    (place name a es).Pairwise fun e e' => Bytes.order e.1 e'.1 = .lt := by
  induction es with
  | nil => simp [place]
  | cons x es ih =>
    obtain ⟨hx, hes⟩ := List.pairwise_cons.1 h
    simp only [place]
    split
    · rename_i hlt
      refine List.pairwise_cons.2 ⟨fun e he => ?_, h⟩
      rcases List.mem_cons.1 he with rfl | he
      · exact hlt
      · exact Bytes.order_lt_trans hlt (hx e he)
    · rename_i heq
      rw [Bytes.order_eq_iff] at heq
      exact List.pairwise_cons.2 ⟨fun e he => heq ▸ hx e he, hes⟩
    · rename_i hgt
      refine List.pairwise_cons.2 ⟨fun e he => ?_, ih hes⟩
      -- the placed entry comes later, and the others were there
      rcases fst_mem_place he with h | ⟨e', he', h⟩
      · rw [h, ← Bytes.order_swap, hgt]
        rfl
      · exact h ▸ hx e' he'

/-- The placed entry is found under its name, and the others as before. -/
theorem find?_place (name : Bytes) (a : α) (other : Bytes) (es : List (Bytes × α)) :
    find? other (place name a es) = if other = name then some a else find? other es := by
  induction es with
  | nil =>
    by_cases h : other = name
    · simp [place, find?, h]
    · simp [place, find?, h, Ne.symm h]
  | cons e es ih =>
    simp only [place]
    split
    · by_cases h : other = name
      · simp [find?, h]
      · simp [find?, h, Ne.symm h]
    · rename_i heq
      rw [Bytes.order_eq_iff] at heq
      by_cases h : other = name
      · simp [find?, h]
      · simp [find?, h, Ne.symm h, ← heq]
    · rename_i hgt
      -- the entry is placed further on, so the one in front has another name
      have hne : e.1 ≠ name := by
        intro he
        rw [← he, Bytes.order_eq_iff.2 rfl] at hgt
        cases hgt
      by_cases h : other = name
      · subst h
        simp [find?, ih, hne]
      · simp [find?, ih, h]

/-- Without the entries of a name there is nothing under it. -/
theorem find?_filter_ne (name other : Bytes) (es : List (Bytes × α)) :
    find? other (es.filter fun e => e.1 ≠ name) =
      if other = name then none else find? other es := by
  induction es with
  | nil => simp [find?]
  | cons e es ih =>
    obtain ⟨n, b⟩ := e
    by_cases hn : n = name
    · rw [List.filter_cons_of_neg (by simp [hn]), ih]
      by_cases h : other = name
      · rw [if_pos h, if_pos h]
      · rw [if_neg h, if_neg h, find?, if_neg (fun hno : n = other => h (hno.symm.trans hn))]
    · rw [List.filter_cons_of_pos (by simp [hn]), find?, ih, find?]
      by_cases h : other = name
      · rw [if_pos h, if_pos h, if_neg (fun hno : n = other => hn (hno.trans h))]
      · rw [if_neg h, if_neg h]

/-! ### Tables -/

/-- The value of a name. -/
def get? (t : Table α) (name : Bytes) : Option α :=
  find? name t.entries

/-- The table with a name bound anew. -/
def insert (t : Table α) (name : Bytes) (a : α) : Table α :=
  ⟨place name a t.entries, sorted_place name a t.sorted⟩

/-- The table without a name. -/
def erase (t : Table α) (name : Bytes) : Table α :=
  ⟨t.entries.filter fun e => e.1 ≠ name, t.sorted.filter _⟩

@[simp]
theorem get?_empty (name : Bytes) : (empty : Table α).get? name = none := rfl

/-- A look-up after an insertion. -/
theorem get?_insert (t : Table α) (name : Bytes) (a : α) (other : Bytes) :
    (t.insert name a).get? other = if other = name then some a else t.get? other :=
  find?_place name a other t.entries

/-- A look-up after an erasure. -/
theorem get?_erase (t : Table α) (name other : Bytes) :
    (t.erase name).get? other = if other = name then none else t.get? other :=
  find?_filter_ne name other t.entries

/-- The names of a table, in order. -/
def names (t : Table α) : List Bytes :=
  t.entries.map Prod.fst

/-- How many names a table binds. -/
def size (t : Table α) : Nat :=
  t.entries.length

/-- The table that binds names to values in turn, a later binding replacing an earlier
one. -/
def insertAll (t : Table α) : List (Bytes × α) → Table α
  | [] => t
  | (name, a) :: es => (t.insert name a).insertAll es

end Table

end Scriptlet
