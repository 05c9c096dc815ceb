import EdgeClient.Basis.Literals

/-!
# Tables with a primary key

A table is a list of rows whose keys are distinct. The order of the list carries no
meaning. A statement either changes the rows of some keys or removes them, or it adds
a row, which fails when the key is taken.
-/

namespace Basis

/-- Rows with distinct keys. -/
structure Table (κ ρ : Type) (key : ρ → κ) where
  /-- The rows. -/
  rows : List ρ
  /-- No key occurs twice. -/
  nodup : (rows.map key).Nodup

namespace Table

variable {κ ρ : Type} {key : ρ → κ}

/-- A record is in a table if it is one of its rows. -/
instance : Membership ρ (Table κ ρ key) := ⟨fun t r => r ∈ t.rows⟩

/-- Membership in a table is that in the list of its rows. -/
theorem mem_def {t : Table κ ρ key} {r : ρ} : r ∈ t ↔ r ∈ t.rows := Iff.rfl

/-- A table without rows. -/
def empty : Table κ ρ key := ⟨[], List.nodup_nil⟩

/-- No record is in the empty table. -/
@[simp] theorem not_mem_empty {r : ρ} : r ∉ (empty : Table κ ρ key) := List.not_mem_nil

/-- A key determines its row. -/
theorem eq_of_key {t : Table κ ρ key} {r r' : ρ} (hr : r ∈ t) (hr' : r' ∈ t)
    (hkey : key r = key r') : r = r' := List.inj_on_of_nodup_map t.nodup hr hr' hkey

/-- No row is stored twice, since its key is not. -/
theorem nodup_rows (t : Table κ ρ key) : t.rows.Nodup := t.nodup.of_map

/-- A table is determined by its rows in order. -/
theorem eq_of_rows {t t' : Table κ ρ key} (h : t.rows = t'.rows) : t = t' := by
  cases t
  cases t'
  cases h
  rfl

/-- Keep the rows that meet a condition: `DELETE`. -/
def keep (t : Table κ ρ key) (p : ρ → Bool) : Table κ ρ key where
  rows := t.rows.filter p
  nodup := t.nodup.sublist (List.filter_sublist.map key)

/-- `keep` leaves the records that satisfy the predicate. -/
@[simp] theorem mem_keep {t : Table κ ρ key} {p : ρ → Bool} {r : ρ} :
    r ∈ t.keep p ↔ r ∈ t ∧ p r = true := List.mem_filter

/-- `keep` filters the rows and does not reorder them. -/
@[simp] theorem rows_keep {t : Table κ ρ key} {p : ρ → Bool} : (t.keep p).rows = t.rows.filter p :=
  rfl

/-- Rewrite the rows without touching the keys: `UPDATE`. -/
def update (t : Table κ ρ key) (f : ρ → ρ) (hf : ∀ r, key (f r) = key r) : Table κ ρ key where
  rows := t.rows.map f
  nodup := by
    rw [List.map_map, show key ∘ f = key from funext hf]
    exact t.nodup

/-- `update` applies the function to each record. -/
@[simp] theorem mem_update {t : Table κ ρ key} {f : ρ → ρ} {hf : ∀ r, key (f r) = key r} {r : ρ} :
    r ∈ t.update f hf ↔ ∃ r' ∈ t, f r' = r := List.mem_map

/-- `update` applies the function to each row and does not reorder them. -/
@[simp] theorem rows_update {t : Table κ ρ key} {f : ρ → ρ} {hf : ∀ r, key (f r) = key r} :
    (t.update f hf).rows = t.rows.map f := rfl

variable [DecidableEq κ]

/-- The row of a key: `SELECT`. -/
def find (t : Table κ ρ key) (k : κ) : Option ρ := t.rows.find? fun r => key r = k

/-- The record found under a key is the one in the table with that key. Keys are distinct, so
there is only one such record. -/
theorem find_eq_some {t : Table κ ρ key} {k : κ} {r : ρ} :
    t.find k = some r ↔ r ∈ t ∧ key r = k := by
  constructor
  · intro h
    exact ⟨List.mem_of_find?_eq_some h, by simpa using List.find?_some h⟩
  · rintro ⟨hr, rfl⟩
    cases hfind : t.find (key r) with
    | none =>
      have hnone := List.find?_eq_none.mp hfind r hr
      simp at hnone
    | some r' =>
      have hkey : key r' = key r := by simpa using List.find?_some hfind
      rw [eq_of_key (List.mem_of_find?_eq_some hfind) hr hkey]

/-- Nothing is found under a key if no record has it. -/
theorem find_eq_none {t : Table κ ρ key} {k : κ} : t.find k = none ↔ ∀ r ∈ t, key r ≠ k := by
  simp [find, mem_def]

/-- Add a row unless its key is taken: `INSERT`. The statement fails on a primary key that is
taken, and the table stays as it is. -/
def insert (t : Table κ ρ key) (r : ρ) : Option (Table κ ρ key) :=
  if h : key r ∈ t.rows.map key then none
  else some
    { rows := t.rows ++ [r]
      nodup := by
        rw [List.map_append, List.map_singleton, List.nodup_append]
        refine ⟨t.nodup, List.nodup_singleton _, ?_⟩
        rintro k hk k' hk' rfl
        exact h (List.mem_singleton.mp hk' ▸ hk) }

/-- What an `INSERT` that succeeds does. -/
theorem insert_eq_some {t t' : Table κ ρ key} {r : ρ} (h : t.insert r = some t') :
    (∀ r' ∈ t, key r' ≠ key r) ∧ t'.rows = t.rows ++ [r] := by
  unfold insert at h
  split at h
  · cases h
  · rename_i hfresh
    cases h
    exact ⟨fun r' hr' hkey => hfresh (List.mem_map.mpr ⟨r', hr', hkey⟩), rfl⟩

/-- After an insertion, the table has the old records and the new one. -/
theorem mem_of_insert {t t' : Table κ ρ key} {r r' : ρ} (h : t.insert r = some t') :
    r' ∈ t' ↔ r' ∈ t ∨ r' = r := by
  rw [mem_def, (insert_eq_some h).2, List.mem_append, List.mem_singleton, mem_def]

/-- An `INSERT` under a free key succeeds. -/
theorem insert_of_free {t : Table κ ρ key} {r : ρ} (h : ∀ r' ∈ t, key r' ≠ key r) :
    ∃ t', t.insert r = some t' := by
  have hfresh : key r ∉ t.rows.map key := by
    intro hmem
    obtain ⟨r', hr', hkey⟩ := List.mem_map.mp hmem
    exact h r' hr' hkey
  exact ⟨_, dif_neg hfresh⟩

end Table

end Basis
