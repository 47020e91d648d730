import Mathlib.Algebra.BigOperators.Group.List.Basic
import Mathlib.Algebra.Order.Ring.Int
import Mathlib.Tactic.Ring

/-! # Tables with a unique key

A table is a finite list of rows, each under its own key. Its operations are
those of a relational store: `upsert` writes the row of one key, creating it
when there is none, `modify` changes the row of a key that has one, and
`modifyWhere` changes every row whose key satisfies a condition. A total over
the rows (`Table.total`) changes under each of them by the contribution of the
rows that were written.
-/

/-- A finite table whose rows have distinct keys. -/
structure Table (κ ρ : Type) where
  rows : List (κ × ρ)
  unique : (rows.map Prod.fst).Nodup

namespace Table

variable {κ ρ τ : Type}

@[ext] theorem ext {first second : Table κ ρ} (same : first.rows = second.rows) :
    first = second := by
  cases first; cases second; subst same; rfl

/-- The table without rows. -/
def empty : Table κ ρ := ⟨[], List.nodup_nil⟩

/-- Change the columns of every row. -/
def map (columns : ρ → τ) (table : Table κ ρ) : Table κ τ where
  rows := table.rows.map fun row => (row.1, columns row.2)
  unique := by
    rw [List.map_map]
    exact table.unique

/-- The total of an integer column over the rows whose key is selected. -/
def total (selected : κ → Bool) (column : ρ → Int) (table : Table κ ρ) : Int :=
  ((table.rows.filter fun row => selected row.1).map fun row => column row.2).sum

/-- The number of rows whose key is selected. -/
def count (selected : κ → Bool) (table : Table κ ρ) : Nat :=
  table.rows.countP fun row => selected row.1

/-- Change the columns of the rows whose key is selected. -/
def modifyWhere (selected : κ → Bool) (change : ρ → ρ) (table : Table κ ρ) : Table κ ρ where
  rows := table.rows.map fun row => (row.1, if selected row.1 then change row.2 else row.2)
  unique := by
    rw [List.map_map]
    exact table.unique

variable [DecidableEq κ]

/-- The row under a key. -/
def find? (table : Table κ ρ) (key : κ) : Option ρ := table.rows.lookup key

/-- The rows after writing one key: its row changed, or a new one at the end. -/
def upsertRows (key : κ) (create : ρ) (change : ρ → ρ) : List (κ × ρ) → List (κ × ρ)
  | [] => [(key, create)]
  | (own, columns) :: rest =>
      if own = key then (own, change columns) :: rest
      else (own, columns) :: upsertRows key create change rest

/-- Writing a key keeps the keys in order and adds the key when it was missing. -/
theorem upsertRows_keys (key : κ) (create : ρ) (change : ρ → ρ) (rows : List (κ × ρ)) :
    (upsertRows key create change rows).map Prod.fst =
      if key ∈ rows.map Prod.fst then rows.map Prod.fst else rows.map Prod.fst ++ [key] := by
  induction rows with
  | nil => simp [upsertRows]
  | cons row rest ih =>
      obtain ⟨own, columns⟩ := row
      by_cases same : own = key
      · simp [upsertRows, same]
      · have other : key ≠ own := Ne.symm same
        simp only [upsertRows, same, ↓reduceIte, List.map_cons, ih, List.mem_cons, other,
          false_or, List.cons_append]
        split <;> rfl

/-- Write the row under a key: change it, or create it when there is none. -/
def upsert (key : κ) (create : ρ) (change : ρ → ρ) (table : Table κ ρ) : Table κ ρ where
  rows := upsertRows key create change table.rows
  unique := by
    rw [upsertRows_keys]
    split
    · exact table.unique
    · rename_i absent
      rw [List.nodup_append]
      refine ⟨table.unique, by simp, fun other member last single same => ?_⟩
      rw [List.mem_singleton] at single
      exact absent (single ▸ same ▸ member)

/-- Change the row under a key, if there is one. -/
def modify (key : κ) (change : ρ → ρ) (table : Table κ ρ) : Table κ ρ :=
  table.modifyWhere (fun other => decide (other = key)) change

/-- Create the row under a key unless there is one. -/
def insertNew (key : κ) (create : ρ) (table : Table κ ρ) : Table κ ρ :=
  table.upsert key create id

/-! ## Reading back -/

@[simp] theorem find?_empty (key : κ) : (empty : Table κ ρ).find? key = none := rfl

private theorem lookup_upsertRows (key other : κ) (create : ρ) (change : ρ → ρ)
    (rows : List (κ × ρ)) :
    (upsertRows key create change rows).lookup other =
      if other = key then some ((rows.lookup key).elim create change) else rows.lookup other := by
  induction rows with
  | nil =>
      by_cases same : other = key
      · simp [upsertRows, same]
      · simp [upsertRows, List.lookup_cons, same, beq_false_of_ne same]
  | cons row rest ih =>
      obtain ⟨own, columns⟩ := row
      by_cases mine : own = key
      · subst mine
        by_cases same : other = own
        · simp [upsertRows, same]
        · simp [upsertRows, List.lookup_cons, same, beq_false_of_ne same]
      · have keyOther : key ≠ own := Ne.symm mine
        simp only [upsertRows, mine, ↓reduceIte, List.lookup_cons, ih]
        by_cases same : other = key
        · subst same
          simp [beq_false_of_ne keyOther]
        · simp only [same, ↓reduceIte]

@[simp] theorem find?_upsert (table : Table κ ρ) (key other : κ) (create : ρ) (change : ρ → ρ) :
    (table.upsert key create change).find? other =
      if other = key then some ((table.find? key).elim create change) else table.find? other :=
  lookup_upsertRows key other create change table.rows

private theorem lookup_map (columns : κ → ρ → τ) (key : κ) (rows : List (κ × ρ)) :
    (rows.map fun row => (row.1, columns row.1 row.2)).lookup key =
      (rows.lookup key).map (columns key) := by
  induction rows with
  | nil => rfl
  | cons row rest ih =>
      obtain ⟨own, old⟩ := row
      simp only [List.map_cons, List.lookup_cons, ih]
      by_cases same : key = own
      · subst same
        simp
      · simp [beq_false_of_ne same]

@[simp] theorem find?_map (table : Table κ ρ) (columns : ρ → τ) (key : κ) :
    (table.map columns).find? key = (table.find? key).map columns :=
  lookup_map (fun _ => columns) key table.rows

@[simp] theorem find?_modifyWhere (table : Table κ ρ) (selected : κ → Bool) (change : ρ → ρ)
    (key : κ) :
    (table.modifyWhere selected change).find? key =
      (table.find? key).map fun row => if selected key then change row else row :=
  lookup_map (fun key row => if selected key then change row else row) key table.rows

@[simp] theorem find?_modify (table : Table κ ρ) (key other : κ) (change : ρ → ρ) :
    (table.modify key change).find? other =
      if other = key then (table.find? key).map change else table.find? other := by
  by_cases same : other = key
  · subst same
    simp [modify]
  · simp [modify, same]

@[simp] theorem find?_insertNew (table : Table κ ρ) (key other : κ) (create : ρ) :
    (table.insertNew key create).find? other =
      if other = key then some ((table.find? key).getD create) else table.find? other := by
  unfold insertNew
  rw [find?_upsert]
  cases table.find? key <;> rfl

/-- A row of the table is the row under its key. -/
theorem mem_rows_iff (table : Table κ ρ) (key : κ) (row : ρ) :
    (key, row) ∈ table.rows ↔ table.find? key = some row := by
  obtain ⟨rows, unique⟩ := table
  change (key, row) ∈ rows ↔ rows.lookup key = some row
  induction rows with
  | nil => simp
  | cons first rest ih =>
      obtain ⟨own, columns⟩ := first
      simp only [List.map_cons, List.nodup_cons] at unique
      by_cases same : key = own
      · subst same
        have later : (key, row) ∉ rest := fun member => unique.1 (List.mem_map_of_mem member)
        simp [later, eq_comm]
      · simpa [List.lookup_cons, beq_false_of_ne same, same] using ih unique.2

/-! ## Views

A view keeps some columns of every row. Writing and then viewing is viewing and
then writing the columns that are kept. -/

private theorem map_upsertRows (columns : ρ → τ) (key : κ) (create : ρ) (change : ρ → ρ)
    (kept : τ → τ) (commutes : ∀ row, columns (change row) = kept (columns row))
    (rows : List (κ × ρ)) :
    (upsertRows key create change rows).map (fun row => (row.1, columns row.2)) =
      upsertRows key (columns create) kept (rows.map fun row => (row.1, columns row.2)) := by
  induction rows with
  | nil => rfl
  | cons row rest ih =>
      obtain ⟨own, old⟩ := row
      by_cases mine : own = key
      · simp [upsertRows, mine, commutes]
      · simp [upsertRows, mine, ih]

/-- Viewing after a write of one key. -/
theorem map_upsert (table : Table κ ρ) (columns : ρ → τ) (key : κ) (create : ρ) (change : ρ → ρ)
    (kept : τ → τ) (commutes : ∀ row, columns (change row) = kept (columns row)) :
    (table.upsert key create change).map columns =
      (table.map columns).upsert key (columns create) kept :=
  Table.ext (map_upsertRows columns key create change kept commutes table.rows)

omit [DecidableEq κ] in
/-- Viewing after a write of the selected rows. -/
theorem map_modifyWhere (table : Table κ ρ) (columns : ρ → τ) (selected : κ → Bool)
    (change : ρ → ρ) (kept : τ → τ) (commutes : ∀ row, columns (change row) = kept (columns row)) :
    (table.modifyWhere selected change).map columns =
      (table.map columns).modifyWhere selected kept := by
  apply Table.ext
  simp only [map, modifyWhere, List.map_map]
  apply List.map_congr_left
  intro row _
  simp only [Function.comp_apply]
  split
  · rw [commutes]
  · rfl

/-- Viewing after a change of one key. -/
theorem map_modify (table : Table κ ρ) (columns : ρ → τ) (key : κ) (change : ρ → ρ)
    (kept : τ → τ) (commutes : ∀ row, columns (change row) = kept (columns row)) :
    (table.modify key change).map columns = (table.map columns).modify key kept :=
  table.map_modifyWhere columns _ change kept commutes

theorem map_insertNew (table : Table κ ρ) (columns : ρ → τ) (key : κ) (create : ρ) :
    (table.insertNew key create).map columns =
      (table.map columns).insertNew key (columns create) :=
  table.map_upsert columns key create id id fun _ => rfl

/-! ## Writes that change nothing -/

omit [DecidableEq κ] in
theorem modifyWhere_id (table : Table κ ρ) (selected : κ → Bool) :
    table.modifyWhere selected id = table := by
  apply Table.ext
  simp [modifyWhere]

theorem modify_id (table : Table κ ρ) (key : κ) : table.modify key id = table :=
  table.modifyWhere_id _

/-- Two writes of a key that leave the same row leave the same table. -/
theorem upsert_congr (table : Table κ ρ) (key : κ) {create create' : ρ} {change change' : ρ → ρ}
    (same : (table.find? key).elim create change = (table.find? key).elim create' change') :
    table.upsert key create change = table.upsert key create' change' := by
  apply Table.ext
  change upsertRows key create change table.rows = upsertRows key create' change' table.rows
  unfold find? at same
  revert same
  induction table.rows with
  | nil =>
      intro same
      simpa [upsertRows] using same
  | cons row rest ih =>
      obtain ⟨own, columns⟩ := row
      intro same
      by_cases mine : own = key
      · subst mine
        simpa [upsertRows, List.lookup_cons] using same
      · have other : key ≠ own := Ne.symm mine
        simp only [List.lookup_cons, beq_false_of_ne other] at same
        simp only [upsertRows, mine, ↓reduceIte]
        rw [ih same]

/-- Writing a key whose row the change leaves as it is leaves the table as it is. -/
theorem upsert_eq_self (table : Table κ ρ) (key : κ) (create : ρ) (change : ρ → ρ)
    (fixed : (table.find? key).map change = table.find? key)
    (present : (table.find? key).isSome) :
    table.upsert key create change = table := by
  apply Table.ext
  change upsertRows key create change table.rows = table.rows
  unfold find? at fixed present
  revert fixed present
  induction table.rows with
  | nil => simp
  | cons row rest ih =>
      obtain ⟨own, columns⟩ := row
      intro fixed present
      by_cases mine : own = key
      · subst mine
        simpa [upsertRows, List.lookup_cons] using fixed
      · have other : key ≠ own := Ne.symm mine
        simp only [List.lookup_cons, beq_false_of_ne other] at fixed present
        simp only [upsertRows, mine, ↓reduceIte]
        rw [ih fixed present]

theorem insertNew_of_isSome (table : Table κ ρ) (key : κ) (create : ρ)
    (present : (table.find? key).isSome) : table.insertNew key create = table :=
  upsert_eq_self table key create id (by simp) present

/-- Writing a key that has no row adds one at the end. -/
theorem rows_upsert_of_not_mem (table : Table κ ρ) (key : κ) (create : ρ) (change : ρ → ρ)
    (fresh : key ∉ table.rows.map Prod.fst) :
    (table.upsert key create change).rows = table.rows ++ [(key, create)] := by
  change upsertRows key create change table.rows = _
  revert fresh
  induction table.rows with
  | nil => intro _; rfl
  | cons row rest ih =>
      obtain ⟨own, columns⟩ := row
      intro fresh
      rw [List.map_cons, List.mem_cons, not_or] at fresh
      have other : own ≠ key := Ne.symm fresh.1
      simp only [upsertRows, other, ↓reduceIte, ih fresh.2, List.cons_append]

/-! ## Equal tables -/

omit [DecidableEq κ] in
@[simp] theorem keys_modifyWhere (table : Table κ ρ) (selected : κ → Bool) (change : ρ → ρ) :
    (table.modifyWhere selected change).rows.map Prod.fst = table.rows.map Prod.fst := by
  simp only [modifyWhere, List.map_map]
  rfl

private theorem eq_of_lookup {first second : List (κ × ρ)}
    (distinct : (first.map Prod.fst).Nodup) (keys : first.map Prod.fst = second.map Prod.fst)
    (found : ∀ key, first.lookup key = second.lookup key) : first = second := by
  induction first generalizing second with
  | nil =>
      cases second with
      | nil => rfl
      | cons row rest => cases keys
  | cons row rest ih =>
      obtain ⟨own, columns⟩ := row
      cases second with
      | nil => cases keys
      | cons other others =>
          obtain ⟨key, columnsOther⟩ := other
          simp only [List.map_cons, List.cons.injEq, List.nodup_cons] at keys distinct
          obtain ⟨rfl, keysRest⟩ := keys
          obtain ⟨fresh, distinctRest⟩ := distinct
          have same : columns = columnsOther := by simpa using found own
          subst same
          congr 1
          refine ih distinctRest keysRest fun wanted => ?_
          by_cases mine : wanted = own
          · -- Neither rest has a row under a key that occurs before it.
            subst mine
            have freshOther : wanted ∉ others.map Prod.fst := keysRest ▸ fresh
            have missing : ∀ rows : List (κ × ρ), wanted ∉ rows.map Prod.fst →
                rows.lookup wanted = none := by
              intro rows absent
              rw [List.lookup_eq_none_iff]
              intro row member
              have apart : wanted ≠ row.1 := by
                rintro rfl
                exact absent (List.mem_map_of_mem member)
              exact bne_iff_ne.mpr apart
            rw [missing rest fresh, missing others freshOther]
          · simpa [List.lookup_cons, beq_false_of_ne mine] using found wanted

/-- Two tables with the same keys in the same order and the same row under each
key are equal. -/
theorem ext_find? {first second : Table κ ρ}
    (keys : first.rows.map Prod.fst = second.rows.map Prod.fst)
    (found : ∀ key, first.find? key = second.find? key) : first = second :=
  Table.ext (eq_of_lookup first.unique keys found)

/-! ## Totals -/

variable (selected : κ → Bool) (column : ρ → Int)

private theorem total_upsertRows (key : κ) (create : ρ) (change : ρ → ρ) (rows : List (κ × ρ)) :
    (((upsertRows key create change rows).filter fun row => selected row.1).map
        fun row => column row.2).sum =
      ((rows.filter fun row => selected row.1).map fun row => column row.2).sum +
        if selected key then
          (rows.lookup key).elim (column create) fun row => column (change row) - column row
        else 0 := by
  induction rows with
  | nil =>
      by_cases member : selected key
      · simp [upsertRows, member]
      · simp [upsertRows, member]
  | cons row rest ih =>
      obtain ⟨own, old⟩ := row
      by_cases mine : own = key
      · subst mine
        by_cases member : selected own
        · simp [upsertRows, member]
          ring
        · simp [upsertRows, member]
      · have other : key ≠ own := Ne.symm mine
        by_cases member : selected own
        · simp only [upsertRows, mine, ↓reduceIte, List.filter_cons, member, List.map_cons,
            List.sum_cons, ih, List.lookup_cons, beq_false_of_ne other]
          ring
        · simp only [upsertRows, mine, ↓reduceIte, List.filter_cons, member, Bool.false_eq_true,
            ih, List.lookup_cons, beq_false_of_ne other]

/-- **Totals under a write.** Writing one key moves a total by what the row of
that key contributes more than before. -/
theorem total_upsert (table : Table κ ρ) (key : κ) (create : ρ) (change : ρ → ρ) :
    (table.upsert key create change).total selected column =
      table.total selected column +
        if selected key then
          (table.find? key).elim (column create) fun row => column (change row) - column row
        else 0 :=
  total_upsertRows selected column key create change table.rows

omit [DecidableEq κ] in
/-- A total over a view is the total of the column the view shows. -/
theorem total_map (table : Table κ τ) (columns : τ → ρ) :
    (table.map columns).total selected column =
      table.total selected fun row => column (columns row) := by
  simp only [total, map, List.filter_map, List.map_map]
  rfl

omit [DecidableEq κ] in
/-- **Totals under a write of many rows.** Adding one amount to the column of
every selected row moves the total by that amount for each of them. -/
theorem total_modifyWhere_same (table : Table κ ρ) (change : ρ → ρ) (amount : Int)
    (adds : ∀ row, column (change row) = column row + amount) :
    (table.modifyWhere selected change).total selected column =
      table.total selected column + table.count selected * amount := by
  simp only [total, modifyWhere, count]
  induction table.rows with
  | nil => simp
  | cons row rest ih =>
      by_cases member : selected row.1
      · simp [member, ih, adds]
        ring
      · simp [member, ih]

omit [DecidableEq κ] in
/-- A write of rows outside the selection leaves the total as it is. -/
theorem total_modifyWhere_disjoint (table : Table κ ρ) (written : κ → Bool) (change : ρ → ρ)
    (disjoint : ∀ key, selected key → written key = false) :
    (table.modifyWhere written change).total selected column = table.total selected column := by
  simp only [total, modifyWhere]
  induction table.rows with
  | nil => rfl
  | cons row rest ih =>
      by_cases member : selected row.1
      · simp [member, ih, disjoint row.1 member]
      · simp [member, ih]

omit [DecidableEq κ] in
/-- A write that leaves the column of every row as it is leaves its total as it is. -/
theorem total_modifyWhere_fixed (table : Table κ ρ) (written : κ → Bool) (change : ρ → ρ)
    (fixed : ∀ row, column (change row) = column row) :
    (table.modifyWhere written change).total selected column = table.total selected column := by
  have same : ∀ row : κ × ρ,
      column (if written row.1 then change row.2 else row.2) = column row.2 := by
    intro row
    split
    · exact fixed row.2
    · rfl
  simp only [total, modifyWhere, List.filter_map, List.map_map, Function.comp_def, same]

/-- A total over keys without rows is nothing. -/
theorem total_eq_zero (table : Table κ ρ)
    (none : ∀ key, selected key → table.find? key = Option.none) :
    table.total selected column = 0 := by
  have nothing : table.rows.filter (fun row => selected row.1) = [] := by
    rw [List.filter_eq_nil_iff]
    intro row member chosen
    have missing := List.lookup_eq_none_iff.mp (none row.1 chosen) row member
    exact absurd missing (by simp)
  rw [total, nothing]
  rfl

/-- The total over one key is the column of the row under it. -/
theorem total_single (table : Table κ ρ) (key : κ) :
    table.total (fun other => decide (other = key)) column =
      ((table.find? key).map column).getD 0 := by
  obtain ⟨rows, unique⟩ := table
  simp only [total, find?]
  induction rows with
  | nil => rfl
  | cons row rest ih =>
      obtain ⟨own, columns⟩ := row
      simp only [List.map_cons, List.nodup_cons] at unique
      by_cases same : own = key
      · subst same
        -- No later row is under the key again.
        have nothing : rest.filter (fun row => decide (row.1 = own)) = [] := by
          rw [List.filter_eq_nil_iff]
          intro row member selected
          exact unique.1 (of_decide_eq_true selected ▸ List.mem_map_of_mem member)
        simp [nothing]
      · have other : key ≠ own := Ne.symm same
        simpa [same, List.lookup_cons, beq_false_of_ne other] using ih unique.2

end Table

/-- Sums over the groups of a list add up to the sum over the items that are in one of them. -/
theorem List.sum_groups {ι γ : Type} [DecidableEq γ] (group : ι → γ) (column : ι → Int)
    {groups : List γ} (distinct : groups.Nodup) (items : List ι) :
    (groups.map fun label =>
        ((items.filter fun item => group item = label).map column).sum).sum =
      ((items.filter fun item => group item ∈ groups).map column).sum := by
  induction groups with
  | nil => simp
  | cons label rest ih =>
      obtain ⟨fresh, distinct⟩ := List.nodup_cons.mp distinct
      rw [List.map_cons, List.sum_cons, ih distinct]
      -- An item is counted under the first label or under one of the others.
      clear ih
      induction items with
      | nil => rfl
      | cons item others ih =>
          by_cases first : group item = label
          · have elsewhere : group item ∉ rest := first ▸ fresh
            rw [first] at elsewhere
            simp only [List.filter_cons, first, List.mem_cons, true_or, decide_true, ↓reduceIte,
              List.map_cons, List.sum_cons] at ih ⊢
            simp only [elsewhere, decide_false, Bool.false_eq_true, ↓reduceIte]
            rw [← ih, add_assoc]
          · by_cases later : group item ∈ rest
            · simp only [List.filter_cons, first, later, List.mem_cons, false_or, decide_true,
                decide_false, ↓reduceIte, Bool.false_eq_true, List.map_cons, List.sum_cons] at ih ⊢
              rw [← ih]
              ring
            · simp only [List.filter_cons, first, later, List.mem_cons, or_self, decide_false,
                ↓reduceIte, Bool.false_eq_true] at ih ⊢
              exact ih

