import Kanban.Lib.Program
import Mathlib.Data.List.Nodup

/-!
# Tables and their statements

A table is a list of rows of a store.  The statements below read and write the rows of
one table that meet a condition; a row is identified by `same`, the equality of
primary keys.

## Main definitions

* `Table` — a table of a store.
* `Table.put`, `Table.del` — a row write.
* `Table.select`, `Table.update`, `Table.insert`, `Table.insertIgnore`, `Table.upsert`,
  `Table.delete` — the statements.
* `Table.Within` — a statement writes rows of one table only.
* `Table.Stored` — the rows of a table after some writes.
-/

namespace Program

variable {σ ρ τ : Type}

/-- A table of the store: its rows, its records, and when two rows have one key. -/
structure Table (σ ρ τ : Type) where
  rows : σ → List τ
  record : τ → ρ
  same : τ → τ → Bool

namespace Table

/-- Replace the row with the same key, or append the row. -/
def put (same : τ → τ → Bool) (r : τ) (rows : List τ) : List τ :=
  if rows.any (same r) then rows.map fun r' => if same r r' then r else r' else rows ++ [r]

/-- Remove the row with the same key. -/
def del (same : τ → τ → Bool) (r : τ) (rows : List τ) : List τ := rows.filter fun r' => !same r r'

theorem mem_put {same : τ → τ → Bool} {r r' : τ} {rows : List τ} (h : r' ∈ put same r rows) :
    r' = r ∨ r' ∈ rows ∧ same r r' = false := by
  unfold put at h
  split at h
  · obtain ⟨r₀, hr₀, rfl⟩ := List.mem_map.mp h
    by_cases hs : same r r₀
    · exact .inl (if_pos hs)
    · rw [if_neg hs]
      exact .inr ⟨hr₀, by simpa using hs⟩
  · rename_i hnone
    rcases List.mem_append.mp h with hold | hnew
    · refine .inr ⟨hold, ?_⟩
      simp only [List.any_eq_true, not_exists, not_and, Bool.not_eq_true] at hnone
      exact hnone r' hold
    · exact .inl (List.mem_singleton.mp hnew)

/-- The row that was put is there. -/
theorem mem_put_self {same : τ → τ → Bool} {r : τ} {rows : List τ} : r ∈ put same r rows := by
  unfold put
  split
  · rename_i hany
    obtain ⟨r₀, hr₀, hs⟩ := List.any_eq_true.mp hany
    exact List.mem_map.mpr ⟨r₀, hr₀, if_pos hs⟩
  · exact List.mem_append_right _ (List.mem_singleton_self r)

/-- A row with another key stays. -/
theorem mem_put_of_mem {same : τ → τ → Bool} {r r' : τ} {rows : List τ} (h : r' ∈ rows)
    (hs : same r r' = false) : r' ∈ put same r rows := by
  unfold put
  split
  · exact List.mem_map.mpr ⟨r', h, by simp [hs]⟩
  · exact List.mem_append_left _ h

theorem mem_put_iff {same : τ → τ → Bool} {r r' : τ} {rows : List τ} :
    r' ∈ put same r rows ↔ r' = r ∨ r' ∈ rows ∧ same r r' = false := by
  refine ⟨mem_put, ?_⟩
  rintro (rfl | ⟨h, hs⟩)
  · exact mem_put_self
  · exact mem_put_of_mem h hs

/-- A property of some row survives if the row that is put has it in place of the row that it
replaces. -/
theorem exists_mem_put {same : τ → τ → Bool} {r : τ} {rows : List τ} {p : τ → Prop}
    (h : ∃ r' ∈ rows, p r') (hp : ∀ r' ∈ rows, same r r' = true → p r' → p r) :
    ∃ r' ∈ put same r rows, p r' := by
  obtain ⟨r', hr', hpr⟩ := h
  by_cases hs : same r r' = true
  · exact ⟨r, mem_put_self, hp r' hr' hs hpr⟩
  · exact ⟨r', mem_put_of_mem hr' (by simpa using hs), hpr⟩

@[simp] theorem mem_del {same : τ → τ → Bool} {r r' : τ} {rows : List τ} :
    r' ∈ del same r rows ↔ r' ∈ rows ∧ same r r' = false := by
  simp [del]

/-- The rows with the key of the row that was put. -/
theorem filter_put {same : τ → τ → Bool} {r : τ} (rows : List τ) (hr : same r r) :
    (put same r rows).filter (same r) =
      if rows.filter (same r) = [] then [r] else (rows.filter (same r)).map fun _ => r := by
  have hmap : (rows.map fun r' => if same r r' then r else r').filter (same r) =
      (rows.filter (same r)).map fun _ => r := by
    induction rows with
    | nil => rfl
    | cons r' rows ih =>
        by_cases h : same r r' = true
        · simp [h, hr, ih]
        · simp [h, ih]
  unfold put
  by_cases hany : rows.any (same r) = true
  · have hne : rows.filter (same r) ≠ [] := by
      obtain ⟨r', hr', hs⟩ := List.any_eq_true.mp hany
      exact List.ne_nil_of_mem (List.mem_filter.mpr ⟨hr', hs⟩)
    rw [if_pos hany, hmap, if_neg hne]
  · have hnil : rows.filter (same r) = [] := by
      refine List.filter_eq_nil_iff.mpr fun r' hr' hs => hany ?_
      exact List.any_eq_true.mpr ⟨r', hr', hs⟩
    rw [if_neg hany, if_pos hnil, List.filter_append, hnil]
    simp [hr]

/-- A row that was put is found under its key. -/
theorem find?_put_self {same : τ → τ → Bool} {r : τ} {rows : List τ} {p : τ → Bool}
    (hp : ∀ r', p r' = same r r') (hr : same r r) : (put same r rows).find? p = some r := by
  have hself : p r = true := (hp r).trans hr
  unfold put
  by_cases hany : rows.any (same r) = true
  · rw [if_pos hany]
    induction rows with
    | nil => cases hany
    | cons r' rows ih =>
        by_cases hs : same r r' = true
        · rw [List.map_cons, if_pos hs, List.find?_cons_of_pos hself]
        · rw [List.map_cons, if_neg hs, List.find?_cons_of_neg (by rwa [hp])]
          exact ih (by simpa [hs] using hany)
  · rw [if_neg hany, List.find?_append]
    have hnone : rows.find? p = none := by
      refine List.find?_eq_none.mpr fun r' hr' hs => hany ?_
      exact List.any_eq_true.mpr ⟨r', hr', (hp r').symm.trans hs⟩
    rw [hnone, List.find?_cons_of_pos hself, Option.none_or]

/-- Under another key the same row is found. -/
theorem find?_put_of_ne {same : τ → τ → Bool} {r : τ} {rows : List τ} {p : τ → Bool}
    (hp : ∀ r', same r r' = true → p r' = false) (hr : p r = false) :
    (put same r rows).find? p = rows.find? p := by
  have hself : ¬ p r = true := by simp [hr]
  unfold put
  split
  · clear * - hp hself
    induction rows with
    | nil => rfl
    | cons r' rows ih =>
        by_cases hs : same r r' = true
        · rw [List.map_cons, if_pos hs, List.find?_cons_of_neg hself,
            List.find?_cons_of_neg (by simp [hp r' hs]), ih]
        · rw [List.map_cons, if_neg hs, List.find?_cons, List.find?_cons, ih]
  · rw [List.find?_append, List.find?_cons_of_neg hself, List.find?_nil, Option.or_none]

theorem find?_del_self {same : τ → τ → Bool} {r : τ} {rows : List τ} {p : τ → Bool}
    (hp : ∀ r', p r' = same r r') : (del same r rows).find? p = none := by
  refine List.find?_eq_none.mpr fun r' hr' => ?_
  rw [hp, (mem_del.mp hr').2]
  exact Bool.false_ne_true

theorem find?_del_of_ne {same : τ → τ → Bool} {r : τ} {rows : List τ} {p : τ → Bool}
    (hp : ∀ r', same r r' = true → p r' = false) : (del same r rows).find? p = rows.find? p := by
  rw [del, List.find?_filter]
  congr 1
  funext r'
  by_cases hs : same r r' = true
  · simp [hs, hp r' hs]
  · simp [hs]

/-- A row that is put keeps the keys distinct. -/
theorem nodup_put {κ : Type} {key : τ → κ} {same : τ → τ → Bool} {r : τ} {rows : List τ}
    (hsame : ∀ r', same r r' = true ↔ key r = key r') (h : (rows.map key).Nodup) :
    ((put same r rows).map key).Nodup := by
  unfold put
  split
  · rw [List.map_map]
    refine (List.map_congr_left fun r' _ => ?_) ▸ h
    by_cases hs : same r r' = true
    · rw [Function.comp_apply, if_pos hs, (hsame r').mp hs]
    · rw [Function.comp_apply, if_neg hs]
  · rename_i hany
    rw [List.map_append, List.map_singleton]
    refine List.nodup_append.mpr ⟨h, List.pairwise_singleton _ _, fun k hk k' hk' heq => hany ?_⟩
    obtain ⟨r', hr', rfl⟩ := List.mem_map.mp hk
    rw [List.mem_singleton.mp hk'] at heq
    exact List.any_eq_true.mpr ⟨r', hr', (hsame r').mpr heq.symm⟩

theorem nodup_del {κ : Type} {key : τ → κ} {same : τ → τ → Bool} {r : τ} {rows : List τ}
    (h : (rows.map key).Nodup) : ((del same r rows).map key).Nodup :=
  h.sublist (List.filter_sublist.map key)

variable (T : Table σ ρ τ)

/-- `SELECT … WHERE`. -/
def select (p : τ → Bool) : Stmt σ ρ (List τ) := fun s =>
  some ⟨(T.rows s).filter p, ((T.rows s).filter p).map T.record, []⟩

/-- `UPDATE … SET … WHERE … RETURNING`. -/
def update (p : τ → Bool) (f : τ → τ) : Stmt σ ρ (List τ) := fun s =>
  some ⟨((T.rows s).filter p).map f, ((T.rows s).filter p).map T.record,
    ((T.rows s).filter p).map fun r => .put (T.record (f r))⟩

/-- An update whose expressions can overflow, which fails the statement. -/
def updateChecked (p : τ → Bool) (f : τ → Option τ) : Stmt σ ρ (List τ) := fun s =>
  (((T.rows s).filter p).mapM f).map fun rs =>
    ⟨rs, ((T.rows s).filter p).map T.record, rs.map fun r => .put (T.record r)⟩

/-- An update whose expressions are all in range goes through. -/
theorem updateChecked_isSome {T : Table σ ρ τ} {p : τ → Bool} {f : τ → Option τ} {s : σ}
    (h : ∀ r ∈ T.rows s, p r → (f r).isSome) : (T.updateChecked p f s).isSome := by
  have hall : ∀ {rows : List τ}, (∀ r ∈ rows, (f r).isSome) → (rows.mapM f).isSome := by
    intro rows hrows
    induction rows with
    | nil => rfl
    | cons r rows ih =>
        obtain ⟨r', hr'⟩ := Option.isSome_iff_exists.mp (hrows r List.mem_cons_self)
        obtain ⟨rs, hrs⟩ := Option.isSome_iff_exists.mp
          (ih fun r₁ hr₁ => hrows r₁ (List.mem_cons_of_mem _ hr₁))
        rw [List.mapM_cons, hr', Option.bind_eq_bind, Option.bind_some, hrs]
        rfl
  rw [updateChecked, Option.isSome_map]
  exact hall fun r hr => h r (List.mem_filter.mp hr).1 (List.mem_filter.mp hr).2

/-- What an update writes: rows that it has read, changed. -/
theorem mem_writes_update {T : Table σ ρ τ} {p : τ → Bool} {f : τ → τ} {s : σ}
    {e : Effect ρ (List τ)} (h : T.update p f s = some e) {a : Write ρ} (ha : a ∈ e.writes) :
    ∃ r, p r ∧ T.record r ∈ e.read ∧ a = .put (T.record (f r)) := by
  cases h
  obtain ⟨r, hr, rfl⟩ := List.mem_map.mp ha
  exact ⟨r, (List.mem_filter.mp hr).2, List.mem_map_of_mem hr, rfl⟩

theorem mem_of_mapM {f : τ → Option τ} {rows rs : List τ} (h : rows.mapM f = some rs) {r' : τ}
    (hr : r' ∈ rs) : ∃ r ∈ rows, f r = some r' := by
  induction rows generalizing rs with
  | nil =>
      cases h
      cases hr
  | cons r rows ih =>
      rw [List.mapM_cons] at h
      obtain ⟨r₁, hr₁, h⟩ := Option.bind_eq_some_iff.mp h
      obtain ⟨rs₁, hrs₁, h⟩ := Option.bind_eq_some_iff.mp h
      cases h
      rcases List.mem_cons.mp hr with rfl | hr
      · exact ⟨r, List.mem_cons_self, hr₁⟩
      · obtain ⟨r₂, hr₂, hf⟩ := ih hrs₁ hr
        exact ⟨r₂, List.mem_cons_of_mem _ hr₂, hf⟩

theorem mem_writes_updateChecked {T : Table σ ρ τ} {p : τ → Bool} {f : τ → Option τ} {s : σ}
    {e : Effect ρ (List τ)} (h : T.updateChecked p f s = some e) {a : Write ρ}
    (ha : a ∈ e.writes) :
    ∃ r r', p r ∧ T.record r ∈ e.read ∧ f r = some r' ∧ a = .put (T.record r') := by
  obtain ⟨rs, hrs, rfl⟩ := Option.map_eq_some_iff.mp h
  obtain ⟨r', hr', rfl⟩ := List.mem_map.mp ha
  obtain ⟨r, hr, hf⟩ := mem_of_mapM hrs hr'
  exact ⟨r, r', (List.mem_filter.mp hr).2, List.mem_map_of_mem hr, hf, rfl⟩

/-- What holds of every changed row that is there holds of every write of an update. -/
theorem forall_writes_update {T : Table σ ρ τ} {p : τ → Bool} {f : τ → τ} {s : σ}
    {e : Effect ρ (List τ)} {P : Write ρ → Prop} (h : T.update p f s = some e)
    (hP : ∀ r ∈ T.rows s, p r → P (.put (T.record (f r)))) : ∀ a ∈ e.writes, P a := by
  cases h
  intro a ha
  obtain ⟨r, hr, rfl⟩ := List.mem_map.mp ha
  exact hP r (List.mem_filter.mp hr).1 (List.mem_filter.mp hr).2

theorem forall_writes_updateChecked {T : Table σ ρ τ} {p : τ → Bool} {f : τ → Option τ} {s : σ}
    {e : Effect ρ (List τ)} {P : Write ρ → Prop} (h : T.updateChecked p f s = some e)
    (hP : ∀ r ∈ T.rows s, p r → ∀ r', f r = some r' → P (.put (T.record r'))) :
    ∀ a ∈ e.writes, P a := by
  obtain ⟨rs, hrs, rfl⟩ := Option.map_eq_some_iff.mp h
  intro a ha
  obtain ⟨r', hr', rfl⟩ := List.mem_map.mp ha
  obtain ⟨r, hr, hf⟩ := mem_of_mapM hrs hr'
  exact hP r (List.mem_filter.mp hr).1 (List.mem_filter.mp hr).2 r' hf

/-- `INSERT`: fails on a row with the same key. -/
def insert (r : τ) : Stmt σ ρ Unit := fun s =>
  if (T.rows s).any (T.same r) then none else some ⟨(), [], [.put (T.record r)]⟩

/-- An insertion writes its row. -/
theorem writes_insert {T : Table σ ρ τ} {r : τ} {s : σ} {e : Effect ρ Unit}
    (h : T.insert r s = some e) : e.writes = [.put (T.record r)] := by
  unfold insert at h
  split at h
  · cases h
  · cases h
    rfl

/-- `INSERT … ON CONFLICT DO NOTHING`. -/
def insertIgnore (r : τ) : Stmt σ ρ Unit := fun s =>
  some ⟨(), [], if (T.rows s).any (T.same r) then [] else [.put (T.record r)]⟩

/-- `INSERT … ON CONFLICT DO UPDATE`: `f` is applied to the row that is there. -/
def upsert (r : τ) (f : τ → τ) : Stmt σ ρ τ := fun s =>
  match (T.rows s).find? (T.same r) with
  | some r' => some ⟨f r', [T.record r'], [.put (T.record (f r'))]⟩
  | none => some ⟨r, [], [.put (T.record r)]⟩

/-- An upsert writes its row. -/
theorem writes_upsert_ne_nil {T : Table σ ρ τ} {r : τ} {f : τ → τ} {s : σ} {e : Effect ρ τ}
    (h : T.upsert r f s = some e) : e.writes ≠ [] := by
  unfold upsert at h
  split at h
  · cases h
    exact List.cons_ne_nil _ _
  · cases h
    exact List.cons_ne_nil _ _

/-- `DELETE … WHERE`. -/
def delete (p : τ → Bool) : Stmt σ ρ (List τ) := fun s =>
  some ⟨(T.rows s).filter p, ((T.rows s).filter p).map T.record,
    ((T.rows s).filter p).map fun r => .del (T.record r)⟩

/-- A statement that writes no rows but those of the table. -/
def Within {β : Type} (s : Stmt σ ρ β) : Prop :=
  ∀ st e, s st = some e → ∀ a ∈ e.writes, ∃ r, a = .put (T.record r) ∨ a = .del (T.record r)

section Within

variable {T : Table σ ρ τ} {p : τ → Bool} {r : τ}

theorem within_update {f : τ → τ} : T.Within (T.update p f) := by
  intro st e h a ha
  obtain ⟨r, -, -, rfl⟩ := mem_writes_update h ha
  exact ⟨f r, .inl rfl⟩

theorem within_updateChecked {f : τ → Option τ} : T.Within (T.updateChecked p f) := by
  intro st e h a ha
  obtain ⟨r, r', -, -, -, rfl⟩ := mem_writes_updateChecked h ha
  exact ⟨r', .inl rfl⟩

theorem within_insert : T.Within (T.insert r) := by
  intro st e h a ha
  rw [writes_insert h] at ha
  exact ⟨r, .inl (List.mem_singleton.mp ha)⟩

theorem within_insertIgnore : T.Within (T.insertIgnore r) := by
  intro st e h a ha
  cases h
  dsimp only at ha
  split at ha
  · cases ha
  · exact ⟨r, .inl (List.mem_singleton.mp ha)⟩

theorem within_upsert {f : τ → τ} : T.Within (T.upsert r f) := by
  intro st e h a ha
  unfold upsert at h
  split at h
  · cases h
    exact ⟨_, .inl (List.mem_singleton.mp ha)⟩
  · cases h
    exact ⟨_, .inl (List.mem_singleton.mp ha)⟩

theorem within_delete : T.Within (T.delete p) := by
  intro st e h a ha
  cases h
  obtain ⟨r, -, rfl⟩ := List.mem_map.mp ha
  exact ⟨r, .inr rfl⟩

end Within

/-! ## The rows of a table after some writes -/

/-- The writes about records of the table act on its rows, and no other writes do. -/
structure Stored {Call χ μ : Type} {Reply : Call → Type} (M : Semantics σ ρ Call Reply χ μ)
    (T : Table σ ρ τ) : Prop where
  inj : Function.Injective T.record
  put : ∀ s r, T.rows (M.apply s (.put (T.record r))) = Table.put T.same r (T.rows s)
  del : ∀ s r, T.rows (M.apply s (.del (T.record r))) = Table.del T.same r (T.rows s)
  other : ∀ s a, (∀ r, a.record ≠ T.record r) → T.rows (M.apply s a) = T.rows s

namespace Stored

variable {Call χ μ : Type} {Reply : Call → Type} {M : Semantics σ ρ Call Reply χ μ}
  {T : Table σ ρ τ} {s : σ} {r : τ} {a : Write ρ} {ws : List (Write ρ)}

/-- A row after one write: it was written, or it was there and the write is about another key. -/
theorem mem_apply (hT : Stored M T) (h : r ∈ T.rows (M.apply s a)) :
    a = .put (T.record r) ∨
      r ∈ T.rows s ∧ ∀ r', a.record = T.record r' → T.same r' r = false := by
  by_cases ha : ∃ r', a.record = T.record r'
  · obtain ⟨r', hr'⟩ := ha
    have huniq : ∀ r'', a.record = T.record r'' → r'' = r' := fun r'' h => hT.inj (h.symm.trans hr')
    cases a with
    | put record =>
        obtain rfl : record = T.record r' := hr'
        rw [hT.put] at h
        rcases mem_put h with rfl | ⟨hmem, hsame⟩
        · exact .inl rfl
        · exact .inr ⟨hmem, fun r'' h => huniq r'' h ▸ hsame⟩
    | del record =>
        obtain rfl : record = T.record r' := hr'
        rw [hT.del] at h
        obtain ⟨hmem, hsame⟩ := mem_del.mp h
        exact .inr ⟨hmem, fun r'' h => huniq r'' h ▸ hsame⟩
  · rw [hT.other s a fun r' hr' => ha ⟨r', hr'⟩] at h
    exact .inr ⟨h, fun r' hr' => absurd ⟨r', hr'⟩ ha⟩

theorem mem_apply_of_mem (hT : Stored M T) (h : r ∈ T.rows s)
    (hkeep : ∀ r', a.record = T.record r' → T.same r' r = false) : r ∈ T.rows (M.apply s a) := by
  by_cases ha : ∃ r', a.record = T.record r'
  · obtain ⟨r', hr'⟩ := ha
    cases a with
    | put record =>
        obtain rfl : record = T.record r' := hr'
        rw [hT.put]
        exact mem_put_of_mem h (hkeep r' rfl)
    | del record =>
        obtain rfl : record = T.record r' := hr'
        rw [hT.del]
        exact mem_del.mpr ⟨h, hkeep r' rfl⟩
  · rw [hT.other s a fun r' hr' => ha ⟨r', hr'⟩]
    exact h

/-- A row after some writes was written, or none of the writes is about its key. -/
theorem mem_applyAll (hT : Stored M T) (h : r ∈ T.rows (M.applyAll s ws)) :
    .put (T.record r) ∈ ws ∨
      r ∈ T.rows s ∧ ∀ a ∈ ws, ∀ r', a.record = T.record r' → T.same r' r = false := by
  induction ws generalizing s with
  | nil => exact .inr ⟨h, fun a ha => by cases ha⟩
  | cons a ws ih =>
      rcases ih h with hput | ⟨hmem, hkeep⟩
      · exact .inl (List.mem_cons_of_mem _ hput)
      · rcases hT.mem_apply hmem with rfl | ⟨hmem, hsame⟩
        · exact .inl List.mem_cons_self
        · refine .inr ⟨hmem, fun b hb => ?_⟩
          rcases List.mem_cons.mp hb with rfl | hb
          · exact hsame
          · exact hkeep b hb

/-- A row stays if none of the writes is about its key. -/
theorem mem_applyAll_of_mem (hT : Stored M T) (h : r ∈ T.rows s)
    (hkeep : ∀ a ∈ ws, ∀ r', a.record = T.record r' → T.same r' r = false) :
    r ∈ T.rows (M.applyAll s ws) := by
  induction ws generalizing s with
  | nil => exact h
  | cons a ws ih =>
      exact ih (hT.mem_apply_of_mem h (hkeep a List.mem_cons_self)) fun b hb =>
        hkeep b (List.mem_cons_of_mem _ hb)

/-- Some row has the property after some writes if some row had it, a row that is put keeps it and
no row with it is removed. -/
theorem exists_mem_applyAll {p : τ → Prop} (hT : Stored M T) (h : ∃ r ∈ T.rows s, p r)
    (hput : ∀ r', .put (T.record r') ∈ ws → ∀ r, T.same r' r = true → p r → p r')
    (hdel : ∀ r', .del (T.record r') ∈ ws → ∀ r, p r → T.same r' r = false) :
    ∃ r ∈ T.rows (M.applyAll s ws), p r := by
  induction ws generalizing s with
  | nil => exact h
  | cons a ws ih =>
      refine ih ?_ (fun r' hr' => hput r' (List.mem_cons_of_mem _ hr'))
        fun r' hr' => hdel r' (List.mem_cons_of_mem _ hr')
      by_cases ha : ∃ r', a.record = T.record r'
      · obtain ⟨r', hr'⟩ := ha
        cases a with
        | put record =>
            obtain rfl : record = T.record r' := hr'
            rw [hT.put]
            exact exists_mem_put h fun r _ => hput r' List.mem_cons_self r
        | del record =>
            obtain rfl : record = T.record r' := hr'
            obtain ⟨r, hr, hp⟩ := h
            rw [hT.del]
            exact ⟨r, mem_del.mpr ⟨hr, hdel r' List.mem_cons_self r hp⟩, hp⟩
      · rw [hT.other s a fun r' hr' => ha ⟨r', hr'⟩]
        exact h

/-- A row that was put leaves a row with its property. -/
theorem exists_mem_of_put {p : τ → Prop} (hT : Stored M T) (hr : .put (T.record r) ∈ ws) (hp : p r)
    (hput : ∀ r', .put (T.record r') ∈ ws → ∀ r, T.same r' r = true → p r → p r')
    (hdel : ∀ r', .del (T.record r') ∈ ws → ∀ r, p r → T.same r' r = false) :
    ∃ r ∈ T.rows (M.applyAll s ws), p r := by
  obtain ⟨ws₁, ws₂, rfl⟩ := List.append_of_mem hr
  rw [Semantics.applyAll_append, Semantics.applyAll_cons]
  refine hT.exists_mem_applyAll ⟨r, ?_, hp⟩
    (fun r' hr' => hput r' (List.mem_append_right _ (List.mem_cons_of_mem _ hr')))
    fun r' hr' => hdel r' (List.mem_append_right _ (List.mem_cons_of_mem _ hr'))
  rw [hT.put]
  exact mem_put_self

section Keys

variable {κ : Type} [DecidableEq κ] {key : τ → κ} (hT : Stored M T)
  (hkey : ∀ r r', T.same r r' = true ↔ key r = key r')

include hT hkey

/-- The rows after rows were put that were there under the same keys. -/
theorem rows_puts {L rows : List τ} {g : τ → τ} (hg : ∀ r ∈ L, key (g r) = key r)
    (hL : (L.map key).Nodup) (hmem : ∀ r ∈ L, key r ∈ rows.map key) (hs : T.rows s = rows) :
    T.rows (M.applyAll s (L.map fun r => .put (T.record (g r)))) =
      rows.map fun r => ((L.find? fun r' => key r' = key r).map g).getD r := by
  induction L generalizing s rows with
  | nil => simpa using hs
  | cons a L ih =>
      obtain ⟨hnew, hL⟩ := List.nodup_cons.mp hL
      have hga := hg a List.mem_cons_self
      have hrows : T.rows (M.apply s (.put (T.record (g a)))) =
          rows.map fun r => if key a = key r then g a else r := by
        obtain ⟨r, hr, hkr⟩ := List.mem_map.mp (hmem a List.mem_cons_self)
        have hany : rows.any (T.same (g a)) = true :=
          List.any_eq_true.mpr ⟨r, hr, (hkey _ _).mpr (hga.trans hkr.symm)⟩
        rw [hT.put, hs, Table.put, if_pos hany]
        refine List.map_congr_left fun r' _ => ?_
        by_cases h : key a = key r'
        · rw [if_pos h, if_pos ((hkey _ _).mpr (hga.trans h))]
        · rw [if_neg h, if_neg fun hs => h (hga.symm.trans ((hkey _ _).mp hs))]
      have hkeys : (rows.map fun r => if key a = key r then g a else r).map key = rows.map key := by
        rw [List.map_map]
        refine List.map_congr_left fun r _ => ?_
        dsimp only [Function.comp_apply]
        split
        · rename_i h
          exact hga.trans h
        · rfl
      rw [List.map_cons, Semantics.applyAll_cons,
        ih (fun r hr => hg r (List.mem_cons_of_mem _ hr)) hL
          (fun r hr => hkeys ▸ hmem r (List.mem_cons_of_mem _ hr)) hrows, List.map_map]
      refine List.map_congr_left fun r _ => ?_
      dsimp only [Function.comp_apply]
      by_cases h : key a = key r
      · -- no other row of the list has the key
        have hnone : (L.find? fun r' => key r' = key (g a)) = none := by
          refine List.find?_eq_none.mpr fun r' hr' hk => hnew ?_
          exact List.mem_map.mpr ⟨r', hr', (of_decide_eq_true hk).trans hga⟩
        rw [if_pos h, hnone, List.find?_cons_of_pos (by simpa using h)]
        rfl
      · rw [if_neg h, List.find?_cons_of_neg (by simpa using h)]

omit hT hkey in
/-- A row is found by its key. -/
theorem find?_key_of_mem {L rows : List τ} (hs : (rows.map key).Nodup) (hL : ∀ r ∈ L, r ∈ rows)
    {r : τ} (hr : r ∈ L) : (L.find? fun r' => key r' = key r) = some r := by
  cases hfind : L.find? fun r' => key r' = key r with
  | none =>
      have := List.find?_eq_none.mp hfind r hr
      simp at this
  | some r' =>
      rw [List.inj_on_of_nodup_map hs (hL r' (List.mem_of_find?_eq_some hfind)) (hL r hr)
        (by simpa using List.find?_some hfind)]

omit hT hkey in
theorem find?_key_of_not_mem {L rows : List τ} (hs : (rows.map key).Nodup) (hL : ∀ r ∈ L, r ∈ rows)
    {r : τ} (hr : r ∈ rows) (hnot : r ∉ L) : (L.find? fun r' => key r' = key r) = none := by
  refine List.find?_eq_none.mpr fun r' hr' hk => hnot ?_
  rwa [← List.inj_on_of_nodup_map hs (hL r' hr') hr (of_decide_eq_true hk)]

/-- The rows after some of them were changed, next to other rows. -/
theorem rows_put_filter_append {p : τ → Bool} {g : τ → τ} {rows more : List τ}
    (hg : ∀ r ∈ rows, p r → key (g r) = key r) (hs : T.rows s = rows ++ more)
    (hnodup : ((rows ++ more).map key).Nodup) :
    T.rows (M.applyAll s ((rows.filter p).map fun r => .put (T.record (g r)))) =
      (rows.map fun r => if p r then g r else r) ++ more := by
  have hrows : (rows.map key).Nodup := hnodup.sublist ((List.sublist_append_left _ _).map key)
  have hsub : ∀ r ∈ rows.filter p, r ∈ rows ++ more := fun r hr =>
    List.mem_append_left more (List.mem_filter.mp hr).1
  rw [hT.rows_puts hkey (fun r hr => hg r (List.mem_filter.mp hr).1 (List.mem_filter.mp hr).2)
    (hrows.sublist (List.filter_sublist.map key)) (fun r hr => List.mem_map_of_mem (hsub r hr)) hs,
    List.map_append]
  congr 1
  · refine List.map_congr_left fun r hr => ?_
    by_cases hp : p r = true
    · rw [find?_key_of_mem hnodup hsub (List.mem_filter.mpr ⟨hr, hp⟩), if_pos hp]
      rfl
    · rw [find?_key_of_not_mem hnodup hsub (List.mem_append_left _ hr)
        fun hmem => hp (List.mem_filter.mp hmem).2, if_neg hp]
      rfl
  · refine (List.map_congr_left fun r hr => ?_).trans (List.map_id more)
    rw [find?_key_of_not_mem hnodup hsub (List.mem_append_right _ hr) fun hmem => ?_]
    · rfl
    · rw [List.map_append] at hnodup
      exact absurd rfl ((List.nodup_append.mp hnodup).2.2 _
        (List.mem_map_of_mem (List.mem_filter.mp hmem).1) _ (List.mem_map_of_mem hr))

/-- The rows after some of them were changed. -/
theorem rows_put_filter {p : τ → Bool} {g : τ → τ} (hg : ∀ r ∈ T.rows s, p r → key (g r) = key r)
    (hs : ((T.rows s).map key).Nodup) :
    T.rows (M.applyAll s (((T.rows s).filter p).map fun r => .put (T.record (g r)))) =
      (T.rows s).map fun r => if p r then g r else r := by
  have := hT.rows_put_filter_append hkey (s := s) hg (List.append_nil _).symm
    (by rwa [List.append_nil])
  rwa [List.append_nil] at this

/-- The rows after an update. -/
theorem rows_update {p : τ → Bool} {f : τ → τ} {e : Effect ρ (List τ)}
    (he : T.update p f s = some e) (hf : ∀ r, key (f r) = key r)
    (hs : ((T.rows s).map key).Nodup) :
    T.rows (M.applyAll s e.writes) = (T.rows s).map fun r => if p r then f r else r := by
  cases he
  exact hT.rows_put_filter hkey (fun r _ _ => hf r) hs

/-- The rows after an upsert: the row that has the key is changed, or the row is new. -/
theorem rows_upsert {f : τ → τ} {e : Effect ρ τ} (he : T.upsert r f s = some e)
    (hf : ∀ r', key (f r') = key r') (hs : ((T.rows s).map key).Nodup) :
    (∃ r' ∈ T.rows s, key r' = key r) ∧ T.rows (M.applyAll s e.writes) =
        (T.rows s).map (fun r' => if key r' = key r then f r' else r') ∨
      (∀ r' ∈ T.rows s, key r' ≠ key r) ∧ T.rows (M.applyAll s e.writes) = T.rows s ++ [r] := by
  unfold upsert at he
  split at he
  · rename_i r' hfind
    cases he
    have hr' := List.mem_of_find?_eq_some hfind
    have hkr : key r = key r' := (hkey _ _).mp (List.find?_some hfind)
    refine .inl ⟨⟨r', hr', hkr.symm⟩, ?_⟩
    refine (hT.rows_puts hkey (L := [r']) (g := f) (fun _ _ => hf _) (List.nodup_singleton _)
      (fun r₀ hr₀ => List.mem_map_of_mem (List.mem_singleton.mp hr₀ ▸ hr')) rfl).trans ?_
    refine List.map_congr_left fun r₀ hr₀ => ?_
    by_cases h : key r' = key r₀
    · obtain rfl := List.inj_on_of_nodup_map hs hr' hr₀ h
      rw [if_pos hkr.symm, List.find?_cons_of_pos (by simp)]
      rfl
    · rw [if_neg fun heq => h (hkr.symm.trans heq.symm), List.find?_cons_of_neg (by simpa using h)]
      rfl
  · rename_i hfind
    cases he
    have hnone := List.find?_eq_none.mp hfind
    refine .inr ⟨fun r' hr' heq => hnone r' hr' ((hkey _ _).mpr heq.symm), ?_⟩
    rw [Semantics.applyAll_cons, Semantics.applyAll_nil, hT.put, Table.put, if_neg fun hany => ?_]
    obtain ⟨r', hr', hsame⟩ := List.any_eq_true.mp hany
    exact hnone r' hr' hsame

omit hT hkey [DecidableEq κ] in
/-- What an update that did not fail writes: every change that it asks for could be made. -/
theorem writes_updateChecked {p : τ → Bool} {f : τ → Option τ} {g : τ → τ} {e : Effect ρ (List τ)}
    (he : T.updateChecked p f s = some e) (hf : ∀ r r', f r = some r' → r' = g r) :
    e.writes = ((T.rows s).filter p).map (fun r => .put (T.record (g r))) ∧
      ∀ r ∈ T.rows s, p r → (f r).isSome := by
  obtain ⟨rs, hrs, rfl⟩ := Option.map_eq_some_iff.mp he
  have hall : ∀ {rows rs : List τ}, rows.mapM f = some rs →
      rs = rows.map g ∧ ∀ r ∈ rows, (f r).isSome := by
    intro rows
    induction rows with
    | nil =>
        rintro rs ⟨⟩
        exact ⟨rfl, nofun⟩
    | cons r rows ih =>
        intro rs h
        rw [List.mapM_cons] at h
        obtain ⟨r', hr', h⟩ := Option.bind_eq_some_iff.mp h
        obtain ⟨rs', hrs', h⟩ := Option.bind_eq_some_iff.mp h
        cases h
        obtain ⟨rfl, hsome⟩ := ih hrs'
        refine ⟨by rw [hf r r' hr']; rfl, fun r₁ hr₁ => ?_⟩
        rcases List.mem_cons.mp hr₁ with rfl | hr₁
        · rw [hr']
          rfl
        · exact hsome r₁ hr₁
  obtain ⟨rfl, hsome⟩ := hall hrs
  exact ⟨List.map_map, fun r hr hp => hsome r (List.mem_filter.mpr ⟨hr, hp⟩)⟩

/-- The rows after an update that did not fail. -/
theorem rows_updateChecked {p : τ → Bool} {f : τ → Option τ} {g : τ → τ} {e : Effect ρ (List τ)}
    (he : T.updateChecked p f s = some e) (hf : ∀ r r', f r = some r' → r' = g r)
    (hg : ∀ r, key (g r) = key r) (hs : ((T.rows s).map key).Nodup) :
    T.rows (M.applyAll s e.writes) = ((T.rows s).map fun r => if p r then g r else r) ∧
      ∀ r ∈ T.rows s, p r → (f r).isSome := by
  obtain ⟨hwrites, hsome⟩ := writes_updateChecked he hf
  rw [hwrites]
  exact ⟨hT.rows_put_filter hkey (fun r _ _ => hg r) hs, hsome⟩

omit hkey in
/-- The rows after rows were deleted. -/
theorem rows_dels {L : List τ} :
    T.rows (M.applyAll s (L.map fun r => .del (T.record r))) =
      (T.rows s).filter fun r => L.all fun r' => !T.same r' r := by
  induction L generalizing s with
  | nil => simp
  | cons a L ih =>
      rw [List.map_cons, Semantics.applyAll_cons, ih, hT.del, Table.del, List.filter_filter]
      refine List.filter_congr fun r _ => ?_
      rw [List.all_cons, Bool.and_comm]

omit [DecidableEq κ] in
/-- The rows after a deletion. -/
theorem rows_delete {p : τ → Bool} {e : Effect ρ (List τ)} (he : T.delete p s = some e)
    (hs : ((T.rows s).map key).Nodup) :
    T.rows (M.applyAll s e.writes) = (T.rows s).filter fun r => !p r := by
  cases he
  rw [hT.rows_dels]
  refine List.filter_congr fun r hr => ?_
  by_cases hp : p r = true
  · have hself : T.same r r = true := (hkey r r).mpr rfl
    have : ((T.rows s).filter p).all (fun r' => !T.same r' r) = false := by
      refine List.all_eq_false.mpr ⟨r, List.mem_filter.mpr ⟨hr, hp⟩, by simp [hself]⟩
    rw [this, hp]
    rfl
  · have : ((T.rows s).filter p).all (fun r' => !T.same r' r) = true := by
      refine List.all_eq_true.mpr fun r' hr' => ?_
      obtain ⟨hr', hp'⟩ := List.mem_filter.mp hr'
      rw [Bool.not_eq_true', Bool.eq_false_iff]
      intro hsame
      exact hp (List.inj_on_of_nodup_map hs hr' hr ((hkey _ _).mp hsame) ▸ hp')
    rw [this]
    simpa using hp

end Keys

/-- The rows after an insertion. -/
theorem rows_insert (hT : Stored M T) {e : Effect ρ Unit} (he : T.insert r s = some e) :
    T.rows (M.applyAll s e.writes) = T.rows s ++ [r] ∧ ∀ r' ∈ T.rows s, T.same r r' = false := by
  unfold insert at he
  split at he
  · cases he
  · rename_i hany
    cases he
    refine ⟨?_, fun r' hr' => ?_⟩
    · rw [Semantics.applyAll_cons, Semantics.applyAll_nil, hT.put, Table.put, if_neg hany]
    · rw [Bool.eq_false_iff]
      exact fun hsame => hany (List.any_eq_true.mpr ⟨r', hr', hsame⟩)

/-- The rows after an insertion that a row with the key stands in the way of. -/
theorem rows_insertIgnore (hT : Stored M T) {e : Effect ρ Unit} (he : T.insertIgnore r s = some e) :
    T.rows (M.applyAll s e.writes) =
      if (T.rows s).any (T.same r) then T.rows s else T.rows s ++ [r] := by
  cases he
  dsimp only
  split
  · rfl
  · rename_i hany
    rw [Semantics.applyAll_cons, Semantics.applyAll_nil, hT.put, Table.put, if_neg hany]

/-- A key stays one. -/
theorem nodup_applyAll (hT : Stored M T) {κ : Type} {key : τ → κ}
    (hkey : ∀ r r', T.same r r' = true ↔ key r = key r') (h : ((T.rows s).map key).Nodup) :
    ((T.rows (M.applyAll s ws)).map key).Nodup := by
  induction ws generalizing s with
  | nil => exact h
  | cons a ws ih =>
      rw [Semantics.applyAll_cons]
      refine ih ?_
      by_cases ha : ∃ r, a.record = T.record r
      · obtain ⟨r, hr⟩ := ha
        cases a with
        | put r' =>
            obtain rfl : r' = T.record r := hr
            rw [hT.put]
            exact Table.nodup_put (fun r' => hkey r r') h
        | del r' =>
            obtain rfl : r' = T.record r := hr
            rw [hT.del]
            exact Table.nodup_del h
      · rw [hT.other s a fun r hr => ha ⟨r, hr⟩]
        exact h

/-- Writes about other tables. -/
theorem rows_applyAll (hT : Stored M T) (h : ∀ a ∈ ws, ∀ r, a.record ≠ T.record r) :
    T.rows (M.applyAll s ws) = T.rows s := by
  induction ws generalizing s with
  | nil => rfl
  | cons a ws ih =>
      exact (ih fun b hb => h b (List.mem_cons_of_mem _ hb)).trans
        (hT.other s a (h a List.mem_cons_self))

end Stored

end Table

end Program
