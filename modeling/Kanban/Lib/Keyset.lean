import Mathlib.Data.List.Nodup
import Mathlib.Data.List.Sort

/-!
# Scans by keyset

A table is scanned in batches: each query asks for the rows after the last key that was seen, in the
order of the keys, and the scan stops at an empty batch.  While the table stands still, every key
belongs to one row and the cursor of a row is its key, the batches make up the sorted table.

## Main definitions

* `Collation` — the order of the keys.
* `Collation.select` — a batch.
* `scan` — the loop over the batches.
* `Scans` — what a scan relies on.
-/

namespace Keyset

variable {κ τ σ ε β : Type*}

/-- The order in which a database lists keys. -/
structure Collation (κ : Type*) where
  le : κ → κ → Bool
  le_trans : ∀ a b c, le a b = true → le b c = true → le a c = true
  le_total : ∀ a b, (le a b || le b a) = true
  le_antisymm : ∀ a b, le a b = true → le b a = true → a = b

namespace Collation

variable (C : Collation κ) (key : τ → κ) (rows : List τ)

/-- `a < b`. -/
def lt (a b : κ) : Bool := !C.le b a

/-- `ORDER BY key`. -/
def sorted : List τ := rows.mergeSort fun r r' => C.le (key r) (key r')

/-- `WHERE key > after ORDER BY key LIMIT limit`. -/
def select (after : Option κ) (limit : ℕ) : List τ :=
  (C.sorted key (rows.filter fun r => after.all (C.lt · (key r)))).take limit

variable {C key rows}

theorem sorted_perm : (C.sorted key rows).Perm rows := List.mergeSort_perm _ _

theorem sorted_le : (C.sorted key rows).Pairwise fun r r' => C.le (key r) (key r') = true := by
  refine List.pairwise_mergeSort (fun r r' r'' => ?_) (fun r r' => ?_) rows
  · exact C.le_trans (key r) (key r') (key r'')
  · exact C.le_total (key r) (key r')

theorem lt_of_le_of_ne {a b : κ} (h : C.le a b = true) (hne : a ≠ b) : C.lt a b = true := by
  rw [lt, Bool.not_eq_true', Bool.eq_false_iff]
  exact fun h' => hne (C.le_antisymm a b h h')

theorem sorted_lt (hkeys : (rows.map key).Nodup) :
    (C.sorted key rows).Pairwise fun r r' => C.lt (key r) (key r') = true := by
  have hnodup : ((C.sorted key rows).map key).Nodup := (sorted_perm.map key).nodup_iff.mpr hkeys
  have hne : (C.sorted key rows).Pairwise fun r r' => key r ≠ key r' := List.pairwise_map.mp hnodup
  exact sorted_le.imp₂ (fun _ _ => lt_of_le_of_ne) hne

theorem lt_irrefl (a : κ) : C.lt a a = false := by
  have h := C.le_total a a
  rw [Bool.or_self] at h
  rw [lt, h]
  rfl

/-- Of two rows one after the other, the key of the first is not after that of the second. -/
theorem lt_asymm {a b : κ} (h : C.lt a b = true) : C.lt b a = false := by
  rw [lt, Bool.not_eq_true'] at h
  have htotal := C.le_total a b
  rw [h, Bool.or_false] at htotal
  rw [lt, htotal]
  rfl

/-- **A batch** holds the first rows after those that were seen. -/
theorem select_after (hkeys : (rows.map key).Nodup) {done rest : List τ}
    (hrows : C.sorted key rows = done ++ rest) (limit : ℕ) :
    C.select key rows (done.getLast?.map key) limit = rest.take limit := by
  have hlt := sorted_lt (C := C) hkeys
  rw [hrows] at hlt
  obtain ⟨hdone, hrest, hcross⟩ := List.pairwise_append.mp hlt
  have hkept : (done ++ rest).filter (fun r => (done.getLast?.map key).all (C.lt · (key r))) = rest := by
    rw [List.filter_append]
    cases hlast : done.getLast? with
    | none => simp [List.getLast?_eq_none_iff.mp hlast]
    | some last =>
        have hmem : last ∈ done := List.mem_of_getLast? hlast
        obtain ⟨pre, rfl⟩ := List.getLast?_eq_some_iff.mp hlast
        have hseen : (pre ++ [last]).filter (fun r => (some last).map key |>.all (C.lt · (key r))) = [] := by
          refine List.filter_eq_nil_iff.mpr fun r hr => ?_
          rw [Option.map_some, Option.all_some, Bool.not_eq_true]
          rcases List.mem_append.mp hr with hr | hr
          · exact lt_asymm ((List.pairwise_append.mp hdone).2.2 r hr last (List.mem_singleton_self last))
          · rw [List.mem_singleton.mp hr]
            exact lt_irrefl _
        have hleft : rest.filter (fun r => (some last).map key |>.all (C.lt · (key r))) = rest :=
          List.filter_eq_self.mpr fun r hr => hcross last hmem r hr
        rw [hseen, hleft, List.nil_append]
  have hsorted : C.sorted key (rows.filter fun r => (done.getLast?.map key).all (C.lt · (key r))) =
      rest := by
    refine List.Perm.eq_of_pairwise (fun r r' _ _ h h' => ?_) (sorted_lt ?_) hrest ?_
    · exact absurd h' (Bool.eq_false_iff.mp (lt_asymm h))
    · exact hkeys.sublist (List.filter_sublist.map key)
    · refine sorted_perm.trans ?_
      have hperm : ((C.sorted key rows).filter fun r => (done.getLast?.map key).all (C.lt · (key r))).Perm
          (rows.filter fun r => (done.getLast?.map key).all (C.lt · (key r))) := sorted_perm.filter _
      rw [hrows, hkept] at hperm
      exact hperm.symm
  rw [select, hsorted]

end Collation

/-! ## The loop -/

/-- The loop over the batches; it takes at most `fuel` rounds before it counts as not ended. -/
def scan (fetch : σ → Except ε (List τ)) (body : σ → τ → Except ε σ) : ℕ → σ → Option (Except ε σ)
  | 0, _ => none
  | n + 1, s =>
      match fetch s with
      | .error e => some (.error e)
      | .ok [] => some (.ok s)
      | .ok (r :: page) =>
          match (r :: page).foldlM body s with
          | .error e => some (.error e)
          | .ok s' => scan fetch body n s'

/-- A batch is what comes after the cursor, and the cursor moves to each row that went through. -/
structure Scans (C : Collation κ) (key : τ → κ) (rows : List τ) (limit : ℕ) (cursor : σ → Option κ)
    (fetch : σ → Except ε (List τ)) (body : σ → τ → Except ε σ) : Prop where
  fetch_eq : ∀ s page, fetch s = .ok page → page = C.select key rows (cursor s) limit
  cursor_eq : ∀ s, ∀ r ∈ rows, ∀ s', body s r = .ok s' → cursor s' = some (key r)

section Fold

variable {body : σ → τ → Except ε σ}

/-- A fold that fails does so at one row. -/
theorem exists_of_foldlM_error {l : List τ} {s : σ} {e : ε} (h : l.foldlM body s = .error e) :
    ∃ pre r post s', l = pre ++ r :: post ∧ pre.foldlM body s = .ok s' ∧ body s' r = .error e := by
  induction l generalizing s with
  | nil => cases h
  | cons r l ih =>
      rw [List.foldlM_cons] at h
      cases hr : body s r with
      | error e' =>
          rw [hr] at h
          obtain rfl : e' = e := by cases h; rfl
          exact ⟨[], r, l, s, rfl, rfl, hr⟩
      | ok s₁ =>
          rw [hr] at h
          obtain ⟨pre, r', post, s', rfl, hpre, hr'⟩ := ih h
          refine ⟨r :: pre, r', post, s', rfl, ?_, hr'⟩
          rw [List.foldlM_cons, hr]
          exact hpre

/-- The state after a fold is the one after its last row. -/
theorem exists_of_foldlM_ok {l : List τ} {r : τ} {s s' : σ} (h : (l ++ [r]).foldlM body s = .ok s') :
    ∃ s₁, l.foldlM body s = .ok s₁ ∧ body s₁ r = .ok s' := by
  rw [List.foldlM_append] at h
  cases hl : l.foldlM body s with
  | error e =>
      rw [hl] at h
      cases h
  | ok s₁ =>
      rw [hl] at h
      refine ⟨s₁, rfl, ?_⟩
      cases hr : body s₁ r with
      | error e =>
          simp [bind, Except.bind, List.foldlM_cons, hr] at h
      | ok s₂ =>
          simp only [bind, Except.bind, List.foldlM_cons, hr] at h
          cases h
          rfl

/-- What a fold has put down, if each step puts one item down. -/
theorem items_of_foldlM_ok {l : List τ} {items : σ → List β} {item : τ → β} {s s' : σ}
    (hbody : ∀ s, ∀ r ∈ l, ∀ s', body s r = .ok s' → items s' = items s ++ [item r])
    (h : l.foldlM body s = .ok s') : items s' = items s ++ l.map item := by
  induction l generalizing s with
  | nil =>
      cases h
      rw [List.map_nil, List.append_nil]
  | cons r l ih =>
      rw [List.foldlM_cons] at h
      cases hr : body s r with
      | error e =>
          rw [hr] at h
          cases h
      | ok s₁ =>
          rw [hr] at h
          rw [ih (fun s r hr => hbody s r (List.mem_cons_of_mem _ hr)) h,
            hbody s r List.mem_cons_self s₁ hr, List.map_cons, List.append_assoc, List.singleton_append]

end Fold

section Spec

variable {C : Collation κ} {key : τ → κ} {rows : List τ} {limit fuel : ℕ} {cursor : σ → Option κ}
  {fetch : σ → Except ε (List τ)} {body : σ → τ → Except ε σ} {s : σ}

/-- **The scan ends.**  It has gone through the rows in the order of their keys, through all of them
unless a query or a row failed. -/
theorem Scans.ends (h : Scans C key rows limit cursor fetch body) (hkeys : (rows.map key).Nodup)
    (hlimit : 0 < limit) (hcursor : cursor s = none) (hfuel : rows.length < fuel) :
    ∃ done rest s', C.sorted key rows = done ++ rest ∧ done.foldlM body s = .ok s' ∧
      ((rest = [] ∧ scan fetch body fuel s = some (.ok s')) ∨
        ∃ e, scan fetch body fuel s = some (.error e) ∧
          (fetch s' = .error e ∨ ∃ r ∈ rows, body s' r = .error e)) := by
  have hloop : ∀ n done rest s', rest.length < n → C.sorted key rows = done ++ rest →
      done.foldlM body s = .ok s' → cursor s' = done.getLast?.map key →
      ∃ done' rest' s'', C.sorted key rows = done' ++ rest' ∧ done'.foldlM body s = .ok s'' ∧
        ((rest' = [] ∧ scan fetch body n s' = some (.ok s'')) ∨
          ∃ e, scan fetch body n s' = some (.error e) ∧
            (fetch s'' = .error e ∨ ∃ r ∈ rows, body s'' r = .error e)) := by
    intro n
    induction n with
    | zero => exact fun _ _ _ hn => absurd hn (Nat.not_lt_zero _)
    | succ n ih =>
        intro done rest s' hn hrows hdone hcursor
        have hmem : ∀ r ∈ rest, r ∈ rows := fun r hr =>
          Collation.sorted_perm.mem_iff.mp (hrows ▸ List.mem_append_right _ hr)
        cases hfetch : fetch s' with
        | error e =>
            refine ⟨done, rest, s', hrows, hdone, .inr ⟨e, ?_, .inl hfetch⟩⟩
            rw [scan, hfetch]
        | ok page =>
            have hpage : page = rest.take limit := by
              rw [h.fetch_eq s' page hfetch, hcursor, Collation.select_after hkeys hrows]
            cases page with
            | nil =>
                have hrest : rest = [] := by
                  rcases List.take_eq_nil_iff.mp hpage.symm with h | h
                  · omega
                  · exact h
                refine ⟨done, rest, s', hrows, hdone, .inl ⟨hrest, ?_⟩⟩
                rw [scan, hfetch]
            | cons r page =>
                have hsplit : rest = (r :: page) ++ rest.drop limit := by
                  rw [hpage, List.take_append_drop]
                cases hfold : (r :: page).foldlM body s' with
                | error e =>
                    obtain ⟨pre, r', post, s'', hpre, hs'', hr'⟩ := exists_of_foldlM_error hfold
                    have hrest : rest = pre ++ (r' :: post ++ rest.drop limit) := by
                      rw [← List.append_assoc, ← hpre]
                      exact hsplit
                    have hr'mem : r' ∈ rest := by
                      rw [hrest]
                      exact List.mem_append_right _ List.mem_cons_self
                    refine ⟨done ++ pre, r' :: post ++ rest.drop limit, s'', ?_, ?_,
                      .inr ⟨e, ?_, .inr ⟨r', hmem r' hr'mem, hr'⟩⟩⟩
                    · rw [List.append_assoc, ← hrest]
                      exact hrows
                    · rw [List.foldlM_append, hdone]
                      exact hs''
                    · simp only [scan, hfetch, hfold]
                | ok s'' =>
                    obtain ⟨pre, last, hlast⟩ : ∃ pre last, r :: page = pre ++ [last] :=
                      ⟨_, _, (List.dropLast_append_getLast (List.cons_ne_nil r page)).symm⟩
                    have hscan : scan fetch body (n + 1) s' = scan fetch body n s'' := by
                      simp only [scan, hfetch, hfold]
                    rw [hscan]
                    refine ih (done ++ r :: page) (rest.drop limit) s'' ?_ ?_ ?_ ?_
                    · have := congrArg List.length hsplit
                      simp only [List.length_append, List.length_cons] at this
                      omega
                    · rw [hrows, List.append_assoc, ← hsplit]
                    · rw [List.foldlM_append, hdone]
                      exact hfold
                    · rw [hlast] at hfold ⊢
                      obtain ⟨s₁, -, hbody⟩ := exists_of_foldlM_ok hfold
                      have hlastmem : last ∈ rest := by
                        rw [hsplit, hlast]
                        simp
                      rw [h.cursor_eq s₁ last (hmem last hlastmem) s'' hbody, ← List.append_assoc,
                        List.getLast?_concat, Option.map_some]
  refine hloop fuel [] (C.sorted key rows) s ?_ rfl rfl hcursor
  rwa [Collation.sorted_perm.length_eq]

end Spec

end Keyset
