import Kanban.Lib.Serial
import Kanban.Lib.Shelf
import Kanban.Rpc.Alone
import Kanban.Rpc.Boards

/-!
# The order of the columns of a board

The columns of a board stand at positions.  `RemoveColumn` numbers them anew, `MoveColumn` shifts
those between two positions, and `AddColumn` stores the position of its request.  As long as the
requests stay among the columns that are there, the positions are `0`, `1`, … without a gap, and the
calls put columns where they are asked to.

## Main definitions

* `boardShelf` — the columns of a board, each at its position.
* `ColumnCall`, `columnHandler` — the calls.
* `Arranges` — what a call does to the order.
* `AmongColumns` — a position among the columns that are there.
-/

namespace Kanban.Rpc

open Program Kanban.Store Kanban.Auth
open Kanban.Services (AuthContext ConnectError IdCodec)

variable {ι α β : Type} [DecidableEq ι]

/-! ## The columns of a board -/

/-- The columns of a board, each at its position. -/
def boardShelf (columns : List (ColumnRow ι)) (boardId : ι) : List (ι × ℤ) :=
  (columns.filter fun k => k.boardId = boardId).map fun k => (k.id, k.position)

/-- The columns have keys, and those of the board are in its tenant. -/
structure Owned (tenantId : String) (boardId : ι) (columns : List (ColumnRow ι)) : Prop where
  keys : (columns.map ColumnRow.id).Nodup
  tenant : ∀ k ∈ columns, k.boardId = boardId → k.tenantId = tenantId

section BoardShelf

variable {columns columns' : List (ColumnRow ι)} {t : String} {b x : ι} {k : ColumnRow ι} {p : ℤ}

theorem mem_boardShelf {a : ι × ℤ} :
    a ∈ boardShelf columns b ↔ ∃ k ∈ columns, k.boardId = b ∧ (k.id, k.position) = a := by
  simp [boardShelf, and_assoc]

theorem boardShelf_perm (h : columns.Perm columns') :
    (boardShelf columns b).Perm (boardShelf columns' b) := (h.filter _).map _

theorem boardShelf_append (columns : List (ColumnRow ι)) (hk : k.boardId = b) :
    (boardShelf (columns ++ [k]) b).Perm ((k.id, k.position) :: boardShelf columns b) := by
  refine (boardShelf_perm (List.perm_append_singleton k columns)).trans (List.Perm.of_eq ?_)
  simp [boardShelf, hk]

theorem Owned.nodup (h : Owned t b columns) : ((boardShelf columns b).map Prod.fst).Nodup := by
  unfold boardShelf
  rw [List.map_map]
  exact h.keys.sublist (List.filter_sublist.map _)

theorem boardShelf_shift {q : ℤ → Bool} {d : ℤ} :
    boardShelf (columns.map fun k => if decide (k.boardId = b) = true ∧ q k.position = true then
        { k with position := k.position + d } else k) b =
      Shelf.shift q d (boardShelf columns b) :=
  Shelf.shift_rows (q := q) (r := fun k : ColumnRow ι => k.boardId = b)
    (f := fun k => (k.id, k.position)) (g := fun k => { k with position := k.position + d })
    (fun _ => rfl) (fun _ => rfl) columns

theorem others_boardShelf :
    Shelf.others x (boardShelf columns b) = boardShelf (columns.filter fun k => k.id ≠ x) b := by
  unfold Shelf.others boardShelf
  rw [List.filter_map, List.filter_filter, List.filter_filter]
  exact congrArg _ (List.filter_congr fun k _ => Bool.and_comm _ _)

omit [DecidableEq ι] in
/-- A change of some columns that keeps their keys and boards keeps who owns them. -/
theorem Owned.map (h : Owned t b columns) {f : ColumnRow ι → ColumnRow ι}
    (hf : ∀ k, (f k).id = k.id ∧ (f k).boardId = k.boardId ∧ (f k).tenantId = k.tenantId) :
    Owned t b (columns.map f) := by
  refine ⟨?_, fun k hk hb => ?_⟩
  · rw [List.map_map]
    exact (List.map_congr_left fun k _ => (hf k).1) ▸ h.keys
  · obtain ⟨k', hk', rfl⟩ := List.mem_map.mp hk
    exact (hf k').2.2.trans (h.tenant k' hk' ((hf k').2.1.symm.trans hb))

omit [DecidableEq ι] in
theorem Owned.append (h : Owned t b columns) (hnew : ∀ k' ∈ columns, k'.id ≠ k.id)
    (hk : k.tenantId = t) : Owned t b (columns ++ [k]) := by
  refine ⟨?_, fun k' hk' hb => ?_⟩
  · rw [List.map_append]
    refine List.nodup_append.mpr ⟨h.keys, List.nodup_singleton _, ?_⟩
    rintro i hi j hj rfl
    obtain ⟨k', hk', heq⟩ := List.mem_map.mp hi
    exact hnew k' hk' (heq.trans (List.mem_singleton.mp hj))
  · rcases List.mem_append.mp hk' with hk' | hk'
    · exact h.tenant k' hk' hb
    · rw [List.mem_singleton.mp hk', hk]

/-- Columns that are numbered in the order of the row in which they stand. -/
theorem boardShelf_numbered (h : Owned t b columns) (hapart : Shelf.Apart (boardShelf columns b))
    {row : List (ColumnRow ι)} (hp : row.Perm (columns.filter fun k => k.boardId = b))
    (hsorted : row.Pairwise fun k k' => k.position ≤ k'.position) :
    Shelf.Dense (boardShelf (columns.map fun k => if k.boardId = b then
        { k with position := (row.idxOf k : ℤ) } else k) b) ∧
      Shelf.order (boardShelf (columns.map fun k => if k.boardId = b then
        { k with position := (row.idxOf k : ℤ) } else k) b) = Shelf.order (boardShelf columns b) := by
  have hm : (row.map fun k => (k.id, k.position)).Perm (boardShelf columns b) := hp.map _
  have hlt : (row.map fun k => (k.id, k.position)).Pairwise fun s s' => s.2 < s'.2 := by
    have hne : row.Pairwise fun k k' => k.position ≠ k'.position := by
      have := hapart.perm hm.symm
      rw [Shelf.Apart, List.map_map] at this
      exact List.pairwise_map.mp this
    exact List.pairwise_map.mpr (hsorted.imp₂ (fun _ _ hle hne => lt_of_le_of_ne hle hne) hne)
  have hnodup : row.Nodup :=
    hp.nodup_iff.mpr ((List.Nodup.of_map _ h.keys).filter _)
  have hnumbers : (row.map fun k => (k.id, (row.idxOf k : ℤ))) =
      (row.map fun k => (k.id, k.position)).zipIdx.map fun s => (s.1.1, (s.2 : ℤ)) := by
    refine List.ext_getElem (by simp) fun i h₁ h₂ => ?_
    have hi : i < row.length := by simpa using h₁
    simp [hnodup.idxOf_getElem i hi]
  refine Shelf.dense_renumber hm hlt ?_
  rw [← hnumbers]
  refine List.Perm.trans (List.Perm.of_eq ?_) (hp.symm.map _)
  unfold boardShelf
  rw [List.filter_map, show ((fun k : ColumnRow ι => decide (k.boardId = b)) ∘ fun k =>
    if k.boardId = b then { k with position := (row.idxOf k : ℤ) } else k) =
      fun k => decide (k.boardId = b) from funext fun k => by
        dsimp only [Function.comp_apply]; split <;> rfl, List.map_map]
  refine List.map_congr_left fun k hk => ?_
  rw [Function.comp_apply, if_pos (of_decide_eq_true (List.mem_filter.mp hk).2)]

/-- A column that is placed anew, among the others. -/
theorem boardShelf_place (h : Owned t b columns) (hk : k ∈ columns) (hb : k.boardId = b) :
    (boardShelf (columns.map fun k' => if decide (k'.tenantId = t ∧ k'.id = k.id) = true then
        { k' with position := p } else k') b).Perm
      ((k.id, p) :: Shelf.others k.id (boardShelf columns b)) := by
  have hkt := h.tenant k hk hb
  have hplaced : Owned t b (columns.map fun k' => if decide (k'.tenantId = t ∧ k'.id = k.id) = true
      then { k' with position := p } else k') := h.map fun k' => by split <;> exact ⟨rfl, rfl, rfl⟩
  have hothers : (columns.map fun k' => if decide (k'.tenantId = t ∧ k'.id = k.id) = true then
      { k' with position := p } else k').filter (fun k' => k'.id ≠ k.id) =
        columns.filter fun k' => k'.id ≠ k.id := by
    rw [List.filter_map, show ((fun k' : ColumnRow ι => decide (k'.id ≠ k.id)) ∘ fun k' =>
      if decide (k'.tenantId = t ∧ k'.id = k.id) = true then { k' with position := p } else k') =
        fun k' => decide (k'.id ≠ k.id) from funext fun k' => by
          dsimp only [Function.comp_apply]; split <;> rfl]
    refine (List.map_congr_left fun k' hk' => if_neg ?_).trans (List.map_id _)
    have hne : k'.id ≠ k.id := of_decide_eq_true (List.mem_filter.mp hk').2
    simp [hne]
  rw [others_boardShelf, ← hothers, ← others_boardShelf]
  refine Shelf.perm_others hplaced.nodup (mem_boardShelf.mpr ⟨_, List.mem_map_of_mem hk, ?_⟩)
  rw [if_pos (by simp [hkt])]
  exact ⟨hb, rfl⟩

end BoardShelf

/-! ## The calls -/

/-- A call that adds, moves or removes a column. -/
inductive ColumnCall
  | addColumn (req : AddColumnRequest)
  | moveColumn (req : MoveColumnRequest)
  | removeColumn (req : RemoveColumnRequest)
  deriving DecidableEq, Repr

def columnHandler (codec : IdCodec ι) (q : RequestContext × ColumnCall) : Handler ι Unit :=
  match q.2 with
  | .addColumn req => (addColumn codec q.1 req).bind fun _ => .pure ()
  | .moveColumn req => (moveColumn codec q.1 req).bind fun _ => .pure ()
  | .removeColumn req => removeColumn codec q.1 req

/-- What a call does to the order of the columns of its board: a new column leaves the order of the
others, a column that moves is inserted at the place that the request counts from 1, and a column
that is removed leaves the order of the others. -/
def Arranges (codec : IdCodec ι) (call : ColumnCall) (l l' : List (ι × ℤ)) : Prop :=
  match call with
  | .addColumn _ => ∃ x, x ∉ l.map Prod.fst ∧ (l'.map Prod.fst).Perm (x :: l.map Prod.fst) ∧
      (Shelf.order l').filter (· ≠ x) = Shelf.order l
  | .moveColumn req => ∃ x, codec.parse req.columnId = some x ∧ x ∈ l.map Prod.fst ∧
      Shelf.order l' = ((Shelf.order l).filter (· ≠ x)).insertIdx
        (min (req.toPosition - 1).toNat (l.length - 1)) x
  | .removeColumn req => ∃ x, codec.parse req.columnId = some x ∧ x ∈ l.map Prod.fst ∧
      Shelf.order l' = (Shelf.order l).filter (· ≠ x)

/-- The position of the request is among the columns that are there, or just after them. -/
def AmongColumns (codec : IdCodec ι) (call : ColumnCall) (l : List (ι × ℤ)) : Prop :=
  match call with
  | .addColumn req => 0 ≤ req.position ∧ req.position ≤ l.length
  | .moveColumn req => (∃ x ∈ l, codec.parse req.columnId = some x.1) → req.toPosition ≤ l.length
  | .removeColumn _ => True

instance {codec : IdCodec ι} {call : ColumnCall} {l : List (ι × ℤ)} :
    Decidable (AmongColumns codec call l) :=
  match call with
  | .addColumn _ => inferInstanceAs (Decidable (_ ∧ _))
  | .moveColumn _ => inferInstanceAs (Decidable (_ → _))
  | .removeColumn _ => .isTrue trivial

/-- The columns of the board after a call. -/
structure Rearranged (codec : IdCodec ι) (t : String) (b : ι) (call : ColumnCall)
    (columns columns' : List (ColumnRow ι)) : Prop where
  owned : Owned t b columns'
  order : Arranges codec call (boardShelf columns b) (boardShelf columns' b)
  dense : AmongColumns codec call (boardShelf columns b) → Shelf.Dense (boardShelf columns' b)

section Rearranged

variable {codec : IdCodec ι} {columns columns' : List (ColumnRow ι)} {t : String} {b x : ι}
  {k : ColumnRow ι} {p : ℤ}

theorem not_mem_boardShelf (h : ∀ k' ∈ columns, k'.id ≠ x) :
    x ∉ (boardShelf columns b).map Prod.fst := by
  intro hmem
  obtain ⟨a, ha, rfl⟩ := List.mem_map.mp hmem
  obtain ⟨k', hk', -, rfl⟩ := mem_boardShelf.mp ha
  exact h k' hk' rfl

/-- A new column after the others. -/
theorem Rearranged.append {req : AddColumnRequest} (hd : Shelf.Dense (boardShelf columns b))
    (howned : Owned t b (columns ++ [k])) (hb : k.boardId = b) (hnew : ∀ k' ∈ columns, k'.id ≠ k.id)
    (hpos : k.position = Shelf.top (boardShelf columns b)) :
    Rearranged codec t b (.addColumn req) columns (columns ++ [k]) := by
  have hperm := boardShelf_append columns hb
  rw [hpos] at hperm
  have hnew' := not_mem_boardShelf (b := b) hnew
  exact ⟨howned, ⟨k.id, hnew', hperm.map Prod.fst, Shelf.order_new hperm (Shelf.open_top hd.apart) rfl
    hnew'⟩, fun _ => hd.append.perm hperm⟩

/-- A new column where the others have made room. -/
theorem Rearranged.insert {req : AddColumnRequest} (hd : Shelf.Dense (boardShelf columns b))
    (howned : Owned t b (columns' ++ [k])) (hb : k.boardId = b) (hnew : ∀ k' ∈ columns, k'.id ≠ k.id)
    (hpos : k.position = req.position)
    (hshift : boardShelf columns' b = Shelf.shift (req.position ≤ ·) 1 (boardShelf columns b)) :
    Rearranged codec t b (.addColumn req) columns (columns' ++ [k]) := by
  have hperm := boardShelf_append columns' hb
  rw [hpos, hshift] at hperm
  obtain ⟨hopen, horder, -⟩ := Shelf.open_above hd.apart req.position
  have hnew' := not_mem_boardShelf (b := b) hnew
  refine ⟨howned, ⟨k.id, hnew', ?_, Shelf.order_new hperm hopen horder hnew'⟩,
    fun hrange => (hd.insert hrange.1 hrange.2).perm hperm⟩
  have := hperm.map Prod.fst
  rwa [List.map_cons, Shelf.map_fst_shift] at this

/-- A column that was moved among the others. -/
theorem Rearranged.move {req : MoveColumnRequest} (h : Owned t b columns)
    (hd : Shelf.Dense (boardShelf columns b)) (howned : Owned t b columns') (hk : k ∈ columns)
    (hb : k.boardId = b) (hx : codec.parse req.columnId = some k.id) (hreq : 1 ≤ req.toPosition)
    (hperm : (boardShelf columns' b).Perm ((k.id, req.toPosition - 1) :: Shelf.makeRoom k.position
      (req.toPosition - 1) (Shelf.others k.id (boardShelf columns b)))) :
    Rearranged codec t b (.moveColumn req) columns columns' := by
  have hmem : (k.id, k.position) ∈ boardShelf columns b := mem_boardShelf.mpr ⟨k, hk, hb, rfl⟩
  have hlow : 0 ≤ req.toPosition - 1 := by omega
  obtain ⟨hopen, -, -⟩ := Shelf.open_makeRoom (req.toPosition - 1) (hd.apart.open_others hmem)
  refine ⟨howned, ⟨k.id, hx, List.mem_map_of_mem hmem, ?_⟩, fun hrange => ?_⟩
  · rw [Shelf.order_perm ((hopen.put k.id).1.perm hperm.symm) hperm,
      hd.order_move h.nodup hmem hlow, Shelf.order_others hd.apart]
  · have := hrange ⟨_, hmem, hx⟩
    exact (hd.move h.nodup hmem hlow (by omega)).perm hperm

/-- A column that was removed from the others, which were numbered anew. -/
theorem Rearranged.remove {req : RemoveColumnRequest} (hd : Shelf.Dense (boardShelf columns b))
    (howned : Owned t b columns') (hk : k ∈ columns) (hb : k.boardId = b)
    (hx : codec.parse req.columnId = some k.id)
    (hnumbered : Shelf.Dense (boardShelf columns' b) ∧ Shelf.order (boardShelf columns' b) =
      Shelf.order (Shelf.others k.id (boardShelf columns b))) :
    Rearranged codec t b (.removeColumn req) columns columns' := by
  have hmem : (k.id, k.position) ∈ boardShelf columns b := mem_boardShelf.mpr ⟨k, hk, hb, rfl⟩
  refine ⟨howned, ⟨k.id, hx, List.mem_map_of_mem hmem, ?_⟩, fun _ => hnumbered.1⟩
  rw [hnumbered.2, Shelf.order_others hd.apart]

end Rearranged

/-! ## The statements -/

section Statements

variable {v : Db ι} {t msg : String} {b x : ι} {row : ColumnRow ι}

/-- A column that is inserted. -/
theorem columns_insertColumn {e : Effect (Rec ι) (ColumnRow ι)} (he : insertColumn row v = some e) :
    ((kanban ι).applyAll v e.writes).columns = v.columns ++ [row] ∧ e.answer = row ∧
      e.writes = [.put (.column row)] ∧ ∀ k ∈ v.columns, k.id ≠ row.id := by
  unfold insertColumn at he
  split at he
  · obtain ⟨e', he', rfl⟩ := Option.map_eq_some_iff.mp he
    obtain ⟨hrows, hnew⟩ := stored_columns.rows_insert he'
    refine ⟨hrows, rfl, Table.writes_insert he', fun k hk heq => ?_⟩
    have := hnew k hk
    simp [heq] at this
  · cases he

theorem columns_insertColumnLast {e : Effect (Rec ι) (ColumnRow ι)}
    (he : insertColumnLast row v = some e) :
    ∃ n, n = Shelf.top (boardShelf v.columns row.boardId) ∧
      e.answer = { row with position := n } ∧
      ((kanban ι).applyAll v e.writes).columns = v.columns ++ [{ row with position := n }] ∧
      ∀ k ∈ v.columns, k.id ≠ row.id := by
  obtain ⟨n, hn, he⟩ := Option.bind_eq_some_iff.mp he
  obtain ⟨hrows, hans, -, hnew⟩ := columns_insertColumn he
  refine ⟨n, ?_, hans, hrows, hnew⟩
  rw [int4_eq_some hn]
  unfold Shelf.top boardShelf
  rw [List.map_map]
  rfl

theorem columns_insertColumnAt {e : Effect (Rec ι) (ColumnRow ι)}
    (hv : (v.columns.map ColumnRow.id).Nodup) (he : insertColumnAt row v = some e) :
    e.answer = row ∧ ((kanban ι).applyAll v e.writes).columns =
        (v.columns.map fun k => if decide (k.boardId = row.boardId) = true ∧
          decide (row.position ≤ k.position) = true then { k with position := k.position + 1 } else k) ++
            [row] ∧
      ∀ k ∈ v.columns, k.id ≠ row.id := by
  obtain ⟨shift, hshift, he⟩ := Option.bind_eq_some_iff.mp he
  obtain ⟨e', he', rfl⟩ := Option.map_eq_some_iff.mp he
  obtain ⟨hrows, -, -, hnew⟩ := columns_insertColumn he'
  obtain ⟨hwrites, -⟩ := Table.Stored.writes_updateChecked (g := fun k : ColumnRow ι =>
    { k with position := k.position + 1 }) hshift fun k k' hk => by
      obtain ⟨n, hn, rfl⟩ := Option.map_eq_some_iff.mp hk
      rw [int4_eq_some hn]
  refine ⟨rfl, ?_, hnew⟩
  rw [Semantics.applyAll_append, hwrites]
  refine (stored_columns.rows_put_filter_append same_columns (g := fun k =>
    { k with position := k.position + 1 }) (fun _ _ _ => rfl) hrows
      ?_).trans ?_
  · rw [List.map_append]
    refine List.nodup_append.mpr ⟨hv, List.nodup_singleton _, ?_⟩
    rintro i hi j hj rfl
    obtain ⟨k, hk, heq⟩ := List.mem_map.mp hi
    exact hnew k hk (heq.trans (List.mem_singleton.mp hj))
  · refine congrArg (· ++ [row]) (List.map_congr_left fun k _ => ?_)
    simp only [decide_eq_true_eq]

theorem columns_shiftColumns {q : ℤ → Bool} {d : ℤ} {e : Effect (Rec ι) (List (ColumnRow ι))}
    (hv : Owned t b v.columns) (he : shiftColumns t b q d v = some e) :
    ((kanban ι).applyAll v e.writes).columns = v.columns.map fun k =>
      if decide (k.boardId = b) = true ∧ q k.position = true then
        { k with position := k.position + d } else k := by
  refine (stored_columns.rows_updateChecked same_columns (g := fun k =>
    { k with position := k.position + d }) he (fun k k' hk => by
      obtain ⟨n, hn, rfl⟩ := Option.map_eq_some_iff.mp hk
      rw [int4_eq_some hn]) (fun _ => rfl) hv.keys).1.trans ?_
  refine List.map_congr_left fun k hk => ?_
  have htenant := hv.tenant k hk
  by_cases hb : k.boardId = b
  · simp [hb, htenant hb]
  · simp [hb]

theorem columns_placeColumn {p : ℤ} {e : Effect (Rec ι) (List (ColumnRow ι))}
    (hv : (v.columns.map ColumnRow.id).Nodup) (he : placeColumn t x p v = some e) :
    ((kanban ι).applyAll v e.writes).columns = v.columns.map fun k =>
      if decide (k.tenantId = t ∧ k.id = x) = true then { k with position := p } else k :=
  stored_columns.rows_update same_columns he (fun _ => rfl) hv

omit [DecidableEq ι] in
/-- What goes with cards is no column. -/
theorem ne_column_of_mem_withChildren [DecidableEq ι] {cards : List (CardRow ι)} {r : Rec ι}
    (h : r ∈ withChildren v cards) (k : ColumnRow ι) : r ≠ .column k := by
  obtain ⟨c, -, hr⟩ := List.mem_flatMap.mp h
  rintro rfl
  simp [cardChildren] at hr

/-- The columns after one was deleted. -/
theorem columns_deleteColumnRow {e : Effect (Rec ι) (List (ColumnRow ι))}
    (he : deleteColumnRow t x b v = some e) (hne : e.answer ≠ []) :
    (∃ k ∈ v.columns, k.id = x ∧ k.boardId = b) ∧
      ((kanban ι).applyAll v e.writes).columns = v.columns.filter fun k => k.id ≠ x := by
  obtain rfl := deleteColumnRow_some he
  obtain ⟨k, hk⟩ := List.exists_mem_of_ne_nil _ hne
  obtain ⟨hmem, hon⟩ := List.mem_filter.mp hk
  obtain ⟨hkt, rfl, hkb⟩ : k.tenantId = t ∧ k.id = x ∧ k.boardId = b := by
    simpa [columnOnBoard] using hon
  refine ⟨⟨k, hmem, rfl, hkb⟩, ?_⟩
  rw [Semantics.applyAll_append]
  refine stored_columns.rows_dels.trans ?_
  rw [stored_columns.rows_applyAll fun a ha k' => ?_]
  · refine List.filter_congr fun k' _ => ?_
    rw [Bool.eq_iff_iff, List.all_eq_true, decide_eq_true_iff]
    constructor
    · rintro hall heq
      have := hall k hk
      simp [Db.columnsT, heq] at this
    · intro hne r hr
      obtain ⟨-, hrid, -⟩ : r.tenantId = t ∧ r.id = k.id ∧ r.boardId = b := by
        simpa [columnOnBoard] using (List.mem_filter.mp hr).2
      have : r.id ≠ k'.id := fun heq => hne (heq.symm.trans hrid)
      simp [Db.columnsT, this]
  · obtain ⟨r, hr, rfl⟩ := List.mem_map.mp ha
    split at hr
    · cases hr
    · exact ne_column_of_mem_withChildren hr k'

/-- The columns after those of the board were numbered in their order. -/
theorem columns_gapFill {e : Effect (Rec ι) Unit} (hv : Owned t b v.columns)
    (he : gapFill t b v = some e) :
    ∃ row : List (ColumnRow ι), row.Perm (v.columns.filter fun k => k.boardId = b) ∧
      (row.Pairwise fun k k' => k.position ≤ k'.position) ∧
      ((kanban ι).applyAll v e.writes).columns = v.columns.map fun k =>
        if k.boardId = b then { k with position := (row.idxOf k : ℤ) } else k := by
  have hfilter : (v.columns.filter fun k => decide (k.tenantId = t ∧ k.boardId = b)) =
      v.columns.filter fun k => k.boardId = b :=
    List.filter_congr fun k hk => decide_eq_decide.mpr ⟨And.right, fun hb => ⟨hv.tenant k hk hb, hb⟩⟩
  cases he
  rw [hfilter]
  have hperm := List.perm_insertionSort (fun k k' : ColumnRow ι => k.position ≤ k'.position)
    (v.columns.filter fun k => k.boardId = b)
  have : IsTrans (ColumnRow ι) fun k k' => k.position ≤ k'.position := ⟨fun _ _ _ => le_trans⟩
  have : Std.Total fun k k' : ColumnRow ι => k.position ≤ k'.position :=
    ⟨fun k k' => le_total k.position k'.position⟩
  have hsorted := List.pairwise_insertionSort (fun k k' : ColumnRow ι => k.position ≤ k'.position)
    (v.columns.filter fun k => k.boardId = b)
  generalize (v.columns.filter fun k => decide (k.boardId = b)).insertionSort
    (fun k k' => k.position ≤ k'.position) = row at hperm hsorted ⊢
  have hkeys : (row.map ColumnRow.id).Nodup :=
    (hperm.map ColumnRow.id).nodup_iff.mpr (hv.keys.sublist (List.filter_sublist.map _))
  have hmem : ∀ k, k ∈ row ↔ k ∈ v.columns ∧ k.boardId = b := fun k => by
    rw [hperm.mem_iff, List.mem_filter, decide_eq_true_iff]
  refine ⟨row, hperm, hsorted, ?_⟩
  have hzip : (row.zipIdx.map fun k => Write.put (Rec.column { k.1 with position := (k.2 : ℤ) })) =
      row.map fun k => .put (.column { k with position := (row.idxOf k : ℤ) }) := by
    refine List.ext_getElem (by simp) fun i h₁ h₂ => ?_
    have hi : i < row.length := by simpa using h₂
    simp [List.Nodup.idxOf_getElem (List.Nodup.of_map _ hkeys) i hi]
  rw [hzip]
  refine (stored_columns.rows_puts same_columns (g := fun k =>
    { k with position := (row.idxOf k : ℤ) }) (fun _ _ => rfl) hkeys
      (fun k hk => List.mem_map_of_mem ((hmem k).mp hk).1) rfl).trans ?_
  refine List.map_congr_left fun k hk => ?_
  by_cases hb : k.boardId = b
  · rw [Table.Stored.find?_key_of_mem hv.keys (fun k hk => ((hmem k).mp hk).1)
      ((hmem k).mpr ⟨hk, hb⟩), if_pos hb]
    rfl
  · rw [Table.Stored.find?_key_of_not_mem hv.keys (fun k hk => ((hmem k).mp hk).1) hk
      fun hin => hb ((hmem k).mp hin).2, if_neg hb]
    rfl

end Statements

/-! ## The handlers -/

/-- The column that is stored for a key, if it is still there. -/
def keyColumn (db : Db ι) (tenantId key : String) : Option (ColumnRow ι) :=
  (keyCard db tenantId key).bind fun x =>
    (db.columns.filter fun k => k.id = x ∧ k.tenantId = tenantId).head?

/-- The call repeats one whose column is still there. -/
def Repeated (tenantId : String) (db : Db ι) : ColumnCall → Bool
  | .addColumn req => (keyColumn db tenantId req.idempotencyKey).isSome
  | _ => false

section Handlers

variable {codec : IdCodec ι} {ctx : RequestContext} {t msg : String} {b : ι} {db v : Db ι}

theorem solo_cachedColumn_bind {E : Db ι → Prop} {Q : α → Tx (Rec ι) → Db ι → Prop} {key : String}
    {f : Option (ColumnRow ι) → Handler ι α}
    (h : Solo (kanban ι) E (f (keyColumn v t key)) .idle v Q) :
    Solo (kanban ι) E ((cachedColumn t key).bind f) .idle v Q := by
  unfold cachedColumn
  unfold keyColumn keyCard at h
  split
  · rw [if_pos ‹_›] at h
    exact h
  · rw [if_neg ‹_›] at h
    refine solo_bind (solo_fetchOptional_bind ?_)
    rw [Db.idempotencyKeysT_rows]
    cases hkey : (v.idempotencyKeys.filter fun r => decide (r.tenantId = t ∧
        r.key = key)).head?.bind IdempotencyRow.responseCardId with
    | none =>
        rw [hkey] at h
        exact solo_pure h
    | some columnId =>
        rw [hkey] at h
        dsimp only
        rw [← Prog.bind_pure (fetchOptional _ _)]
        exact solo_fetchOptional_bind (solo_pure h)

/-- The columns of the board after the shift and the placement of a move. -/
theorem soloTx_reorderColumn {k : ColumnRow ι} {p : ℤ} (hv : Owned t b v.columns)
    (hk : k ∈ v.columns) (hb : k.boardId = b) :
    SoloTx (kanban ι) (reorderColumn t k.id b k.position p) v fun _ v' =>
      Owned t b v'.columns ∧ (boardShelf v'.columns b).Perm ((k.id, p) :: Shelf.makeRoom k.position p
        (Shelf.others k.id (boardShelf v.columns b))) := by
  have hmem : (k.id, k.position) ∈ boardShelf v.columns b := mem_boardShelf.mpr ⟨k, hk, hb, rfl⟩
  -- a shift that passes by the column, and the placement
  have hshift : ∀ {msg : String} {q : ℤ → Bool} {d : ℤ}, q k.position = false →
      Shelf.makeRoom k.position p (Shelf.others k.id (boardShelf v.columns b)) =
        Shelf.shift q d (Shelf.others k.id (boardShelf v.columns b)) →
      SoloTx (kanban ι) ((query msg (shiftColumns t b q d)).bind fun _ =>
        (query "failed to place moved column" (placeColumn t k.id p)).bind fun _ => .pure ()) v
        fun _ v' => Owned t b v'.columns ∧ (boardShelf v'.columns b).Perm ((k.id, p) ::
          Shelf.makeRoom k.position p (Shelf.others k.id (boardShelf v.columns b))) := by
    intro msg q d hq hroom
    refine soloTx_bind (soloTx_query fun e he => ?_)
    refine soloTx_bind (soloTx_query fun e' he' => soloTx_pure ?_)
    have hcols := columns_shiftColumns hv he
    have howned : Owned t b ((kanban ι).applyAll v e.writes).columns := by
      rw [hcols]
      exact hv.map fun k => by split <;> exact ⟨rfl, rfl, rfl⟩
    have hk' : k ∈ ((kanban ι).applyAll v e.writes).columns := by
      rw [hcols]
      exact List.mem_map.mpr ⟨k, hk, if_neg (by simp [hq])⟩
    have hcols' := columns_placeColumn howned.keys he'
    rw [hcols']
    refine ⟨howned.map fun k => by split <;> exact ⟨rfl, rfl, rfl⟩, ?_⟩
    refine (boardShelf_place howned hk' hb).trans (List.Perm.of_eq ?_)
    rw [hcols, boardShelf_shift, Shelf.others_shift, hroom]
  unfold reorderColumn
  split
  · rename_i heq
    refine soloTx_pure ⟨hv, ?_⟩
    rw [← heq, Shelf.makeRoom_self]
    exact Shelf.perm_others hv.nodup hmem
  · split
    · refine hshift (by simp) ?_
      rw [Shelf.makeRoom, if_pos ‹_›]
    · refine hshift (by simp) ?_
      rw [Shelf.makeRoom, if_neg ‹_›]

/-- The call has gone through. -/
def Rearranges (codec : IdCodec ι) (t : String) (b : ι) (call : ColumnCall) (db : Db ι)
    (sh : Shelves ι) : Prop :=
  Repeated t db call = false ∧ Rearranged codec t b call db.columns sh.columns

theorem solo_moveColumn {req : MoveColumnRequest} (hdb : Owned t b db.columns)
    (hd : Shelf.Dense (boardShelf db.columns b)) (ht : ctx.auth.bind AuthContext.tenantId = some t)
    (hb : ctx.checked.bind codec.parse = some b) :
    Solo (kanban ι) (fun v => Rearranges codec t b (.moveColumn req) db v.shelves)
      (moveColumn codec ctx req) .idle db
      fun _ _ v => Rearranges codec t b (.moveColumn req) db v.shelves := by
  refine solo_orError_bind fun t' ht' => solo_orError_bind fun objectId hobject =>
    solo_orError_bind fun b' hb' => solo_orError_bind fun x hx => solo_ensure_bind fun hreq =>
    solo_beginTx_bind ?_
  obtain rfl := Option.some.inj (ht'.symm.trans ht)
  rw [show ctx.checked = some objectId from hobject] at hb
  obtain rfl := Option.some.inj (hb'.symm.trans hb)
  refine SoloTx.bind_soloIn (B := fun k v => db = v ∧ k ∈ db.columns ∧ k.id = x ∧ k.boardId = b')
    (soloTx_fetchOr fun e k he hk => ?_) ?_
  · cases he
    obtain ⟨hmem, hon⟩ := List.mem_filter.mp (List.mem_of_mem_head? hk)
    obtain ⟨-, hid, hboard⟩ : k.tenantId = t' ∧ k.id = x ∧ k.boardId = b' := by
      simpa [columnOnBoard] using hon
    exact ⟨rfl, hmem, hid, hboard⟩
  · rintro k _ ⟨rfl, hk, rfl, hkb⟩
    refine (soloTx_reorderColumn hdb hk hkb).bind_soloIn fun _ v₁ ⟨howned, hperm⟩ => ?_
    have hdone : Rearranged codec t' b' (.moveColumn req) db.columns v₁.columns :=
      .move hdb hd howned hk hkb hx hreq hperm
    refine (Careful.read fun db e he => by cases he; rfl).soloTx.bind_soloIn fun rows v₂ h₂ => ?_
    refine Careful.insertBoardEvent.soloTx.bind_soloIn fun _ v₃ h₃ => ?_
    have hdone₃ : Rearranges codec t' b' (.moveColumn req) db v₃.shelves := by
      refine ⟨rfl, ?_⟩
      rw [h₃, h₂]
      exact hdone
    exact soloIn_commitTx_bind hdone₃ (solo_pure hdone₃)

theorem solo_removeColumn {req : RemoveColumnRequest} (hdb : Owned t b db.columns)
    (hd : Shelf.Dense (boardShelf db.columns b)) (ht : ctx.auth.bind AuthContext.tenantId = some t)
    (hb : ctx.checked.bind codec.parse = some b) :
    Solo (kanban ι) (fun v => Rearranges codec t b (.removeColumn req) db v.shelves)
      (removeColumn codec ctx req) .idle db
      fun _ _ v => Rearranges codec t b (.removeColumn req) db v.shelves := by
  refine solo_orError_bind fun t' ht' => solo_orError_bind fun objectId hobject =>
    solo_orError_bind fun b' hb' => solo_orError_bind fun x hx => solo_beginTx_bind ?_
  obtain rfl := Option.some.inj (ht'.symm.trans ht)
  rw [show ctx.checked = some objectId from hobject] at hb
  obtain rfl := Option.some.inj (hb'.symm.trans hb)
  refine SoloTx.bind_soloIn (B := fun _ v => db = v) (soloTx_query fun e he => by cases he; rfl) ?_
  rintro found _ rfl
  refine soloIn_ensure_bind fun _ => ?_
  refine SoloTx.bind_soloIn (B := fun deleted v₁ => deleted ≠ [] →
      (∃ k ∈ db.columns, k.id = x ∧ k.boardId = b') ∧
        v₁.columns = db.columns.filter fun k => k.id ≠ x)
    (soloTx_query fun e he => columns_deleteColumnRow he) ?_
  intro deleted v₁ h₁
  refine soloIn_ensure_bind fun hdeleted => ?_
  obtain ⟨⟨k, hk, rfl, hkb⟩, hcols⟩ := h₁ hdeleted
  have howned : Owned t' b' v₁.columns := by
    rw [hcols]
    exact ⟨hdb.keys.sublist (List.filter_sublist.map _), fun k' hk' => hdb.tenant k'
      (List.mem_filter.mp hk').1⟩
  have hshelf : boardShelf v₁.columns b' = Shelf.others k.id (boardShelf db.columns b') := by
    rw [hcols, others_boardShelf]
  rintro ws rfl
  refine solo_stmt_active (fun e he => ?_) ?_
  · obtain ⟨row, hrow, hsorted, hnumbered⟩ := columns_gapFill howned he
    have hmap : Owned t' b' ((kanban ι).applyAll ((kanban ι).applyAll db ws) e.writes).columns := by
      rw [hnumbered]
      exact howned.map fun k => by split <;> exact ⟨rfl, rfl, rfl⟩
    have hapart : Shelf.Apart (boardShelf ((kanban ι).applyAll db ws).columns b') := by
      rw [hshelf]
      exact Shelf.apart_others hd.apart
    have hdone : Rearranged codec t' b' (.removeColumn req) db.columns
        ((kanban ι).applyAll ((kanban ι).applyAll db ws) e.writes).columns := by
      refine .remove hd hmap hk hkb hx ?_
      rw [hnumbered, ← hshelf]
      exact boardShelf_numbered howned hapart hrow hsorted
    refine solo_bind (solo_pure (Careful.insertBoardEvent.soloTx.bind_soloIn (fun _ v₂ h₂ => ?_)
      (ws ++ e.writes) (Semantics.applyAll_append _ _ _ _)))
    have hdone₂ : Rearranges codec t' b' (.removeColumn req) db v₂.shelves := by
      refine ⟨rfl, ?_⟩
      rw [h₂]
      exact hdone
    exact soloIn_commit (.inr hdone₂) (solo_pure hdone₂) solo_fail
  · -- the transaction is aborted, so that the event cannot be written
    exact solo_bind (solo_pure (solo_bind (solo_bind (solo_bind (solo_stmt_aborted solo_fail)))))

/-- The transaction of a new column. -/
theorem solo_insertNewColumn {req : AddColumnRequest} {k : ColumnRow ι} (hdb : Owned t b db.columns)
    (hd : Shelf.Dense (boardShelf db.columns b)) (hkt : k.tenantId = t) (hkb : k.boardId = b)
    (hpos : k.position = req.position) (hnew : Repeated t db (.addColumn req) = false) :
    Solo (kanban ι) (fun v => Rearranges codec t b (.addColumn req) db v.shelves)
      (insertNewColumn codec k) .idle db
      fun _ tx v => tx = .idle ∧ Rearranges codec t b (.addColumn req) db v.shelves := by
  have hrest : ∀ (row : ColumnRow ι) (v₁ : Db ι),
      Rearranged codec t b (.addColumn req) db.columns v₁.columns →
      SoloIn (kanban ι) (fun v => Rearranges codec t b (.addColumn req) db v.shelves)
        ((insertBoardEvent row.tenantId row.boardId "ColumnAdded" [("column", eventColumnJson
          (columnFromRow codec row)), ("position", .num row.position)]).bind fun _ =>
            (commitTx "commit failed").bind fun _ => .pure row) db v₁
        fun _ tx v => tx = .idle ∧ Rearranges codec t b (.addColumn req) db v.shelves := by
    intro row v₁ h₁
    refine Careful.insertBoardEvent.soloTx.bind_soloIn fun _ v₂ h₂ => ?_
    have hdone : Rearranges codec t b (.addColumn req) db v₂.shelves := by
      refine ⟨hnew, ?_⟩
      rw [h₂]
      exact h₁
    exact soloIn_commitTx_bind hdone (solo_pure ⟨rfl, hdone⟩)
  subst hkb
  refine solo_beginTx_bind ?_
  split
  · refine SoloTx.bind_soloIn (soloTx_query fun e he => ?_) hrest
    obtain ⟨n, hn, -, hcols, hnew⟩ := columns_insertColumnLast he
    rw [hcols]
    exact .append hd (hdb.append hnew hkt) rfl hnew hn
  · refine SoloTx.bind_soloIn (soloTx_query fun e he => ?_) hrest
    obtain ⟨-, hcols, hnew⟩ := columns_insertColumnAt hdb.keys he
    rw [hcols, hpos]
    refine .insert hd (Owned.append (hdb.map fun k' => ?_) ?_ hkt) rfl hnew hpos
      (boardShelf_shift (q := fun x => req.position ≤ x))
    · split <;> exact ⟨rfl, rfl, rfl⟩
    · intro k' hk'
      obtain ⟨k₀, hk₀, rfl⟩ := List.mem_map.mp hk'
      split <;> exact hnew k₀ hk₀

theorem solo_addColumn {req : AddColumnRequest} (hdb : Owned t b db.columns)
    (hd : Shelf.Dense (boardShelf db.columns b)) (ht : ctx.auth.bind AuthContext.tenantId = some t)
    (hb : ctx.checked.bind codec.parse = some b) :
    Solo (kanban ι) (fun v => Rearranges codec t b (.addColumn req) db v.shelves)
      (addColumn codec ctx req) .idle db
      fun _ _ v => Repeated t db (.addColumn req) ∧ v = db ∨
        Rearranges codec t b (.addColumn req) db v.shelves := by
  refine solo_orError_bind fun objectId hobject => solo_orError_bind fun b' hb' =>
    solo_orError_bind fun t' ht' => solo_ensure_bind fun _ => solo_cachedColumn_bind ?_
  obtain rfl := Option.some.inj (ht'.symm.trans ht)
  rw [show ctx.checked = some objectId from hobject] at hb
  obtain rfl := Option.some.inj (hb'.symm.trans hb)
  cases hfound : keyColumn db t' req.idempotencyKey with
  | some k => exact solo_pure (.inl ⟨by rw [Repeated, hfound]; rfl, rfl⟩)
  | none =>
      refine solo_mute_bind .newId fun columnId => solo_bind ((solo_insertNewColumn hdb hd rfl rfl rfl
        (by rw [Repeated, hfound]; rfl)).mono ?_)
      rintro row tx v ⟨rfl, hv⟩
      exact solo_tame_bind .storeIdempotencyId hv fun _ v' hv' => solo_pure (.inr (hv' ▸ hv))

/-- **A call that runs alone** leaves the columns as they are, or rearranges them; and if it
succeeds, it has done so, unless it repeats another. -/
theorem solo_columnHandler {q : RequestContext × ColumnCall} (hdb : Owned t b db.columns)
    (hd : Shelf.Dense (boardShelf db.columns b)) (ht : q.1.auth.bind AuthContext.tenantId = some t)
    (hb : q.1.checked.bind codec.parse = some b) :
    Solo (kanban ι) (fun v => Rearranges codec t b q.2 db v.shelves) (columnHandler codec q) .idle db
      fun _ _ v => Repeated t db q.2 ∧ v = db ∨ Rearranges codec t b q.2 db v.shelves := by
  obtain ⟨ctx, call⟩ := q
  cases call with
  | addColumn req =>
      exact solo_bind ((solo_addColumn hdb hd ht hb).mono fun _ _ _ h => solo_pure h)
  | moveColumn req =>
      exact solo_bind ((solo_moveColumn hdb hd ht hb).mono fun _ _ _ h => solo_pure (.inr h))
  | removeColumn req => exact (solo_removeColumn hdb hd ht hb).mono fun _ _ _ h => .inr h

end Handlers

/-! ## Serial runs -/

/-- The call is on the board, in the tenant of the board; the authorization of the call sees to
that. -/
def OnBoard (codec : IdCodec ι) (tenantId : String) (boardId : ι) (ctx : RequestContext) : Prop :=
  ctx.auth.bind AuthContext.tenantId = some tenantId ∧ ctx.checked.bind codec.parse = some boardId

/-- The call repeats another, or stays among the columns that are there. -/
def StaysAmong (codec : IdCodec ι) (tenantId : String) (boardId : ι) (w : World (Db ι) (Backend ι))
    (c : (RequestContext × ColumnCall) × List (Act (Move ι))) : Prop :=
  Repeated tenantId w.store c.1.2 ∨
    AmongColumns codec c.1.2 (boardShelf w.store.columns boardId)

instance {codec : IdCodec ι} {t : String} {b : ι} {w : World (Db ι) (Backend ι)}
    {c : (RequestContext × ColumnCall) × List (Act (Move ι))} :
    Decidable (StaysAmong codec t b w c) := inferInstanceAs (Decidable (_ ∨ _))

section Runs

variable {codec : IdCodec ι} {w w' w'' : World (Db ι) (Backend ι)} {t : String} {b : ι}
  {q : RequestContext × ColumnCall} {acts : List (Act (Move ι))}
  {calls : List ((RequestContext × ColumnCall) × List (Act (Move ι)))}
  {th : Thread (Db ι) (Rec ι) (Call ι) (Reply ι) ConnectError Unit}

/-- What a call leaves, from its first step as far as it gets. -/
theorem exec_columnHandler (howned : Owned t b w.store.columns)
    (hd : Shelf.Dense (boardShelf w.store.columns b)) (hq : OnBoard codec t b q.1)
    (hrun : Machine.Exec (Thread.step (kanban ι)) (Thread.start (columnHandler codec q), w) acts
      (th, w')) :
    (w'.store = w.store ∨ Rearranges codec t b q.2 w.store w'.store.shelves) ∧
      (th.prog.result = some (.ok ()) → Repeated t w.store q.2 ∧ w'.store = w.store ∨
        Rearranges codec t b q.2 w.store w'.store.shelves) := by
  obtain ⟨hstore, hresult⟩ := (solo_columnHandler howned hd hq.1 hq.2).exec hrun
  exact ⟨hstore, hresult ()⟩

/-- **The order of the columns.**  In every state of a serial run, from a board without columns, whose
calls stay among the columns that are there, the positions are `0`, `1`, … without a gap; and each
call leaves the columns as they are or arranges them as it is asked to, and if it succeeds and does
not repeat another, it has arranged them. -/
theorem serial_columns_dense (hkeys : (w.store.columns.map ColumnRow.id).Nodup)
    (hnone : ∀ k ∈ w.store.columns, k.boardId ≠ b) (hcalls : ∀ c ∈ calls, OnBoard codec t b c.1.1)
    (hrun : Machine.ExecWhile (serialStep (kanban ι) (columnHandler codec)) (StaysAmong codec t b) w
      calls w') :
    Shelf.Dense (boardShelf w'.store.columns b) ∧
      ∀ q acts th w'', OnBoard codec t b q.1 → Machine.Exec (Thread.step (kanban ι))
          (Thread.start (columnHandler codec q), w') acts (th, w'') →
        (w''.store.columns = w'.store.columns ∨
          Arranges codec q.2 (boardShelf w'.store.columns b) (boardShelf w''.store.columns b)) ∧
        (th.prog.result = some (.ok ()) → Repeated t w'.store q.2 ∨
          Arranges codec q.2 (boardShelf w'.store.columns b) (boardShelf w''.store.columns b)) := by
  obtain ⟨howned, hd⟩ : Owned t b w'.store.columns ∧ Shelf.Dense (boardShelf w'.store.columns b) := by
    refine (hrun.and_mem hcalls).invariant (fun w => Owned t b w.store.columns ∧
      Shelf.Dense (boardShelf w.store.columns b)) ⟨⟨hkeys, fun k hk hb => absurd hb (hnone k hk)⟩, ?_⟩
      ?_
    · have hnil : boardShelf w.store.columns b = [] := by
        rw [boardShelf, List.filter_eq_nil_iff.mpr fun k hk => by simpa using hnone k hk]
        rfl
      rw [hnil]
      exact Shelf.dense_nil
    · rintro w₁ ⟨q, acts⟩ w₂ ⟨howned, hd⟩ ⟨hamong, hq⟩ hs
      obtain ⟨⟨th, w₃⟩, hth, rfl⟩ := Option.map_eq_some_iff.mp hs
      rcases (exec_columnHandler howned hd hq (Machine.exec_of_run hth)).1 with hsame | ⟨hnew, hdone⟩
      · exact hsame.symm ▸ ⟨howned, hd⟩
      · refine ⟨hdone.owned, hdone.dense (hamong.resolve_left fun hrep => ?_)⟩
        rw [hnew] at hrep
        cases hrep
  refine ⟨hd, fun q acts th w'' hq hcall => ?_⟩
  obtain ⟨hstore, hresult⟩ := exec_columnHandler howned hd hq hcall
  refine ⟨?_, fun hok => ?_⟩
  · rcases hstore with hsame | hdone
    · exact .inl (by rw [hsame])
    · exact .inr hdone.2.order
  · rcases hresult hok with ⟨hrep, -⟩ | hdone
    · exact .inl hrep
    · exact .inr hdone.2.order

end Runs

/-- A board without columns. -/
def bareBoard : World (Db String) (Backend String) where
  store := { Db.empty with
    projects := [⟨"p", "t", "Roadmap", "ROAD", "ROAD", "", "user:ann"⟩]
    boards := [⟨"b", "t", "p", "Board", "BOARD", "", none, "", 0⟩] }
  ext := Backend.empty

/-- A member of the board. -/
def ownerOfBoard : RequestContext := ⟨some ⟨some "t", some "user:ann"⟩, some "b", 0⟩

/-- An `AddColumn` without a key, from its first step to its last. -/
def addsColumn (columnId : String) (position : ℤ) (event : String) :
    (RequestContext × ColumnCall) × List (Act (Move String)) :=
  ((ownerOfBoard, .addColumn ⟨"Todo", "", 0, position, false, ""⟩),
    [.move (.fresh columnId), .ok, .ok, .ok, .move (.fresh event), .ok, .ok, .ok])

/-- A `MoveColumn` to another position. -/
def movesColumn (columnId : String) (toPosition : ℤ) (event : String) :
    (RequestContext × ColumnCall) × List (Act (Move String)) :=
  ((ownerOfBoard, .moveColumn ⟨columnId, toPosition⟩),
    [.ok, .ok, .ok, .ok, .ok, .ok, .move (.fresh event), .ok, .ok, .ok])

def removesColumn (columnId : String) (event : String) :
    (RequestContext × ColumnCall) × List (Act (Move String)) :=
  ((ownerOfBoard, .removeColumn ⟨columnId⟩),
    [.ok, .ok, .ok, .ok, .ok, .move (.fresh event), .ok, .ok, .ok])

/-- Three columns, the first of which is moved to the end, and the second is removed. -/
theorem serial_columns_dense_removed :
    ∃ w', Machine.ExecWhile (serialStep (kanban String) (columnHandler textIds))
        (StaysAmong textIds "t" "b") bareBoard
        [addsColumn "k" 0 "e", addsColumn "l" 0 "f", addsColumn "m" 1 "g", movesColumn "k" 3 "h",
          removesColumn "m" "i"] w' ∧
      Shelf.order (boardShelf w'.store.columns "b") = ["l", "k"] ∧
      Shelf.Dense (boardShelf w'.store.columns "b") := by
  obtain ⟨w', hw', horder⟩ : ∃ w', Machine.run (Machine.guarded (serialStep (kanban String)
      (columnHandler textIds)) (StaysAmong textIds "t" "b")) bareBoard
        [addsColumn "k" 0 "e", addsColumn "l" 0 "f", addsColumn "m" 1 "g", movesColumn "k" 3 "h",
          removesColumn "m" "i"] = some w' ∧
      Shelf.order (boardShelf w'.store.columns "b") = ["l", "k"] := ⟨_, rfl, by decide⟩
  have hrun := Machine.execWhile_of_run hw'
  refine ⟨w', hrun, horder, (serial_columns_dense (by decide) (by decide) ?_ hrun).1⟩
  simp only [List.forall_mem_cons, addsColumn, movesColumn, removesColumn]
  exact ⟨⟨rfl, rfl⟩, ⟨rfl, rfl⟩, ⟨rfl, rfl⟩, ⟨rfl, rfl⟩, ⟨rfl, rfl⟩, List.forall_mem_nil _⟩

/-- A column that is added far from the others, and one that is moved past their end, leave gaps. -/
theorem columns_with_gaps :
    (∃ w', Machine.Exec (serialStep (kanban String) (columnHandler textIds)) bareBoard
        [addsColumn "k" 5 "e"] w' ∧ boardShelf w'.store.columns "b" = [("k", 5)] ∧
      ¬ Shelf.Dense (boardShelf w'.store.columns "b")) ∧
    ∃ w', Machine.Exec (serialStep (kanban String) (columnHandler textIds)) bareBoard
        [addsColumn "k" 0 "e", addsColumn "l" 0 "f", movesColumn "k" 9 "g"] w' ∧
      boardShelf w'.store.columns "b" = [("k", 8), ("l", 0)] ∧
      ¬ Shelf.Dense (boardShelf w'.store.columns "b") := by
  obtain ⟨w₁, hw₁, hrest₁⟩ : ∃ w', Machine.run (serialStep (kanban String) (columnHandler textIds))
      bareBoard [addsColumn "k" 5 "e"] = some w' ∧ boardShelf w'.store.columns "b" = [("k", 5)] ∧
        ¬ Shelf.Dense (boardShelf w'.store.columns "b") := ⟨_, rfl, by decide, by decide⟩
  obtain ⟨w₂, hw₂, hrest₂⟩ : ∃ w', Machine.run (serialStep (kanban String) (columnHandler textIds))
      bareBoard [addsColumn "k" 0 "e", addsColumn "l" 0 "f", movesColumn "k" 9 "g"] = some w' ∧
        boardShelf w'.store.columns "b" = [("k", 8), ("l", 0)] ∧
        ¬ Shelf.Dense (boardShelf w'.store.columns "b") := ⟨_, rfl, by decide, by decide⟩
  exact ⟨⟨w₁, Machine.exec_of_run hw₁, hrest₁⟩, w₂, Machine.exec_of_run hw₂, hrest₂⟩

end Kanban.Rpc
