import Kanban.Lib.Serial
import Kanban.Lib.Shelf
import Kanban.Rpc.Aggregates
import Kanban.Rpc.Alone

/-!
# The order of the sources of an aggregated board

The sources of an aggregated board stand at positions, and every call that adds, moves or removes
one numbers them anew.  Between the calls a board can be deleted, and its rows go with it: the
positions of the others then have gaps.  `AddSourceBoard` makes room at a position, not at an index,
and it counts the row of the board itself when the board is a source already.

## Main definitions

* `sourceShelf` — the sources of an aggregated board, each at its position.
* `SourceCall`, `sourceHandler` — the calls.
* `SourcesArranged` — what a call does to the order.
* `CountsSources` — the position is the one that the request counts to.
-/

namespace Kanban.Rpc

open Program Kanban.Store Kanban.Auth
open Kanban.Services (AuthContext ConnectError IdCodec)

variable {ι α β : Type} [DecidableEq ι]

/-! ## The sources of an aggregated board -/

/-- The sources of an aggregated board, each at its position. -/
def sourceShelf (sources : List (SourceRow ι)) (aggregatedBoardId : ι) : List (ι × ℤ) :=
  (sources.filter fun s => s.aggregatedBoardId = aggregatedBoardId).map fun s =>
    (s.boardId, s.position)

/-- The sources have keys, and those of the aggregated board are in its tenant. -/
structure SourcesOwned (tenantId : String) (aggregatedBoardId : ι) (sources : List (SourceRow ι)) :
    Prop where
  keys : (sources.map fun s => (s.aggregatedBoardId, s.boardId)).Nodup
  tenant : ∀ s ∈ sources, s.aggregatedBoardId = aggregatedBoardId → s.tenantId = tenantId

section SourceShelf

variable {sources : List (SourceRow ι)} {t : String} {a x : ι} {s : SourceRow ι} {p : ℤ}

theorem mem_sourceShelf {b : ι × ℤ} :
    b ∈ sourceShelf sources a ↔
      ∃ s ∈ sources, s.aggregatedBoardId = a ∧ (s.boardId, s.position) = b := by
  simp [sourceShelf, and_assoc]

/-- The rows of the aggregated board under the tenant are all of its rows. -/
theorem SourcesOwned.ofAggregate (h : SourcesOwned t a sources) (hs : s ∈ sources) :
    ofAggregate t a s = decide (s.aggregatedBoardId = a) :=
  decide_eq_decide.mpr ⟨And.left, fun ha => ⟨ha, h.tenant s hs ha⟩⟩

theorem SourcesOwned.filter_ofAggregate (h : SourcesOwned t a sources) :
    sources.filter (Rpc.ofAggregate t a) = sources.filter fun s => s.aggregatedBoardId = a :=
  List.filter_congr fun _ hs => h.ofAggregate hs

theorem SourcesOwned.nodup (h : SourcesOwned t a sources) :
    ((sourceShelf sources a).map Prod.fst).Nodup := by
  unfold sourceShelf
  rw [List.map_map]
  have hpairs : ((sources.filter fun s => s.aggregatedBoardId = a).map fun s =>
      (s.aggregatedBoardId, s.boardId)).Nodup := h.keys.sublist (List.filter_sublist.map _)
  refine List.Nodup.of_map (fun x => (a, x)) ?_
  rw [List.map_map]
  refine (List.map_congr_left fun s hs => ?_) ▸ hpairs
  rw [Function.comp_apply, Function.comp_apply, of_decide_eq_true (List.mem_filter.mp hs).2]

omit [DecidableEq ι] in
/-- A change of some sources that keeps their keys and tenants keeps who owns them. -/
theorem SourcesOwned.map (h : SourcesOwned t a sources) {f : SourceRow ι → SourceRow ι}
    (hf : ∀ s, (f s).aggregatedBoardId = s.aggregatedBoardId ∧ (f s).boardId = s.boardId ∧
      (f s).tenantId = s.tenantId) : SourcesOwned t a (sources.map f) := by
  refine ⟨?_, fun s hs ha => ?_⟩
  · rw [List.map_map]
    have hkeys : sources.map ((fun s => (s.aggregatedBoardId, s.boardId)) ∘ f) =
        sources.map fun s => (s.aggregatedBoardId, s.boardId) :=
      List.map_congr_left fun s _ => Prod.ext (hf s).1 (hf s).2.1
    rw [hkeys]
    exact h.keys
  · obtain ⟨s', hs', rfl⟩ := List.mem_map.mp hs
    exact (hf s').2.2.trans (h.tenant s' hs' ((hf s').1.symm.trans ha))

omit [DecidableEq ι] in
theorem SourcesOwned.filter (h : SourcesOwned t a sources) (q : SourceRow ι → Bool) :
    SourcesOwned t a (sources.filter q) :=
  ⟨h.keys.sublist (List.filter_sublist.map _), fun s hs => h.tenant s (List.mem_filter.mp hs).1⟩

omit [DecidableEq ι] in
theorem SourcesOwned.append (h : SourcesOwned t a sources)
    (hnew : ∀ s' ∈ sources, ¬ (s'.aggregatedBoardId = s.aggregatedBoardId ∧ s'.boardId = s.boardId))
    (hs : s.tenantId = t) : SourcesOwned t a (sources ++ [s]) := by
  refine ⟨?_, fun s' hs' ha => ?_⟩
  · rw [List.map_append]
    refine List.nodup_append.mpr ⟨h.keys, List.nodup_singleton _, ?_⟩
    rintro i hi j hj rfl
    obtain ⟨s', hs', heq⟩ := List.mem_map.mp hi
    exact hnew s' hs' (Prod.mk_inj.mp (heq.trans (List.mem_singleton.mp hj)))
  · rcases List.mem_append.mp hs' with hs' | hs'
    · exact h.tenant s' hs' ha
    · rw [List.mem_singleton.mp hs', hs]

theorem sourceShelf_shift {q : ℤ → Bool} {d : ℤ} :
    sourceShelf (sources.map fun s => if decide (s.aggregatedBoardId = a) = true ∧
        q s.position = true then { s with position := s.position + d } else s) a =
      Shelf.shift q d (sourceShelf sources a) :=
  Shelf.shift_rows (q := q) (r := fun s : SourceRow ι => s.aggregatedBoardId = a)
    (f := fun s => (s.boardId, s.position)) (g := fun s => { s with position := s.position + d })
    (fun _ => rfl) (fun _ => rfl) sources

theorem others_sourceShelf :
    Shelf.others x (sourceShelf sources a) =
      sourceShelf (sources.filter fun s => s.boardId ≠ x) a := by
  unfold Shelf.others sourceShelf
  rw [List.filter_map, List.filter_filter, List.filter_filter]
  exact congrArg _ (List.filter_congr fun s _ => Bool.and_comm _ _)

/-- A source that is placed anew, among the others. -/
theorem sourceShelf_place (h : SourcesOwned t a sources) (hs : s ∈ sources)
    (ha : s.aggregatedBoardId = a) (hx : s.boardId = x) :
    (sourceShelf (sources.map fun s => if (s.aggregatedBoardId, s.boardId) = (a, x) then
        { s with position := p } else s) a).Perm
      ((x, p) :: Shelf.others x (sourceShelf sources a)) := by
  have hplaced : SourcesOwned t a (sources.map fun s => if (s.aggregatedBoardId, s.boardId) = (a, x)
      then { s with position := p } else s) := h.map fun s => by split <;> exact ⟨rfl, rfl, rfl⟩
  have hothers : (sources.map fun s => if (s.aggregatedBoardId, s.boardId) = (a, x) then
      { s with position := p } else s).filter (fun s => s.boardId ≠ x) =
        sources.filter fun s => s.boardId ≠ x := by
    rw [List.filter_map, show ((fun s : SourceRow ι => decide (s.boardId ≠ x)) ∘ fun s =>
      if (s.aggregatedBoardId, s.boardId) = (a, x) then { s with position := p } else s) =
        fun s => decide (s.boardId ≠ x) from funext fun s => by
          dsimp only [Function.comp_apply]; split <;> rfl]
    refine (List.map_congr_left fun s hs => if_neg fun heq => ?_).trans (List.map_id _)
    exact of_decide_eq_true (List.mem_filter.mp hs).2 (Prod.mk_inj.mp heq).2
  rw [others_sourceShelf, ← hothers, ← others_sourceShelf]
  refine Shelf.perm_others hplaced.nodup (mem_sourceShelf.mpr ⟨_, List.mem_map_of_mem hs, ?_⟩)
  rw [if_pos (by rw [ha, hx])]
  exact ⟨ha, by rw [hx]⟩

/-- A source that is new, next to the others. -/
theorem sourceShelf_append (ha : s.aggregatedBoardId = a)
    (hnew : ∀ s' ∈ sources, ¬ (s'.aggregatedBoardId = a ∧ s'.boardId = s.boardId)) :
    (sourceShelf (sources ++ [s]) a).Perm
      ((s.boardId, s.position) :: Shelf.others s.boardId (sourceShelf sources a)) := by
  rw [Shelf.others_eq_self fun b hb => ?_]
  · refine (((List.perm_append_singleton s sources).filter _).map _).trans (List.Perm.of_eq ?_)
    rw [List.filter_cons_of_pos (by simpa using ha)]
    rfl
  · obtain ⟨s', hs', ha', rfl⟩ := mem_sourceShelf.mp hb
    exact fun heq => hnew s' hs' ⟨ha', heq⟩

/-- The order in which the rows are fetched. -/
theorem fetched_order : ((sources.filter fun s => s.aggregatedBoardId = a).insertionSort fun s s' =>
    s.position ≤ s'.position).map SourceRow.boardId = Shelf.order (sourceShelf sources a) := by
  unfold Shelf.order sourceShelf
  rw [← List.map_insertionSort (r := fun s s' : SourceRow ι => s.position ≤ s'.position)
    (fun b b' : ι × ℤ => b.2 ≤ b'.2) (fun s : SourceRow ι => (s.boardId, s.position)) _
      fun _ _ _ _ => Iff.rfl, List.map_map]
  rfl

end SourceShelf

/-! ## The statements -/

section Statements

variable {v : Db ι} {t : String} {a x : ι}

/-- Room is made at a position. -/
theorem sources_shift {p : ℤ} {e : Effect (Rec ι) (List (SourceRow ι))}
    (hv : SourcesOwned t a v.aggregatedBoardSources)
    (he : Db.sourcesT.updateChecked (fun s => ofAggregate t a s ∧ p ≤ s.position)
      (fun s => (int4 (s.position + 1)).map fun n => { s with position := n }) v = some e) :
    SourcesOwned t a ((kanban ι).applyAll v e.writes).aggregatedBoardSources ∧
      sourceShelf ((kanban ι).applyAll v e.writes).aggregatedBoardSources a =
        Shelf.shift (p ≤ ·) 1 (sourceShelf v.aggregatedBoardSources a) := by
  have hrows : ((kanban ι).applyAll v e.writes).aggregatedBoardSources =
      v.aggregatedBoardSources.map fun s => if decide (s.aggregatedBoardId = a) = true ∧
        decide (p ≤ s.position) = true then { s with position := s.position + 1 } else s := by
    refine (stored_sources.rows_updateChecked same_sources (g := fun s =>
      { s with position := s.position + 1 }) he (fun s s' hs => by
        obtain ⟨n, hn, rfl⟩ := Option.map_eq_some_iff.mp hs
        rw [int4_eq_some hn]) (fun _ => rfl) hv.keys).1.trans ?_
    refine List.map_congr_left fun s hs => ?_
    simp only [hv.ofAggregate hs, decide_eq_true_eq]
  rw [hrows]
  exact ⟨hv.map fun s => by split <;> exact ⟨rfl, rfl, rfl⟩,
    sourceShelf_shift (q := fun x => decide (p ≤ x))⟩

/-- The source is put at a position, whether it was there or not. -/
theorem sources_upsertSource {p : ℤ} {e : Effect (Rec ι) (SourceRow ι)}
    (hv : SourcesOwned t a v.aggregatedBoardSources) (he : upsertSource ⟨a, t, x, p⟩ v = some e) :
    SourcesOwned t a ((kanban ι).applyAll v e.writes).aggregatedBoardSources ∧
      (sourceShelf ((kanban ι).applyAll v e.writes).aggregatedBoardSources a).Perm
        ((x, p) :: Shelf.others x (sourceShelf v.aggregatedBoardSources a)) := by
  unfold upsertSource at he
  split at he
  · rcases stored_sources.rows_upsert same_sources he (fun _ => rfl) hv.keys with
      ⟨⟨s, hs, hkey⟩, hrows⟩ | ⟨hnew, hrows⟩
    · obtain ⟨ha, hx⟩ := Prod.mk_inj.mp hkey
      rw [Db.sourcesT_rows] at hrows
      rw [hrows]
      exact ⟨hv.map fun s => by split <;> exact ⟨rfl, rfl, rfl⟩, sourceShelf_place hv hs ha hx⟩
    · have hnew' : ∀ s' ∈ v.aggregatedBoardSources,
          ¬ (s'.aggregatedBoardId = a ∧ s'.boardId = x) := fun s' hs' h =>
        hnew s' hs' (Prod.mk_inj.mpr h)
      rw [Db.sourcesT_rows] at hrows
      rw [hrows]
      exact ⟨hv.append hnew' rfl, sourceShelf_append rfl hnew'⟩
  · cases he

/-- The source is taken away. -/
theorem sources_delete {e : Effect (Rec ι) (List (SourceRow ι))}
    (hv : SourcesOwned t a v.aggregatedBoardSources)
    (he : Db.sourcesT.delete (fun s => ofAggregate t a s ∧ s.boardId = x) v = some e) :
    SourcesOwned t a ((kanban ι).applyAll v e.writes).aggregatedBoardSources ∧
      sourceShelf ((kanban ι).applyAll v e.writes).aggregatedBoardSources a =
        Shelf.others x (sourceShelf v.aggregatedBoardSources a) := by
  have hrows := stored_sources.rows_delete same_sources he hv.keys
  rw [Db.sourcesT_rows] at hrows
  rw [hrows]
  refine ⟨hv.filter _, ?_⟩
  rw [others_sourceShelf]
  unfold sourceShelf
  rw [List.filter_filter, List.filter_filter]
  refine congrArg _ (List.filter_congr fun s hs => ?_)
  rw [hv.ofAggregate hs]
  by_cases ha : s.aggregatedBoardId = a <;> simp [ha]

omit [DecidableEq ι] in
/-- What goes with a board and is no source of it. -/
theorem ne_source_of_mem_withChildren [DecidableEq ι] {cards : List (CardRow ι)} {r : Rec ι}
    (h : r ∈ withChildren v cards) (s : SourceRow ι) : r ≠ .source s := by
  obtain ⟨c, -, hr⟩ := List.mem_flatMap.mp h
  rintro rfl
  simp [cardChildren] at hr

/-- A board that is deleted is no source any more. -/
theorem sources_deleteBoardRow {e : Effect (Rec ι) (List (BoardRow ι))}
    (he : deleteBoardRow t x v = some e) (hne : e.answer ≠ []) :
    ((kanban ι).applyAll v e.writes).aggregatedBoardSources =
      v.aggregatedBoardSources.filter fun s => s.boardId ≠ x := by
  obtain rfl := deleteBoardRow_some he
  rw [if_neg hne, List.map_append, Semantics.applyAll_append, Semantics.applyAll_append]
  refine (stored_sources.rows_applyAll fun a ha s' => ?_).trans ?_
  · obtain ⟨b, -, rfl⟩ := List.mem_map.mp ha
    exact nofun
  rw [List.map_map]
  refine stored_sources.rows_dels.trans ?_
  rw [stored_sources.rows_applyAll fun a ha s' => ?_]
  · refine List.filter_congr fun s hs => ?_
    rw [Bool.eq_iff_iff, List.all_eq_true, decide_eq_true_iff]
    constructor
    · rintro hall rfl
      have := hall s (List.mem_filter.mpr ⟨hs, by simp⟩)
      simp [Db.sourcesT] at this
    · intro hne r hr
      have : r.boardId ≠ s.boardId := fun heq =>
        hne (heq.symm.trans (of_decide_eq_true (List.mem_filter.mp hr).2))
      simp [Db.sourcesT, this]
  · obtain ⟨r, hr, rfl⟩ := List.mem_map.mp ha
    rcases List.mem_append.mp hr with hr | hr
    · rcases List.mem_append.mp hr with hr | hr
      · exact ne_source_of_mem_withChildren hr s'
      · obtain ⟨k, -, rfl⟩ := List.mem_map.mp hr
        exact nofun
    · obtain ⟨ev, -, rfl⟩ := List.mem_map.mp hr
      exact nofun

end Statements

/-! ## The transactions -/

section Transactions

variable {v : Db ι} {t : String} {a x : ι} {ids : List ι}

/-- Each source of the list gets its place in it. -/
theorem soloTx_applySourceOrder_from (hv : SourcesOwned t a v.aggregatedBoardSources)
    (hids : ids.Nodup) (k : ℕ) :
    SoloTx (kanban ι) (applySourceOrder a t (ids.zipIdx k)) v fun _ v' =>
      v'.aggregatedBoardSources = v.aggregatedBoardSources.map fun s =>
        if s.aggregatedBoardId = a ∧ s.boardId ∈ ids then
          { s with position := ((k + ids.idxOf s.boardId : ℕ) : ℤ) } else s := by
  induction ids generalizing v k with
  | nil => exact soloTx_pure (by simp)
  | cons i ids ih =>
      obtain ⟨hi, hids⟩ := List.nodup_cons.mp hids
      rw [List.zipIdx_cons]
      refine soloTx_bind (soloTx_query fun e he => ?_)
      have hrows : ((kanban ι).applyAll v e.writes).aggregatedBoardSources =
          v.aggregatedBoardSources.map fun s => if s.aggregatedBoardId = a ∧ s.boardId = i then
            { s with position := (k : ℤ) } else s := by
        refine (stored_sources.rows_update same_sources he (fun _ => rfl) hv.keys).trans ?_
        refine List.map_congr_left fun s hs => ?_
        simp only [hv.ofAggregate hs, decide_eq_true_eq]
      refine (ih (hrows ▸ hv.map fun s => by split <;> exact ⟨rfl, rfl, rfl⟩) hids (k + 1)).mono
        fun _ v' hv' => ?_
      rw [hv', hrows, List.map_map]
      refine List.map_congr_left fun s _ => ?_
      rw [Function.comp_apply]
      by_cases hs : s.aggregatedBoardId = a ∧ s.boardId = i
      · -- the rest of the list does not name the first again
        obtain ⟨ha, rfl⟩ := hs
        rw [if_pos (⟨ha, rfl⟩ : s.aggregatedBoardId = a ∧ s.boardId = s.boardId),
          if_neg fun h => hi h.2, if_pos ⟨ha, List.mem_cons_self⟩, List.idxOf_cons_self,
          Nat.add_zero]
      · rw [if_neg hs]
        by_cases hmem : s.aggregatedBoardId = a ∧ s.boardId ∈ ids
        · have hne : i ≠ s.boardId := fun heq => hi (heq ▸ hmem.2)
          rw [if_pos hmem, if_pos ⟨hmem.1, List.mem_cons_of_mem _ hmem.2⟩, List.idxOf_cons_ne _ hne,
            Nat.succ_eq_add_one, Nat.add_right_comm, Nat.add_assoc]
        · rw [if_neg hmem, if_neg fun h => ?_]
          rcases List.mem_cons.mp h.2 with heq | hin
          · exact hs ⟨h.1, heq⟩
          · exact hmem ⟨h.1, hin⟩

/-- The sources are numbered in the order of the list. -/
theorem soloTx_applySourceOrder (hv : SourcesOwned t a v.aggregatedBoardSources)
    (hids : ids.Perm ((sourceShelf v.aggregatedBoardSources a).map Prod.fst)) :
    SoloTx (kanban ι) (applySourceOrder a t ids.zipIdx) v fun _ v' =>
      SourcesOwned t a v'.aggregatedBoardSources ∧
        Shelf.Dense (sourceShelf v'.aggregatedBoardSources a) ∧
        Shelf.order (sourceShelf v'.aggregatedBoardSources a) = ids := by
  have hnodup : ids.Nodup := hids.nodup_iff.mpr hv.nodup
  refine (soloTx_applySourceOrder_from hv hnodup 0).mono fun _ v' hv' => ?_
  rw [hv']
  refine ⟨hv.map fun s => by split <;> exact ⟨rfl, rfl, rfl⟩, Shelf.dense_numbered ?_⟩
  have hshelf : sourceShelf (v.aggregatedBoardSources.map fun s =>
      if s.aggregatedBoardId = a ∧ s.boardId ∈ ids then
        { s with position := ((0 + ids.idxOf s.boardId : ℕ) : ℤ) } else s) a =
      ((sourceShelf v.aggregatedBoardSources a).map Prod.fst).map fun i => (i, (ids.idxOf i : ℤ)) := by
    unfold sourceShelf
    rw [List.filter_map, show ((fun s : SourceRow ι => decide (s.aggregatedBoardId = a)) ∘ fun s =>
      if s.aggregatedBoardId = a ∧ s.boardId ∈ ids then
        { s with position := ((0 + ids.idxOf s.boardId : ℕ) : ℤ) } else s) =
        fun s => decide (s.aggregatedBoardId = a) from funext fun s => by
          dsimp only [Function.comp_apply]; split <;> rfl, List.map_map, List.map_map, List.map_map]
    refine List.map_congr_left fun s hs => ?_
    have hmem : s.boardId ∈ ids := by
      refine hids.mem_iff.mpr (List.mem_map.mpr ⟨(s.boardId, s.position), ?_, rfl⟩)
      exact List.mem_map_of_mem hs
    simp only [Function.comp_apply]
    rw [if_pos ⟨of_decide_eq_true (List.mem_filter.mp hs).2, hmem⟩, Nat.zero_add]
  rw [hshelf]
  refine (hids.symm.map _).trans (List.Perm.of_eq ?_)
  refine List.ext_getElem (by simp) fun i h₁ h₂ => ?_
  have hi : i < ids.length := by simpa using h₁
  simp [hnodup.idxOf_getElem i hi]

/-- The ids are fetched in the order of the positions. -/
theorem soloTx_fetchOrderedSourceIds (hv : SourcesOwned t a v.aggregatedBoardSources) :
    SoloTx (kanban ι) (fetchOrderedSourceIds a t) v fun ids v' =>
      v' = v ∧ ids = Shelf.order (sourceShelf v.aggregatedBoardSources a) := by
  refine soloTx_query fun e he => ?_
  cases he
  refine ⟨rfl, ?_⟩
  dsimp only
  rw [hv.filter_ofAggregate, fetched_order]

/-- The sources are numbered anew. -/
theorem soloIn_renumberSources_bind {E : Db ι → Prop} {db : Db ι} {Q : α → Tx (Rec ι) → Db ι → Prop}
    {p : Handler ι α} (hv : SourcesOwned t a v.aggregatedBoardSources)
    (h : ∀ v', SourcesOwned t a v'.aggregatedBoardSources →
      Shelf.Dense (sourceShelf v'.aggregatedBoardSources a) →
      Shelf.order (sourceShelf v'.aggregatedBoardSources a) =
        Shelf.order (sourceShelf v.aggregatedBoardSources a) → SoloIn (kanban ι) E p db v' Q) :
    SoloIn (kanban ι) E ((fetchOrderedSourceIds a t).bind fun ids =>
      (applySourceOrder a t ids.zipIdx).bind fun _ => p) db v Q := by
  refine (soloTx_fetchOrderedSourceIds hv).bind_soloIn ?_
  rintro ids v' ⟨rfl, rfl⟩
  exact (soloTx_applySourceOrder hv Shelf.perm_order).bind_soloIn fun _ v' ⟨howned, hdense, horder⟩ =>
    h v' howned hdense horder

end Transactions

/-- A source that is moved stays one, and the others keep their order. -/
theorem moveSourceTo_spec {ids : List ι} {x : ι} (toPosition : ℤ) (hids : ids.Nodup) (hx : x ∈ ids) :
    (moveSourceTo ids x toPosition).Perm ids ∧
      (moveSourceTo ids x toPosition).filter (· ≠ x) = ids.filter (· ≠ x) := by
  have hrest : ids.eraseIdx (ids.idxOf x) = ids.erase x := (List.erase_eq_eraseIdx_of_idxOf rfl).symm
  unfold moveSourceTo
  rw [hrest]
  constructor
  · refine (List.perm_insertIdx _ _ ?_).trans (List.perm_cons_erase hx).symm
    split <;> omega
  · rw [Shelf.filter_insertIdx (by simp), hids.erase_eq_filter, List.filter_filter]
    refine List.filter_congr fun i _ => ?_
    by_cases h : i = x <;> simp [h]

/-! ## The calls -/

/-- A call that changes the sources of aggregated boards.  A board that is deleted is no source any
more. -/
inductive SourceCall
  | addSourceBoard (req : AddSourceBoardRequest)
  | moveSourceBoard (req : MoveSourceBoardRequest)
  | removeSourceBoard (req : RemoveSourceBoardRequest)
  | deleteBoard
  deriving DecidableEq, Repr

def sourceHandler (codec : IdCodec ι) (q : RequestContext × SourceCall) : Handler ι Unit :=
  match q.2 with
  | .addSourceBoard req => (addSourceBoard codec q.1 req).bind fun _ => .pure ()
  | .moveSourceBoard req => (moveSourceBoard codec q.1 req).bind fun _ => .pure ()
  | .removeSourceBoard req => (removeSourceBoard codec q.1 req).bind fun _ => .pure ()
  | .deleteBoard => deleteBoard codec q.1

/-- The index that `AddSourceBoard` asks for: its position, or the end of so many others. -/
def askedSourceIndex (position : ℤ) (others : ℕ) : ℤ := if 0 < position then position else others

/-- As many of the other sources stand below the position that the handler takes as the request
counts: the position is the one of the request, or the number of rows. -/
def CountsSources (position : ℤ) (boardId : ι) (l : List (ι × ℤ)) : Prop :=
  Shelf.below (if 0 < position then position else l.length) (Shelf.others boardId l) =
    askedSourceIndex position (Shelf.others boardId l).length

instance {position : ℤ} {x : ι} {l : List (ι × ℤ)} : Decidable (CountsSources position x l) :=
  inferInstanceAs (Decidable (_ = _))

/-- What a call does to the order of the sources of an aggregated board. -/
def SourcesArranged (codec : IdCodec ι) (q : RequestContext × SourceCall) (l l' : List (ι × ℤ)) :
    Prop :=
  match q.2 with
  | .addSourceBoard req => ∃ x, codec.parse req.boardId = some x ∧ Shelf.Dense l' ∧
      x ∈ Shelf.order l' ∧ (Shelf.order l').filter (· ≠ x) = (Shelf.order l).filter (· ≠ x) ∧
      (req.position ≤ (Shelf.others x l).length →
        (((Shelf.order l').idxOf x : ℤ) = askedSourceIndex req.position (Shelf.others x l).length ↔
          CountsSources req.position x l))
  | .moveSourceBoard req => ∃ x, codec.parse req.boardId = some x ∧ Shelf.Dense l' ∧
      x ∈ Shelf.order l ∧ Shelf.order l' = moveSourceTo (Shelf.order l) x req.toPosition ∧
      (Shelf.order l').filter (· ≠ x) = (Shelf.order l).filter (· ≠ x)
  | .removeSourceBoard req => ∃ x, codec.parse req.boardId = some x ∧ Shelf.Dense l' ∧
      Shelf.order l' = (Shelf.order l).filter (· ≠ x)
  | .deleteBoard => ∃ x, q.1.checked.bind codec.parse = some x ∧
      Shelf.order l' = (Shelf.order l).filter (· ≠ x)

/-- The sources of the aggregated board after a call. -/
structure Resourced (codec : IdCodec ι) (t : String) (a : ι) (q : RequestContext × SourceCall)
    (sources sources' : List (SourceRow ι)) : Prop where
  owned : SourcesOwned t a sources'
  apart : Shelf.Apart (sourceShelf sources' a)
  arranged : SourcesArranged codec q (sourceShelf sources a) (sourceShelf sources' a)

/-- A call about sources is on the aggregated board, in its tenant; the authorization of the call
sees to that.  Any board can be deleted. -/
def OnAggregate (codec : IdCodec ι) (tenantId : String) (aggregatedBoardId : ι)
    (q : RequestContext × SourceCall) : Prop :=
  match q.2 with
  | .deleteBoard => True
  | _ => q.1.auth.bind AuthContext.tenantId = some tenantId ∧
      q.1.checked.bind codec.parse = some aggregatedBoardId

section Handlers

variable {codec : IdCodec ι} {ctx : RequestContext} {t msg : String} {a : ι} {db v : Db ι}

omit [DecidableEq ι] in
theorem solo_sourceRequest_bind [DecidableEq ι] {E : Db ι → Prop}
    {Q : α → Tx (Rec ι) → Db ι → Prop} {boardId : String} {f : String × ι × ι → Handler ι α}
    (ht : ctx.auth.bind AuthContext.tenantId = some t) (ha : ctx.checked.bind codec.parse = some a)
    (h : ∀ x, codec.parse boardId = some x → Solo (kanban ι) E (f (t, a, x)) .idle v Q) :
    Solo (kanban ι) E ((sourceRequest codec ctx boardId).bind f) .idle v Q := by
  refine solo_bind (solo_orError_bind fun t' ht' => solo_orError_bind fun objectId hobject =>
    solo_orError_bind fun a' ha' => solo_orError_bind fun x hx => solo_pure ?_)
  obtain rfl := Option.some.inj (ht'.symm.trans ht)
  rw [show ctx.checked = some objectId from hobject] at ha
  obtain rfl := Option.some.inj (ha'.symm.trans ha)
  exact h x hx

/-- The transaction of a call, and the aggregated board that is read after it. -/
theorem solo_then_metadata {R : Db ι → Prop} {p : Handler ι Unit}
    (h : Solo (kanban ι) R p .idle db fun _ tx v => tx = .idle ∧ R v) :
    Solo (kanban ι) R (p.bind fun _ => getAggregateMetadata codec a t) .idle db fun _ _ v => R v := by
  refine solo_bind (h.mono ?_)
  rintro _ tx v ⟨rfl, hv⟩
  exact solo_mute (Mute.bind (.fetchOr silent_select) fun _ => .pure _) fun _ => hv

/-- The event of a source, and the commit. -/
theorem soloIn_sourceEvent_commit {q : RequestContext × SourceCall} {eventType : String}
    {payload : Payload} (h : Resourced codec t a q db.aggregatedBoardSources v.aggregatedBoardSources) :
    SoloIn (kanban ι) (fun v => Resourced codec t a q db.aggregatedBoardSources v.shelves.sources)
      ((insertAggregatedEvent t a eventType payload).bind fun _ => commitTx msg) db v
      fun _ tx v => tx = .idle ∧
        Resourced codec t a q db.aggregatedBoardSources v.shelves.sources := by
  refine Careful.insertAggregatedEvent.soloTx.bind_soloIn fun _ v' hv' => ?_
  have hdone : Resourced codec t a q db.aggregatedBoardSources v'.shelves.sources := by
    rw [hv']
    exact h
  rw [← Prog.bind_pure (commitTx msg)]
  exact soloIn_commitTx_bind hdone (solo_pure ⟨rfl, hdone⟩)

/-- The order after a source was put where the others have made room. -/
theorem Resourced.add {req : AddSourceBoardRequest} {x : ι} {p : ℤ} {l' : List (ι × ℤ)}
    {sources sources' : List (SourceRow ι)} (howned : SourcesOwned t a sources')
    (hapart : Shelf.Apart (sourceShelf sources a)) (hx : codec.parse req.boardId = some x)
    (hp : p = if 0 < req.position then req.position else ((sourceShelf sources a).length : ℤ))
    (hl : l'.Perm ((x, p) :: Shelf.others x (Shelf.shift (p ≤ ·) 1 (sourceShelf sources a))))
    (hdense : Shelf.Dense (sourceShelf sources' a))
    (horder : Shelf.order (sourceShelf sources' a) = Shelf.order l') :
    Resourced codec t a (ctx, .addSourceBoard req) sources sources' := by
  have hothers := Shelf.apart_others (a := x) hapart
  rw [Shelf.others_shift] at hl
  obtain ⟨hopen, hsame, hbelow⟩ := Shelf.open_above hothers p
  have hnew : x ∉ (Shelf.others x (sourceShelf sources a)).map Prod.fst := by
    intro hmem
    obtain ⟨b, hb, rfl⟩ := List.mem_map.mp hmem
    simpa using (List.mem_filter.mp hb).2
  have hidx : (Shelf.order l').idxOf x = Shelf.below p (Shelf.others x (sourceShelf sources a)) :=
    (Shelf.idxOf_order hl (by rwa [Shelf.map_fst_shift]) hopen.free).trans hbelow
  refine ⟨howned, hdense.apart, x, hx, hdense, ?_, ?_, fun _ => ?_⟩
  · rw [horder]
    exact Shelf.mem_order.mpr ⟨p, hl.mem_iff.mpr List.mem_cons_self⟩
  · rw [horder, ← Shelf.order_others hapart]
    exact Shelf.order_new hl hopen hsame hnew
  · rw [horder, hidx, hp]
    exact Iff.rfl

theorem solo_addSourceBoard {req : AddSourceBoardRequest}
    (hdb : SourcesOwned t a db.aggregatedBoardSources)
    (hapart : Shelf.Apart (sourceShelf db.aggregatedBoardSources a))
    (ht : ctx.auth.bind AuthContext.tenantId = some t) (ha : ctx.checked.bind codec.parse = some a) :
    Solo (kanban ι) (fun v => Resourced codec t a (ctx, .addSourceBoard req)
        db.aggregatedBoardSources v.shelves.sources) (addSourceBoard codec ctx req) .idle db
      fun _ _ v => Resourced codec t a (ctx, .addSourceBoard req) db.aggregatedBoardSources
        v.shelves.sources := by
  refine solo_sourceRequest_bind ht ha fun x hx => solo_then_metadata (solo_beginTx_bind ?_)
  refine SoloTx.bind_soloIn (B := fun p v => v = db ∧ p = if 0 < req.position then req.position
    else ((sourceShelf db.aggregatedBoardSources a).length : ℤ)) ?_ ?_
  · unfold sourcePosition
    split
    · exact soloTx_pure ⟨rfl, rfl⟩
    · refine soloTx_bind (soloTx_query fun e he => soloTx_pure ?_)
      cases he
      refine ⟨rfl, ?_⟩
      dsimp only
      rw [Db.sourcesT_rows, hdb.filter_ofAggregate, sourceShelf, List.length_map]
  rintro p v ⟨rfl, hp⟩
  refine SoloTx.bind_soloIn (B := fun _ v₁ => SourcesOwned t a v₁.aggregatedBoardSources ∧
    sourceShelf v₁.aggregatedBoardSources a =
      Shelf.shift (p ≤ ·) 1 (sourceShelf v.aggregatedBoardSources a))
    (soloTx_query fun e he => sources_shift hdb he) ?_
  rintro _ v₁ ⟨howned₁, hshelf₁⟩
  refine SoloTx.bind_soloIn (B := fun _ v₂ => SourcesOwned t a v₂.aggregatedBoardSources ∧
    (sourceShelf v₂.aggregatedBoardSources a).Perm
      ((x, p) :: Shelf.others x (sourceShelf v₁.aggregatedBoardSources a)))
    (soloTx_query fun e he => sources_upsertSource howned₁ he) ?_
  rintro _ v₂ ⟨howned₂, hshelf₂⟩
  rw [hshelf₁] at hshelf₂
  exact soloIn_renumberSources_bind howned₂ fun v₃ howned₃ hdense horder =>
    soloIn_sourceEvent_commit (.add howned₃ hapart hx hp hshelf₂ hdense horder)

theorem solo_removeSourceBoard {req : RemoveSourceBoardRequest}
    (hdb : SourcesOwned t a db.aggregatedBoardSources)
    (hapart : Shelf.Apart (sourceShelf db.aggregatedBoardSources a))
    (ht : ctx.auth.bind AuthContext.tenantId = some t) (ha : ctx.checked.bind codec.parse = some a) :
    Solo (kanban ι) (fun v => Resourced codec t a (ctx, .removeSourceBoard req)
        db.aggregatedBoardSources v.shelves.sources) (removeSourceBoard codec ctx req) .idle db
      fun _ _ v => Resourced codec t a (ctx, .removeSourceBoard req) db.aggregatedBoardSources
        v.shelves.sources := by
  refine solo_sourceRequest_bind ht ha fun x hx => solo_then_metadata (solo_beginTx_bind ?_)
  refine SoloTx.bind_soloIn (B := fun _ v₁ => SourcesOwned t a v₁.aggregatedBoardSources ∧
    sourceShelf v₁.aggregatedBoardSources a =
      Shelf.others x (sourceShelf db.aggregatedBoardSources a))
    (soloTx_query fun e he => sources_delete hdb he) ?_
  rintro _ v₁ ⟨howned₁, hshelf₁⟩
  refine soloIn_renumberSources_bind howned₁ fun v₂ howned₂ hdense horder =>
    soloIn_sourceEvent_commit ⟨howned₂, hdense.apart, x, hx, hdense, ?_⟩
  rw [horder, hshelf₁, Shelf.order_others hapart]

theorem solo_moveSourceBoard {req : MoveSourceBoardRequest}
    (hdb : SourcesOwned t a db.aggregatedBoardSources)
    (ht : ctx.auth.bind AuthContext.tenantId = some t) (ha : ctx.checked.bind codec.parse = some a) :
    Solo (kanban ι) (fun v => Resourced codec t a (ctx, .moveSourceBoard req)
        db.aggregatedBoardSources v.shelves.sources) (moveSourceBoard codec ctx req) .idle db
      fun _ _ v => Resourced codec t a (ctx, .moveSourceBoard req) db.aggregatedBoardSources
        v.shelves.sources := by
  refine solo_sourceRequest_bind ht ha fun x hx => solo_then_metadata (solo_beginTx_bind ?_)
  refine (soloTx_fetchOrderedSourceIds hdb).bind_soloIn ?_
  rintro ids v ⟨rfl, rfl⟩
  refine soloIn_ensure_bind fun hmem => ?_
  obtain ⟨hperm, hrest⟩ := moveSourceTo_spec req.toPosition
    (Shelf.perm_order.nodup_iff.mpr hdb.nodup) hmem
  refine (soloTx_applySourceOrder hdb (hperm.trans Shelf.perm_order)).bind_soloIn ?_
  rintro _ v₁ ⟨howned, hdense, horder⟩
  have hdone : Resourced codec t a (ctx, .moveSourceBoard req) v.aggregatedBoardSources
      v₁.shelves.sources := ⟨howned, hdense.apart, x, hx, hdense, hmem, horder, horder ▸ hrest⟩
  rw [← Prog.bind_pure (commitTx _)]
  exact soloIn_commitTx_bind hdone (solo_pure ⟨rfl, hdone⟩)

theorem solo_deleteBoard (hdb : SourcesOwned t a db.aggregatedBoardSources)
    (hapart : Shelf.Apart (sourceShelf db.aggregatedBoardSources a)) :
    Solo (kanban ι) (fun v => Resourced codec t a (ctx, .deleteBoard) db.aggregatedBoardSources
        v.shelves.sources) (deleteBoard codec ctx) .idle db
      fun _ _ v => Resourced codec t a (ctx, .deleteBoard) db.aggregatedBoardSources
        v.shelves.sources := by
  refine solo_orError_bind fun t' _ => solo_orError_bind fun objectId hobject =>
    solo_orError_bind fun x hx => solo_beginTx_bind ?_
  refine SoloTx.bind_soloIn (B := fun _ v => v = db) (soloTx_fetchOr fun e _ he _ => by
    cases he; rfl) ?_
  rintro board v rfl
  refine Careful.insertRow.soloTx.bind_soloIn fun _ v₁ h₁ => ?_
  refine SoloTx.bind_soloIn (B := fun deleted v₂ => deleted ≠ [] → v₂.aggregatedBoardSources =
    v₁.aggregatedBoardSources.filter fun s => s.boardId ≠ x)
    (soloTx_query fun e he => sources_deleteBoardRow he) ?_
  intro deleted v₂ h₂
  refine soloIn_ensure_bind fun hdeleted => ?_
  have hsources : v₂.aggregatedBoardSources = v.aggregatedBoardSources.filter fun s =>
      s.boardId ≠ x := by
    rw [h₂ hdeleted, show v₁.aggregatedBoardSources = v.aggregatedBoardSources from
      congrArg Shelves.sources h₁]
  have hdone : Resourced codec t a (ctx, .deleteBoard) v.aggregatedBoardSources
      v₂.shelves.sources := by
    rw [show v₂.shelves.sources = _ from hsources]
    refine ⟨hdb.filter _, ?_, x, ?_, ?_⟩
    · rw [← others_sourceShelf]
      exact Shelf.apart_others hapart
    · rw [show ctx.checked = some objectId from hobject]
      exact hx
    · rw [← others_sourceShelf, Shelf.order_others hapart]
  rw [← Prog.bind_pure (commitTx _)]
  exact soloIn_commitTx_bind hdone (solo_pure hdone)

end Handlers

/-- **A call that runs alone** leaves the sources as they are, or arranges them; and if it
succeeds, it has arranged them. -/
theorem solo_sourceHandler {codec : IdCodec ι} {q : RequestContext × SourceCall} {t : String} {a : ι}
    {db : Db ι} (hdb : SourcesOwned t a db.aggregatedBoardSources)
    (hapart : Shelf.Apart (sourceShelf db.aggregatedBoardSources a)) (hq : OnAggregate codec t a q) :
    Solo (kanban ι) (fun v => Resourced codec t a q db.aggregatedBoardSources v.shelves.sources)
      (sourceHandler codec q) .idle db
      fun _ _ v => Resourced codec t a q db.aggregatedBoardSources v.shelves.sources := by
  obtain ⟨ctx, call⟩ := q
  cases call with
  | addSourceBoard req =>
      exact solo_bind ((solo_addSourceBoard hdb hapart hq.1 hq.2).mono fun _ _ _ h => solo_pure h)
  | moveSourceBoard req =>
      exact solo_bind ((solo_moveSourceBoard hdb hq.1 hq.2).mono fun _ _ _ h => solo_pure h)
  | removeSourceBoard req =>
      exact solo_bind ((solo_removeSourceBoard hdb hapart hq.1 hq.2).mono fun _ _ _ h => solo_pure h)
  | deleteBoard => exact solo_deleteBoard hdb hapart

/-! ## Serial runs -/

section Runs

variable {codec : IdCodec ι} {w w' : World (Db ι) (Backend ι)} {t : String} {a : ι}
  {calls : List ((RequestContext × SourceCall) × List (Act (Move ι)))}

/-- **The order of the sources.**  After any calls that were executed one after the other, a call
leaves the sources as they are or arranges them: it numbers them without a gap, the others keep
their order, and a board that is added is put at the index that the request asks for exactly if the
position is counted.  A call that succeeds has arranged them. -/
theorem serial_sources_order_iff (howned : SourcesOwned t a w.store.aggregatedBoardSources)
    (hapart : Shelf.Apart (sourceShelf w.store.aggregatedBoardSources a))
    (hcalls : ∀ c ∈ calls, OnAggregate codec t a c.1)
    (hrun : Machine.Exec (serialStep (kanban ι) (sourceHandler codec)) w calls w') :
    ∀ q acts th w'', OnAggregate codec t a q → Machine.Exec (Thread.step (kanban ι))
        (Thread.start (sourceHandler codec q), w') acts (th, w'') →
      (w''.store.aggregatedBoardSources = w'.store.aggregatedBoardSources ∨
        SourcesArranged codec q (sourceShelf w'.store.aggregatedBoardSources a)
          (sourceShelf w''.store.aggregatedBoardSources a)) ∧
      (th.prog.result = some (.ok ()) →
        SourcesArranged codec q (sourceShelf w'.store.aggregatedBoardSources a)
          (sourceShelf w''.store.aggregatedBoardSources a)) := by
  obtain ⟨howned', hapart'⟩ : SourcesOwned t a w'.store.aggregatedBoardSources ∧
      Shelf.Apart (sourceShelf w'.store.aggregatedBoardSources a) := by
    refine (Machine.ExecWhile.and_mem hrun hcalls).invariant (fun w =>
      SourcesOwned t a w.store.aggregatedBoardSources ∧
        Shelf.Apart (sourceShelf w.store.aggregatedBoardSources a)) ⟨howned, hapart⟩ ?_
    rintro w₁ ⟨q, acts⟩ w₂ ⟨howned, hapart⟩ ⟨-, hq⟩ hs
    obtain ⟨⟨th, w₃⟩, hth, rfl⟩ := Option.map_eq_some_iff.mp hs
    rcases ((solo_sourceHandler howned hapart hq).exec (Machine.exec_of_run hth)).1 with hsame | hdone
    · exact hsame.symm ▸ ⟨howned, hapart⟩
    · exact ⟨hdone.owned, hdone.apart⟩
  intro q acts th w'' hq hcall
  obtain ⟨hstore, hresult⟩ := (solo_sourceHandler howned' hapart' hq).exec hcall
  exact ⟨hstore.imp (fun hsame => by rw [hsame]) fun hdone => hdone.arranged,
    fun hok => (hresult () hok).arranged⟩

end Runs

/-- An aggregated board without sources, and four boards. -/
def fourBoards : World (Db String) (Backend String) where
  store := { Db.empty with
    projects := [⟨"p", "t", "Roadmap", "ROAD", "ROAD", "", "user:ann"⟩]
    boards := ["a", "b", "c", "d"].map fun x => ⟨x, "t", "p", x, x, "", none, "", 0⟩
    aggregatedBoards := [⟨"g", "t", "All", "", "", "public", "user:ann", 0⟩] }
  ext := Backend.empty

/-- A member, on the object that was checked. -/
def memberOn (objectId : String) : RequestContext := ⟨some ⟨some "t", some "user:ann"⟩, some objectId, 0⟩

/-- The steps of the event of a source, of the commit and of the read after it. -/
def eventSteps (event : String) : List (Act (Move String)) :=
  [.ok, .move (.fresh event), .ok, .ok, .ok, .ok]

/-- An `AddSourceBoard` at the end, from its first step to its last; the aggregated board has so many
sources after it. -/
def addsLast (boardId : String) (n : ℕ) (event : String) :
    (RequestContext × SourceCall) × List (Act (Move String)) :=
  ((memberOn "g", .addSourceBoard ⟨boardId, 0⟩), List.replicate (5 + n) .ok ++ eventSteps event)

/-- An `AddSourceBoard` at a position. -/
def addsAt (boardId : String) (position : ℤ) (n : ℕ) (event : String) :
    (RequestContext × SourceCall) × List (Act (Move String)) :=
  ((memberOn "g", .addSourceBoard ⟨boardId, position⟩),
    List.replicate (4 + n) .ok ++ eventSteps event)

def deletesBoard (boardId event : String) :
    (RequestContext × SourceCall) × List (Act (Move String)) :=
  ((memberOn boardId, .deleteBoard), [.ok, .ok, .move (.fresh event), .ok, .ok, .ok, .ok])

/-- A board that is added between two others. -/
theorem serial_sources_order_iff_added :
    ∃ w' th w'', Machine.Exec (serialStep (kanban String) (sourceHandler textIds)) fourBoards
        [addsLast "a" 1 "e", addsLast "b" 2 "f"] w' ∧
      Machine.Exec (Thread.step (kanban String)) (Thread.start (sourceHandler textIds
        (addsAt "c" 1 3 "g").1), w') (addsAt "c" 1 3 "g").2 (th, w'') ∧
      th.prog.result = some (.ok ()) ∧
      (Shelf.order (sourceShelf w''.store.aggregatedBoardSources "g")).idxOf "c" = 1 := by
  obtain ⟨w', th, w'', hw', hth, hok, hcounts, hlen⟩ : ∃ w' th w'',
      Machine.run (serialStep (kanban String) (sourceHandler textIds)) fourBoards
        [addsLast "a" 1 "e", addsLast "b" 2 "f"] = some w' ∧
      Machine.run (Thread.step (kanban String)) (Thread.start (sourceHandler textIds
        (addsAt "c" 1 3 "g").1), w') (addsAt "c" 1 3 "g").2 = some (th, w'') ∧
      th.prog.result = some (.ok ()) ∧
      CountsSources 1 "c" (sourceShelf w'.store.aggregatedBoardSources "g") ∧
      (Shelf.others "c" (sourceShelf w'.store.aggregatedBoardSources "g")).length = 2 :=
    ⟨_, _, _, rfl, rfl, rfl, by decide, by decide⟩
  have hrun := Machine.exec_of_run hw'
  have hcall := Machine.exec_of_run hth
  refine ⟨w', th, w'', hrun, hcall, hok, ?_⟩
  have hcalls : ∀ c ∈ [addsLast "a" 1 "e", addsLast "b" 2 "f"], OnAggregate textIds "t" "g" c.1 := by
    simp only [List.forall_mem_cons]
    exact ⟨⟨rfl, rfl⟩, ⟨rfl, rfl⟩, List.forall_mem_nil _⟩
  have harranged := (serial_sources_order_iff (t := "t") (a := "g")
    ⟨by decide, List.forall_mem_nil _⟩ (by decide) hcalls hrun (addsAt "c" 1 3 "g").1 _ th w''
    ⟨rfl, rfl⟩ hcall).2 hok
  obtain ⟨x, hx, -, -, -, hidx⟩ := harranged
  obtain rfl : "c" = x := Option.some.inj hx
  have hasked : (_ : ℤ) = 1 := ((hidx (by rw [hlen]; decide)).mpr hcounts).trans (if_pos (by decide))
  exact_mod_cast hasked

/-- After a source board was deleted, a board that is added at the end comes before the last; and a
source that is added again, further back, comes one place too early. -/
theorem source_not_where_asked :
    (∃ w' th w'', Machine.Exec (serialStep (kanban String) (sourceHandler textIds)) fourBoards
        [addsLast "a" 1 "e", addsLast "b" 2 "f", addsLast "c" 3 "g", deletesBoard "a" "h"] w' ∧
      Machine.Exec (Thread.step (kanban String)) (Thread.start (sourceHandler textIds
        (addsLast "d" 3 "i").1), w') (addsLast "d" 3 "i").2 (th, w'') ∧
      th.prog.result = some (.ok ()) ∧
      Shelf.order (sourceShelf w''.store.aggregatedBoardSources "g") = ["b", "d", "c"]) ∧
    ∃ w' th w'', Machine.Exec (serialStep (kanban String) (sourceHandler textIds)) fourBoards
        [addsLast "a" 1 "e", addsLast "b" 2 "f", addsLast "c" 3 "g"] w' ∧
      Machine.Exec (Thread.step (kanban String)) (Thread.start (sourceHandler textIds
        (addsAt "a" 1 3 "h").1), w') (addsAt "a" 1 3 "h").2 (th, w'') ∧
      th.prog.result = some (.ok ()) ∧
      Shelf.order (sourceShelf w''.store.aggregatedBoardSources "g") = ["a", "b", "c"] := by
  obtain ⟨w₁, th₁, w₂, hw₁, hth₁, hok₁, horder₁⟩ : ∃ w' th w'',
      Machine.run (serialStep (kanban String) (sourceHandler textIds)) fourBoards
        [addsLast "a" 1 "e", addsLast "b" 2 "f", addsLast "c" 3 "g", deletesBoard "a" "h"] = some w' ∧
      Machine.run (Thread.step (kanban String)) (Thread.start (sourceHandler textIds
        (addsLast "d" 3 "i").1), w') (addsLast "d" 3 "i").2 = some (th, w'') ∧
      th.prog.result = some (.ok ()) ∧
      Shelf.order (sourceShelf w''.store.aggregatedBoardSources "g") = ["b", "d", "c"] :=
    ⟨_, _, _, rfl, rfl, rfl, by decide⟩
  obtain ⟨w₃, th₂, w₄, hw₃, hth₂, hok₂, horder₂⟩ : ∃ w' th w'',
      Machine.run (serialStep (kanban String) (sourceHandler textIds)) fourBoards
        [addsLast "a" 1 "e", addsLast "b" 2 "f", addsLast "c" 3 "g"] = some w' ∧
      Machine.run (Thread.step (kanban String)) (Thread.start (sourceHandler textIds
        (addsAt "a" 1 3 "h").1), w') (addsAt "a" 1 3 "h").2 = some (th, w'') ∧
      th.prog.result = some (.ok ()) ∧
      Shelf.order (sourceShelf w''.store.aggregatedBoardSources "g") = ["a", "b", "c"] :=
    ⟨_, _, _, rfl, rfl, rfl, by decide⟩
  exact ⟨⟨w₁, th₁, w₂, Machine.exec_of_run hw₁, Machine.exec_of_run hth₁, hok₁, horder₁⟩,
    w₃, th₂, w₄, Machine.exec_of_run hw₃, Machine.exec_of_run hth₂, hok₂, horder₂⟩

end Kanban.Rpc
