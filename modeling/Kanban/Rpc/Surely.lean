import Kanban.Lib.Sure
import Kanban.Rpc.Boards
import Kanban.Rpc.Deletion
import Kanban.Rpc.References
import Mathlib.Data.Fintype.EquivFin

/-!
# Handlers on a database that does not fail

The rules by which a handler is followed when its statements go through: the checks of its request,
its statements inside and outside of a transaction, its events, and the tuples it deletes.

## Main definitions

* `clientUp` — whether the permission client of a tenant can be built.
* `Logs` — the writes of an event.
-/

namespace Kanban.Rpc

open Program Kanban.Store Kanban.Auth
open Kanban.Services (AuthContext ConnectError IdCodec)

variable {ι α β τ : Type}

/-! ## Requests and statements -/

section Statements

variable {M : Semantics (Db ι) (Rec ι) (Call ι) (Reply ι) (Backend ι) (Move ι)} {tx : Tx (Rec ι)}
  {w : World (Db ι) (Backend ι)} {ws : List (Write (Rec ι))}
  {Q : α → Tx (Rec ι) → World (Db ι) (Backend ι) → Prop} {msg : String} {e : ConnectError}

theorem sure_orError_bind {o : Option β} {f : β → Handler ι α} {b : β} (hb : o = some b)
    (h : Sure M (f b) tx w Q) : Sure M ((orError e o).bind f) tx w Q := by
  subst hb
  exact h

theorem sure_ensure_bind {p : Prop} [Decidable p] {f : Unit → Handler ι α} (hp : p)
    (h : Sure M (f ()) tx w Q) : Sure M ((ensure p e).bind f) tx w Q := by
  unfold ensure
  rw [if_pos hp]
  exact h

/-- A statement outside of every transaction. -/
theorem sure_query_bind {st : Stmt (Db ι) (Rec ι) β} {f : β → Handler ι α} {e : Effect (Rec ι) β}
    (he : st w.store = some e)
    (h : Sure M (f e.answer) .idle { w with store := M.applyAll w.store e.writes } Q) :
    Sure M ((query msg st).bind f) .idle w Q := sure_stmt_idle he h

/-- A statement outside of every transaction that only reads. -/
theorem sure_query_read_bind {st : Stmt (Db ι) (Rec ι) β} {f : β → Handler ι α}
    {e : Effect (Rec ι) β} (he : st w.store = some e) (hwrites : e.writes = [])
    (h : Sure M (f e.answer) .idle w Q) : Sure M ((query msg st).bind f) .idle w Q := by
  refine sure_query_bind he ?_
  rw [hwrites]
  exact h

/-- A row that is there is fetched. -/
theorem sure_fetchOr_bind {T : Table (Db ι) (Rec ι) τ} {p : τ → Bool} {f : τ → Handler ι α}
    (hrow : ∃ r ∈ T.rows w.store, p r) (h : ∀ r ∈ T.rows w.store, p r → Sure M (f r) .idle w Q) :
    Sure M ((fetchOr msg e (T.select p)).bind f) .idle w Q := by
  obtain ⟨r, hr, hp⟩ := hrow
  have hmem : r ∈ (T.rows w.store).filter p := List.mem_filter.mpr ⟨hr, hp⟩
  obtain ⟨r₀, rest, hrows⟩ := List.exists_cons_of_ne_nil (List.ne_nil_of_mem hmem)
  obtain ⟨hr₀, hp₀⟩ := List.mem_filter.mp (hrows ▸ List.mem_cons_self : r₀ ∈ (T.rows w.store).filter p)
  refine sure_bind (sure_bind (sure_query_read_bind rfl rfl ?_))
  rw [hrows]
  exact h r₀ hr₀ hp₀

theorem sure_beginTx_bind {f : Unit → Handler ι α} (h : Sure M (f ()) (.active []) w Q) :
    Sure M ((beginTx msg).bind f) tx w Q := h

theorem sure_commitTx_bind {f : Unit → Handler ι α}
    (h : Sure M (f ()) .idle { w with store := M.applyAll w.store ws } Q) :
    Sure M ((commitTx msg).bind f) (.active ws) w Q := h

theorem sure_commitTx {Q : Unit → Tx (Rec ι) → World (Db ι) (Backend ι) → Prop}
    (h : Q () .idle { w with store := M.applyAll w.store ws }) : Sure M (commitTx msg) (.active ws) w Q :=
  h

/-- A statement in a transaction sees the store with the writes that wait. -/
theorem sure_queryTx_bind {st : Stmt (Db ι) (Rec ι) β} {f : β → Handler ι α}
    {e : Effect (Rec ι) β} (he : st (M.applyAll w.store ws) = some e)
    (h : Sure M (f e.answer) (.active (ws ++ e.writes)) w Q) :
    Sure M ((query msg st).bind f) (.active ws) w Q := sure_stmt_active he h

theorem sure_attemptTx_bind {st : Stmt (Db ι) (Rec ι) β} {f : Option β → Handler ι α}
    {e : Effect (Rec ι) β} (he : st (M.applyAll w.store ws) = some e)
    (h : Sure M (f (some e.answer)) (.active (ws ++ e.writes)) w Q) :
    Sure M ((attempt st).bind f) (.active ws) w Q := sure_stmt_active he h

theorem sure_fetchOneTx_bind {st : Stmt (Db ι) (Rec ι) (List τ)} {f : τ → Handler ι α}
    {e : Effect (Rec ι) (List τ)} {r : τ} (he : st (M.applyAll w.store ws) = some e)
    (hr : e.answer.head? = some r) (h : Sure M (f r) (.active (ws ++ e.writes)) w Q) :
    Sure M ((fetchOne msg st).bind f) (.active ws) w Q :=
  sure_bind (sure_queryTx_bind he (by rwa [hr]))

/-- A row that is there is fetched in a transaction. -/
theorem sure_fetchOrTx_bind {T : Table (Db ι) (Rec ι) τ} {p : τ → Bool} {f : τ → Handler ι α}
    (hrow : ∃ r ∈ T.rows (M.applyAll w.store ws), p r)
    (h : ∀ r ∈ T.rows (M.applyAll w.store ws), p r → Sure M (f r) (.active ws) w Q) :
    Sure M ((fetchOr msg e (T.select p)).bind f) (.active ws) w Q := by
  obtain ⟨r, hr, hp⟩ := hrow
  have hmem : r ∈ (T.rows (M.applyAll w.store ws)).filter p := List.mem_filter.mpr ⟨hr, hp⟩
  obtain ⟨r₀, rest, hrows⟩ := List.exists_cons_of_ne_nil (List.ne_nil_of_mem hmem)
  obtain ⟨hr₀, hp₀⟩ := List.mem_filter.mp
    (hrows ▸ List.mem_cons_self : r₀ ∈ (T.rows (M.applyAll w.store ws)).filter p)
  refine sure_bind (sure_bind (sure_queryTx_bind rfl ?_))
  rw [hrows, List.append_nil]
  exact h r₀ hr₀ hp₀

end Statements

/-! ## The services -/

/-- Whether the permission client of a tenant can be built. -/
def clientUp (up : String → Bool) : Call ι → Move ι → Bool
  | .tenantClient tenant, .done => up tenant
  | .tenantClient tenant, .refuse _ => !up tenant
  | _, _ => true

/-- The writes of an event: the revision of its board, and its row. -/
def Logs (ws : List (Write (Rec ι))) : Prop :=
  ∀ a ∈ ws, (∃ b, a = .put (.board b)) ∨ ∃ e, a = .put (.event e)

section Services

variable [DecidableEq ι] {up : String → Bool} {tx : Tx (Rec ι)} {w : World (Db ι) (Backend ι)}
  {ws : List (Write (Rec ι))} {Q : α → Tx (Rec ι) → World (Db ι) (Backend ι) → Prop}

theorem sure_tenantClientFor_bind {ctx : RequestContext} {tenant : String} {f : String → Handler ι α}
    (htenant : ctx.auth.bind AuthContext.tenantId = some tenant) (hup : up tenant = true)
    (h : Sure ((kanban ι).limit (clientUp up)) (f tenant) tx w Q) :
    Sure ((kanban ι).limit (clientUp up)) ((tenantClientFor ctx).bind f) tx w Q := by
  refine sure_bind (sure_orError_bind htenant ⟨⟨.done, (true, w.ext), react_limit.mpr ⟨hup, rfl⟩⟩,
    fun m r hr => ?_⟩)
  obtain ⟨hallow, hr⟩ := react_limit.mp hr
  cases m with
  | done =>
      cases hr
      exact h
  | refuse t =>
      rw [clientUp, hup] at hallow
      cases hallow
  | lose t => cases hr
  | answer g => cases hr
  | page n => cases hr
  | resolved s => cases hr
  | fresh i => cases hr

/-- Without a permission client nothing that needs one returns. -/
theorem fails_tenantClientFor_bind {ctx : RequestContext} {tenant : String} {f : String → Handler ι α}
    (htenant : ctx.auth.bind AuthContext.tenantId = some tenant) (hup : up tenant = false) :
    ((tenantClientFor ctx).bind f).Fails ((kanban ι).limit (clientUp up)) := by
  unfold tenantClientFor tenantIdFromRequest
  rw [htenant]
  intro m x r hr
  obtain ⟨hallow, hr⟩ := react_limit.mp hr
  cases m with
  | done =>
      rw [clientUp, hup] at hallow
      cases hallow
  | refuse t =>
      cases hr
      trivial
  | lose t => cases hr
  | answer g => cases hr
  | page n => cases hr
  | resolved s => cases hr
  | fresh i => cases hr

theorem sure_newId_bind [Infinite ι] {f : ι → Handler ι α}
    (h : ∀ i, i ∉ w.ext.issued → Sure ((kanban ι).limit (clientUp up)) (f i) tx
      { w with ext := { w.ext with issued := i :: w.ext.issued } } Q) :
    Sure ((kanban ι).limit (clientUp up)) (newId.bind f) tx w Q := by
  obtain ⟨i, hi⟩ := Infinite.exists_notMem_finset w.ext.issued.toFinset
  rw [List.mem_toFinset] at hi
  refine ⟨⟨.fresh i, _, react_limit.mpr ⟨rfl, if_neg hi⟩⟩, fun m r hr => ?_⟩
  obtain ⟨-, hr⟩ := react_limit.mp hr
  cases m with
  | fresh j =>
      obtain ⟨hj, hr⟩ := Option.ite_none_left_eq_some.mp hr
      cases hr
      exact h j hj
  | done => cases hr
  | refuse t => cases hr
  | lose t => cases hr
  | answer g => cases hr
  | page n => cases hr
  | resolved s => cases hr

/-- A row of `event_log` in a transaction, under an id that no event has. -/
theorem sure_insertRow_bind [Infinite ι] {tenantId eventType : String}
    {boardId aggregatedBoardId projectId : Option ι} {payload : Payload} {f : Unit → Handler ι α}
    (hids : ∀ e ∈ ((kanban ι).applyAll w.store ws).eventLog, e.id ∈ w.ext.issued)
    (h : ∀ e ext, Sure ((kanban ι).limit (clientUp up)) (f ()) (.active (ws ++ [.put (.event e)]))
      { w with ext := { w.ext with issued := ext } } Q) :
    Sure ((kanban ι).limit (clientUp up)) ((insertRow tenantId boardId aggregatedBoardId projectId
      eventType payload).bind f) (.active ws) w Q := by
  refine sure_bind (sure_newId_bind fun i hi => sure_queryTx_bind
    (e := ⟨(), [], [.put (.event ⟨i, tenantId, boardId, aggregatedBoardId, projectId, eventType, payload⟩)]⟩)
    (if_neg fun hany => ?_) (sure_stmt_active (e := ⟨(), [], []⟩) rfl ?_))
  · obtain ⟨e, he, hsame⟩ := List.any_eq_true.mp hany
    have hid : i = e.id := of_decide_eq_true hsame
    exact hi (hid ▸ hids e he)
  · rw [List.append_nil]
    exact h _ _

/-- A board event in a transaction. -/
theorem sure_insertBoardEvent_bind [Infinite ι] {tenantId eventType : String} {boardId : ι}
    {payload : Payload} {f : Unit → Handler ι α}
    (hids : ∀ e ∈ ((kanban ι).applyAll w.store ws).eventLog, e.id ∈ w.ext.issued)
    (hboard : ∃ b ∈ ((kanban ι).applyAll w.store ws).boards, b.id = boardId)
    (h : ∀ ws' ext, Logs ws' → Sure ((kanban ι).limit (clientUp up)) (f ()) (.active (ws ++ ws'))
      { w with ext := { w.ext with issued := ext } } Q) :
    Sure ((kanban ι).limit (clientUp up)) ((insertBoardEvent tenantId boardId eventType payload).bind f)
      (.active ws) w Q := by
  obtain ⟨b, hb, hid⟩ := hboard
  have hmem : b ∈ ((kanban ι).applyAll w.store ws).boards.filter (·.id = boardId) :=
    List.mem_filter.mpr ⟨hb, decide_eq_true hid⟩
  obtain ⟨b₀, rest, hrows⟩ := List.exists_cons_of_ne_nil (List.ne_nil_of_mem hmem)
  obtain ⟨e, he⟩ : ∃ e, Db.boardsT.update (fun b => b.id = boardId)
      (fun b => { b with revision := b.revision + 1 }) ((kanban ι).applyAll w.store ws) = some e :=
    ⟨_, rfl⟩
  have hput : ∀ a ∈ e.writes, ∃ b, a = .put (.board b) := fun a ha => by
    obtain ⟨r, -, -, rfl⟩ := Table.mem_writes_update he ha
    exact ⟨_, rfl⟩
  have hhead : e.answer.head? = some { b₀ with revision := b₀.revision + 1 } := by
    cases he
    rw [List.head?_map, Db.boardsT_rows, hrows]
    rfl
  refine sure_bind (sure_fetchOneTx_bind he hhead ?_)
  rw [← Prog.bind_pure (insertRow _ _ _ _ _ _)]
  refine sure_insertRow_bind (fun e' he' => ?_) fun e' ext => ?_
  · rw [Semantics.applyAll_append] at he'
    rcases has_of_applyAll (r := .event e') he' with hnew | ⟨hold, -⟩
    · obtain ⟨b', hb'⟩ := hput _ hnew
      cases hb'
    · exact hids e' hold
  · rw [List.append_assoc]
    refine h _ ext fun a ha => ?_
    rcases List.mem_append.mp ha with ha | ha
    · exact .inl (hput a ha)
    · exact .inr ⟨e', List.mem_singleton.mp ha⟩

/-! Tuples are deleted page by page until none is left. -/

theorem sure_deletePage {subject : Option String} {page : List RelationTuple}
    {Q : Bool → Tx (Rec ι) → World (Db ι) (Backend ι) → Prop}
    (h : ∀ ok (ext : Backend ι), ext.tuples.Sublist w.ext.tuples → Q ok tx { w with ext := ext }) :
    Sure ((kanban ι).limit (clientUp up)) (deletePage subject page) tx w Q := by
  induction page generalizing w with
  | nil => exact h true w.ext (List.Sublist.refl _)
  | cons t rest ih =>
      rw [deletePage]
      split
      · refine ⟨⟨.done, _, react_limit.mpr ⟨rfl, rfl⟩⟩, fun m r hr => ?_⟩
        obtain ⟨-, hr⟩ := react_limit.mp hr
        have hdel : (w.ext.delete t.id).tuples.Sublist w.ext.tuples := List.filter_sublist
        cases m with
        | done =>
            cases hr
            exact ih fun ok ext hext => h ok ext (hext.trans hdel)
        | refuse tr =>
            cases hr
            exact h false _ (List.Sublist.refl _)
        | lose tr =>
            cases hr
            exact h false _ hdel
        | answer g => cases hr
        | page n => cases hr
        | resolved s => cases hr
        | fresh i => cases hr
      · exact ih h

omit [DecidableEq ι] in
/-- After a page that is not the last, fewer tuples are left to list. -/
theorem length_pending_lt {b b' : Backend ι} {filter : TupleFilter} {after : Option ℕ} {size token : ℕ}
    (hnext : (b.page filter after size).2 = some token) (hb : b'.tuples.Sublist b.tuples) :
    (b'.pending filter (some token)).length < (b.pending filter after).length := by
  obtain ⟨last, hlast, rfl⟩ := exists_last_of_next hnext
  have hmem : last ∈ b.pending filter after := List.mem_of_mem_take (List.mem_of_getLast? hlast)
  have hafter : after.all (· < last.id) := (mem_pending.mp hmem).2.2
  have hsub : (b'.pending filter (some last.id)).Sublist
      ((b.pending filter after).filter fun t => last.id < t.id) := by
    have hlater : b.tuples.filter (fun t => filter.admits t && decide (last.id < t.id)) =
        (b.pending filter after).filter fun t => last.id < t.id := by
      rw [Backend.pending, List.filter_filter]
      refine List.filter_congr fun t _ => ?_
      rw [Bool.eq_iff_iff]
      cases after with
      | none => simp [and_comm]
      | some a =>
          simp only [Option.all_some, decide_eq_true_eq, Bool.and_eq_true] at hafter ⊢
          constructor
          · rintro ⟨hf, hlt⟩
            exact ⟨hlt, hf, hafter.trans hlt⟩
          · rintro ⟨hlt, hf, -⟩
            exact ⟨hf, hlt⟩
    rw [← hlater]
    exact hb.filter _
  refine hsub.length_le.trans_lt (List.length_filter_lt_length_iff_exists.mpr ⟨last, hmem, ?_⟩)
  simp

theorem sure_deleteRelationTuples {pages : ℕ} {filter : TupleFilter} {subject : Option String}
    {Q : Bool → Tx (Rec ι) → World (Db ι) (Backend ι) → Prop} (hpages : w.ext.tuples.length < pages)
    (h : ∀ ok (ext : Backend ι), ext.tuples.Sublist w.ext.tuples → Q ok tx { w with ext := ext }) :
    Sure ((kanban ι).limit (clientUp up)) (deleteRelationTuples pages filter subject) tx w Q := by
  have hloop : ∀ n after (ext : Backend ι), (ext.pending filter after).length < n →
      ext.tuples.Sublist w.ext.tuples → Sure ((kanban ι).limit (clientUp up))
        (deleteRelationTuples.loop filter subject n after) tx { w with ext := ext } Q := by
    intro n
    induction n with
    | zero => exact fun _ _ hn _ => absurd hn (Nat.not_lt_zero _)
    | succ n ih =>
        intro after ext hn hext
        refine ⟨⟨.page 1, _, react_limit.mpr ⟨rfl, rfl⟩⟩, fun m r hr => ?_⟩
        obtain ⟨-, hr⟩ := react_limit.mp hr
        cases m with
        | page size =>
            obtain ⟨-, hr⟩ := Option.ite_none_right_eq_some.mp hr
            have hnext : ∀ token (b : Backend ι), (ext.page filter after size).2 = some token →
                b.tuples.Sublist ext.tuples →
                  (b.pending filter (some token)).length < (ext.pending filter after).length :=
              fun _ _ => length_pending_lt
            generalize ext.page filter after size = listed at hr hnext
            cases hr
            refine sure_bind (sure_deletePage fun ok ext' hext' => ?_)
            cases ok with
            | false => exact h false ext' (hext'.trans hext)
            | true =>
                rw [if_pos rfl]
                cases hlast : listed.2 with
                | none => exact h true ext' (hext'.trans hext)
                | some token =>
                    refine ih _ _ ?_ (hext'.trans hext)
                    exact (hnext token ext' hlast hext').trans_le (Nat.le_of_lt_succ hn)
        | refuse tr =>
            cases hr
            exact h false _ hext
        | done => cases hr
        | lose tr => cases hr
        | answer g => cases hr
        | resolved s => cases hr
        | fresh i => cases hr
  refine hloop pages none w.ext (lt_of_le_of_lt ?_ hpages) (List.Sublist.refl _)
  exact List.length_filter_le _ _

end Services

end Kanban.Rpc
