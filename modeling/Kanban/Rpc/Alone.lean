import Kanban.Lib.Solo
import Kanban.Rpc.Commits

/-!
# A handler that runs alone

The rows of four tables stand in an order: the cards of a column, the columns of a board, the
checklist of a card and the sources of an aggregated board.  Most of what a handler does is not
about them.  When it runs alone, the rows that it reads are those of the store it left itself, and
what it does to these tables is known exactly.

## Main definitions

* `Shelves`, `Db.shelves` — the rows that stand in an order.
* `Beside`, `Careful` — a write that is about none of them, and a part of a transaction that makes
  only such writes.
-/

namespace Kanban.Store

variable {ι : Type}

/-- The rows that stand in an order. -/
structure Shelves (ι : Type) where
  cards : List (CardRow ι)
  columns : List (ColumnRow ι)
  checklistItems : List (ChecklistItemRow ι)
  sources : List (SourceRow ι)

def Db.shelves (db : Db ι) : Shelves ι :=
  ⟨db.cards, db.columns, db.checklistItems, db.aggregatedBoardSources⟩

end Kanban.Store

namespace Kanban.Rpc

open Program Kanban.Store Kanban.Auth
open Kanban.Services (AuthContext ConnectError IdCodec)

variable {ι α β τ : Type} [DecidableEq ι]

/-- A write of a row that stands in no order. -/
def Beside (a : Write (Rec ι)) : Prop :=
  match a.record with
  | .card _ => False
  | .column _ => False
  | .checklistItem _ => False
  | .source _ => False
  | _ => True

theorem Beside.shelves {db : Db ι} {a : Write (Rec ι)} (h : Beside a) :
    (db.apply a).shelves = db.shelves := by
  cases a with
  | put r => cases r <;> first | rfl | exact h.elim
  | del r => cases r <;> first | rfl | exact h.elim

theorem shelves_applyAll {db : Db ι} {ws : List (Write (Rec ι))} (h : ∀ a ∈ ws, Beside a) :
    ((kanban ι).applyAll db ws).shelves = db.shelves := by
  induction ws generalizing db with
  | nil => rfl
  | cons a ws ih =>
      exact (ih fun b hb => h b (List.mem_cons_of_mem _ hb)).trans (h a List.mem_cons_self).shelves

omit [DecidableEq ι] in
theorem Quiet.beside {ws : List (Write (Rec ι))} (h : Quiet ws) : ∀ a ∈ ws, Beside a := by
  intro a ha
  obtain ⟨r, rfl⟩ := h a ha
  trivial

/-- The card that is stored for a key. -/
def keyCard (db : Db ι) (tenantId key : String) : Option ι :=
  if key = "" then none
  else (db.idempotencyKeys.filter fun r => r.tenantId = tenantId ∧ r.key = key).head?.bind
    IdempotencyRow.responseCardId

/-! ## Outside of a transaction -/

section Idle

variable {P : Shelves ι → Prop} {v : Db ι} {Q : α → Tx (Rec ι) → Db ι → Prop}

/-- A program that writes nothing, and what comes after it. -/
theorem solo_mute_bind {E : Db ι → Prop} {p : Handler ι β} {f : β → Handler ι α} (hp : Mute p)
    (h : ∀ b, Solo (kanban ι) E (f b) .idle v Q) : Solo (kanban ι) E (p.bind f) .idle v Q :=
  solo_bind ((Solo.of_only_nil hp).mono fun b tx v' ⟨htx, hv'⟩ => by
    subst htx hv'
    exact h b)

theorem solo_mute {E : Db ι → Prop} {p : Handler ι α} (hp : Mute p) (h : ∀ a, Q a .idle v) :
    Solo (kanban ι) E p .idle v Q := by
  rw [← Prog.bind_pure p]
  exact solo_mute_bind hp fun a => solo_pure (h a)

/-- A program that writes keys at most, and what comes after it. -/
theorem solo_tame_bind {p : Handler ι β} {f : β → Handler ι α} (hp : Tame p) (hv : P v.shelves)
    (h : ∀ b v', v'.shelves = v.shelves →
      Solo (kanban ι) (fun v => P v.shelves) (f b) .idle v' Q) :
    Solo (kanban ι) (fun v => P v.shelves) (p.bind f) .idle v Q := by
  refine solo_bind ((Solo.of_only_idle (R := fun v v' : Db ι => v'.shelves = v.shelves) (fun _ => rfl)
    (fun _ _ _ h h' => h'.trans h) (fun v ws hws => shelves_applyAll hws.beside) hp
    fun v' hv' => ?_).mono ?_)
  · rw [hv']
    exact hv
  · rintro b tx v' ⟨rfl, hv'⟩
    exact h b v' hv'

/-- The last thing that a call does. -/
theorem solo_tame {p : Handler ι α} (hp : Tame p) (hv : P v.shelves)
    (h : ∀ a v', v'.shelves = v.shelves → Q a .idle v') :
    Solo (kanban ι) (fun v => P v.shelves) p .idle v Q := by
  rw [← Prog.bind_pure p]
  exact solo_tame_bind hp hv fun a v' hv' => solo_pure (h a v' hv')

omit [DecidableEq ι] in
theorem solo_orError_bind {M : Semantics (Db ι) (Rec ι) (Call ι) (Reply ι) (Backend ι) (Move ι)} {E : Db ι → Prop} {tx : Tx (Rec ι)} {o : Option β} {e : ConnectError}
    {f : β → Handler ι α} (h : ∀ b, o = some b → Solo M E (f b) tx v Q) :
    Solo M E ((orError e o).bind f) tx v Q := by
  cases o with
  | none => exact solo_fail
  | some b => exact h b rfl

omit [DecidableEq ι] in
theorem solo_ensure_bind {M : Semantics (Db ι) (Rec ι) (Call ι) (Reply ι) (Backend ι) (Move ι)} {E : Db ι → Prop} {tx : Tx (Rec ι)} {p : Prop} [Decidable p]
    {e : ConnectError} {f : Unit → Handler ι α} (h : p → Solo M E (f ()) tx v Q) :
    Solo M E ((ensure p e).bind f) tx v Q := by
  unfold ensure
  split
  · exact h ‹p›
  · exact solo_fail

theorem solo_fetchOptional_bind {E : Db ι → Prop} {msg : String} {T : Table (Db ι) (Rec ι) τ}
    {p : τ → Bool} {f : Option τ → Handler ι α}
    (h : Solo (kanban ι) E (f ((T.rows v).filter p).head?) .idle v Q) :
    Solo (kanban ι) E ((fetchOptional msg (T.select p)).bind f) .idle v Q := by
  refine solo_bind (solo_bind (solo_stmt_idle (fun e he => ?_) solo_fail))
  cases he
  exact ⟨.inl rfl, solo_pure (solo_pure h)⟩

theorem solo_checkIdempotencyCard_bind {E : Db ι → Prop} {tenantId key : String}
    {f : Option ι → Handler ι α} (h : Solo (kanban ι) E (f (keyCard v tenantId key)) .idle v Q) :
    Solo (kanban ι) E ((checkIdempotencyCard tenantId key).bind f) .idle v Q := by
  unfold checkIdempotencyCard
  unfold keyCard at h
  split
  · rw [if_pos ‹_›] at h
    exact h
  · rw [if_neg ‹_›] at h
    exact solo_bind (solo_fetchOptional_bind (solo_pure h))

/-- The first row of a `SELECT` is there. -/
theorem solo_fetchOr_bind {E : Db ι → Prop} {msg : String} {err : ConnectError}
    {T : Table (Db ι) (Rec ι) τ} {p : τ → Bool} {f : τ → Handler ι α}
    (h : ∀ r ∈ T.rows v, p r → Solo (kanban ι) E (f r) .idle v Q) :
    Solo (kanban ι) E ((fetchOr msg err (T.select p)).bind f) .idle v Q := by
  refine solo_bind (solo_bind (solo_bind (solo_stmt_idle (fun e he => ?_) solo_fail)))
  cases he
  refine ⟨.inl rfl, solo_pure (solo_pure ?_)⟩
  cases hrow : ((T.rows v).filter p).head? with
  | none => exact solo_fail
  | some r =>
      have hmem := List.mem_filter.mp (List.mem_of_mem_head? hrow)
      exact solo_pure (h r hmem.1 hmem.2)

theorem solo_beginTx_bind {E : Db ι → Prop} {msg : String} {f : Unit → Handler ι α}
    (h : SoloIn (kanban ι) E (f ()) v v Q) :
    Solo (kanban ι) E ((beginTx msg).bind f) .idle v Q := solo_begin_in h solo_fail

end Idle

/-! ## In a transaction -/

section Transactions

variable {E : Db ι → Prop} {s v : Db ι} {Q : α → Tx (Rec ι) → Db ι → Prop} {B : α → Db ι → Prop}

theorem soloIn_commitTx_bind {msg : String} {f : Unit → Handler ι α} (hE : E v)
    (h : Solo (kanban ι) E (f ()) .idle v Q) :
    SoloIn (kanban ι) E ((commitTx msg).bind f) s v Q := soloIn_commit (.inr hE) h solo_fail

theorem soloIn_ensure_bind {p : Prop} [Decidable p] {e : ConnectError} {f : Unit → Handler ι α}
    (h : p → SoloIn (kanban ι) E (f ()) s v Q) :
    SoloIn (kanban ι) E ((ensure p e).bind f) s v Q := fun ws hws =>
  solo_ensure_bind fun hp => h hp ws hws

theorem soloTx_query {msg : String} {st : Stmt (Db ι) (Rec ι) α}
    (h : ∀ e, st v = some e → B e.answer ((kanban ι).applyAll v e.writes)) :
    SoloTx (kanban ι) (query msg st) v B :=
  soloTx_stmt (fun e he => soloTx_pure (h e he)) ⟨_, rfl⟩

theorem soloTx_orError {o : Option α} {e : ConnectError} (h : ∀ a, o = some a → B a v) :
    SoloTx (kanban ι) (orError e o) v B := by
  cases o with
  | none => exact soloTx_fail
  | some a => exact soloTx_pure (h a rfl)

theorem soloTx_ensure {p : Prop} [Decidable p] {e : ConnectError} {B : Unit → Db ι → Prop}
    (h : p → B () v) : SoloTx (kanban ι) (ensure p e) v B := by
  unfold ensure
  split
  · exact soloTx_pure (h ‹p›)
  · exact soloTx_fail

theorem soloTx_fetchOne {msg : String} {st : Stmt (Db ι) (Rec ι) (List α)}
    (h : ∀ e a, st v = some e → e.answer.head? = some a →
      B a ((kanban ι).applyAll v e.writes)) : SoloTx (kanban ι) (fetchOne msg st) v B :=
  soloTx_bind (soloTx_query fun e he => soloTx_orError fun a ha => h e a he ha)

theorem soloTx_fetchOr {msg : String} {err : ConnectError} {st : Stmt (Db ι) (Rec ι) (List α)}
    (h : ∀ e a, st v = some e → e.answer.head? = some a →
      B a ((kanban ι).applyAll v e.writes)) : SoloTx (kanban ι) (fetchOr msg err st) v B :=
  soloTx_bind (soloTx_bind (soloTx_query fun e he => soloTx_pure (soloTx_orError fun a ha =>
    h e a he ha)))

end Transactions

/-! ## Parts that stop at the first failure -/

section Strict

variable {S : List (Write (Rec ι)) → Prop} {P : Write (Rec ι) → Prop}

omit [DecidableEq ι] in
theorem strict_query {msg : String} {st : Stmt (Db ι) (Rec ι) α}
    (hs : ∀ db e, st db = some e → S e.writes) : (query msg st : Handler ι α).Strict S :=
  ⟨hs, ⟨_, rfl⟩, fun _ => trivial⟩

omit [DecidableEq ι] in
theorem strict_orError {o : Option α} {e : ConnectError} : (orError e o : Handler ι α).Strict S := by
  cases o with
  | none => trivial
  | some a => trivial

theorem strict_insertRow {tenantId : String} {boardId aggregatedBoardId projectId : Option ι}
    {eventType : String} {payload : Payload} (hevent : ∀ r, P (.put (.event r))) :
    (insertRow tenantId boardId aggregatedBoardId projectId eventType payload).Strict
      fun ws => ∀ a ∈ ws, P a := by
  refine .bind (fun _ => trivial) fun id => .bind (strict_query fun db e he => ?_) fun _ =>
    strict_query fun db e he => ?_
  · rw [Table.writes_insert he]
    exact List.forall_mem_singleton.mpr (hevent _)
  · cases he
    exact List.forall_mem_nil _

/-- An event of a board writes the board and the event. -/
theorem strict_insertBoardEvent {tenantId : String} {boardId : ι} {eventType : String}
    {payload : Payload} (hboard : ∀ r, P (.put (.board r))) (hevent : ∀ r, P (.put (.event r))) :
    (insertBoardEvent tenantId boardId eventType payload).Strict fun ws => ∀ a ∈ ws, P a :=
  .bind (.bind (strict_query fun _ _ he => Table.forall_writes_update he fun _ _ _ => hboard _) fun _ =>
    strict_orError) fun _ => strict_insertRow hevent

/-- The reference of a card writes the counter of its project. -/
theorem strict_allocateCardRef {tenantId : String} {projectId : ι}
    (hcounter : ∀ r, P (.put (.refCounter r))) :
    (allocateCardRef tenantId projectId).Strict fun ws => ∀ a ∈ ws, P a := by
  refine .bind (strict_query fun db e he => ?_) fun _ => .bind (.bind (strict_query fun db e he => ?_)
    fun _ => strict_orError) fun _ => trivial
  · cases he
    exact List.forall_mem_nil _
  · unfold nextCardRef at he
    split at he
    · cases he
      exact List.forall_mem_nil _
    · obtain ⟨e', he', rfl⟩ := Option.map_eq_some_iff.mp he
      unfold Table.upsert at he'
      split at he' <;> cases he' <;> exact List.forall_mem_singleton.mpr (hcounter _)

/-- The milestone of a card is only read. -/
theorem strict_checkMilestone {codec : IdCodec ι} {tenantId : String} {projectId : ι}
    {milestoneId : String} :
    (checkMilestone codec tenantId projectId milestoneId).Strict fun ws => ∀ a ∈ ws, P a := by
  unfold checkMilestone
  split
  · trivial
  · refine .bind strict_orError fun _ => .bind (.bind (strict_query fun db e he => ?_) fun _ => trivial)
      fun _ => .bind ?_ fun _ => trivial
    · cases he
      exact List.forall_mem_nil _
    · unfold ensure
      split <;> trivial

end Strict

/-- A part of a transaction that leaves the rows that stand in an order alone, and that stops at the
first statement that fails. -/
def Careful (p : Handler ι α) : Prop := p.Strict fun ws => ∀ a ∈ ws, Beside a

namespace Careful

/-- What a statement of the transaction sees after it. -/
theorem soloTx {p : Handler ι α} {v : Db ι} (hp : Careful p) :
    SoloTx (kanban ι) p v fun _ v' => v'.shelves = v.shelves :=
  SoloTx.of_strict (R := fun v v' : Db ι => v'.shelves = v.shelves) (fun _ => rfl)
    (fun _ _ _ h h' => h'.trans h) (fun _ _ hws => shelves_applyAll hws) hp

omit [DecidableEq ι]

theorem pure (a : α) : Careful (.pure a : Handler ι α) := trivial

theorem bind {p : Handler ι α} {f : α → Handler ι β} (hp : Careful p) (hf : ∀ a, Careful (f a)) :
    Careful (p.bind f) := Prog.Strict.bind hp hf

theorem ite {c : Prop} [Decidable c] {p q : Handler ι α} (hp : Careful p) (hq : Careful q) :
    Careful (if c then p else q) := by
  split
  · exact hp
  · exact hq

theorem orError {o : Option α} {e : ConnectError} : Careful (orError e o : Handler ι α) := strict_orError

theorem ensure {p : Prop} [Decidable p] {e : ConnectError} :
    Careful (ensure p e : Handler ι Unit) := by
  unfold Rpc.ensure
  exact ite (pure ()) trivial

theorem newId : Careful (newId : Handler ι ι) := fun _ => trivial

theorem query {msg : String} {st : Stmt (Db ι) (Rec ι) α}
    (hs : ∀ db e, st db = some e → ∀ a ∈ e.writes, Beside a) : Careful (query msg st) :=
  strict_query hs

theorem read {msg : String} {st : Stmt (Db ι) (Rec ι) α} (hs : Silent st) :
    Careful (Rpc.query msg st) := query fun db e he => by simp [hs db e he]

/-- A statement on a table whose rows stand in no order. -/
theorem query_of_within {msg : String} {T : Table (Db ι) (Rec ι) τ} {st : Stmt (Db ι) (Rec ι) α}
    (hT : ∀ r, Beside (.put (T.record r)) ∧ Beside (.del (T.record r))) (hs : T.Within st) :
    Careful (Rpc.query msg st) := by
  refine query fun db e he a ha => ?_
  obtain ⟨r, rfl | rfl⟩ := hs db e he a ha
  · exact (hT r).1
  · exact (hT r).2

theorem fetchOptional {msg : String} {st : Stmt (Db ι) (Rec ι) (List α)}
    (hs : Careful (Rpc.query msg st)) : Careful (fetchOptional msg st) := bind hs fun _ => pure _

theorem fetchOne {msg : String} {st : Stmt (Db ι) (Rec ι) (List α)}
    (hs : Careful (Rpc.query msg st)) : Careful (fetchOne msg st) := bind hs fun _ => orError

variable [DecidableEq ι]

theorem insertRow {tenantId : String} {boardId aggregatedBoardId projectId : Option ι}
    {eventType : String} {payload : Payload} :
    Careful (insertRow tenantId boardId aggregatedBoardId projectId eventType payload) :=
  strict_insertRow fun _ => trivial

theorem insertBoardEvent {tenantId : String} {boardId : ι} {eventType : String}
    {payload : Payload} : Careful (insertBoardEvent tenantId boardId eventType payload) :=
  strict_insertBoardEvent (fun _ => trivial) fun _ => trivial

theorem insertAggregatedEvent {tenantId : String} {aggregatedBoardId : ι} {eventType : String}
    {payload : Payload} :
    Careful (insertAggregatedEvent tenantId aggregatedBoardId eventType payload) :=
  bind (fetchOne (query_of_within (T := Db.aggregatedBoardsT) (fun _ => ⟨trivial, trivial⟩)
    Table.within_update)) fun _ => insertRow

theorem allocateCardRef {tenantId : String} {projectId : ι} :
    Careful (allocateCardRef tenantId projectId) := strict_allocateCardRef fun _ => trivial

theorem checkMilestone {codec : IdCodec ι} {tenantId : String} {projectId : ι}
    {milestoneId : String} : Careful (checkMilestone codec tenantId projectId milestoneId) :=
  strict_checkMilestone

end Careful

end Kanban.Rpc
