import Kanban.Rpc.CardCommits

/-!
# What the handlers of CardService commit

Each `runs_…` theorem runs a handler symbolically, whatever the other calls do in between.  It
holds for every condition `Good` on commits that admits quiet writes and the commits that the
theorem describes: the change they make, and what the call has checked before.

## Main definitions

* `Delivers` — a commit that changes a card in place and writes an event.
* `runs_createCard`, `runs_moveCard`, … — the handlers.
-/

namespace Kanban.Rpc

open Program Kanban.Store Kanban.Auth
open Kanban.Services (AuthContext ConnectError IdCodec)

variable {ι α β : Type} [DecidableEq ι] {Good : Commitment (Rec ι) (Call ι) (Reply ι)}
  {codec : IdCodec ι} {tr₀ tr : Trace (Rec ι) (Call ι) (Reply ι)} {ws : List (Write (Rec ι))}
  {change : Change ι} {ctx : RequestContext}

/-! ## How the events read -/

section Events

omit [DecidableEq ι]

variable {e : EventRow ι} {board : ι} {payload : Payload} {revision : ℤ}

/-- An id in the payload of a board event reads back. -/
theorem readId_withBoardRevision {field : String} {id : ι}
    (h : payload.lookup field = some (.str (codec.toString id))) :
    readId codec (withBoardRevision payload revision) field = some id := by
  unfold readId Payload.text withBoardRevision
  rw [List.lookup_append, h]
  exact codec.parse_toString id

theorem readEvent_created {row : CardRow ι} {key : String} (hboard : e.boardId = some board)
    (htype : e.eventType = "CardCreated")
    (hpayload : e.payload = withBoardRevision (cardCreated codec row key) revision) :
    readEvent codec e = some (board, .created row.id row.columnId) := by
  have hcard : readId codec e.payload "card_id" = some row.id :=
    hpayload ▸ readId_withBoardRevision rfl
  have hcolumn : readId codec e.payload "column_id" = some row.columnId :=
    hpayload ▸ readId_withBoardRevision rfl
  simp [readEvent, hboard, htype, hcard, hcolumn]

theorem readEvent_moved {card : CardRow ι} {target : ColumnRow ι} {toPos newRevision : ℤ}
    {key : String} (hboard : e.boardId = some board) (htype : e.eventType = "CardMoved")
    (hpayload : e.payload = withBoardRevision
      [("card_id", .str (codec.toString card.id)),
        ("from_column", .str (codec.toString card.columnId)),
        ("to_column", .str (codec.toString target.id)), ("to_position", .num toPos),
        ("prev_revision", .num card.revision), ("new_revision", .num newRevision),
        ("idempotency_key", .str key)] revision) :
    readEvent codec e = some (board, .moved card.id target.id) := by
  have hcard : readId codec e.payload "card_id" = some card.id :=
    hpayload ▸ readId_withBoardRevision rfl
  have hcolumn : readId codec e.payload "to_column" = some target.id :=
    hpayload ▸ readId_withBoardRevision rfl
  simp [readEvent, hboard, htype, hcard, hcolumn]

theorem readEvent_transferred {card : CardRow ι} {target : ColumnRow ι} {toPos newRevision : ℤ}
    {key : String} (hboard : e.boardId = some board) (htype : e.eventType = "CardTransferred")
    (hpayload : e.payload =
      withBoardRevision (cardTransferred codec card target toPos newRevision key) revision) :
    readEvent codec e = some (board, .transferred card.id target.boardId target.id) := by
  have hcard : readId codec e.payload "card_id" = some card.id :=
    hpayload ▸ readId_withBoardRevision rfl
  have hto : readId codec e.payload "to_board_id" = some target.boardId :=
    hpayload ▸ readId_withBoardRevision rfl
  have hcolumn : readId codec e.payload "to_column_id" = some target.id :=
    hpayload ▸ readId_withBoardRevision rfl
  simp [readEvent, hboard, htype, hcard, hto, hcolumn]

theorem readEvent_deleted {cardId boardId : ι} {prevRevision : ℤ} (hboard : e.boardId = some board)
    (htype : e.eventType = "CardDeleted")
    (hpayload : e.payload = withBoardRevision
      [("card_id", .str (codec.toString cardId)), ("board_id", .str (codec.toString boardId)),
        ("prev_revision", .num prevRevision)] revision) :
    readEvent codec e = some (board, .deleted cardId) := by
  have hcard : readId codec e.payload "card_id" = some cardId :=
    hpayload ▸ readId_withBoardRevision rfl
  simp [readEvent, hboard, htype, hcard]

/-- `CardUpdated` says nothing of a place. -/
theorem readEvent_updated (htype : e.eventType = "CardUpdated") : readEvent codec e = none := by
  simp [readEvent, htype]

end Events

/-! ## Commits -/

/-- The commit changes a card in place, and writes an event. -/
structure Delivers (codec : IdCodec ι) (tr : Trace (Rec ι) (Call ι) (Reply ι))
    (ws : List (Write (Rec ι))) : Prop extends Makes codec tr ws .stay where
  changes : cardWrites ws ≠ []
  tells : eventWrites ws ≠ []

omit [DecidableEq ι] in
/-- A card that changes its place is written, and an event tells it. -/
theorem Makes.tells (h : Makes codec tr ws change) (hne : change ≠ .stay) :
    cardWrites ws ≠ [] ∧ eventWrites ws ≠ [] := by
  constructor
  · obtain ⟨l, l', hl, -, hland⟩ := h.cards
    unfold Lands at hland
    cases htarget : change.target with
    | none => cases change <;> first | exact absurd rfl hne | cases htarget
    | some target =>
        rw [htarget] at hland
        rw [hl]
        exact List.append_ne_nil_of_right_ne_nil _ hland.1
  · intro hnil
    have hevents := h.events
    rw [hnil] at hevents
    cases change <;> first | exact absurd rfl hne | cases hevents

namespace Builds

variable {evs : List (EventRow ι)}

omit [DecidableEq ι]

/-- A commit that leaves every card in its place. -/
theorem makes_stay (h : Builds tr₀ tr ws .stay evs) (hevs : ∀ e ∈ evs, e.eventType = "CardUpdated") :
    Makes codec tr ws .stay :=
  h.makes (List.filterMap_eq_nil_iff.mpr fun e he => readEvent_updated (hevs e he)) trivial
    fun _ _ _ htarget => by cases htarget

theorem delivers (h : Builds tr₀ tr ws .stay evs) (hevs : ∀ e ∈ evs, e.eventType = "CardUpdated")
    (hne : evs ≠ []) (hcards : cardWrites ws ≠ []) : Delivers codec tr ws :=
  ⟨h.makes_stay hevs, hcards, h.events ▸ hne⟩

end Builds

/-! ## The transactions that move a card -/

section Places

variable {evs : List (EventRow ι)} {tenantId key : String}

/-- The transaction of a new card. -/
theorem runs_insertNewCard {subject : String} {board : BoardRow ι} {column : ColumnRow ι}
    {req : CreateCardRequest} {B : ι → Tx (Rec ι) → Trace (Rec ι) (Call ι) (Reply ι) → Prop}
    (hcolumn : Saw tr₀ (.column column)) (hboard : column.boardId = board.id)
    (hgood : ∀ tr ws card, tr₀ <:+ tr → Makes codec tr ws (.create card board.id column.id) →
      Good tr ws)
    (h : ∀ card tr, tr₀ <:+ tr → B card .idle tr) :
    Runs (kanban ι) Good (insertNewCard codec ctx subject tenantId board column req) .idle tr₀ B := by
  refine runs_bind (runs_beginTx (Fills.allocateCardRef.bind_runs (Builds.start List.suffix_rfl) ?_))
  intro cardRef ws₁ tr₁ hw₁ _
  refine runs_bind (runs_newId fun cardId => ?_)
  refine runs_bind (runs_insertPosition (hw₁.grow (List.suffix_cons _ _)) ?_ ?_)
  · intro position ws₂ tr₂ hw₂ htr₂
    refine Fills.checkMilestone.bind_runs hw₂ fun milestone ws₃ tr₃ hw₃ htr₃ => ?_
    refine runs_bind (runs_query_active fun db e he => ?_)
    rw [writes_insertCard he]
    have hland := (hw₃.grow (List.suffix_cons (.ran e.read) tr₃)).land
      (.create cardId board.id column.id)
      (l := [.put (newCardRow ctx subject tenantId board column req cardId cardRef position
        milestone)]) ⟨List.cons_ne_nil _ _, fun a ha => by rw [List.mem_singleton.mp ha]; rfl⟩ rfl
    refine runs_bind (runs_insertBoardEvent hland ?_)
    intro e revision ws₄ tr₄ hw₄ _ htr₄ hrouted htype hpayload
    have hnew : cardId ∈ newIds (.called .newId cardId :: tr₁) := List.mem_cons_self
    have hissued : cardId ∈ newIds tr₄ :=
      (newIds_sublist (htr₂.trans (htr₃.trans ((List.suffix_cons _ _).trans htr₄)))).subset hnew
    have hmakes : Makes codec tr₄ ws₄ (.create cardId board.id column.id) := by
      refine hw₄.makes ?_ hissued ?_
      · exact List.filterMap_cons_some (readEvent_created hrouted htype hpayload)
      · rintro _ _ _ ⟨⟩
        exact ⟨column, hcolumn.of_suffix hw₄.past, rfl, hboard⟩
    exact runs_bind (runs_commitTx (hgood _ _ _ hw₄.past hmakes)
      (runs_pure (h _ _ (hw₄.past.trans (List.suffix_cons _ _)))))
  · -- the read of the position failed: no statement goes through any more
    intro position tr₂
    have hinsert : ∀ milestone tr, Runs (kanban ι) Good (do
        query "failed to insert card" (insertCard (newCardRow ctx subject tenantId board column req
          cardId cardRef position milestone))
        insertBoardEvent tenantId board.id "CardCreated" (cardCreated codec (newCardRow ctx subject
          tenantId board column req cardId cardRef position milestone) req.idempotencyKey)
        commitTx "commit failed"
        .pure cardId) .aborted tr B := fun milestone tr => runs_bind runs_query_aborted
    refine runs_bind (runs_ite (fun _ => runs_pure (hinsert _ _)) fun _ => ?_)
    exact runs_bind (runs_orError fun _ _ => runs_bind (runs_bind runs_query_aborted))

/-- The transaction of a move. -/
theorem runs_placeCard {card : CardRow ι} {target : ColumnRow ι} {fromIsDone : Bool}
    {req : MoveCardRequest} {B : Unit → Tx (Rec ι) → Trace (Rec ι) (Call ι) (Reply ι) → Prop}
    (hcard : Saw tr₀ (.card card)) (htarget : Saw tr₀ (.column target))
    (hgood : ∀ tr ws, tr₀ <:+ tr →
      Makes codec tr ws (.move card.id card.boardId target.boardId target.id) → Good tr ws)
    (h : ∀ tr, tr₀ <:+ tr → B () .idle tr) :
    Runs (kanban ι) Good (placeCard codec ctx tenantId card target fromIsDone req) .idle tr₀ B := by
  refine runs_bind (runs_beginTx (Fills.shiftForMove.bind_runs (Builds.start List.suffix_rfl) ?_))
  intro _ ws₁ tr₁ hw₁ _
  refine runs_bind (runs_fetchOne_active fun db e row he hrow => ?_)
  have hland := lands_updateCardRow (.move card.id card.boardId target.boardId target.id) he hrow
    hw₁ rfl fun c => ⟨rfl, rfl, rfl⟩
  refine runs_bind (runs_insertBoardEvent hland ?_)
  intro e revision ws₂ tr₂ hw₂ _ _ hrouted htype hpayload
  have hmakes : Makes codec tr₂ ws₂ (.move card.id card.boardId target.boardId target.id) := by
    refine hw₂.makes ?_ ⟨card, hcard.of_suffix hw₂.past, rfl, rfl⟩ ?_
    · exact List.filterMap_cons_some (readEvent_moved hrouted htype hpayload)
    · rintro _ _ _ ⟨⟩
      exact ⟨target, htarget.of_suffix hw₂.past, rfl, rfl⟩
  exact runs_commitTx (hgood _ _ hw₂.past hmakes) (h _ (hw₂.past.trans (List.suffix_cons _ _)))

/-- The transaction of a transfer. -/
theorem runs_relocateCard {card : CardRow ι} {target : ColumnRow ι} {targetProjectId : ι}
    {fromIsDone : Bool} {B : Unit → Tx (Rec ι) → Trace (Rec ι) (Call ι) (Reply ι) → Prop}
    (hcard : Saw tr₀ (.card card)) (htarget : Saw tr₀ (.column target))
    (hgood : ∀ tr ws, tr₀ <:+ tr →
      Makes codec tr ws (.transfer card.id card.boardId target.boardId target.id) → Good tr ws)
    (h : ∀ tr, tr₀ <:+ tr → B () .idle tr) :
    Runs (kanban ι) Good (relocateCard codec ctx tenantId card targetProjectId target fromIsDone
      key) .idle tr₀ B := by
  refine runs_bind (runs_beginTx (Fills.allocateCardRef.bind_runs (Builds.start List.suffix_rfl) ?_))
  intro newRef ws₁ tr₁ hw₁ _
  refine runs_bind (runs_read_active silent_nextPosition fun db e he => ?_)
  refine runs_bind (runs_fetchOne_active fun db' e' row he' hrow => ?_)
  have hland := lands_updateCardRow (.transfer card.id card.boardId target.boardId target.id) he'
    hrow (hw₁.grow (List.suffix_cons (.ran e.read) tr₁)) rfl
    fun c => ⟨rfl, rfl, rfl⟩
  refine runs_bind (runs_query_active fun db₁ e₁ he₁ => ?_)
  have hscrub := (hland.grow (List.suffix_cons (.ran e₁.read) _)).plain
    (plain_of_within (T := Db.cardLabelsT) (fun _ => trivial)
      (fun db => Table.within_delete db) he₁)
  refine runs_bind (runs_insertBoardEvent hscrub ?_)
  intro e₂ revision₂ ws₂ tr₂ hw₂ _ _ hrouted₂ htype₂ hpayload₂
  refine runs_bind (runs_insertBoardEvent hw₂ ?_)
  intro e₃ revision₃ ws₃ tr₃ hw₃ _ _ hrouted₃ htype₃ hpayload₃
  have hmakes : Makes codec tr₃ ws₃ (.transfer card.id card.boardId target.boardId target.id) := by
    refine hw₃.makes ?_ ⟨card, hcard.of_suffix hw₃.past, rfl, rfl⟩ ?_
    · refine (List.filterMap_cons_some (readEvent_transferred hrouted₂ htype₂ hpayload₂)).trans ?_
      exact congrArg _
        (List.filterMap_cons_some (readEvent_transferred hrouted₃ htype₃ hpayload₃))
    · rintro _ _ _ ⟨⟩
      exact ⟨target, htarget.of_suffix hw₃.past, rfl, rfl⟩
  exact runs_commitTx (hgood _ _ hw₃.past hmakes) (h _ (hw₃.past.trans (List.suffix_cons _ _)))

end Places

/-! ## The handlers that move a card -/

section Handlers

variable (hquiet : ∀ tr ws, Quiet ws → Good tr ws)
include hquiet

theorem runs_createCard {req : CreateCardRequest}
    (hgood : ∀ tr ws card board column, ctx.checked.bind codec.parse = some board →
      Makes codec tr ws (.create card board column) → Good tr ws) :
    Runs (kanban ι) Good (createCard codec ctx req) .idle tr₀ fun _ _ _ => True := by
  refine runs_bind (runs_orError fun objectId hobject => runs_bind (runs_orError fun boardId
    hboard => runs_bind (runs_orError fun subject _ => runs_bind (runs_orError fun tenantId _ =>
    runs_bind (runs_ensure fun _ => (Settles.checkIdempotencyCard hquiet).bind_runs fun found tr₁
    _ => ?_)))))
  cases found with
  | some existingId => exact (Settles.fetchFullCard hquiet).runs
  | none =>
      have hnil : ∀ tr, Good tr [] := fun tr => hquiet tr [] quiet_nil
      refine runs_bind (runs_fetchOr_idle hnil fun board tr₂ hb _ _ => ?_)
      refine runs_bind (runs_orError fun colId _ => ?_)
      refine runs_bind (runs_fetchOr_idle hnil fun column tr₃ hcol _ hsaw => ?_)
      have hb : board.id = boardId ∧ board.tenantId = tenantId := by simpa using hb
      have hcol : column.id = colId ∧ column.boardId = boardId ∧ column.tenantId = tenantId := by
        simpa using hcol
      refine runs_bind (runs_insertNewCard hsaw (hcol.2.1.trans hb.1.symm) ?_ fun cardId tr₄ _ => ?_)
      · intro tr ws card _ hmakes
        refine hgood tr ws card board.id column.id ?_ hmakes
        rw [hobject, hb.1]
        exact hboard
      · exact (Settles.of_tame hquiet (.bind .tenantClientFor fun _ => .bind .grantWithRetry fun _ =>
          .bind .storeIdempotencyId fun _ => .fetchFullCard)).runs

theorem runs_moveCard {pages : ℕ} {req : MoveCardRequest}
    (hgood : ∀ tr ws card source board column, ctx.checked.bind codec.parse = some card →
      codec.parse req.toColumnId = some column →
      Makes codec tr ws (.move card source board column) → Good tr ws) :
    Runs (kanban ι) Good (moveCard codec pages ctx req) .idle tr₀ fun _ _ _ => True := by
  refine runs_bind (runs_orError fun objectId hobject => runs_bind (runs_orError fun cardId
    hparse => runs_bind (runs_orError fun tenantId _ => runs_bind (runs_orError fun toColId
    hcolumn => (Settles.checkIdempotencyCard hquiet).bind_runs fun found tr₁ _ => ?_))))
  cases found with
  | some _ => exact (Settles.fetchFullCard hquiet).runs
  | none =>
      have hnil : ∀ tr, Good tr [] := fun tr => hquiet tr [] quiet_nil
      refine runs_bind (runs_fetchOr_idle hnil fun card tr₂ hc _ hcard => ?_)
      refine runs_bind (runs_fetchOr_idle hnil fun target tr₃ ht htr₃ htarget => ?_)
      have hc : card.id = cardId ∧ card.tenantId = tenantId := by simpa using hc
      have ht : target.id = toColId ∧ target.tenantId = tenantId := by simpa using ht
      refine Settles.fork_runs (.pure _) (.of_tame hquiet .sourceIsDone) fun fromIsDone tr₄ htr₄ => ?_
      refine runs_bind (runs_fetchOr_idle hnil fun targetBoard tr₅ _ htr₅ _ => ?_)
      refine runs_bind (runs_ensure fun _ => ?_)
      have hpast := htr₄.trans htr₅
      refine runs_bind (runs_placeCard (hcard.of_suffix (htr₃.trans hpast))
        (htarget.of_suffix hpast) ?_ fun tr₆ _ => ?_)
      · intro tr ws _ hmakes
        refine hgood tr ws card.id card.boardId target.boardId target.id ?_ ?_ hmakes
        · rw [hobject, hc.1]
          exact hparse
        · rw [ht.1]
          exact hcolumn
      · have hrest : Settles Good (do
            storeIdempotencyCard tenantId req.idempotencyKey cardId
            fetchFullCard codec tenantId cardId) :=
          .of_tame hquiet (.bind .storeIdempotencyId fun _ => .fetchFullCard)
        refine runs_ite (fun _ => ?_) fun _ => hrest.runs
        exact (Settles.bind (.of_tame hquiet .tenantClientFor) fun _ =>
          .bind (.of_tame hquiet .rehomeParent) fun _ => hrest).runs

/-- The check of the target board is in the trace of every transfer. -/
theorem runs_transferCard {pages : ℕ} {req : TransferCardRequest}
    (hgood : ∀ tr ws card source board column tenant subject,
      ctx.auth.bind AuthContext.tenantId = some tenant →
      ctx.auth.bind AuthContext.subject = some subject →
      .called (.checkPermission tenant ⟨permissionTypeBoard, codec.toString board, "edit", subject⟩)
        (.ok true) ∈ tr →
      Makes codec tr ws (.transfer card source board column) → Good tr ws) :
    Runs (kanban ι) Good (transferCard codec pages ctx req) .idle tr₀ fun _ _ _ => True := by
  refine runs_bind (runs_orError fun objectId hobject => runs_bind (runs_orError fun cardId
    hparse => runs_bind (runs_orError fun tenantId _ => runs_bind (runs_orError fun targetBoardId
    _ => runs_bind (runs_orError fun targetColId _ =>
    (Settles.checkIdempotencyCard hquiet).bind_runs fun found tr₁ _ => ?_)))))
  cases found with
  | some _ => exact (Settles.of_tame hquiet .replayTransfer).runs
  | none =>
      have hnil : ∀ tr, Good tr [] := fun tr => hquiet tr [] quiet_nil
      refine runs_bind (runs_fetchOr_idle hnil fun card tr₂ _ _ hcard => ?_)
      refine runs_bind (runs_fetchOr_idle hnil fun targetBoard tr₃ _ htr₃ _ => ?_)
      refine runs_bind (runs_ensure fun _ => ?_)
      refine runs_bind (runs_bind (runs_orError fun subject hsubject => ?_))
      refine runs_bind (runs_tenantClientFor fun tenant htenant => ?_)
      refine runs_bind (runs_checkPermissionWithRetry fun answer tr₄ htr₄ _ hchecked => ?_)
      refine runs_bind (runs_orError fun allowed hallowed => runs_bind (runs_ensure fun hyes => ?_))
      refine runs_pure (runs_bind (runs_fetchOr_idle hnil fun target tr₅ _ htr₅ htarget => ?_))
      refine runs_bind (runs_ensure fun hboard => ?_)
      refine (Settles.of_tame hquiet .sourceIsDone).bind_runs fun fromIsDone tr₆ htr₆ => ?_
      have hpast : tr₃ <:+ tr₆ :=
        (List.suffix_cons _ _).trans (htr₄.trans (htr₅.trans htr₆))
      refine runs_bind (runs_relocateCard (hcard.of_suffix (htr₃.trans hpast))
        (htarget.of_suffix htr₆) ?_ fun tr₇ _ => ?_)
      · intro tr ws htr hmakes
        refine hgood tr ws card.id card.boardId target.boardId target.id tenant subject htenant
          hsubject ?_ hmakes
        rw [hboard]
        exact (htr₅.trans (htr₆.trans htr)).subset (hchecked (hallowed.trans (congrArg some hyes)))
      · exact (Settles.of_tame hquiet (.bind .rehomeParent fun _ => .bind .storeIdempotencyId fun _ =>
          .bind .fetchFullCard fun _ => .pure _)).runs

theorem runs_deleteCard {pages : ℕ}
    (hgood : ∀ tr ws card source, Makes codec tr ws (.delete card source) → Good tr ws) :
    Runs (kanban ι) Good (deleteCard codec pages ctx) .idle tr₀ fun _ _ _ => True := by
  refine runs_bind (runs_orError fun objectId _ => runs_bind (runs_orError fun cardId _ =>
    runs_bind (runs_orError fun tenantId _ => runs_bind (runs_fetchOr_idle
    (fun tr => hquiet tr [] quiet_nil) fun card tr₁ hc _ hcard => ?_))))
  have hc : card.id = cardId ∧ card.tenantId = tenantId := by simpa using hc
  refine runs_bind (runs_beginTx (runs_bind (runs_query_active fun db e he => ?_)))
  refine runs_bind (runs_ensure fun hne => ?_)
  have hland := lands_deleteCardRow card.boardId he hne (Builds.start (List.suffix_refl tr₁))
  refine runs_bind (runs_insertBoardEvent hland ?_)
  intro e₁ revision ws₁ tr₂ hw₁ _ _ hrouted htype hpayload
  have hmakes : Makes codec tr₂ ws₁ (.delete cardId card.boardId) := by
    refine hw₁.makes ?_ ⟨card, hcard.of_suffix hw₁.past, hc.1, rfl⟩ fun _ _ _ htarget => by
      cases htarget
    exact List.filterMap_cons_some (readEvent_deleted hrouted htype hpayload)
  refine runs_bind (runs_commitTx (hgood _ _ _ _ hmakes) ?_)
  exact (Settles.of_tame hquiet (.bind .tenantClientFor fun _ =>
    .bind .deleteRelationTuples fun _ => .pure _)).runs

/-- The update and its event are committed one after the other. -/
theorem runs_updateCard {req : UpdateCardRequest}
    (hgood : ∀ tr ws, Makes codec tr ws .stay → Good tr ws) :
    Runs (kanban ι) Good (updateCard codec ctx req) .idle tr₀ fun _ _ _ => True := by
  refine runs_bind (runs_orError fun objectId _ => runs_bind (runs_orError fun cardId _ =>
    runs_bind (runs_orError fun tenantId _ =>
    (Settles.checkIdempotencyCard hquiet).bind_runs fun found tr₁ _ => ?_)))
  cases found with
  | some _ => exact (Settles.fetchFullCard hquiet).runs
  | none =>
      refine runs_bind (runs_fetchOr_idle (fun tr => hquiet tr [] quiet_nil) fun cur tr₂ _ _ _ => ?_)
      refine (Settles.of_tame hquiet .milestonePatch).bind_runs fun milestone tr₃ _ => ?_
      refine runs_bind (runs_bind (runs_bind (runs_stmt_idle (fun db e he => ⟨?_, ?_⟩) runs_fail)))
      · have hstay := (Builds.start (List.suffix_cons (.ran e.read) tr₃)).stay
          (stay_update (f := patchCard req milestone) (fun c => ⟨rfl, rfl, rfl⟩) he)
        exact hgood _ _ (hstay.makes_stay (by simp))
      · refine runs_pure (runs_pure (runs_orError fun row _ => ?_))
        refine runs_bind (runs_beginTx (runs_bind (runs_insertBoardEvent
          (Builds.start List.suffix_rfl) ?_)))
        intro e₁ revision ws₁ tr₄ hw₁ _ _ _ htype _
        refine runs_bind (runs_commitTx (hgood _ _ (hw₁.makes_stay (by simpa using htype))) ?_)
        exact (Settles.of_tame hquiet (.bind .storeIdempotencyId fun _ => .fetchFullCard)).runs

end Handlers

end Kanban.Rpc
