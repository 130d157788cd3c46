import Kanban.Rpc.Atomicity
import Kanban.Rpc.UncutUpdates

/-!
# The chain of the revisions

A client that has missed an event of a card sees that the revision before it is not the one that it
knows.  So each change of a card has to be told with the revision before and the revision after.  The
handlers do so, but for three: an `UpdateCard` writes its event in a transaction of its own, which can
fail; a `RemoveCardDependency` writes an event even if there was no edge; and the events of a
`BulkUpdateCardLabels` do not hold the revision before.

## Main definitions

* `Chained` — the calls that tell the revisions as they are.
* `revision_chain` — the events of every card are one chain.
-/

namespace Kanban.Rpc

open Program Notices Kanban.Store Kanban.Auth
open Kanban.Services (AuthContext ConnectError IdCodec)

variable {ι α β : Type} [DecidableEq ι] {codec : IdCodec ι} {pages : ℕ} {ctx : RequestContext}
  {db v : Db ι} {t : String} {x : ι}

/-! ## Parts that change no card -/

omit [DecidableEq ι] in
theorem Mute.resolveSubject {tenantId input : String} :
    Mute (resolveSubject tenantId input : Handler ι String) := by
  intro r
  cases r <;> trivial

theorem Mute.cachedComment {tenantId key : String} : Mute (cachedComment codec tenantId key) := by
  unfold Rpc.cachedComment
  split
  · exact .pure _
  · refine .bind (.fetchOptional silent_select) fun row => ?_
    cases (row.bind IdempotencyRow.responseComment).bind codec.parse with
    | none => exact .pure _
    | some commentId => exact .fetchOptional silent_select

theorem Tame.storeIdempotencyComment {tenantId key commentId : String} :
    Tame (storeIdempotencyComment tenantId key commentId : Handler ι Unit) := by
  unfold Rpc.storeIdempotencyComment
  split
  · exact .pure _
  · exact .bind .insertKey fun _ => .pure _

/-! ## Changes of what is on a card -/

/-- What is on a card is changed. -/
theorem solo_touchCard_revision {more : Payload} {body : Handler ι (α × (String × Atom))}
    (hdb : Sane db.cards) (hbody : Calm body) :
    Solo (kanban ι) (fun v => Announced codec db v.story) (touchCard codec t x more body) .idle db
      fun _ tx v => tx = .idle ∧ Announced codec db v.story := by
  refine solo_fetchOr_bind fun cur hcur hc => solo_beginTx_bind ((hbody db hdb).bind_soloIn
    fun a v₁ ⟨hv₁, hversions₁, hlog₁⟩ => ?_)
  obtain ⟨a, patch⟩ := a
  refine (soloTx_bumpRevision hv₁).bind_soloIn fun n v₂ ⟨hv₂, hlog₂, r, hr, hold, hn, hversions₂⟩ => ?_
  subst hn
  refine soloTx_insertBoardEvent.bind_soloIn fun _ v₃ ⟨hcards₃, e, he, hlog₃⟩ => ?_
  obtain ⟨rfl, -⟩ : cur.id = x ∧ cur.tenantId = t := by simpa using hc
  rw [hversions₁] at hold hversions₂
  obtain rfl := eq_of_versions hdb hcur hr hold
  have hdone : Announced codec db v₃.story := by
    have hcards : v₃.story.cards = v₂.cards := hcards₃
    refine announced_of_change (hcards ▸ hv₂) ?_ hold hr (hcards ▸ hversions₂)
      (noticeOf_updated he rfl rfl rfl)
    exact hlog₃.trans (congrArg (· ++ [e]) (hlog₂.trans hlog₁))
  exact soloIn_commitTx_bind hdone (solo_pure ⟨rfl, hdone⟩)

/-- What is on a card is changed, and the rest writes keys at most. -/
theorem solo_touchCard_bind {more : Payload} {body : Handler ι (α × (String × Atom))}
    {f : α → Handler ι β} (hdb : Sane db.cards) (hbody : Calm body) (hf : ∀ a, Tame (f a)) :
    Solo (kanban ι) (fun v => Announced codec db v.story) ((touchCard codec t x more body).bind f)
      .idle db fun _ _ _ => True := by
  refine solo_bind ((solo_touchCard_revision hdb hbody).mono ?_)
  rintro a tx v' ⟨rfl, hv'⟩
  exact solo_tame_story (hf a) hv' fun _ _ _ => trivial

/-- The part of the handlers before they change anything. -/
theorem solo_of_tame {p : Handler ι α} (hdb : Sane db.cards) (hp : Tame p) :
    Solo (kanban ι) (fun v => Announced codec db v.story) p .idle db fun _ _ _ => True :=
  solo_tame_story hp (.refl hdb) fun _ _ _ => trivial

section Details

variable (hdb : Sane db.cards)

include hdb

theorem solo_assignCard_revision {req : AssignCardRequest} :
    Solo (kanban ι) (fun v => Announced codec db v.story) (assignCard codec ctx req) .idle db
      fun _ _ _ => True := by
  refine solo_orError_bind fun _ _ => solo_orError_bind fun _ _ => solo_orError_bind fun _ _ =>
    solo_ensure_bind fun _ => solo_mute_bind .resolveSubject fun _ =>
    solo_touchCard_bind hdb ?_ fun _ => .fetchFullCard
  exact .bind (.within (T := Db.assigneesT) (fun _ => ⟨trivial, trivial⟩) Table.within_insertIgnore)
    fun _ => .pure _

theorem solo_unassignCard_revision {req : AssignCardRequest} :
    Solo (kanban ι) (fun v => Announced codec db v.story) (unassignCard codec ctx req) .idle db
      fun _ _ _ => True := by
  refine solo_orError_bind fun _ _ => solo_orError_bind fun _ _ => solo_orError_bind fun _ _ =>
    solo_mute_bind .resolveSubject fun _ => solo_touchCard_bind hdb ?_ fun _ => .fetchFullCard
  exact .bind (.within (T := Db.assigneesT) (fun _ => ⟨trivial, trivial⟩) Table.within_delete)
    fun _ => .pure _

theorem solo_addChecklistItem_revision {req : AddChecklistItemRequest} :
    Solo (kanban ι) (fun v => Announced codec db v.story) (addChecklistItem codec ctx req) .idle db
      fun _ _ _ => True := by
  refine solo_orError_bind fun _ _ => solo_orError_bind fun _ _ => solo_orError_bind fun _ _ =>
    solo_ensure_bind fun _ => solo_touchCard_bind hdb ?_ fun _ => .fetchFullCard
  refine .bind .newId fun itemId => .ite (.bind (.within (T := Db.checklistItemsT)
    (fun _ => ⟨trivial, trivial⟩) fun v e he => ?_) fun _ => .pure _) ?_
  · obtain ⟨n, -, he⟩ := Option.bind_eq_some_iff.mp he
    exact Table.within_insert v e he
  · exact .bind (.within (T := Db.checklistItemsT) (fun _ => ⟨trivial, trivial⟩)
      Table.within_updateChecked) fun _ => .bind (.within (T := Db.checklistItemsT)
      (fun _ => ⟨trivial, trivial⟩) Table.within_insert) fun _ => .pure _

theorem solo_updateChecklistItem_revision {req : UpdateChecklistItemRequest} :
    Solo (kanban ι) (fun v => Announced codec db v.story) (updateChecklistItem codec ctx req) .idle db
      fun _ _ _ => True := by
  refine solo_orError_bind fun _ _ => solo_orError_bind fun _ _ => solo_orError_bind fun _ _ =>
    solo_orError_bind fun _ _ => solo_touchCard_bind hdb ?_ fun _ => .fetchFullCard
  exact .bind (.within (T := Db.checklistItemsT) (fun _ => ⟨trivial, trivial⟩) Table.within_update)
    fun _ => .bind .ensure fun _ => .pure _

theorem solo_removeChecklistItem_revision {req : RemoveChecklistItemRequest} :
    Solo (kanban ι) (fun v => Announced codec db v.story) (removeChecklistItem codec ctx req) .idle db
      fun _ _ _ => True := by
  refine solo_orError_bind fun _ _ => solo_orError_bind fun _ _ => solo_orError_bind fun _ _ =>
    solo_orError_bind fun _ _ => (solo_touchCard_revision hdb ?_).mono fun _ _ _ _ => trivial
  exact .bind (.within (T := Db.checklistItemsT) (fun _ => ⟨trivial, trivial⟩) Table.within_delete)
    fun _ => .bind .ensure fun _ => .pure _

theorem solo_addComment_revision {req : AddCommentRequest} :
    Solo (kanban ι) (fun v => Announced codec db v.story) (addComment codec ctx req) .idle db
      fun _ _ _ => True := by
  refine solo_orError_bind fun _ _ => solo_orError_bind fun _ _ => solo_orError_bind fun _ _ =>
    solo_orError_bind fun _ _ => solo_ensure_bind fun _ => solo_mute_bind .cachedComment fun cached => ?_
  cases cached with
  | some row => exact solo_pure trivial
  | none =>
      refine solo_touchCard_bind hdb ?_ fun _ => .bind .storeIdempotencyComment fun _ => .pure _
      exact .bind .newId fun _ => .bind (.within (T := Db.commentsT) (fun _ => ⟨trivial, trivial⟩)
        Table.within_insert) fun _ => .pure _

theorem solo_editComment_revision {req : EditCommentRequest} :
    Solo (kanban ι) (fun v => Announced codec db v.story) (editComment codec ctx req) .idle db
      fun _ _ _ => True := by
  refine solo_orError_bind fun _ _ => solo_orError_bind fun _ _ => solo_orError_bind fun _ _ =>
    solo_orError_bind fun _ _ => solo_orError_bind fun _ _ => solo_ensure_bind fun _ =>
    solo_touchCard_bind hdb ?_ fun _ => .pure _
  exact .bind (.fetchOr (.within (T := Db.commentsT) (fun _ => ⟨trivial, trivial⟩) Table.within_update))
    fun _ => .pure _

theorem solo_deleteComment_revision {req : DeleteCommentRequest} :
    Solo (kanban ι) (fun v => Announced codec db v.story) (deleteComment codec ctx req) .idle db
      fun _ _ _ => True := by
  refine solo_orError_bind fun _ _ => solo_orError_bind fun _ _ => solo_orError_bind fun _ _ =>
    solo_orError_bind fun _ _ => solo_orError_bind fun _ _ =>
    (solo_touchCard_revision hdb (.bind ?_ fun _ => .pure _)).mono fun _ _ _ _ => trivial
  refine .bind (.within (T := Db.commentsT) (fun _ => ⟨trivial, trivial⟩) Table.within_delete)
    fun rows => .ite ?_ (.pure _)
  exact .bind (.within (T := Db.commentsT) (fun _ => ⟨trivial, trivial⟩) Table.within_delete)
    fun _ => .ensure

end Details

/-! ## Places of cards -/

section Places

variable (hdb : Sane db.cards)

include hdb

/-- A card that is changed is told. -/
theorem announced_of_update {v : Story ι} {c : CardRow ι} {r : ℤ} {e : EventRow ι} (hc : c ∈ db.cards)
    (hr : 0 ≤ r) (hold : versions db.cards c.id = some r.toNat) (hsane : Sane v.cards)
    (hversions : versions v.cards = Function.update (versions db.cards) c.id (some (r.toNat + 1)))
    (hevents : v.events = db.eventLog ++ [e])
    (he : noticeOf codec e = some (.changed c.id c.revision.toNat (r + 1).toNat)) :
    Announced codec db v := by
  obtain rfl := eq_of_versions hdb hc hr hold
  exact announced_of_change hsane hevents hold hr hversions he

/-- The transaction of a move. -/
theorem solo_placeCard_revision {card : CardRow ι} {target : ColumnRow ι} {fromIsDone : Bool}
    {req : MoveCardRequest} (hcard : card ∈ db.cards) :
    Solo (kanban ι) (fun v => Announced codec db v.story)
      (placeCard codec ctx t card target fromIsDone req) .idle db
      fun _ tx v => tx = .idle ∧ Announced codec db v.story := by
  refine solo_beginTx_bind ((Calm.shiftForMove db hdb).bind_soloIn fun _ v₁ ⟨hv₁, hversions₁, hlog₁⟩ => ?_)
  refine (soloTx_updateCardRow_revision hv₁ ?_ ?_).bind_soloIn
    fun row v₂ ⟨hv₂, hlog₂, r, hr, hold, hrow, hversions₂⟩ => ?_
  · exact fun _ => rfl
  · exact fun _ => rfl
  refine soloTx_insertBoardEvent.bind_soloIn fun _ v₃ ⟨hcards₃, e, he, hlog₃⟩ => ?_
  rw [hversions₁] at hold hversions₂
  have hdone : Announced codec db v₃.story := by
    have hcards : v₃.story.cards = v₂.cards := hcards₃
    refine announced_of_update hdb hcard hr hold (hcards ▸ hv₂) (hcards ▸ hversions₂)
      (hlog₃.trans (congrArg (· ++ [e]) (hlog₂.trans hlog₁))) ?_
    rw [← hrow]
    exact noticeOf_moved he rfl rfl rfl
  exact soloIn_commit (.inr hdone) (solo_pure ⟨rfl, hdone⟩) solo_fail

theorem solo_moveCard_revision {req : MoveCardRequest} :
    Solo (kanban ι) (fun v => Announced codec db v.story) (moveCard codec pages ctx req) .idle db
      fun _ _ _ => True := by
  refine solo_orError_bind fun _ _ => solo_orError_bind fun cardId _ => solo_orError_bind fun t _ =>
    solo_orError_bind fun toColId _ => solo_checkIdempotencyCard_bind ?_
  cases keyCard db t req.idempotencyKey with
  | some existingId => exact solo_mute .fetchFullCard fun _ => trivial
  | none =>
      refine solo_fetchOr_bind fun card hcard _ => solo_fetchOr_bind fun target _ _ => ?_
      have hrest : ∀ fromIsDone, Solo (kanban ι) (fun v => Announced codec db v.story)
          ((fetchOr "failed to fetch target board"
            (notFound "target board not found") (selectBoard t target.boardId)).bind fun targetBoard =>
            (ensure (card.projectId = targetBoard.projectId)
              (invalidArgument "cards do not move between projects")).bind fun _ =>
            (placeCard codec ctx t card target fromIsDone req).bind fun _ =>
            if target.boardId ≠ card.boardId then
              (tenantClientFor ctx).bind fun permission =>
              (rehomeParent codec pages permission cardId card.boardId target.boardId).bind fun _ =>
              (storeIdempotencyCard t req.idempotencyKey cardId).bind fun _ =>
              fetchFullCard codec t cardId
            else (storeIdempotencyCard t req.idempotencyKey cardId).bind fun _ =>
              fetchFullCard codec t cardId) .idle db fun _ _ _ => True := by
        intro fromIsDone
        refine solo_fetchOr_bind fun board _ _ => solo_ensure_bind fun _ =>
          solo_bind ((solo_placeCard_revision hdb hcard).mono ?_)
        rintro - tx v' ⟨rfl, hv'⟩
        exact solo_tame_story (.ite (.bind .tenantClientFor fun _ => .bind .rehomeParent fun _ =>
          .bind .storeIdempotencyId fun _ => .fetchFullCard)
          (.bind .storeIdempotencyId fun _ => .fetchFullCard)) hv' fun _ _ _ => trivial
      dsimp only
      split
      · exact hrest target.isDone
      · exact solo_mute_bind .sourceIsDone hrest

/-- The transaction of a transfer. -/
theorem solo_relocateCard_revision {key : String} {card : CardRow ι} {target : ColumnRow ι}
    {projectId : ι} {fromIsDone : Bool} (hcard : card ∈ db.cards) :
    Solo (kanban ι) (fun v => Announced codec db v.story)
      (relocateCard codec ctx t card projectId target fromIsDone key) .idle db
      fun _ tx v => tx = .idle ∧ Announced codec db v.story := by
  refine solo_beginTx_bind ((Calm.allocateCardRef db hdb).bind_soloIn
    fun newRef v₁ ⟨hv₁, hversions₁, hlog₁⟩ => ?_)
  refine (Calm.read silent_nextPosition v₁ hv₁).bind_soloIn fun toPos v₂ ⟨hv₂, hversions₂, hlog₂⟩ => ?_
  refine (soloTx_updateCardRow_revision hv₂ ?_ ?_).bind_soloIn
    fun row v₃ ⟨hv₃, hlog₃, r, hr, hold, hrow, hversions₃⟩ => ?_
  · exact fun _ => rfl
  · exact fun _ => rfl
  refine (Calm.scrubLabels v₃ hv₃).bind_soloIn fun _ v₄ ⟨hv₄, hversions₄, hlog₄⟩ => ?_
  refine soloTx_insertBoardEvent.bind_soloIn fun _ v₅ ⟨hcards₅, e, he, hlog₅⟩ => ?_
  refine soloTx_insertBoardEvent.bind_soloIn fun _ v₆ ⟨hcards₆, e', he', hlog₆⟩ => ?_
  have hbefore : versions v₂.cards = versions db.cards := hversions₂.trans hversions₁
  rw [hbefore] at hold hversions₃
  obtain rfl := eq_of_versions hdb hcard hr hold
  have hnotice : noticeOf codec e = some (.shared card.id card.revision.toNat (card.revision + 1).toNat) := by
    rw [← hrow]
    exact noticeOf_transferred he rfl rfl rfl
  have hnotice' : noticeOf codec e' = some (.shared card.id card.revision.toNat (card.revision + 1).toNat) := by
    rw [← hrow]
    exact noticeOf_transferred he' rfl rfl rfl
  have hdone : Announced codec db v₆.story := by
    have hcards : v₆.story.cards = v₄.cards := hcards₆.trans hcards₅
    refine ⟨hcards ▸ hv₄, [e, e'], ?_, ?_, ?_⟩
    · refine hlog₆.trans ?_
      rw [hlog₅, hlog₄, hlog₃, hlog₂, hlog₁, List.append_assoc]
      rfl
    · simp only [List.forall_mem_cons]
      exact ⟨by rw [hnotice]; rfl, by rw [hnotice']; rfl, List.forall_mem_nil _⟩
    · rw [List.filterMap_cons_some hnotice, List.filterMap_cons_some hnotice', hcards, hversions₄,
        hversions₃, toNat_succ hr]
      exact .change_shared hold
  exact soloIn_commit (.inr hdone) (solo_pure ⟨rfl, hdone⟩) solo_fail

theorem solo_transferCard_revision {req : TransferCardRequest} :
    Solo (kanban ι) (fun v => Announced codec db v.story) (transferCard codec pages ctx req) .idle db
      fun _ _ _ => True := by
  refine solo_orError_bind fun _ _ => solo_orError_bind fun cardId _ => solo_orError_bind fun t _ =>
    solo_orError_bind fun _ _ => solo_orError_bind fun _ _ => solo_checkIdempotencyCard_bind ?_
  cases keyCard db t req.idempotencyKey with
  | some existingId => exact solo_mute .replayTransfer fun _ => trivial
  | none =>
      refine solo_fetchOr_bind fun card hcard _ => solo_fetchOr_bind fun board _ _ =>
        solo_ensure_bind fun _ => solo_mute_bind .checkTargetBoard fun permission =>
        solo_fetchOr_bind fun target _ _ => solo_ensure_bind fun _ =>
        solo_mute_bind .sourceIsDone fun fromIsDone =>
        solo_bind ((solo_relocateCard_revision hdb hcard).mono ?_)
      rintro - tx v' ⟨rfl, hv'⟩
      exact solo_tame_story (.bind .rehomeParent fun _ => .bind .storeIdempotencyId fun _ =>
        .bind .fetchFullCard fun _ => .pure _) hv' fun _ _ _ => trivial

theorem solo_deleteCard_revision :
    Solo (kanban ι) (fun v => Announced codec db v.story) (deleteCard codec pages ctx) .idle db
      fun _ _ _ => True := by
  refine solo_orError_bind fun _ _ => solo_orError_bind fun cardId _ => solo_orError_bind fun t _ =>
    solo_fetchOr_bind fun cur _ _ => solo_beginTx_bind ?_
  refine (soloTx_deleteCardRow_revision hdb).bind_soloIn fun deleted v₁ h₁ => ?_
  refine soloIn_ensure_bind fun hdeleted => ?_
  obtain ⟨hv₁, hlog₁, hversions₁⟩ := h₁ hdeleted
  refine soloTx_insertBoardEvent.bind_soloIn fun _ v₂ ⟨hcards₂, e, he, hlog₂⟩ => ?_
  have hdone : Announced codec db v₂.story := by
    have hcards : v₂.story.cards = v₁.cards := hcards₂
    refine announced_of_notice (hcards ▸ hv₁) (hlog₂.trans (congrArg (· ++ [e]) hlog₁))
      (noticeOf_deleted he rfl) ?_
    rw [hcards, hversions₁]
    exact .delete
  exact soloIn_commitTx_bind hdone (solo_tame_story (.bind .tenantClientFor fun _ =>
    .bind .deleteRelationTuples fun _ => .pure _) hdone fun _ _ _ => trivial)

/-- The transaction of a new card. -/
theorem solo_insertNewCard_revision {subject : String} {board : BoardRow ι} {column : ColumnRow ι}
    {req : CreateCardRequest} :
    Solo (kanban ι) (fun v => Announced codec db v.story)
      (insertNewCard codec ctx subject t board column req) .idle db
      fun _ tx v => tx = .idle ∧ Announced codec db v.story := by
  -- the insertion, once the position is known
  have hinsert : ∀ {v₃ : Db ι} (cardId : ι) (cardRef : String) (position : ℤ), Sane v₃.cards →
      versions v₃.cards = versions db.cards → v₃.eventLog = db.eventLog →
      SoloIn (kanban ι) (fun v => Announced codec db v.story) ((checkMilestone codec t board.projectId
        req.milestoneId).bind fun milestoneId => (query "failed to insert card" (insertCard
          (newCardRow ctx subject t board column req cardId cardRef position milestoneId))).bind
        fun _ => (insertBoardEvent t board.id "CardCreated" (cardCreated codec (newCardRow ctx subject
          t board column req cardId cardRef position milestoneId) req.idempotencyKey)).bind
        fun _ => (commitTx "commit failed").bind fun _ => .pure cardId) db v₃ fun _ tx v =>
          tx = .idle ∧ Announced codec db v.story := by
    intro v₃ cardId cardRef position hv₃ hversions₃ hlog₃
    refine (Calm.checkMilestone v₃ hv₃).bind_soloIn fun milestoneId v₄ ⟨hv₄, hversions₄, hlog₄⟩ => ?_
    refine (soloTx_insertCard_revision hv₄ rfl).bind_soloIn fun _ v₅ ⟨hv₅, hlog₅, hversions₅⟩ => ?_
    refine soloTx_insertBoardEvent.bind_soloIn fun _ v₆ ⟨hcards₆, e, he, hlog₆⟩ => ?_
    have hdone : Announced codec db v₆.story := by
      have hcards : v₆.story.cards = v₅.cards := hcards₆
      refine announced_of_notice (hcards ▸ hv₅)
        (hlog₆.trans (congrArg (· ++ [e]) (hlog₅.trans (hlog₄.trans hlog₃)))) (noticeOf_created he rfl) ?_
      rw [hcards, hversions₅, hversions₄, hversions₃]
      exact .create
    exact soloIn_commitTx_bind hdone (solo_pure ⟨rfl, hdone⟩)
  unfold insertNewCard
  refine solo_beginTx_bind ((Calm.allocateCardRef db hdb).bind_soloIn
    fun cardRef v₁ ⟨hv₁, hversions₁, hlog₁⟩ => ?_)
  refine (Calm.newId v₁ hv₁).bind_soloIn fun cardId v₂ ⟨hv₂, hversions₂, hlog₂⟩ => ?_
  have hbefore : versions v₂.cards = versions db.cards := hversions₂.trans hversions₁
  unfold insertPosition
  by_cases hzero : req.position = 0
  · rw [if_pos hzero]
    rintro ws rfl
    refine solo_stmt_active (fun e he => ?_) ?_
    · rw [silent_nextPosition _ _ he, List.append_nil]
      exact hinsert cardId cardRef _ hv₂ hbefore (hlog₂.trans hlog₁) ws rfl
    · -- the transaction is aborted, so that the insertion fails
      refine solo_bind (solo_pure (solo_bind ((Solo.of_only_aborted Tame.checkMilestone).mono ?_)))
      rintro milestoneId tx v' ⟨rfl, rfl⟩
      exact solo_stmt_aborted solo_fail
  · rw [if_neg hzero]
    refine ((Calm.bind .shiftCards fun _ => .pure req.position) v₂ hv₂).bind_soloIn
      fun position v₃ ⟨hv₃, hversions₃, hlog₃⟩ => ?_
    exact hinsert cardId cardRef position hv₃ (hversions₃.trans hbefore)
      (hlog₃.trans (hlog₂.trans hlog₁))

theorem solo_createCard_revision {req : CreateCardRequest} :
    Solo (kanban ι) (fun v => Announced codec db v.story) (createCard codec ctx req) .idle db
      fun _ _ _ => True := by
  refine solo_orError_bind fun _ _ => solo_orError_bind fun _ _ => solo_orError_bind fun _ _ =>
    solo_orError_bind fun t _ => solo_ensure_bind fun _ => solo_checkIdempotencyCard_bind ?_
  cases keyCard db t req.idempotencyKey with
  | some existingId => exact solo_mute .fetchFullCard fun _ => trivial
  | none =>
      refine solo_fetchOr_bind fun board _ _ => solo_orError_bind fun colId _ =>
        solo_fetchOr_bind fun column _ _ => solo_bind ((solo_insertNewCard_revision hdb).mono ?_)
      rintro cardId tx v' ⟨rfl, hv'⟩
      exact solo_tame_story (.bind .tenantClientFor fun _ => .bind .grantWithRetry fun _ =>
        .bind .storeIdempotencyId fun _ => .fetchFullCard) hv' fun _ _ _ => trivial

end Places

/-! ## Dependencies -/

section Dependencies

/-- The card on the other end is told. -/
theorem soloTx_touchTarget_revision {key : String} {target : CardRow ι} {v : Db ι} (hv : Sane v.cards)
    (hnonneg : 0 ≤ target.revision) (hold : versions v.cards target.id = some target.revision.toNat) :
    SoloTx (kanban ι) (touchTarget codec t target x key) v fun _ v' => Sane v'.cards ∧
      (∃ e, v'.eventLog = v.eventLog ++ [e] ∧
        noticeOf codec e = some (.changed target.id target.revision.toNat (target.revision.toNat + 1))) ∧
      versions v'.cards =
        Function.update (versions v.cards) target.id (some (target.revision.toNat + 1)) := by
  refine soloTx_bind ((soloTx_bumpRevision hv).mono fun n v₁ ⟨hv₁, hlog₁, r, hr, hold₁, hn, hversions₁⟩ => ?_)
  subst hn
  refine soloTx_insertBoardEvent.mono fun _ v₂ ⟨hcards₂, e, he, hlog₂⟩ => ?_
  obtain rfl : target.revision = r := by
    rw [hold, Option.some.injEq] at hold₁
    omega
  rw [hcards₂]
  refine ⟨hv₁, ⟨e, hlog₂.trans (congrArg (· ++ [e]) hlog₁), ?_⟩, hversions₁⟩
  rw [← toNat_succ hnonneg]
  exact noticeOf_updated he rfl rfl rfl

/-- Two cards are told, each by a row of its own. -/
theorem announced_of_two {v₁ v₂ : Db ι} {y : ι} {p q : ℕ} {e e' : EventRow ι} (hne : x ≠ y)
    (hp : versions db.cards x = some p)
    (hversions₁ : versions v₁.cards = Function.update (versions db.cards) x (some (p + 1)))
    (hlog₁ : v₁.eventLog = db.eventLog ++ [e]) (he : noticeOf codec e = some (.changed x p (p + 1)))
    (hv₂ : Sane v₂.cards) (hq : versions v₁.cards y = some q)
    (hversions₂ : versions v₂.cards = Function.update (versions v₁.cards) y (some (q + 1)))
    (hlog₂ : v₂.eventLog = v₁.eventLog ++ [e'])
    (he' : noticeOf codec e' = some (.changed y q (q + 1))) : Announced codec db v₂.story := by
  refine ⟨hv₂, [e, e'], ?_, ?_, ?_⟩
  · refine hlog₂.trans ?_
    rw [hlog₁, List.append_assoc]
    rfl
  · simp only [List.forall_mem_cons]
    exact ⟨by rw [he]; rfl, by rw [he']; rfl, List.forall_mem_nil _⟩
  · rw [List.filterMap_cons_some he, List.filterMap_cons_some he']
    have hfirst := Announces.change hp
    rw [← hversions₁] at hfirst
    have hsecond := Announces.change hq
    rw [← hversions₂] at hsecond
    refine hfirst.append hsecond fun a ha b hb => ?_
    cases List.mem_singleton.mp ha
    cases List.mem_singleton.mp hb
    exact hne

variable (hdb : Sane db.cards)

include hdb

/-- Both cards are changed, after the edge. -/
theorem soloIn_bothUpdated {msg key : String} {boardId y : ι} {prev : ℤ} {source target : CardRow ι}
    (hsource : source ∈ db.cards) (htarget : target ∈ db.cards) (hne : source.id ≠ target.id)
    (hprev : prev = source.revision) (hv : Sane v.cards) (hversions : versions v.cards = versions db.cards)
    (hlog : v.eventLog = db.eventLog) :
    SoloIn (kanban ι) (fun v => Announced codec db v.story) ((bumpRevision msg t source.id).bind fun n =>
      (insertBoardEvent t boardId "CardUpdated" (sourceUpdated codec boardId source.id y prev n
        key)).bind fun _ => (touchTarget codec t target source.id key).bind fun _ =>
      commitTx "commit failed") db v fun _ tx v => tx = .idle ∧ Announced codec db v.story := by
  subst hprev
  refine (soloTx_bumpRevision hv).bind_soloIn fun n v₁ ⟨hv₁, hlog₁, r, hr, hold, hn, hversions₁⟩ => ?_
  subst hn
  rw [hversions] at hold hversions₁
  obtain rfl := eq_of_versions hdb hsource hr hold
  refine soloTx_insertBoardEvent.bind_soloIn fun _ v₂ ⟨hcards₂, e, he, hlog₂⟩ => ?_
  have hcards : v₂.cards = v₁.cards := hcards₂
  have hfirst : versions v₂.cards = _ := (congrArg versions hcards).trans hversions₁
  have hsecond : versions v₂.cards target.id = some target.revision.toNat := by
    rw [hfirst, Function.update_of_ne (Ne.symm hne), versions_of_mem hdb htarget]
  refine (soloTx_touchTarget_revision (hcards ▸ hv₁) (hdb.nonneg _ htarget) hsecond).bind_soloIn
    fun _ v₃ ⟨hv₃, ⟨e', hlog₃, he'⟩, hversions₃⟩ => ?_
  have hdone : Announced codec db v₃.story := by
    refine announced_of_two hne hold hfirst
      (hlog₂.trans (congrArg (· ++ [e]) (hlog₁.trans hlog))) ?_ hv₃ hsecond hversions₃ hlog₃ he'
    rw [← toNat_succ hr]
    exact noticeOf_updated he rfl rfl rfl
  exact soloIn_commit (.inr hdone) (solo_pure ⟨rfl, hdone⟩) solo_fail

theorem solo_linkCards_revision {key : String} {boardId y : ι} :
    Solo (kanban ι) (fun v => Announced codec db v.story) (linkCards codec t boardId x y key) .idle db
      fun _ tx v => tx = .idle ∧ Announced codec db v.story := by
  refine solo_beginTx_bind (SoloTx.bind_soloIn (B := fun rows v' => v' = db ∧ ∀ c ∈ rows, c ∈ db.cards)
    (soloTx_query fun e he => ?_) ?_)
  · cases he
    exact ⟨rfl, fun c hc => (List.mem_filter.mp hc).1⟩
  rintro rows v₁ ⟨rfl, hrows⟩
  refine soloIn_ensure_bind fun hsource => ?_
  obtain ⟨source, hlast⟩ : ∃ source, (rows.filter (·.id = x)).getLast? = some source :=
    Option.isSome_iff_exists.mp (Option.isSome_of_any hsource)
  have hsourceMem := List.mem_filter.mp (List.mem_of_getLast? hlast)
  obtain rfl : source.id = x := by simpa using hsourceMem.2
  refine (soloTx_orError (B := fun target v' => v' = v₁ ∧ target ∈ v₁.cards ∧ target.id ≠ source.id)
    fun target htarget => ?_).bind_soloIn ?_
  · have hmem := List.mem_filter.mp (List.mem_of_getLast? htarget)
    exact ⟨rfl, hrows _ hmem.1, by simpa using hmem.2⟩
  rintro target v₂ ⟨rfl, htarget, hne⟩
  refine ((Calm.within (T := Db.dependenciesT) (fun _ => ⟨trivial, trivial⟩)
    Table.within_insertIgnore) v₂ hdb).bind_soloIn fun _ v₃ ⟨hv₃, hversions₃, hlog₃⟩ => ?_
  refine soloIn_bothUpdated hdb (hrows _ hsourceMem.1) htarget (Ne.symm hne) ?_ hv₃ hversions₃ hlog₃
  rw [hlast]
  rfl

omit hdb in
/-- The dependencies are changed, unless the key is a replay. -/
theorem solo_replayOr_revision {key : String} {change : Handler ι Unit}
    (hchange : keyCard db t key = none → Solo (kanban ι) (fun v => Announced codec db v.story) change
      .idle db fun _ tx v => tx = .idle ∧ Announced codec db v.story) :
    Solo (kanban ι) (fun v => Announced codec db v.story) (replayOr codec t key x change) .idle db
      fun _ _ _ => True := by
  refine solo_checkIdempotencyCard_bind ?_
  cases hkey : keyCard db t key with
  | some existingId => exact solo_mute .fetchFullCard fun _ => trivial
  | none =>
      refine solo_bind ((hchange hkey).mono ?_)
      rintro - tx v' ⟨rfl, hv'⟩
      exact solo_tame_story (.bind .storeIdempotencyId fun _ => .fetchFullCard) hv' fun _ _ _ => trivial

theorem solo_addCardDependency_revision {req : CardDependencyRequest} :
    Solo (kanban ι) (fun v => Announced codec db v.story) (addCardDependency codec ctx req) .idle db
      fun _ _ _ => True := by
  refine solo_bind (solo_orError_bind fun _ _ => solo_orError_bind fun boardId _ =>
    solo_orError_bind fun t _ => solo_ensure_bind fun _ => solo_orError_bind fun x _ =>
    solo_orError_bind fun y _ => solo_pure (solo_ensure_bind fun _ => ?_))
  exact solo_replayOr_revision fun _ => solo_linkCards_revision hdb

/-- The edge is there, between two cards. -/
theorem solo_unlinkCards_revision {key : String} {boardId y : ι}
    (hedge : (∃ c ∈ db.cards, c.id = x ∧ c.boardId = boardId ∧ c.tenantId = t) →
      (∃ c ∈ db.cards, c.id = y ∧ c.tenantId = t) → x ≠ y ∧ ⟨x, y⟩ ∈ db.cardDependencies) :
    Solo (kanban ι) (fun v => Announced codec db v.story) (unlinkCards codec t boardId x y key) .idle db
      fun _ tx v => tx = .idle ∧ Announced codec db v.story := by
  refine solo_beginTx_bind ?_
  refine (soloTx_fetchOr (B := fun source v' => v' = db ∧ source ∈ db.cards ∧
    source.id = x ∧ source.boardId = boardId ∧ source.tenantId = t) fun e source he hsource => ?_).bind_soloIn ?_
  · cases he
    have hmem := List.mem_filter.mp (List.mem_of_head? hsource)
    exact ⟨rfl, hmem.1, by simpa using hmem.2⟩
  rintro source v₁ ⟨rfl, hsource, rfl, hboard, htenant⟩
  refine (soloTx_fetchOr (B := fun target v' => v' = v₁ ∧ target ∈ v₁.cards ∧ target.id = y ∧
    target.tenantId = t) fun e target he htarget => ?_).bind_soloIn ?_
  · cases he
    have hmem := List.mem_filter.mp (List.mem_of_head? htarget)
    exact ⟨rfl, hmem.1, by simpa using hmem.2⟩
  rintro target v₂ ⟨rfl, htarget, rfl, htenant'⟩
  obtain ⟨hne, hmem⟩ := hedge ⟨source, hsource, rfl, hboard, htenant⟩ ⟨target, htarget, rfl, htenant'⟩
  refine (soloTx_query (B := fun removed v' => removed ≠ [] ∧ Sane v'.cards ∧
    versions v'.cards = versions v₂.cards ∧ v'.eventLog = v₂.eventLog) fun e he => ?_).bind_soloIn ?_
  · have hcalm := Calm.of_elsewhere hdb (Calm.elsewhere_of_within (T := Db.dependenciesT)
      (fun _ => ⟨trivial, trivial⟩) Table.within_delete he)
    obtain ⟨hv', hversions', hlog'⟩ := hcalm
    cases he
    exact ⟨List.ne_nil_of_mem (List.mem_filter.mpr ⟨hmem, by simp⟩), hv', hversions', hlog'⟩
  rintro removed v₃ ⟨hremoved, hv₃, hversions₃, hlog₃⟩
  rw [if_pos hremoved]
  simp only [if_pos hremoved]
  exact soloIn_bothUpdated hdb hsource htarget hne rfl hv₃ hversions₃ hlog₃

/-- There is an edge to remove. -/
def EdgeThere (codec : IdCodec ι) (db : Db ι) (ctx : RequestContext) (req : CardDependencyRequest) :
    Prop :=
  ∀ boardId ∈ ctx.checked.bind codec.parse, ∀ t ∈ ctx.auth.bind AuthContext.tenantId,
    ∀ x ∈ codec.parse req.cardId, ∀ y ∈ codec.parse req.dependsOnCardId,
      keyCard db t req.idempotencyKey = none →
      (∃ c ∈ db.cards, c.id = x ∧ c.boardId = boardId ∧ c.tenantId = t) →
      (∃ c ∈ db.cards, c.id = y ∧ c.tenantId = t) → x ≠ y ∧ ⟨x, y⟩ ∈ db.cardDependencies

theorem solo_removeCardDependency_revision {req : CardDependencyRequest}
    (hedge : EdgeThere codec db ctx req) :
    Solo (kanban ι) (fun v => Announced codec db v.story) (removeCardDependency codec ctx req) .idle db
      fun _ _ _ => True := by
  refine solo_bind (solo_orError_bind fun objectId hobject => solo_orError_bind fun boardId hboard =>
    solo_orError_bind fun t ht => solo_ensure_bind fun _ => solo_orError_bind fun x hx =>
    solo_orError_bind fun y hy => solo_pure ?_)
  refine solo_replayOr_revision fun hkey => solo_unlinkCards_revision hdb ?_
  exact hedge boardId (by rw [hobject]; exact hboard) t ht x hx y hy hkey

end Dependencies

/-! ## Labels -/

section Labels

variable {labelIds : List ι} {key : String} {board : ι}

/-- A card that is on a board. -/
def StandsOn (cards : List (CardRow ι)) (board : ι) (t : String) (x : ι) : Prop :=
  ∃ c ∈ cards, c.id = x ∧ c.boardId = board ∧ c.tenantId = t

omit [DecidableEq ι] in
theorem strict_insertCardLabels [DecidableEq ι] :
    (insertCardLabels x labelIds).Strict fun ws => ∀ a ∈ ws, Elsewhere a := by
  induction labelIds with
  | nil => trivial
  | cons labelId rest ih =>
      refine Prog.Strict.bind (strict_query fun v e he => ?_) fun _ => ih
      unfold insertCardLabel at he
      split at he
      · exact Calm.elsewhere_of_within (T := Db.cardLabelsT) (fun _ => ⟨trivial, trivial⟩)
          Table.within_insertIgnore he
      · cases he

theorem soloTx_bumpRevision_cards {msg : String} (hv : Keyed v) :
    SoloTx (kanban ι) (bumpRevision msg t x) v fun n v' =>
      (∃ c ∈ v.cards, c.id = x ∧ c.tenantId = t ∧ n = c.revision + 1) ∧ v'.eventLog = v.eventLog ∧
        v'.cards = v.cards.map fun c =>
          if c.id = x ∧ c.tenantId = t then { c with revision := c.revision + 1 } else c :=
  soloTx_bind (soloTx_fetchOne fun e row he hrow => soloTx_pure (by
    obtain ⟨⟨c, hc, hid, ht, rfl⟩, hlog, hcards⟩ := story_updateCardRow hv he (fun _ => rfl) hrow
    exact ⟨⟨c, hc, hid, ht, rfl⟩, hlog, hcards⟩))

/-- One card gets its labels; the row of the event lacks the revision before. -/
theorem soloTx_relabelCard_revision (hv : Sane v.cards) :
    SoloTx (kanban ι) (relabelCard codec t board labelIds key x) v fun _ v' =>
      StandsOn v.cards board t x ∧ Sane v'.cards ∧
      (∀ y, StandsOn v'.cards board t y → StandsOn v.cards board t y) ∧
      ∃ n e, versions v.cards x = some n ∧
        versions v'.cards = Function.update (versions v.cards) x (some (n + 1)) ∧
        v'.eventLog = v.eventLog ++ [e] ∧ noticeOf codec e = some (.changed x 0 (n + 1)) := by
  refine soloTx_bind (soloTx_query fun e he => soloTx_bind (soloTx_ensure fun hne => ?_))
  cases he
  obtain ⟨owned, howned⟩ := List.exists_mem_of_ne_nil _ hne
  obtain ⟨hmem, hid, hboard, htenant⟩ : owned ∈ v.cards ∧ owned.id = x ∧ owned.boardId = board ∧
      owned.tenantId = t := by simpa using List.mem_filter.mp howned
  refine soloTx_bind ((soloTx_elsewhere (v := v) (strict_query fun v e he =>
    Calm.elsewhere_of_within (T := Db.cardLabelsT) (fun _ => ⟨trivial, trivial⟩) Table.within_delete he)).mono
    fun _ v₁ hv₁ => soloTx_bind ((soloTx_elsewhere strict_insertCardLabels).mono fun _ v₂ hv₂ => ?_))
  have hstory : v₂.story = v.story := hv₂.trans hv₁
  have hcards : v₂.cards = v.cards := congrArg Story.cards hstory
  have hlog : v₂.eventLog = v.eventLog := congrArg Story.events hstory
  have hkeyed : Keyed v₂ := by
    rw [Keyed, hcards]
    exact hv.nodup
  refine soloTx_bind ((soloTx_bumpRevision_cards hkeyed).mono
    fun n v₃ ⟨⟨c, hc, hcid, hct, hn⟩, hlog₃, hcards₃⟩ => ?_)
  refine soloTx_insertBoardEvent.mono fun _ v₄ ⟨hcards₄, e, he, hlog₄⟩ => ?_
  subst hcid hn
  rw [hcards] at hc hcards₃
  have hfinal : v₄.cards = _ := hcards₄.trans hcards₃
  obtain ⟨hsane, hversions⟩ := versions_update hv hc hct
    (f := fun c => { c with revision := c.revision + 1 }) (fun _ => rfl) fun _ => rfl
  refine ⟨⟨owned, hmem, hid, hboard, htenant⟩, hfinal ▸ hsane, fun y hy => ?_, c.revision.toNat, e,
    versions_of_mem hv hc, (congrArg versions hfinal).trans hversions,
    hlog₄.trans (congrArg (· ++ [e]) (hlog₃.trans hlog)), ?_⟩
  · rw [hfinal] at hy
    obtain ⟨c', hc', hy⟩ := hy
    obtain ⟨c'', hc'', rfl⟩ := List.mem_map.mp hc'
    refine ⟨c'', hc'', ?_⟩
    split at hy
    · exact hy
    · exact hy
  · rw [← toNat_succ (hv.nonneg c hc)]
    exact noticeOf_updated_without he rfl rfl rfl

/-- **The cards of a request, one after the other.**  Their rows tell what happened if every card is
there once and has never been changed. -/
theorem soloTx_relabelCards_revision {ids : List ι} (hv : Sane v.cards) :
    SoloTx (kanban ι) (relabelCards codec t board labelIds key ids) v fun _ v' =>
      (∀ x ∈ ids, StandsOn v.cards board t x) ∧ Sane v'.cards ∧
      (ids.Nodup → (∀ x ∈ ids, versions v.cards x = some 0) → ∃ rows,
        v'.eventLog = v.eventLog ++ rows ∧ Tells codec v.cards rows v'.cards ∧
        ∀ e ∈ rows, ∀ a ∈ noticeOf codec e, a.key ∈ ids) := by
  induction ids generalizing v with
  | nil =>
      refine soloTx_pure ⟨List.forall_mem_nil _, hv, fun _ _ => ⟨[], (List.append_nil _).symm, ?_, ?_⟩⟩
      · exact ⟨List.forall_mem_nil _, Announces.refl⟩
      · exact List.forall_mem_nil _
  | cons x rest ih =>
      refine soloTx_bind ((soloTx_relabelCard_revision hv).mono
        fun _ v₁ ⟨hon, hv₁, hback, n, e, hold, hversions₁, hlog₁, he⟩ => ?_)
      refine (ih hv₁).mono fun _ v₂ ⟨honRest, hv₂, htell⟩ => ?_
      refine ⟨List.forall_mem_cons.mpr ⟨hon, fun y hy => hback y (honRest y hy)⟩, hv₂,
        fun hnodup hzero => ?_⟩
      obtain ⟨hx, hnodup⟩ := List.nodup_cons.mp hnodup
      obtain ⟨hzeroX, hzero⟩ := List.forall_mem_cons.mp hzero
      obtain rfl : n = 0 := Option.some.inj (hold.symm.trans hzeroX)
      obtain ⟨rows, hlog₂, ⟨hreadable, hannounces⟩, hkeys⟩ := htell hnodup fun y hy => by
        have hne : y ≠ x := fun heq => hx (heq ▸ hy)
        rw [hversions₁, Function.update_of_ne hne]
        exact hzero y hy
      refine ⟨e :: rows, ?_, ⟨List.forall_mem_cons.mpr ⟨by rw [he]; rfl, hreadable⟩, ?_⟩, ?_⟩
      · rw [hlog₂, hlog₁, List.append_assoc]
        rfl
      · rw [List.filterMap_cons_some he]
        rw [hversions₁] at hannounces
        refine (Announces.change hold).append hannounces fun a ha b hb hsame => ?_
        obtain rfl := List.mem_singleton.mp ha
        obtain ⟨e', he', hb⟩ := List.mem_filterMap.mp hb
        have hkey : b.key = x := hsame.symm
        exact hx (hkey ▸ hkeys e' he' b hb)
      · refine List.forall_mem_cons.mpr ⟨fun a ha => ?_, fun e' he' a ha =>
          List.mem_cons_of_mem _ (hkeys e' he' a ha)⟩
        rw [he] at ha
        cases ha
        exact List.mem_cons_self

/-- The cards of the request are there once, and have never been changed. -/
def NeverChanged (codec : IdCodec ι) (db : Db ι) (ctx : RequestContext)
    (req : BulkUpdateCardLabelsRequest) : Prop :=
  ∀ board ∈ ctx.checked.bind codec.parse, ∀ t ∈ ctx.auth.bind AuthContext.tenantId,
    keyCard db t req.idempotencyKey = none →
    (∀ x ∈ req.cardIds.filterMap codec.parse, StandsOn db.cards board t x) →
    (req.cardIds.filterMap codec.parse).Nodup ∧
      ∀ x ∈ req.cardIds.filterMap codec.parse, versions db.cards x = some 0

theorem solo_bulkUpdateCardLabels_revision {req : BulkUpdateCardLabelsRequest} (hdb : Sane db.cards)
    (hnever : NeverChanged codec db ctx req) :
    Solo (kanban ι) (fun v => Announced codec db v.story) (bulkUpdateCardLabels codec ctx req) .idle db
      fun _ _ _ => True := by
  refine solo_orError_bind fun objectId hobject => solo_orError_bind fun board hboard =>
    solo_orError_bind fun t ht => ?_
  dsimp only
  split
  · exact solo_pure trivial
  refine solo_checkIdempotencyCard_bind ?_
  cases hkey : keyCard db t req.idempotencyKey with
  | some existingId => exact solo_of_tame hdb .refetchCards
  | none =>
      refine solo_beginTx_bind ((soloTx_relabelCards_revision hdb).bind_soloIn
        fun _ v₁ ⟨hon, hv₁, htell⟩ => ?_)
      have hcards := hnever board (by rw [hobject]; exact hboard) t ht hkey hon
      obtain ⟨rows, hlog₁, htells, -⟩ := htell hcards.1 hcards.2
      have hdone : Announced codec db v₁.story := ⟨hv₁, rows, hlog₁, htells⟩
      refine soloIn_commitTx_bind hdone ?_
      split
      · exact solo_tame_story (.bind .storeIdempotencyId fun _ => .fetchCards) hdone fun _ _ _ => trivial
      · exact solo_tame_story (.bind (.pure _) fun _ => .fetchCards) hdone fun _ _ _ => trivial

end Labels

/-! ## The calls -/

/-- A call that tells the revisions as they are: an `UpdateCard` is not cut off between its update and
the commit of its event. -/
def CardCall.Chained (codec : IdCodec ι) (pages : ℕ) (w : World (Db ι) (Backend ι)) (ctx : RequestContext)
    (acts : List (Act (Move ι))) : CardCall → Prop
  | .updateCard req => OnBoards w.store ∧
      Uncut (kanban ι) HalfTold (cardHandler codec pages ctx (.updateCard req)) w acts
  | .removeCardDependency req => EdgeThere codec w.store ctx req
  | .bulkUpdateCardLabels req => NeverChanged codec w.store ctx req
  | _ => True

/-- Such a call tells what it has done. -/
theorem announced_of_exec {w w' : World (Db ι) (Backend ι)} {call : CardCall} {acts : List (Act (Move ι))}
    {th : Thread (Db ι) (Rec ι) (Call ι) (Reply ι) ConnectError CardReply} (hw : Sane w.store.cards)
    (hcall : call.Chained codec pages w ctx acts)
    (hrun : Machine.Exec (Thread.step (kanban ι)) (Thread.start (cardHandler codec pages ctx call), w)
      acts (th, w')) : Announced codec w.store w'.store.story := by
  have halone : ∀ {α : Type} {p : Handler ι α} {f : α → CardReply},
      Solo (kanban ι) (fun v => Announced codec w.store v.story) p .idle w.store (fun _ _ _ => True) →
      Machine.Exec (Thread.step (kanban ι)) (Thread.start (p.bind fun a => .pure (f a)), w) acts
        (th, w') → Announced codec w.store w'.store.story := by
    intro α p f hp hrun
    obtain ⟨hsame | hannounced, -⟩ := (solo_bind (hp.mono fun _ _ _ _ => solo_pure trivial)).exec
      (Q := fun _ _ _ => True) hrun
    · rw [hsame]
      exact .refl hw
    · exact hannounced
  cases call with
  | createCard req => exact halone (solo_createCard_revision hw) hrun
  | updateCard req =>
      exact Finishes.exec (P := fun v => Announced codec w.store v.story)
        (finishes_bind (finishes_updateCard hw hcall.1)) (Announced.refl hw) hcall.2 hrun
  | moveCard req => exact halone (solo_moveCard_revision hw) hrun
  | transferCard req => exact halone (solo_transferCard_revision hw) hrun
  | deleteCard => exact halone (solo_deleteCard_revision hw) hrun
  | addCardDependency req => exact halone (solo_addCardDependency_revision hw) hrun
  | removeCardDependency req => exact halone (solo_removeCardDependency_revision hw hcall) hrun
  | bulkUpdateCardLabels req => exact halone (solo_bulkUpdateCardLabels_revision hw hcall) hrun
  | assignCard req => exact halone (solo_assignCard_revision hw) hrun
  | unassignCard req => exact halone (solo_unassignCard_revision hw) hrun
  | addChecklistItem req => exact halone (solo_addChecklistItem_revision hw) hrun
  | updateChecklistItem req => exact halone (solo_updateChecklistItem_revision hw) hrun
  | removeChecklistItem req => exact halone (solo_removeChecklistItem_revision hw) hrun
  | addComment req => exact halone (solo_addComment_revision hw) hrun
  | editComment req => exact halone (solo_editComment_revision hw) hrun
  | deleteComment req => exact halone (solo_deleteComment_revision hw) hrun

/-! ## Envelopes -/

/-- A card has gone from a revision to the next one. -/
def Steps (cards cards' : List (CardRow ι)) (x : ι) (prev new : ℕ) : Prop :=
  versions cards x = some prev ∧ versions cards' x = some new ∧ new = prev + 1

/-- The envelopes and the rows hold the revisions before and after. -/
structure ToldInFull (codec : IdCodec ι) (cards : List (CardRow ι)) (rows : List (EventRow ι))
    (cards' : List (CardRow ι)) : Prop where
  updated : ∀ e ∈ rows, ∀ cardId prev new patch key,
    buildPayload e.eventType e.payload = some (.cardUpdated cardId prev new patch key) →
      ∃ x, codec.parse cardId = some x ∧ Steps cards cards' x prev new
  moved : ∀ e ∈ rows, ∀ cardId fromColumn toColumn toPosition prev new key,
    buildPayload e.eventType e.payload =
      some (.cardMoved cardId fromColumn toColumn toPosition prev new key) →
      ∃ x, codec.parse cardId = some x ∧ Steps cards cards' x prev new
  transferred : ∀ e ∈ rows, e.eventType = "CardTransferred" →
    ∃ x, codec.parse (jsonStr e.payload "card_id") = some x ∧
      Steps cards cards' x (revisionPair e.payload).1 (revisionPair e.payload).2

section Envelopes

variable {cards cards' : List (CardRow ι)} {rows : List (EventRow ι)} {e : EventRow ι}

theorem Tells.steps (h : Tells codec cards rows cards') (he : e ∈ rows) {id : Option ι} {a : ι → Notice ι}
    {prev new : ℕ} (hnotice : noticeOf codec e = id.map a)
    (hchange : ∀ x, (a x).change = some (x, prev, new)) :
    ∃ x, id = some x ∧ Steps cards cards' x prev new := by
  have hread := h.readable e he
  rw [hnotice, Option.isSome_map] at hread
  obtain ⟨x, rfl⟩ := Option.isSome_iff_exists.mp hread
  exact ⟨x, rfl, h.announces.changed (a x) (List.mem_filterMap.mpr ⟨e, he, hnotice⟩) x prev new (hchange x)⟩

theorem Tells.toldInFull (h : Tells codec cards rows cards') : ToldInFull codec cards rows cards' where
  updated e he cardId prev new patch key hpayload :=
    h.steps he (a := fun x => .changed x prev new) (by rw [noticeOf, hpayload]) fun _ => rfl
  moved e he cardId fromColumn toColumn toPosition prev new key hpayload :=
    h.steps he (a := fun x => .changed x prev new) (by rw [noticeOf, hpayload]) fun _ => rfl
  transferred e he htype :=
    h.steps he (a := fun x => .shared x (revisionPair e.payload).1 (revisionPair e.payload).2)
      (by rw [noticeOf, htype]; rfl) fun _ => rfl

end Envelopes

/-! ## Runs -/

/-- The next call of a run tells the revisions as they are. -/
def InChain (codec : IdCodec ι) (pages : ℕ) (w : World (Db ι) (Backend ι))
    (call : (RequestContext × CardCall) × List (Act (Move ι))) : Prop :=
  call.1.2.Chained codec pages w call.1.1 call.2

section Runs

variable {w w' w'' : World (Db ι) (Backend ι)}
  {call : (RequestContext × CardCall) × List (Act (Move ι))}
  {calls : List ((RequestContext × CardCall) × List (Act (Move ι)))}

theorem announced_of_serialStep (hw : Sane w.store.cards) (hcall : InChain codec pages w call)
    (hs : serialStep (kanban ι) (fun q => cardHandler codec pages q.1 q.2) w call = some w') :
    Announced codec w.store w'.store.story := by
  obtain ⟨⟨th, w''⟩, hth, rfl⟩ := Option.map_eq_some_iff.mp hs
  exact announced_of_exec hw hcall (Machine.exec_of_run hth)

/-- What a run has done to the revisions is what its rows tell. -/
theorem follows_of_run (hw : Sane w.store.cards)
    (hrun : Machine.ExecWhile (serialStep (kanban ι) fun q => cardHandler codec pages q.1 q.2)
      (InChain codec pages) w calls w') :
    Sane w'.store.cards ∧ ∃ rows, w'.store.eventLog = w.store.eventLog ++ rows ∧
      ∀ x, (rows.filterMap (noticeOf codec)).foldl (follow x) (versions w.store.cards x) =
        versions w'.store.cards x := by
  refine hrun.invariant (fun w' => Sane w'.store.cards ∧ ∃ rows,
    w'.store.eventLog = w.store.eventLog ++ rows ∧ ∀ x, (rows.filterMap (noticeOf codec)).foldl
      (follow x) (versions w.store.cards x) = versions w'.store.cards x) ?_ ?_
  · exact ⟨hw, [], (List.append_nil _).symm, fun _ => rfl⟩
  · rintro w₁ call w₂ ⟨hw₁, rows, hlog, hfollows⟩ hcall hs
    obtain ⟨hw₂, rows', hlog', htells⟩ := announced_of_serialStep hw₁ hcall hs
    refine ⟨hw₂, rows ++ rows', ?_, fun x => ?_⟩
    · refine hlog'.trans ?_
      rw [hlog, List.append_assoc]
    · rw [List.filterMap_append, List.foldl_append, hfollows x]
      exact htells.announces.follows x

/-- **The revisions are one chain.**  In a run of calls that tell them as they are, whoever follows the
rows knows the revision of every card; a card that is new in the run has an unbroken chain of changes
from zero to its revision; and each call tells in its rows the revisions before and after it. -/
theorem revision_chain (hw : Sane w.store.cards)
    (hrun : Machine.ExecWhile (serialStep (kanban ι) fun q => cardHandler codec pages q.1 q.2)
      (InChain codec pages) w calls w') :
    (∃ rows, w'.store.eventLog = w.store.eventLog ++ rows ∧
      (∀ x, (rows.filterMap (noticeOf codec)).foldl (follow x) (versions w.store.cards x) =
        versions w'.store.cards x) ∧
      ∀ x r, versions w.store.cards x = none → versions w'.store.cards x = some r →
        ∃ before after, rows.filterMap (noticeOf codec) = before ++ .created x :: after ∧
          Chain (changesOf x after) r) ∧
    ∀ call w'', InChain codec pages w' call →
      serialStep (kanban ι) (fun q => cardHandler codec pages q.1 q.2) w' call = some w'' →
      ∃ rows, w''.store.eventLog = w'.store.eventLog ++ rows ∧
        ToldInFull codec w'.store.cards rows w''.store.cards := by
  obtain ⟨hw', rows, hlog, hfollows⟩ := follows_of_run hw hrun
  refine ⟨⟨rows, hlog, hfollows, fun x r hnone hr => ?_⟩, fun call w'' hcall hs => ?_⟩
  · refine chain_of_follow ?_
    rw [← hnone, hfollows x, hr]
  · obtain ⟨-, rows', hlog', htells⟩ := announced_of_serialStep hw' hcall hs
    exact ⟨rows', hlog', htells.toldInFull⟩

end Runs

/-- The card is moved within its column. -/
def movesShip : (RequestContext × CardCall) × List (Act (Move String)) :=
  ((onCard, .moveCard ⟨"a1", 1, ""⟩),
    [.ok, .ok, .ok, .ok, .ok, .ok, .move (.fresh "e"), .ok, .ok, .ok])

/-- All labels are taken off the card. -/
def unlabelsShip : (RequestContext × CardCall) × List (Act (Move String)) :=
  ((⟨some ⟨some "t", some "user:cal"⟩, some "a", 0⟩, .bulkUpdateCardLabels ⟨["c"], [], ""⟩),
    [.ok, .ok, .ok, .ok, .ok, .move (.fresh "f"), .ok, .ok, .ok])

/-- The card gets another title. -/
def retitles : (RequestContext × CardCall) × List (Act (Move String)) :=
  ((onCard, .updateCard (retitlesShip "")),
    [.ok, .ok, .ok, .ok, .move (.fresh "f"), .ok, .ok, .ok] ++ fullCardReads)

theorem revision_chain_retitled :
    ∃ w', Machine.Exec (serialStep (kanban String) fun q => cardHandler textIds 1 q.1 q.2) oneCard
        [movesShip, retitles] w' ∧ versions w'.store.cards "c" = some 2 ∧
      ∃ rows, w'.store.eventLog = rows ∧
        (rows.filterMap (noticeOf textIds)).foldl (follow "c") (some 0) = some 2 := by
  obtain ⟨w₁, hs, hboards, c, hrun, hend⟩ : ∃ w₁, serialStep (kanban String)
      (fun q => cardHandler textIds 1 q.1 q.2) oneCard movesShip = some w₁ ∧
      (∀ c ∈ w₁.store.cards, ∃ b ∈ w₁.store.boards, b.id = c.boardId) ∧
      ∃ c, Machine.run (Thread.step (kanban String))
        (Thread.start (cardHandler textIds 1 onCard retitles.1.2), w₁) retitles.2 = some c ∧
        c.1.prog.result.isSome ∧ versions c.2.store.cards "c" = some 2 :=
    ⟨_, rfl, by decide, _, rfl, by decide, by decide⟩
  have hnofail : .fail ∉ retitles.2 := by simp [retitles, fullCardReads]
  have huncut : InChain textIds 1 w₁ retitles :=
    ⟨hboards, .of_not_mem hnofail (Machine.exec_of_run hrun) hend.1⟩
  have hs' : serialStep (kanban String) (fun q => cardHandler textIds 1 q.1 q.2) w₁ retitles = some c.2 :=
    Option.map_eq_some_iff.mpr ⟨c, hrun, rfl⟩
  have hmoves : InChain textIds 1 oneCard movesShip := trivial
  have hw : Sane oneCard.store.cards := ⟨by decide, by decide⟩
  have hrun := (Machine.ExecWhile.snoc .nil hmoves hs).snoc huncut hs'
  obtain ⟨⟨rows, hrows, hfollows, -⟩, -⟩ := revision_chain hw hrun
  exact ⟨c.2, hrun.exec, hend.2, rows, hrows, (hfollows "c").trans hend.2⟩

/-- The event of a `BulkUpdateCardLabels` tells the revision before as zero, whatever it is. -/
theorem labels_break_chain :
    ∃ w' w'' e patch, Machine.Exec (serialStep (kanban String) fun q => cardHandler textIds 1 q.1 q.2)
        oneCard [movesShip] w' ∧
      serialStep (kanban String) (fun q => cardHandler textIds 1 q.1 q.2) w' unlabelsShip = some w'' ∧
      w''.store.eventLog = w'.store.eventLog ++ [e] ∧
      buildPayload e.eventType e.payload = some (.cardUpdated "c" 0 2 patch "") ∧
      versions w'.store.cards "c" = some 1 ∧ versions w''.store.cards "c" = some 2 := by
  obtain ⟨w', w'', e, patch, hs, hs', hlog, hpayload, hversion, hversion'⟩ : ∃ w' w'' e patch,
      serialStep (kanban String) (fun q => cardHandler textIds 1 q.1 q.2) oneCard movesShip = some w' ∧
      serialStep (kanban String) (fun q => cardHandler textIds 1 q.1 q.2) w' unlabelsShip = some w'' ∧
      w''.store.eventLog = w'.store.eventLog ++ [e] ∧
      buildPayload e.eventType e.payload = some (.cardUpdated "c" 0 2 patch "") ∧
      versions w'.store.cards "c" = some 1 ∧ versions w''.store.cards "c" = some 2 :=
    ⟨_, _, _, _, rfl, rfl, rfl, rfl, by decide, by decide⟩
  exact ⟨w', w'', e, patch, .snoc .nil hs, hs', hlog, hpayload, hversion, hversion'⟩

end Kanban.Rpc
