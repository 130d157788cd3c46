import Kanban.Rpc.KeptCalls
import Kanban.Rpc.RefCounter

/-!
# The calls that keep the references

Every mutation of a card keeps the discipline of the references: only `CreateCard` and
`TransferCard` draw a number, each for the one card that it creates or brings into the project, and
the others leave the reference of a card and its project as they are.

## Main definitions

* `NoRef` — a row that is neither a card nor a counter.
* `RefSettled`, `RefFits` — a handler, and a part of a transaction, that keeps the references.
* `follows_allocateCardRef`, `follows_give` — a reference is drawn, and given to a card.
-/

namespace Kanban.Rpc

open Program Kanban.Store Kanban.Auth
open Kanban.Services (AuthContext ConnectError IdCodec)

variable {ι α β τ : Type} [DecidableEq ι]

/-- A handler that keeps the references. -/
abbrev RefSettled (p : Handler ι α) : Prop := p.Settled (refDiscipline ι)

/-- A part of a transaction that draws no reference. -/
abbrev RefFits (p : Handler ι α) : Prop := p.Fits (refDiscipline ι)

/-! ## Writes -/

/-- A row that is neither a card nor a counter. -/
def NoRef : Rec ι → Prop
  | .card _ => False
  | .refCounter _ => False
  | _ => True

section Writes

variable {db : Db ι} {ws : List (Write (Rec ι))}

omit [DecidableEq ι] in
theorem keepsRef_of_noRef {a : Write (Rec ι)} (h : NoRef a.record) : KeepsRef db a := by
  rcases a with (r | r) <;> cases r <;> trivial

/-- An update of cards that leaves the project and the reference alone. -/
theorem keepsRef_updateCardRow {tenantId : String} {cardId : ι} {f : CardRow ι → CardRow ι}
    {e : Effect (Rec ι) (List (CardRow ι))}
    (hf : ∀ c, (f c).id = c.id ∧ (f c).projectId = c.projectId ∧ (f c).ref = c.ref)
    (he : updateCardRow tenantId cardId f db = some e) : ∀ a ∈ e.writes, KeepsRef db a := by
  refine Table.forall_writes_update he fun c hc _ => ?_
  obtain ⟨hid, hproject, href⟩ := hf c
  exact ⟨c, hc, hid.symm, hproject.symm, href.symm⟩

theorem keepsRef_shiftCards {tenantId : String} {columnId : ι} {p : ℤ → Bool} {delta : ℤ}
    {e : Effect (Rec ι) (List (CardRow ι))}
    (he : shiftCards tenantId columnId p delta db = some e) :
    ∀ a ∈ e.writes, KeepsRef db a := by
  refine Table.forall_writes_updateChecked he fun c hc _ c' hf => ?_
  obtain ⟨n, -, rfl⟩ := Option.map_eq_some_iff.mp hf
  exact ⟨c, hc, rfl, rfl, rfl⟩

/-- What goes with a deleted card is neither a card nor a counter. -/
theorem noRef_of_child {cardId : ι} {r : Rec ι} (h : r ∈ cardChildren db cardId) : NoRef r := by
  simp only [cardChildren, List.mem_append, List.mem_map] at h
  rcases h with ((((⟨r, -, rfl⟩ | ⟨r, -, rfl⟩) | ⟨r, -, rfl⟩) | ⟨r, -, rfl⟩) | ⟨r, -, rfl⟩) |
    ⟨r, -, rfl⟩ <;> trivial

end Writes

/-! ## Parts of a transaction -/

namespace RefFits

/-- A statement that keeps the references. -/
theorem query {msg : String} {s : Stmt (Db ι) (Rec ι) β}
    (hs : ∀ db e, s db = some e → ∀ a ∈ e.writes, KeepsRef db a) : RefFits (query msg s) :=
  fits_query fun _ db e he => .inl ⟨rfl, hs db e he⟩

theorem within {T : Table (Db ι) (Rec ι) τ} {msg : String} {s : Stmt (Db ι) (Rec ι) β}
    (hT : ∀ r, NoRef (T.record r)) (hs : T.Within s) : RefFits (Rpc.query msg s) :=
  query fun _ _ he a ha => keepsRef_of_noRef (Lenient.free_of_within hT hs he a ha)

theorem of_tame {p : Handler ι α} (hp : Tame p) : RefFits p :=
  .of_only hp fun _ _ ws hws => .inl ⟨rfl, fun a ha => by
    obtain ⟨r, rfl⟩ := hws a ha
    trivial⟩

theorem fetchOne {msg : String} {s : Stmt (Db ι) (Rec ι) (List β)}
    (hs : RefFits (Rpc.query msg s)) : RefFits (fetchOne msg s) :=
  .bind hs fun _ => of_tame .orError

theorem updateCardRow {msg tenantId : String} {cardId : ι} {f : CardRow ι → CardRow ι}
    (hf : ∀ c, (f c).id = c.id ∧ (f c).projectId = c.projectId ∧ (f c).ref = c.ref) :
    RefFits (Rpc.fetchOne msg (updateCardRow tenantId cardId f)) :=
  fetchOne (query fun _ _ => keepsRef_updateCardRow hf)

theorem bumpRevision {msg tenantId : String} {cardId : ι} :
    RefFits (bumpRevision msg tenantId cardId) :=
  .bind (updateCardRow fun _ => ⟨rfl, rfl, rfl⟩) fun _ => .pure _

theorem shiftCards {msg tenantId : String} {columnId : ι} {p : ℤ → Bool} {delta : ℤ} :
    RefFits (Rpc.query msg (shiftCards tenantId columnId p delta)) :=
  query fun _ _ => keepsRef_shiftCards

theorem insertPosition {tenantId : String} {columnId : ι} {position : ℤ} :
    RefFits (insertPosition tenantId columnId position) :=
  .ite (of_tame (.bind (.attempt (Tame.quiet_of_silent silent_nextPosition)) fun _ => .pure _))
    (.bind shiftCards fun _ => .pure _)

theorem shiftForMove {tenantId : String} {card : CardRow ι} {toColId : ι} {toPos : ℤ} :
    RefFits (shiftForMove tenantId card toColId toPos) := by
  refine .ite (.ite (.pure _) (.ite ?_ ?_)) ?_
  · exact .bind shiftCards fun _ => .pure _
  · exact .bind shiftCards fun _ => .pure _
  · exact .bind shiftCards fun _ => .bind shiftCards fun _ => .pure _

theorem insertRow {tenantId eventType : String} {boardId aggregatedBoardId projectId : Option ι}
    {payload : Payload} :
    RefFits (insertRow tenantId boardId aggregatedBoardId projectId eventType payload) :=
  .bind (of_tame .newId) fun _ =>
    .bind (within (T := Db.eventLogT) (fun _ => trivial) Table.within_insert) fun _ =>
      of_tame (.query fun db e he => by cases he; rfl)

theorem insertBoardEvent {tenantId eventType : String} {boardId : ι} {payload : Payload} :
    RefFits (insertBoardEvent tenantId boardId eventType payload) :=
  .bind (fetchOne (within (T := Db.boardsT) (fun _ => trivial) Table.within_update)) fun _ =>
    insertRow

theorem scrubLabels {msg : String} {cardId projectId : ι} :
    RefFits (Rpc.query msg (scrubLabels cardId projectId)) :=
  query fun _ _ he a ha => keepsRef_of_noRef
    (Lenient.free_of_within (T := Db.cardLabelsT) (fun _ => trivial) Table.within_delete he a ha)

theorem insertCardLabels {cardId : ι} {labelIds : List ι} :
    RefFits (insertCardLabels cardId labelIds) := by
  induction labelIds with
  | nil => exact .pure _
  | cons labelId rest ih =>
      refine .bind (query fun db e he a ha => ?_) fun _ => ih
      unfold insertCardLabel at he
      split at he
      · exact keepsRef_of_noRef (Lenient.free_of_within (T := Db.cardLabelsT) (fun _ => trivial)
          Table.within_insertIgnore he a ha)
      · cases he

theorem relabelCards {codec : IdCodec ι} {tenantId key : String} {boardId : ι}
    {labelIds cardIds : List ι} :
    RefFits (relabelCards codec tenantId boardId labelIds key cardIds) := by
  induction cardIds with
  | nil => exact .pure _
  | cons cardId rest ih =>
      exact .bind (.bind (of_tame (.query silent_select)) fun _ => .bind (of_tame .ensure) fun _ =>
        .bind (within (T := Db.cardLabelsT) (fun _ => trivial) Table.within_delete) fun _ =>
        .bind insertCardLabels fun _ => .bind bumpRevision fun _ => insertBoardEvent) fun _ => ih

end RefFits

/-- Rows of the other tables are not about references. -/
theorem lenient_refDiscipline : Lenient (refDiscipline ι) NoRef where
  auto _ _ hws a ha := keepsRef_of_noRef (hws a ha)
  move _ _ _ hws := .inl ⟨rfl, fun a ha => keepsRef_of_noRef (hws a ha)⟩
  key _ := trivial
  bumpRevision := RefFits.bumpRevision
  cardUpdated := RefFits.insertBoardEvent
  start _ _ := trivial

/-! ## References -/

section Draws

variable {tenantId msg : String} {s : Stage (Draw ι)} {g g' : Draw ι} {r : RefCounterRow ι}
  {Q : α → Stage (Draw ι) → Prop}

/-- No answer of a call is a reference. -/
theorem eq_of_heard (h : (refDiscipline ι).Heard g g') : g' = g := by
  induction h with
  | refl => rfl
  | hear c r _ ih => exact ih

/-- The number is the next one of the project, and the reference says it. -/
theorem follows_allocateCardRef {projectId : ι} {f : String → Handler ι α}
    (hf : ∀ r s', r.projectId = projectId → Stage.At (refDiscipline ι) (some (r, none)) s' →
      (f (refOf r)).Follows (refDiscipline ι) s' Q) :
    ((allocateCardRef tenantId projectId).bind f).Follows (refDiscipline ι)
      (.active (refDiscipline ι).first) Q := by
  have hlock : RefFits (query "advisory lock failed" (advisoryLock (ι := ι))) :=
    RefFits.query fun db e he => by cases he; simp
  refine .bind (hlock.bind_follows .start fun _ s₁ hs₁ => ?_)
  cases hs₁ with
  | aborted => exact trivial
  | active hg =>
      cases eq_of_heard hg
      refine ⟨fun db e he => ?_, trivial⟩
      rcases nextCardRef_cases he with ⟨hanswer, hwrites⟩ | ⟨r, rfl, hanswer, hwrites, hseq⟩
      · rw [hanswer, hwrites]
        exact ⟨none, .inl ⟨rfl, List.forall_mem_nil _⟩, trivial⟩
      · rw [hanswer, hwrites]
        exact ⟨some (r, none), .inr (.inl ⟨r, rfl, rfl, rfl, hseq⟩), hf r _ rfl .start⟩

/-- The statement that gives the reference to a card. -/
theorem follows_give {st : Stmt (Db ι) (Rec ι) β} {f : β → Handler ι α} {x : ι}
    (hs : Stage.At (refDiscipline ι) (some (r, none)) s)
    (hst : ∀ db e, st db = some e → ∀ a ∈ e.writes,
      ∃ c, a = .put (.card c) ∧ c.id = x ∧ c.projectId = r.projectId ∧ c.ref = refOf r)
    (hf : ∀ b s', Stage.At (refDiscipline ι) (some (r, some x)) s' →
      (f b).Follows (refDiscipline ι) s' Q) :
    ((query msg st).bind f).Follows (refDiscipline ι) s Q :=
  follows_query_bind hs (fun _ db e hg he => by
    cases eq_of_heard hg
    exact ⟨_, .refl _, .inr (.inr ⟨r, x, rfl, rfl, hst db e he⟩)⟩) hf

end Draws

/-! ## Handlers -/

namespace RefSettled

variable {codec : IdCodec ι} {pages : ℕ} {ctx : RequestContext} {tenantId key : String}

theorem of_tame {p : Handler ι α} (hp : Tame p) : RefSettled p :=
  lenient_refDiscipline.settled_tame hp

theorem fetchOr {msg : String} {err : ConnectError} {T : Table (Db ι) (Rec ι) τ}
    {p : τ → Bool} : RefSettled (fetchOr msg err (T.select p)) := of_tame (.fetchOr silent_select)

theorem orError {o : Option α} {e : ConnectError} : RefSettled (orError e o : Handler ι α) :=
  of_tame .orError

theorem ensure {p : Prop} [Decidable p] {e : ConnectError} :
    RefSettled (ensure p e : Handler ι Unit) := of_tame .ensure

theorem assignCard {req : AssignCardRequest} : RefSettled (assignCard codec ctx req) :=
  .bind orError fun _ => .bind orError fun _ => .bind orError fun _ => .bind ensure fun _ =>
    .bind (of_tame .resolveSubject) fun _ => .bind (lenient_refDiscipline.touchCard (.bind
      (RefFits.within (T := Db.assigneesT) (fun _ => trivial) Table.within_insertIgnore)
      fun _ => .pure _)) fun _ => of_tame .fetchFullCard

theorem unassignCard {req : AssignCardRequest} : RefSettled (unassignCard codec ctx req) :=
  .bind orError fun _ => .bind orError fun _ => .bind orError fun _ =>
    .bind (of_tame .resolveSubject) fun _ => .bind (lenient_refDiscipline.touchCard (.bind
      (RefFits.within (T := Db.assigneesT) (fun _ => trivial) Table.within_delete)
      fun _ => .pure _)) fun _ => of_tame .fetchFullCard

theorem bulkUpdateCardLabels {req : BulkUpdateCardLabelsRequest} :
    RefSettled (bulkUpdateCardLabels codec ctx req) := by
  refine .bind orError fun _ => .bind orError fun _ => .bind orError fun _ => .ite (.pure _)
    (.bind (of_tame .checkIdempotencyCard) fun found => ?_)
  cases found with
  | some _ => exact of_tame .refetchCards
  | none =>
      refine follows_beginTx (RefFits.relabelCards.bind_follows .start fun _ _ hs =>
        follows_commitTx_bind hs (fun _ _ => trivial) ?_)
      cases (req.cardIds.filterMap codec.parse).head? with
      | none => exact of_tame .fetchCards
      | some first => exact of_tame (.bind .storeIdempotencyId fun _ => .fetchCards)

/-- The card is updated outside of the transaction of its event. -/
theorem updateCard {req : UpdateCardRequest} : RefSettled (updateCard codec ctx req) := by
  refine .bind orError fun _ => .bind orError fun _ => .bind orError fun _ =>
    .bind (of_tame .checkIdempotencyCard) fun found => ?_
  cases found with
  | some _ => exact of_tame .fetchFullCard
  | none =>
      refine .bind fetchOr fun cur => .bind (of_tame .milestonePatch) fun milestone =>
        .bind (.bind (.bind (settled_query fun db e he => ?_) fun _ => .pure _) fun _ => orError)
        fun _ => follows_beginTx (RefFits.insertBoardEvent.bind_follows .start fun _ _ hs =>
          follows_commitTx_bind hs (fun _ _ => trivial)
            (of_tame (.bind .storeIdempotencyId fun _ => .fetchFullCard)))
      exact keepsRef_updateCardRow (f := patchCard req milestone) (fun _ => ⟨rfl, rfl, rfl⟩) he

theorem placeCard {card : CardRow ι} {target : ColumnRow ι} {fromIsDone : Bool}
    {req : MoveCardRequest} :
    RefSettled (placeCard codec ctx tenantId card target fromIsDone req) :=
  follows_beginTx (RefFits.shiftForMove.bind_follows .start fun _ _ hs =>
    (RefFits.updateCardRow fun _ => by exact ⟨rfl, rfl, rfl⟩).bind_follows hs fun _ _ hs =>
    RefFits.insertBoardEvent.bind_follows hs fun _ _ hs => follows_commitTx hs fun _ _ => trivial)

theorem moveCard {req : MoveCardRequest} : RefSettled (moveCard codec pages ctx req) := by
  refine .bind orError fun _ => .bind orError fun _ => .bind orError fun _ => .bind orError fun _ =>
    .bind (of_tame .checkIdempotencyCard) fun found => ?_
  cases found with
  | some _ => exact of_tame .fetchFullCard
  | none =>
      refine .bind fetchOr fun card => .bind fetchOr fun target =>
        .fork (.pure _) (of_tame .sourceIsDone) fun fromIsDone => .bind fetchOr fun _ =>
        .bind ensure fun _ => .bind placeCard fun _ => ?_
      exact of_tame (.ite (.bind .tenantClientFor fun _ => .bind .rehomeParent fun _ =>
        .bind .storeIdempotencyId fun _ => .fetchFullCard)
        (.bind .storeIdempotencyId fun _ => .fetchFullCard))

/-- A new card carries the reference that its transaction has drawn. -/
theorem insertNewCard {subject : String} {board : BoardRow ι} {column : ColumnRow ι}
    {req : CreateCardRequest} :
    RefSettled (insertNewCard codec ctx subject tenantId board column req) := by
  refine follows_beginTx (follows_allocateCardRef fun r _ hproject hs => ?_)
  refine (RefFits.of_tame .newId).bind_follows hs fun cardId _ hs =>
    RefFits.insertPosition.bind_follows hs fun position _ hs =>
    (RefFits.of_tame .checkMilestone).bind_follows hs fun milestoneId _ hs =>
    follows_give (x := cardId) hs (fun db e he a ha => ?_) fun _ _ hs =>
    RefFits.insertBoardEvent.bind_follows hs fun _ _ hs =>
    follows_commitTx_bind hs (fun _ _ => trivial) rfl
  rw [writes_insertCard he] at ha
  exact ⟨_, List.mem_singleton.mp ha, rfl, hproject.symm, rfl⟩

theorem createCard {req : CreateCardRequest} : RefSettled (createCard codec ctx req) := by
  refine .bind orError fun _ => .bind orError fun _ => .bind orError fun _ => .bind orError fun _ =>
    .bind ensure fun _ => .bind (of_tame .checkIdempotencyCard) fun found => ?_
  cases found with
  | some _ => exact of_tame .fetchFullCard
  | none =>
      exact .bind fetchOr fun _ => .bind orError fun _ => .bind fetchOr fun _ =>
        .bind insertNewCard fun _ => of_tame (.bind .tenantClientFor fun _ =>
        .bind .grantWithRetry fun _ => .bind .storeIdempotencyId fun _ => .fetchFullCard)

/-- A transferred card carries the reference that its transaction has drawn. -/
theorem relocateCard {card : CardRow ι} {projectId : ι} {target : ColumnRow ι}
    {fromIsDone : Bool} :
    RefSettled (relocateCard codec ctx tenantId card projectId target fromIsDone key) := by
  refine follows_beginTx (follows_allocateCardRef fun r _ hproject hs => ?_)
  refine (RefFits.of_tame (.query silent_nextPosition)).bind_follows hs fun toPos _ hs => ?_
  refine follows_fetchOne_bind (follows_give (x := card.id) hs (fun db e he => ?_)
    fun rows _ hs => ?_)
  · refine Table.forall_writes_update he fun c _ hc => ⟨_, rfl, ?_, hproject.symm, rfl⟩
    exact (of_decide_eq_true hc).1
  · exact (RefFits.of_tame .orError).bind_follows hs fun _ _ hs =>
      RefFits.scrubLabels.bind_follows hs fun _ _ hs =>
      RefFits.insertBoardEvent.bind_follows hs fun _ _ hs =>
      RefFits.insertBoardEvent.bind_follows hs fun _ _ hs => follows_commitTx hs fun _ _ => trivial

theorem transferCard {req : TransferCardRequest} :
    RefSettled (transferCard codec pages ctx req) := by
  refine .bind orError fun _ => .bind orError fun _ => .bind orError fun _ => .bind orError fun _ =>
    .bind orError fun _ => .bind (of_tame .checkIdempotencyCard) fun found => ?_
  cases found with
  | some _ => exact of_tame .replayTransfer
  | none =>
      exact .bind fetchOr fun _ => .bind fetchOr fun _ => .bind ensure fun _ =>
        .bind (of_tame .checkTargetBoard) fun _ => .bind fetchOr fun _ => .bind ensure fun _ =>
        .bind (of_tame .sourceIsDone) fun _ => .bind relocateCard fun _ =>
        of_tame (.bind .rehomeParent fun _ => .bind .storeIdempotencyId fun _ =>
        .bind .fetchFullCard fun _ => .pure _)

theorem deleteCard : RefSettled (deleteCard (ι := ι) codec pages ctx) := by
  have hdel {tenantId : String} {cardId : ι} :
      RefFits (query "failed to delete card" (deleteCardRow tenantId cardId)) := by
    refine RefFits.query fun db e he a ha => ?_
    obtain rfl := deleteCardRow_some he
    rcases List.mem_append.mp ha with ha | ha
    · obtain ⟨c, -, rfl⟩ := List.mem_map.mp ha
      trivial
    · obtain ⟨r, hr, rfl⟩ := List.mem_map.mp ha
      split at hr
      · cases hr
      · exact keepsRef_of_noRef (noRef_of_child hr)
  exact .bind orError fun _ => .bind orError fun _ => .bind orError fun _ => .bind fetchOr fun _ =>
    follows_beginTx (hdel.bind_follows .start fun _ _ hs =>
    (RefFits.of_tame .ensure).bind_follows hs fun _ _ hs =>
    RefFits.insertBoardEvent.bind_follows hs fun _ _ hs =>
    follows_commitTx_bind hs (fun _ _ => trivial) (of_tame (.bind .tenantClientFor fun _ =>
      .bind .deleteRelationTuples fun _ => .pure _)))

/-- The prefix of a project changes, its counter does not. -/
theorem updateProject {unicode : Unicode} {req : UpdateProjectRequest} :
    RefSettled (updateProject codec unicode ctx req) :=
  .bind orError fun _ => .bind orError fun _ => .bind orError fun _ =>
    follows_beginTx ((RefFits.within (T := Db.projectsT) (fun _ => trivial)
      Table.within_update).bind_follows .start fun _ _ hs =>
    (RefFits.of_tame .orError).bind_follows hs fun _ _ hs =>
    RefFits.insertRow.bind_follows hs fun _ _ hs =>
    follows_commitTx_bind hs (fun _ _ => trivial) (of_tame (.bind
      (.bind (.attempt (Tame.quiet_of_silent silent_select)) fun _ => .pure _)
      fun _ => .pure _)))

/-- **Every mutation of a card.** -/
theorem cardHandler {call : CardCall} : RefSettled (cardHandler codec pages ctx call) := by
  have h := lenient_refDiscipline (ι := ι)
  cases call with
  | createCard req => exact .bind createCard fun _ => .pure _
  | updateCard req => exact .bind updateCard fun _ => .pure _
  | moveCard req => exact .bind moveCard fun _ => .pure _
  | transferCard req => exact .bind transferCard fun _ => .pure _
  | deleteCard => exact .bind deleteCard fun _ => .pure _
  | addCardDependency req => exact .bind (h.addCardDependency fun _ => trivial) fun _ => .pure _
  | removeCardDependency req =>
      exact .bind (h.removeCardDependency fun _ => trivial) fun _ => .pure _
  | bulkUpdateCardLabels req => exact .bind bulkUpdateCardLabels fun _ => .pure _
  | assignCard req => exact .bind assignCard fun _ => .pure _
  | unassignCard req => exact .bind unassignCard fun _ => .pure _
  | addChecklistItem req => exact .bind (h.addChecklistItem fun _ => trivial) fun _ => .pure _
  | updateChecklistItem req =>
      exact .bind (h.updateChecklistItem fun _ => trivial) fun _ => .pure _
  | removeChecklistItem req =>
      exact .bind (h.removeChecklistItem fun _ => trivial) fun _ => .pure _
  | addComment req => exact .bind (h.addComment fun _ => trivial) fun _ => .pure _
  | editComment req => exact .bind (h.editComment fun _ => trivial) fun _ => .pure _
  | deleteComment req => exact .bind (h.deleteComment fun _ => trivial) fun _ => .pure _

end RefSettled

end Kanban.Rpc
