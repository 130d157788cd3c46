import Kanban.Rpc.CardRuns

/-!
# What the handlers of a card's details commit

Dependencies, labels, assignees, the checklist and the comments.  None of them moves a card:
the commit bumps the revision of the cards it is about and tells it to their boards.  Only
`RemoveCardDependency` writes its event even if it changes nothing.

## Main definitions

* `Settles.touchCard` — the shared transaction.
* `Settles.addCardDependency`, … — the handlers.
-/

namespace Kanban.Rpc

open Program Kanban.Store Kanban.Auth
open Kanban.Services (AuthContext ConnectError IdCodec)

variable {ι α β : Type} [DecidableEq ι] {Good : Commitment (Rec ι) (Call ι) (Reply ι)}
  {codec : IdCodec ι} {tr₀ tr : Trace (Rec ι) (Call ι) (Reply ι)} {ws : List (Write (Rec ι))}
  {evs : List (EventRow ι)} {ctx : RequestContext} {tenantId key : String}

namespace Settles

variable (hquiet : ∀ tr ws, Quiet ws → Good tr ws)
include hquiet

/-- A `SELECT` whose first row is needed. -/
theorem fetchOr {τ : Type} {msg : String} {e : ConnectError} {s : Stmt (Db ι) (Rec ι) (List τ)}
    (hs : Silent s) : Settles Good (fetchOr msg e s) :=
  .bind (Settles.fetchOptional hquiet hs) fun _ => .orError

variable (hgood : ∀ tr ws, Delivers codec tr ws → Good tr ws)
include hgood

/-! ## The shared transaction -/

theorem touchCard {cardId : ι} {more : Payload} {body : Handler ι (α × (String × Atom))}
    (hbody : Fills Good body) : Settles Good (touchCard codec tenantId cardId more body) := by
  refine .bind (fetchOr hquiet silent_select) fun cur tr => ?_
  refine runs_bind (runs_beginTx (hbody.bind_runs (Builds.start List.suffix_rfl) ?_))
  rintro ⟨a, patch⟩ ws₁ tr₁ hw₁ -
  refine runs_bind (runs_bumpRevision hw₁ fun newRevision ws₂ tr₂ hw₂ hcards _ => ?_)
  refine runs_bind (runs_insertBoardEvent hw₂ ?_)
  intro e revision ws₃ tr₃ hw₃ hsame _ _ htype _
  refine runs_bind (runs_commitTx (hgood _ _ ?_)
    (runs_pure ⟨rfl, hw₃.past.trans (List.suffix_cons _ _)⟩))
  exact hw₃.delivers (by simpa using htype) (List.cons_ne_nil _ _) (hsame ▸ hcards)

/-! ## Assignees, checklist, comments -/

theorem assignCard {req : AssignCardRequest} : Settles Good (assignCard codec ctx req) := by
  refine .bind .orError fun _ => .bind .orError fun _ => .bind .orError fun _ => .bind .ensure
    fun _ => .bind (.of_tame hquiet .resolveSubject) fun _ => .bind (touchCard hquiet hgood ?_) fun _ =>
    .fetchFullCard hquiet
  exact .bind (.within (T := Db.assigneesT) (fun _ => trivial) Table.within_insertIgnore) fun _ =>
    .pure _

theorem unassignCard {req : AssignCardRequest} : Settles Good (unassignCard codec ctx req) := by
  refine .bind .orError fun _ => .bind .orError fun _ => .bind .orError fun _ =>
    .bind (.of_tame hquiet .resolveSubject) fun _ => .bind (touchCard hquiet hgood ?_) fun _ => .fetchFullCard hquiet
  exact .bind (.within (T := Db.assigneesT) (fun _ => trivial) Table.within_delete) fun _ => .pure _

theorem addChecklistItem {req : AddChecklistItemRequest} :
    Settles Good (addChecklistItem codec ctx req) := by
  refine .bind .orError fun _ => .bind .orError fun _ => .bind .orError fun _ => .bind .ensure
    fun _ => .bind (touchCard hquiet hgood ?_) fun _ => .fetchFullCard hquiet
  refine .bind .newId fun itemId => .ite (.bind (.plain ?_) fun _ => .pure _) ?_
  · intro db e he
    obtain ⟨n, -, he⟩ := Option.bind_eq_some_iff.mp he
    exact plain_of_within (T := Db.checklistItemsT) (fun _ => trivial) Table.within_insert he
  · exact .bind (.within (T := Db.checklistItemsT) (fun _ => trivial) Table.within_updateChecked)
      fun _ => .bind (.within (T := Db.checklistItemsT) (fun _ => trivial) Table.within_insert)
      fun _ => .pure _

theorem updateChecklistItem {req : UpdateChecklistItemRequest} :
    Settles Good (updateChecklistItem codec ctx req) := by
  refine .bind .orError fun _ => .bind .orError fun _ => .bind .orError fun _ => .bind .orError
    fun _ => .bind (touchCard hquiet hgood ?_) fun _ => .fetchFullCard hquiet
  exact .bind (.within (T := Db.checklistItemsT) (fun _ => trivial) Table.within_update) fun _ =>
    .bind .ensure fun _ => .pure _

theorem removeChecklistItem {req : RemoveChecklistItemRequest} :
    Settles Good (removeChecklistItem codec ctx req) := by
  refine .bind .orError fun _ => .bind .orError fun _ => .bind .orError fun _ => .bind .orError
    fun _ => touchCard hquiet hgood ?_
  exact .bind (.within (T := Db.checklistItemsT) (fun _ => trivial) Table.within_delete) fun _ =>
    .bind .ensure fun _ => .pure _

omit hgood in
theorem cachedComment : Settles Good (cachedComment codec tenantId key) := by
  unfold Rpc.cachedComment
  split
  · exact .pure _
  · refine .bind (.fetchOptional hquiet silent_select) fun row => ?_
    cases (row.bind IdempotencyRow.responseComment).bind codec.parse with
    | none => exact .pure _
    | some commentId => exact .fetchOptional hquiet silent_select

omit hgood in
theorem storeIdempotencyComment {commentId : String} :
    Settles Good (storeIdempotencyComment tenantId key commentId : Handler ι Unit) := by
  unfold Rpc.storeIdempotencyComment
  split
  · exact .pure _
  · exact .bind (.of_tame hquiet .insertKey) fun _ => .pure _

theorem addComment {req : AddCommentRequest} : Settles Good (addComment codec ctx req) := by
  refine .bind .orError fun _ => .bind .orError fun _ => .bind .orError fun _ => .bind .orError
    fun _ => .bind .ensure fun _ => .bind (cachedComment hquiet) fun cached => ?_
  cases cached with
  | some row => exact .pure _
  | none =>
      refine .bind (touchCard hquiet hgood ?_) fun _ => .bind (storeIdempotencyComment hquiet)
        fun _ => .pure _
      exact .bind .newId fun _ => .bind (.within (T := Db.commentsT) (fun _ => trivial)
        Table.within_insert) fun _ => .pure _

theorem editComment {req : EditCommentRequest} : Settles Good (editComment codec ctx req) := by
  refine .bind .orError fun _ => .bind .orError fun _ => .bind .orError fun _ => .bind .orError
    fun _ => .bind .orError fun _ => .bind .ensure fun _ => .bind (touchCard hquiet hgood ?_)
    fun _ => .pure _
  exact .bind (.bind (.bind (.within (T := Db.commentsT) (fun _ => trivial) Table.within_update)
    fun _ => .pure _) fun _ => .orError) fun _ => .pure _

theorem deleteComment {req : DeleteCommentRequest} : Settles Good (deleteComment codec ctx req) := by
  refine .bind .orError fun _ => .bind .orError fun _ => .bind .orError fun _ => .bind .orError
    fun _ => .bind .orError fun _ => touchCard hquiet hgood (.bind ?_ fun _ => .pure _)
  refine .bind (.within (T := Db.commentsT) (fun _ => trivial) Table.within_delete) fun rows =>
    .ite ?_ (.pure _)
  exact .bind (.within (T := Db.commentsT) (fun _ => trivial) Table.within_delete) fun _ => .ensure

/-! ## Labels -/

omit hquiet hgood in
theorem fills_insertCardLabels {cardId : ι} {labelIds : List ι} :
    Fills Good (insertCardLabels cardId labelIds) := by
  induction labelIds with
  | nil => exact .pure _
  | cons labelId rest ih =>
      refine .bind (.plain fun db e he => ?_) fun _ => ih
      unfold insertCardLabel at he
      split at he
      · exact plain_of_within (T := Db.cardLabelsT) (fun _ => trivial) Table.within_insertIgnore he
      · cases he

/-- Writes of an open transaction that say nothing of a place. -/
def Updates (tr₀ tr : Trace (Rec ι) (Call ι) (Reply ι)) (ws : List (Write (Rec ι)))
    (evs : List (EventRow ι)) : Prop :=
  Builds tr₀ tr ws .stay evs ∧ ∀ e ∈ evs, e.eventType = "CardUpdated"

omit hquiet hgood in
/-- The labels of one card are replaced: its revision and its event are written. -/
theorem runs_relabelCard {boardId cardId : ι} {labelIds : List ι}
    {B : Unit → Tx (Rec ι) → Trace (Rec ι) (Call ι) (Reply ι) → Prop} (hw : Updates tr₀ tr ws evs)
    (h : ∀ evs' ws' tr', Updates tr₀ tr' ws' evs' → evs' ≠ [] → cardWrites ws' ≠ [] →
      tr <:+ tr' → B () (.active ws') tr') :
    Runs (kanban ι) Good (relabelCard codec tenantId boardId labelIds key cardId) (.active ws) tr
      B := by
  refine (Fills.read silent_select).bind_runs hw.1 fun rows ws₁ tr₁ hw₁ htr₁ => ?_
  refine Fills.ensure.bind_runs hw₁ fun _ ws₂ tr₂ hw₂ htr₂ => ?_
  refine (Fills.within (T := Db.cardLabelsT) (fun _ => trivial) Table.within_delete).bind_runs hw₂
    fun _ ws₃ tr₃ hw₃ htr₃ => ?_
  refine fills_insertCardLabels.bind_runs hw₃ fun _ ws₄ tr₄ hw₄ htr₄ => ?_
  refine runs_bind (runs_bumpRevision hw₄ fun newRevision ws₅ tr₅ hw₅ hcards htr₅ => ?_)
  refine runs_insertBoardEvent hw₅ ?_
  intro e revision ws₆ tr₆ hw₆ hsame htr₆ _ htype _
  refine h _ _ _ ⟨hw₆, fun e' he' => ?_⟩ (by simp) (hsame ▸ hcards)
    (htr₁.trans (htr₂.trans (htr₃.trans (htr₄.trans (htr₅.trans htr₆)))))
  rcases List.mem_append.mp he' with he' | he'
  · exact hw.2 e' he'
  · exact List.mem_singleton.mp he' ▸ htype

omit hquiet hgood in
/-- With every card the transaction has one more event. -/
theorem runs_relabelCards {boardId : ι} {labelIds cardIds : List ι} (hw : Updates tr₀ tr ws evs)
    (hso : ws = [] ∨ evs ≠ [] ∧ cardWrites ws ≠ []) :
    Runs (kanban ι) Good (relabelCards codec tenantId boardId labelIds key cardIds) (.active ws) tr
      fun _ tx tr' => ∃ evs' ws', tx = .active ws' ∧ Updates tr₀ tr' ws' evs' ∧
        (ws' = [] ∨ evs' ≠ [] ∧ cardWrites ws' ≠ []) := by
  induction cardIds generalizing tr ws evs with
  | nil => exact runs_pure ⟨evs, ws, rfl, hw, hso⟩
  | cons cardId rest ih =>
      exact runs_bind (runs_relabelCard hw fun evs' ws' tr' hw' hevs hcards _ =>
        ih hw' (.inr ⟨hevs, hcards⟩))

theorem bulkUpdateCardLabels {req : BulkUpdateCardLabelsRequest} :
    Settles Good (bulkUpdateCardLabels codec ctx req) := by
  refine .bind .orError fun _ => .bind .orError fun boardId => .bind .orError fun tenantId => ?_
  refine .ite (.pure _) (.bind (.checkIdempotencyCard hquiet) fun found => ?_)
  cases found with
  | some _ => exact .of_tame hquiet .refetchCards
  | none =>
      refine fun tr => runs_bind (runs_beginTx (runs_bind ((runs_relabelCards
        ⟨Builds.start List.suffix_rfl, by simp⟩ (.inl rfl)).mono ?_)))
      rintro _ tx tr₁ ⟨evs, ws, rfl, ⟨hw, hevs⟩, hso⟩
      have hcommit : Good tr₁ ws := by
        rcases hso with rfl | ⟨hne, hcards⟩
        · exact hquiet _ _ quiet_nil
        · exact hgood _ _ (hw.delivers hevs hne hcards)
      refine runs_bind (runs_commitTx hcommit ?_)
      have hpast : tr <:+ .committed ws :: tr₁ := hw.past.trans (List.suffix_cons _ _)
      cases (req.cardIds.filterMap codec.parse).head? with
      | none => exact (Settles.of_tame hquiet .fetchCards _).mono fun _ _ _ h => ⟨h.1, hpast.trans h.2⟩
      | some first =>
          exact (Settles.storeIdempotencyCard hquiet).bind_runs fun _ tr₂ htr₂ =>
            (Settles.of_tame hquiet .fetchCards tr₂).mono fun _ _ _ h => ⟨h.1, hpast.trans (htr₂.trans h.2)⟩

/-! ## Dependencies -/

omit hquiet hgood in
/-- The card on the other end: its revision and its event are written. -/
theorem runs_touchTarget {target : CardRow ι} {cardId : ι}
    {B : Unit → Tx (Rec ι) → Trace (Rec ι) (Call ι) (Reply ι) → Prop} (hw : Updates tr₀ tr ws evs)
    (h : ∀ evs' ws' tr', Updates tr₀ tr' ws' evs' → evs' ≠ [] → cardWrites ws' ≠ [] →
      B () (.active ws') tr') :
    Runs (kanban ι) Good (touchTarget codec tenantId target cardId key) (.active ws) tr B := by
  refine runs_bind (runs_bumpRevision hw.1 fun newRevision ws₁ tr₁ hw₁ hcards htr₁ => ?_)
  refine runs_insertBoardEvent hw₁ ?_
  intro e revision ws₂ tr₂ hw₂ hsame htr₂ _ htype _
  refine h _ _ _ ⟨hw₂, fun e' he' => ?_⟩ (by simp) (hsame ▸ hcards)
  rcases List.mem_append.mp he' with he' | he'
  · exact hw.2 e' he'
  · exact List.mem_singleton.mp he' ▸ htype

omit hquiet in
theorem linkCards {boardId cardId dependsOnId : ι} :
    Settles Good (linkCards codec tenantId boardId cardId dependsOnId key) := by
  intro tr
  refine runs_bind (runs_beginTx ?_)
  refine (Fills.read silent_select).bind_runs (Builds.start (List.suffix_rfl (l := tr)))
    fun rows ws₁ tr₁ hw₁ _ => ?_
  refine runs_bind (runs_ensure fun _ => runs_bind (runs_orError fun target _ => ?_))
  refine (Fills.within (T := Db.dependenciesT) (fun _ => trivial)
    Table.within_insertIgnore).bind_runs hw₁ fun _ ws₂ tr₂ hw₂ _ => ?_
  refine runs_bind (runs_bumpRevision hw₂ fun newRevision ws₃ tr₃ hw₃ _ _ => ?_)
  refine runs_bind (runs_insertBoardEvent hw₃ ?_)
  intro e revision ws₄ tr₄ hw₄ _ _ _ htype _
  refine runs_bind (runs_touchTarget ⟨hw₄, by simpa using htype⟩
    fun evs ws₅ tr₅ hw₅ hevs hcards => ?_)
  exact runs_commitTx (hgood _ _ (hw₅.1.delivers hw₅.2 hevs hcards))
    ⟨rfl, hw₅.1.past.trans (List.suffix_cons _ _)⟩

omit hgood in
theorem replayOr {cardId : ι} {change : Handler ι Unit} (hchange : Settles Good change) :
    Settles Good (replayOr codec tenantId key cardId change) := by
  refine .bind (.checkIdempotencyCard hquiet) fun found => ?_
  cases found with
  | some _ => exact .fetchFullCard hquiet
  | none => exact .bind hchange fun _ => .bind (.storeIdempotencyCard hquiet) fun _ =>
      .fetchFullCard hquiet

omit hquiet hgood in
theorem dependencyRequest {req : CardDependencyRequest} :
    Settles Good (dependencyRequest codec ctx req) :=
  .bind .orError fun _ => .bind .orError fun _ => .bind .orError fun _ => .bind .ensure fun _ =>
    .bind .orError fun _ => .bind .orError fun _ => .pure _

theorem addCardDependency {req : CardDependencyRequest} :
    Settles Good (addCardDependency codec ctx req) :=
  .bind dependencyRequest fun _ => .bind .ensure fun _ =>
    replayOr hquiet (linkCards hgood)

omit hquiet hgood in
/-- Without an edge to remove the transaction has the event of the card, and no other change. -/
theorem unlinkCards {boardId cardId dependsOnId : ι}
    (hgood : ∀ tr ws, Makes codec tr ws .stay → Good tr ws) :
    Settles Good (unlinkCards codec tenantId boardId cardId dependsOnId key) := by
  intro tr
  refine runs_bind (runs_beginTx ?_)
  refine (Fills.fetchOr silent_select).bind_runs (Builds.start (List.suffix_rfl (l := tr)))
    fun source ws₁ tr₁ hw₁ _ => ?_
  refine (Fills.fetchOr silent_select).bind_runs hw₁ fun target ws₂ tr₂ hw₂ _ => ?_
  refine (Fills.within (T := Db.dependenciesT) (fun _ => trivial) Table.within_delete).bind_runs hw₂
    fun removed ws₃ tr₃ hw₃ _ => ?_
  refine Fills.fork_runs .bumpRevision (.pure _) hw₃ fun newRevision ws₄ tr₄ hw₄ _ => ?_
  refine runs_bind (runs_insertBoardEvent hw₄ ?_)
  intro e revision ws₅ tr₅ hw₅ _ _ _ htype _
  have hupdates : Updates tr tr₅ ws₅ [e] := ⟨hw₅, by simpa using htype⟩
  refine runs_ite (fun _ => runs_bind (runs_touchTarget hupdates fun evs ws₆ tr₆ hw₆ _ _ => ?_))
    fun _ => ?_
  · exact runs_commitTx (hgood _ _ (hw₆.1.makes_stay hw₆.2))
      ⟨rfl, hw₆.1.past.trans (List.suffix_cons _ _)⟩
  · exact runs_commitTx (hgood _ _ (hupdates.1.makes_stay hupdates.2))
      ⟨rfl, hw₅.past.trans (List.suffix_cons _ _)⟩

omit hgood in
theorem removeCardDependency {req : CardDependencyRequest}
    (hgood : ∀ tr ws, Makes codec tr ws .stay → Good tr ws) :
    Settles Good (removeCardDependency codec ctx req) :=
  .bind dependencyRequest fun _ => replayOr hquiet (unlinkCards hgood)

end Settles

end Kanban.Rpc
