import Kanban.Lib.Discipline
import Kanban.Rpc.CardService

/-!
# Handlers that keep a discipline

The rules of a discipline for the parts that the handlers are made of, and the handlers of a card's
details.  Those write rows of their own tables, the revisions of cards and events, and keep every
discipline that lets these pass.

## Main definitions

* `Lenient` — a discipline that lets the rows of some tables pass.
* `follows_beginTx`, `follows_commitTx` — the ends of a transaction.
* `Lenient.touchCard`, … — the handlers.
-/

namespace Kanban.Rpc

open Program Kanban.Store Kanban.Auth
open Kanban.Services (AuthContext ConnectError IdCodec)

variable {ι α β τ γ : Type} {D : Discipline (Db ι) (Rec ι) (Call ι) (Reply ι) γ} {s : Stage γ}
  {g : γ} {Q : α → Stage γ → Prop}

/-! ## Transactions -/

theorem follows_beginTx {msg : String} {f : Unit → Handler ι α}
    (h : (f ()).Follows D (.active D.first) Q) : ((beginTx msg).bind f).Follows D .idle Q :=
  ⟨h, trivial⟩

/-- A transaction is committed where it is closed. -/
theorem follows_commitTx_bind {msg : String} {f : Unit → Handler ι α} (hs : Stage.At D g s)
    (hclosed : ∀ g', D.Heard g g' → D.closed g') (h : (f ()).Follows D .idle Q) :
    ((commitTx msg).bind f).Follows D s Q := by
  cases hs with
  | active hg => exact ⟨hclosed _ hg, h, trivial⟩
  | aborted => exact ⟨h, trivial⟩

theorem follows_commitTx {msg : String} (hs : Stage.At D g s)
    (hclosed : ∀ g', D.Heard g g' → D.closed g') :
    (commitTx msg : Handler ι Unit).Follows D s fun _ s => s = .idle := by
  cases hs with
  | active hg => exact ⟨hclosed _ hg, rfl, trivial⟩
  | aborted => exact ⟨rfl, trivial⟩

/-- The first row that a statement returns. -/
theorem follows_fetchOne_bind {msg : String} {st : Stmt (Db ι) (Rec ι) (List β)}
    {f : β → Handler ι α}
    (h : ((query msg st).bind fun rows =>
      (orError (internal msg) rows.head?).bind f).Follows D s Q) :
    ((fetchOne msg st).bind f).Follows D s Q := by
  unfold fetchOne
  rw [Prog.bind_assoc]
  exact h

/-- A statement that takes the transaction to another point. -/
theorem follows_query_bind {msg : String} {st : Stmt (Db ι) (Rec ι) β} {f : β → Handler ι α}
    {g' : γ} (hs : Stage.At D g s)
    (hst : ∀ g₁ db e, D.Heard g g₁ → st db = some e →
      ∃ g₂, D.Heard g' g₂ ∧ D.move g₁ db e.writes g₂)
    (hf : ∀ b s', Stage.At D g' s' → (f b).Follows D s' Q) :
    ((query msg st).bind f).Follows D s Q := by
  cases hs with
  | aborted => exact trivial
  | active hg =>
      refine ⟨fun db e he => ?_, trivial⟩
      obtain ⟨g₂, hg₂, hmove⟩ := hst _ db e hg he
      exact ⟨g₂, hmove, hf _ _ (.active hg₂)⟩

/-- A statement that takes no transaction further. -/
theorem fits_query {msg : String} {st : Stmt (Db ι) (Rec ι) β}
    (hst : ∀ g db e, st db = some e → D.move g db e.writes g) : (query msg st).Fits D :=
  .stmt hst fun o => by
    cases o with
    | none => exact .fail _
    | some b => exact .pure b

theorem settled_query {msg : String} {st : Stmt (Db ι) (Rec ι) β}
    (hst : ∀ db e, st db = some e → D.auto db e.writes) : (query msg st).Settled D :=
  ⟨fun db e he => ⟨hst db e he, rfl⟩, trivial⟩

/-! ## Handlers -/

/-- A discipline that lets the rows in `Free` pass, and of a card its revision and its events. -/
structure Lenient [DecidableEq ι] (D : Discipline (Db ι) (Rec ι) (Call ι) (Reply ι) γ)
    (Free : Rec ι → Prop) : Prop where
  auto : ∀ db ws, (∀ a ∈ ws, Free a.record) → D.auto db ws
  move : ∀ g db ws, (∀ a ∈ ws, Free a.record) → D.move g db ws g
  key : ∀ r, Free (.idempotencyKey r)
  bumpRevision : ∀ {msg tenantId cardId}, (bumpRevision msg tenantId cardId).Fits D
  cardUpdated : ∀ {tenantId boardId payload},
    (insertBoardEvent tenantId boardId "CardUpdated" payload).Fits D
  start : ∀ g, D.Heard D.first g → D.closed g

namespace Lenient

variable [DecidableEq ι] {Free : Rec ι → Prop} (h : Lenient D Free) {codec : IdCodec ι}
  {ctx : RequestContext} {tenantId key : String}

include h

theorem free_of_quiet {ws : List (Write (Rec ι))} (hws : Quiet ws) : ∀ a ∈ ws, Free a.record := by
  intro a ha
  obtain ⟨r, rfl⟩ := hws a ha
  exact h.key r

omit h [DecidableEq ι] in
theorem free_of_within {T : Table (Db ι) (Rec ι) τ} {st : Stmt (Db ι) (Rec ι) α}
    (hT : ∀ r, Free (T.record r)) (hst : T.Within st) {db : Db ι} {e : Effect (Rec ι) α}
    (he : st db = some e) : ∀ a ∈ e.writes, Free a.record := by
  intro a ha
  rcases hst db e he a ha with ⟨r, rfl | rfl⟩
  · exact hT r
  · exact hT r

theorem fits_tame {p : Handler ι α} (hp : Tame p) : p.Fits D :=
  .of_only hp fun _ _ _ hws => h.move _ _ _ (h.free_of_quiet hws)

theorem settled_tame {p : Handler ι α} (hp : Tame p) : p.Settled D :=
  .of_only hp fun _ _ hws => h.auto _ _ (h.free_of_quiet hws)

/-- A statement on a table whose rows pass. -/
theorem within {T : Table (Db ι) (Rec ι) τ} {msg : String} {st : Stmt (Db ι) (Rec ι) β}
    (hT : ∀ r, Free (T.record r)) (hst : T.Within st) : (query msg st).Fits D :=
  fits_query fun _ _ _ he => h.move _ _ _ (free_of_within hT hst he)

theorem orError {o : Option α} {e : ConnectError} : (orError e o : Handler ι α).Settled D :=
  h.settled_tame .orError

theorem ensure {p : Prop} [Decidable p] {e : ConnectError} :
    (ensure p e : Handler ι Unit).Settled D := h.settled_tame .ensure

theorem fetchOr {msg : String} {err : ConnectError} {T : Table (Db ι) (Rec ι) τ}
    {p : τ → Bool} : (fetchOr msg err (T.select p) : Handler ι τ).Settled D :=
  h.settled_tame (.fetchOr silent_select)

theorem touchTarget {target : CardRow ι} {cardId : ι} :
    (touchTarget codec tenantId target cardId key).Fits D :=
  .bind h.bumpRevision fun _ => h.cardUpdated

/-- The shared transaction. -/
theorem touchCard {cardId : ι} {more : Payload} {body : Handler ι (α × (String × Atom))}
    (hbody : body.Fits D) : (touchCard codec tenantId cardId more body).Settled D :=
  .bind h.fetchOr fun _ => follows_beginTx (hbody.bind_follows .start fun _ _ hs =>
    h.bumpRevision.bind_follows hs fun _ _ hs => h.cardUpdated.bind_follows hs fun _ _ hs =>
    follows_commitTx_bind hs h.start rfl)

/-! ### The checklist -/

theorem addChecklistItem {req : AddChecklistItemRequest} (hfree : ∀ r, Free (.checklistItem r)) :
    (addChecklistItem codec ctx req).Settled D := by
  refine .bind h.orError fun _ => .bind h.orError fun _ => .bind h.orError fun _ =>
    .bind h.ensure fun _ => .bind (h.touchCard ?_) fun _ => h.settled_tame .fetchFullCard
  refine .bind (h.fits_tame .newId) fun itemId => .ite (.bind (fits_query fun g db e he => ?_)
    fun _ => .pure _) ?_
  · obtain ⟨n, -, he⟩ := Option.bind_eq_some_iff.mp he
    exact h.move _ _ _ (free_of_within (T := Db.checklistItemsT) hfree Table.within_insert he)
  · exact .bind (h.within (T := Db.checklistItemsT) hfree Table.within_updateChecked) fun _ =>
      .bind (h.within (T := Db.checklistItemsT) hfree Table.within_insert) fun _ => .pure _

theorem updateChecklistItem {req : UpdateChecklistItemRequest}
    (hfree : ∀ r, Free (.checklistItem r)) : (updateChecklistItem codec ctx req).Settled D :=
  .bind h.orError fun _ => .bind h.orError fun _ => .bind h.orError fun _ =>
    .bind h.orError fun _ => .bind (h.touchCard
      (.bind (h.within (T := Db.checklistItemsT) hfree Table.within_update) fun _ =>
      .bind (h.fits_tame .ensure) fun _ => .pure _)) fun _ => h.settled_tame .fetchFullCard

theorem removeChecklistItem {req : RemoveChecklistItemRequest}
    (hfree : ∀ r, Free (.checklistItem r)) : (removeChecklistItem codec ctx req).Settled D :=
  .bind h.orError fun _ => .bind h.orError fun _ => .bind h.orError fun _ =>
    .bind h.orError fun _ => h.touchCard
      (.bind (h.within (T := Db.checklistItemsT) hfree Table.within_delete) fun _ =>
      .bind (h.fits_tame .ensure) fun _ => .pure _)

/-! ### Comments -/

theorem cachedComment : (cachedComment codec tenantId key).Settled D := by
  unfold Rpc.cachedComment
  refine .ite (.pure _) (.bind (h.settled_tame (.fetchOptional silent_select)) fun row => ?_)
  cases (row.bind IdempotencyRow.responseComment).bind codec.parse with
  | none => exact .pure _
  | some commentId => exact h.settled_tame (.fetchOptional silent_select)

theorem addComment {req : AddCommentRequest} (hfree : ∀ r, Free (.comment r)) :
    (addComment codec ctx req).Settled D := by
  refine .bind h.orError fun _ => .bind h.orError fun _ => .bind h.orError fun _ =>
    .bind h.orError fun _ => .bind h.ensure fun _ => .bind h.cachedComment fun cached => ?_
  cases cached with
  | some row => exact .pure _
  | none =>
      refine .bind (h.touchCard (.bind (h.fits_tame .newId) fun _ =>
        .bind (h.within (T := Db.commentsT) hfree Table.within_insert) fun _ => .pure _)) fun _ =>
        .bind ?_ fun _ => .pure _
      exact .ite (.pure _) (.bind (h.settled_tame .insertKey) fun _ => .pure _)

theorem editComment {req : EditCommentRequest} (hfree : ∀ r, Free (.comment r)) :
    (editComment codec ctx req).Settled D :=
  .bind h.orError fun _ => .bind h.orError fun _ => .bind h.orError fun _ =>
    .bind h.orError fun _ => .bind h.orError fun _ => .bind h.ensure fun _ =>
    .bind (h.touchCard (.bind (.bind (.bind
      (h.within (T := Db.commentsT) hfree Table.within_update) fun _ => .pure _) fun _ =>
      h.fits_tame .orError) fun _ => .pure _)) fun _ => .pure _

theorem deleteComment {req : DeleteCommentRequest} (hfree : ∀ r, Free (.comment r)) :
    (deleteComment codec ctx req).Settled D := by
  refine .bind h.orError fun _ => .bind h.orError fun _ => .bind h.orError fun _ =>
    .bind h.orError fun _ => .bind h.orError fun _ => h.touchCard (.bind ?_ fun _ => .pure _)
  exact .bind (h.within (T := Db.commentsT) hfree Table.within_delete) fun _ =>
    .ite (.bind (h.within (T := Db.commentsT) hfree Table.within_delete) fun _ =>
      h.fits_tame .ensure) (.pure _)

/-! ### Dependencies -/

theorem dependencyRequest {req : CardDependencyRequest} :
    (dependencyRequest codec ctx req).Settled D :=
  .bind h.orError fun _ => .bind h.orError fun _ => .bind h.orError fun _ => .bind h.ensure fun _ =>
    .bind h.orError fun _ => .bind h.orError fun _ => .pure _

theorem linkCards {boardId cardId dependsOnId : ι} (hfree : ∀ r, Free (.dependency r)) :
    (linkCards codec tenantId boardId cardId dependsOnId key).Settled D :=
  follows_beginTx ((h.fits_tame (.query silent_select)).bind_follows .start fun _ _ hs =>
    (h.fits_tame .ensure).bind_follows hs fun _ _ hs =>
    (h.fits_tame .orError).bind_follows hs fun _ _ hs =>
    (h.within (T := Db.dependenciesT) hfree Table.within_insertIgnore).bind_follows hs fun _ _ hs =>
    h.bumpRevision.bind_follows hs fun _ _ hs => h.cardUpdated.bind_follows hs fun _ _ hs =>
    h.touchTarget.bind_follows hs fun _ _ hs => follows_commitTx hs h.start)

theorem unlinkCards {boardId cardId dependsOnId : ι} (hfree : ∀ r, Free (.dependency r)) :
    (unlinkCards codec tenantId boardId cardId dependsOnId key).Settled D := by
  refine follows_beginTx ((h.fits_tame (.fetchOr silent_select)).bind_follows .start
    fun source _ hs => (h.fits_tame (.fetchOr silent_select)).bind_follows hs fun target _ hs =>
    (h.within (T := Db.dependenciesT) hfree Table.within_delete).bind_follows hs fun removed _ hs =>
    Prog.Fits.fork_follows h.bumpRevision (.pure _) hs fun _ _ hs =>
    h.cardUpdated.bind_follows hs fun _ s hs => ?_)
  split
  · exact h.touchTarget.bind_follows hs fun _ _ hs => follows_commitTx hs h.start
  · exact follows_commitTx hs h.start

theorem replayOr {cardId : ι} {change : Handler ι Unit} (hchange : change.Settled D) :
    (replayOr codec tenantId key cardId change).Settled D := by
  refine .bind (h.settled_tame .checkIdempotencyCard) fun found => ?_
  cases found with
  | some _ => exact h.settled_tame .fetchFullCard
  | none =>
      exact .bind hchange fun _ =>
        h.settled_tame (.bind .storeIdempotencyId fun _ => .fetchFullCard)

theorem addCardDependency {req : CardDependencyRequest} (hfree : ∀ r, Free (.dependency r)) :
    (addCardDependency codec ctx req).Settled D :=
  .bind h.dependencyRequest fun _ => .bind h.ensure fun _ => h.replayOr (h.linkCards hfree)

theorem removeCardDependency {req : CardDependencyRequest} (hfree : ∀ r, Free (.dependency r)) :
    (removeCardDependency codec ctx req).Settled D :=
  .bind h.dependencyRequest fun _ => h.replayOr (h.unlinkCards hfree)

end Lenient

end Kanban.Rpc
