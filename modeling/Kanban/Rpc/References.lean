import Kanban.Auth.PermissionClient

/-!
# The rows that refer to a card

A row as a record of its table, the cards that its columns name, and which of these references the
database removes together with the card.

## Main definitions

* `Db.Has` — the row is in its table.
* `Rec.same` — two rows of one table with one key.
* `Rec.cardRefs` — the cards that a row refers to.
* `Erased` — the cards are gone, and nothing that the database removes together with them is left.
-/

namespace Kanban.Store

open Program Kanban.Auth

variable {ι : Type}

/-- The row is in its table. -/
def Db.Has (db : Db ι) : Rec ι → Prop
  | .project r => r ∈ db.projects
  | .member r => r ∈ db.projectMembers
  | .refCounter r => r ∈ db.projectRefCounter
  | .board r => r ∈ db.boards
  | .column r => r ∈ db.columns
  | .card r => r ∈ db.cards
  | .milestone r => r ∈ db.milestones
  | .label r => r ∈ db.labels
  | .cardLabel r => r ∈ db.cardLabels
  | .assignee r => r ∈ db.cardAssignees
  | .checklistItem r => r ∈ db.checklistItems
  | .comment r => r ∈ db.comments
  | .attachment r => r ∈ db.cardAttachments
  | .dependency r => r ∈ db.cardDependencies
  | .githubLink r => r ∈ db.githubLinks
  | .idempotencyKey r => r ∈ db.idempotencyKeys
  | .event r => r ∈ db.eventLog
  | .aggregatedBoard r => r ∈ db.aggregatedBoards
  | .source r => r ∈ db.aggregatedBoardSources
  | .aggregatedMember r => r ∈ db.aggregatedBoardMembers
  | .boardTemplate r => r ∈ db.boardTemplates

/-- The cards that a row refers to. -/
def Rec.cardRefs : Rec ι → List ι
  | .cardLabel r => [r.cardId]
  | .assignee r => [r.cardId]
  | .checklistItem r => [r.cardId]
  | .comment r => [r.cardId]
  | .attachment r => [r.cardId]
  | .dependency r => [r.cardId, r.dependsOnCardId]
  | .githubLink r => [r.cardId]
  | .idempotencyKey r => r.responseCardId.toList
  | _ => []

/-- The reference goes with its card: it is a foreign key with a cascade. -/
def Rec.Cascades : Rec ι → Prop
  | .githubLink _ => False
  | .idempotencyKey _ => False
  | _ => True

variable [DecidableEq ι]

/-- Two rows of one table with one key. -/
def Rec.same : Rec ι → Rec ι → Bool
  | .project r, .project r' => Db.projectsT.same r r'
  | .member r, .member r' => Db.membersT.same r r'
  | .refCounter r, .refCounter r' => Db.refCounterT.same r r'
  | .board r, .board r' => Db.boardsT.same r r'
  | .column r, .column r' => Db.columnsT.same r r'
  | .card r, .card r' => Db.cardsT.same r r'
  | .milestone r, .milestone r' => Db.milestonesT.same r r'
  | .label r, .label r' => Db.labelsT.same r r'
  | .cardLabel r, .cardLabel r' => Db.cardLabelsT.same r r'
  | .assignee r, .assignee r' => Db.assigneesT.same r r'
  | .checklistItem r, .checklistItem r' => Db.checklistItemsT.same r r'
  | .comment r, .comment r' => Db.commentsT.same r r'
  | .attachment r, .attachment r' => Db.attachmentsT.same r r'
  | .dependency r, .dependency r' => Db.dependenciesT.same r r'
  | .githubLink r, .githubLink r' => Db.githubLinksT.same r r'
  | .idempotencyKey r, .idempotencyKey r' => Db.idempotencyKeysT.same r r'
  | .event r, .event r' => Db.eventLogT.same r r'
  | .aggregatedBoard r, .aggregatedBoard r' => Db.aggregatedBoardsT.same r r'
  | .source r, .source r' => Db.sourcesT.same r r'
  | .aggregatedMember r, .aggregatedMember r' => Db.aggregatedMembersT.same r r'
  | .boardTemplate r, .boardTemplate r' => Db.boardTemplatesT.same r r'
  | _, _ => false

theorem Rec.same_self (r : Rec ι) : r.same r = true := by
  cases r <;> simp [Rec.same]

section Has

variable {db : Db ι} {r r' : Rec ι} {a : Write (Rec ι)} {ws : List (Write (Rec ι))}

theorem has_del : (db.apply (.del r)).Has r' ↔ db.Has r' ∧ r.same r' = false := by
  cases r <;> cases r' <;> first | exact (and_iff_left rfl).symm | exact Table.mem_del

theorem has_put (h : (db.apply (.put r)).Has r') : r' = r ∨ db.Has r' ∧ r.same r' = false := by
  cases r <;> cases r' <;> first
    | exact .inr ⟨h, rfl⟩
    | exact (Table.mem_put h).imp_left (congrArg _)

theorem Db.Has.put (h : db.Has r') (hsame : r.same r' = false) : (db.apply (.put r)).Has r' := by
  cases r <;> cases r' <;> first
    | exact h
    | exact Table.mem_put_of_mem h hsame

/-- A row after some writes was written, or it was there and none of them is about its key. -/
theorem has_of_applyAll (h : ((kanban ι).applyAll db ws).Has r) :
    .put r ∈ ws ∨ db.Has r ∧ ∀ a ∈ ws, a.record.same r = false := by
  induction ws generalizing db with
  | nil => exact .inr ⟨h, List.forall_mem_nil _⟩
  | cons a ws ih =>
      rcases ih h with hput | ⟨hdb, hws⟩
      · exact .inl (List.mem_cons_of_mem _ hput)
      · cases a with
        | put r₀ =>
            rcases has_put hdb with rfl | ⟨hdb, hsame⟩
            · exact .inl List.mem_cons_self
            · exact .inr ⟨hdb, List.forall_mem_cons.mpr ⟨hsame, hws⟩⟩
        | del r₀ =>
            obtain ⟨hdb, hsame⟩ := has_del.mp hdb
            exact .inr ⟨hdb, List.forall_mem_cons.mpr ⟨hsame, hws⟩⟩

/-- A row that no write is about stays. -/
theorem Db.Has.applyAll (h : db.Has r) (hws : ∀ a ∈ ws, a.record.same r = false) :
    ((kanban ι).applyAll db ws).Has r := by
  induction ws generalizing db with
  | nil => exact h
  | cons a ws ih =>
      obtain ⟨ha, hws⟩ := List.forall_mem_cons.mp hws
      refine ih ?_ hws
      cases a with
      | put r₀ => exact h.put ha
      | del r₀ => exact has_del.mpr ⟨h, ha⟩

end Has

/-- The cards are gone. What is left of the references to them are links and recorded responses that
were there before, and all of the recorded responses are left. -/
structure Erased (cards : List (CardRow ι)) (db db' : Db ι) : Prop where
  removed : ∀ c ∈ cards, c ∉ db'.cards
  gone : ∀ c ∈ cards, ∀ r, db'.Has r → c.id ∈ r.cardRefs → db.Has r ∧ ¬ r.Cascades
  kept : ∀ k, db.Has (.idempotencyKey k) → db'.Has (.idempotencyKey k)

/-- A write that puts no card and nothing that refers to one, and leaves the recorded responses. -/
def Unreferring : Write (Rec ι) → Prop
  | .put (.card _) => False
  | .put (.idempotencyKey _) => False
  | .del (.idempotencyKey _) => False
  | .put r => r.cardRefs = []
  | .del _ => True

/-- Writes that delete the cards and what goes with them, and put nothing that refers to a card. -/
theorem erased_applyAll {cards : List (CardRow ι)} {db : Db ι} {ws : List (Write (Rec ι))}
    (hws : ∀ a ∈ ws, Unreferring a) (hcards : ∀ c ∈ cards, .del (.card c) ∈ ws)
    (hdel : ∀ c ∈ cards, ∀ r, db.Has r → c.id ∈ r.cardRefs → r.Cascades → .del r ∈ ws) :
    Erased cards db ((kanban ι).applyAll db ws) where
  removed c hc hleft := by
    have hleft : ((kanban ι).applyAll db ws).Has (.card c) := hleft
    rcases has_of_applyAll hleft with hput | ⟨-, hsame⟩
    · exact hws _ hput
    · have hsame : (Rec.card c).same (.card c) = false := hsame _ (hcards c hc)
      rw [Rec.same_self] at hsame
      cases hsame
  gone c hc r hr hrefs := by
    rcases has_of_applyAll hr with hput | ⟨hr, hsame⟩
    · have hnone : r.cardRefs = [] := by
        have := hws _ hput
        cases r <;> first | exact this | exact this.elim
      rw [hnone] at hrefs
      cases hrefs
    · refine ⟨hr, fun hcascades => ?_⟩
      have hsame : r.same r = false := hsame _ (hdel c hc r hr hrefs hcascades)
      rw [r.same_self] at hsame
      cases hsame
  kept k hk := by
    refine hk.applyAll fun a ha => ?_
    have := hws a ha
    cases a with
    | put r => cases r <;> first | rfl | exact this.elim
    | del r => cases r <;> first | rfl | exact this.elim

end Kanban.Store
