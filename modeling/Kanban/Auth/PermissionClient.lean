import Kanban.Store.Rows
import Kanban.Services.Common

/-!
# The permission client

What a handler asks of the services outside of the database: the permission backend with its
relation tuples, the user directory, and the generator of ids.  The backend answers as the
environment chooses, except that a tuple it lists is stored, a granted tuple is stored and a
deleted one is not.  A grant or a deletion that fails was refused, or it took effect and its
answer was lost.

A listing is paged by keyset: a page resumes strictly after the last tuple listed.

## Main definitions

* `RelationTuple`, `Backend` — the tuples, and the state of the services.
* `Call`, `Reply`, `Move`, `react` — the calls and how they are answered.
* `kanban` — the semantics of the handlers.
* `Handler` — the programs of the handlers.
* `grantWithRetry`, `checkPermissionWithRetry`, `deleteRelationTuples` — the client.
-/

namespace Kanban.Auth

open Program Kanban.Store
open Kanban.Services (ConnectError PermissionQuery)

/-- A relation tuple of a tenant's store. -/
structure RelationTuple where
  id : ℕ
  tenant : String
  namespaceName : String
  object : String
  relation : String
  subjectId : String
  deriving DecidableEq, Repr

/-- The state of the services: the tuples in the order of their ids, the next tuple id, and
the ids that `Id::new()` has issued. -/
structure Backend (ι : Type) where
  tuples : List RelationTuple
  nextId : ℕ
  issued : List ι
  sorted : tuples.Pairwise fun t t' => t.id < t'.id
  fresh : ∀ t ∈ tuples, t.id < nextId

/-- The filter of `ListRelationTuples`; an empty object or relation matches any. -/
structure TupleFilter where
  tenant : String
  namespaceName : String
  object : Option String
  relation : Option String
  deriving DecidableEq, Repr

/-- True if the tuple is listed under the filter. -/
def TupleFilter.admits (f : TupleFilter) (t : RelationTuple) : Bool :=
  t.tenant = f.tenant ∧ t.namespaceName = f.namespaceName ∧
    (∀ o ∈ f.object, t.object = o) ∧ (∀ r ∈ f.relation, t.relation = r)

/-- A call of a handler to a service. -/
inductive Call (ι : Type)
  | tenantClient (tenant : String)
  | checkPermission (tenant : String) (query : PermissionQuery)
  | createRelationTuple (tenant namespaceName object relation subjectId : String)
  | listRelationTuples (filter : TupleFilter) (after : Option ℕ)
  | deleteRelationTuple (id : ℕ)
  | resolveSubject (tenant input : String)
  | newId
  /-- A loop that has not ended. -/
  | diverge

/-- A backend error; a transient one is retried. -/
structure BackendError where
  transient : Bool
  deriving DecidableEq, Repr

/-- The answer of a call. -/
@[reducible] def Reply (ι : Type) : Call ι → Type
  | .tenantClient _ => Bool
  | .checkPermission _ _ => Except BackendError Bool
  | .createRelationTuple _ _ _ _ _ => Except BackendError Unit
  | .listRelationTuples _ _ => Option (List RelationTuple × Option ℕ)
  | .deleteRelationTuple _ => Bool
  | .resolveSubject _ _ => Except ConnectError String
  | .newId => ι
  | .diverge => Empty

/-- How the environment answers a call. -/
inductive Move (ι : Type)
  | done
  | refuse (transient : Bool)
  | lose (transient : Bool)
  | answer (granted : Bool)
  | page (size : ℕ)
  | resolved (subject : Except ConnectError String)
  | fresh (id : ι)

namespace Backend

variable {ι : Type}

/-- The services before the first call. -/
def empty : Backend ι where
  tuples := []
  nextId := 0
  issued := []
  sorted := .nil
  fresh _ ht := absurd ht List.not_mem_nil

variable [DecidableEq ι]

/-- True if the tenant's store holds the tuple. -/
def Holds (b : Backend ι) (tenant namespaceName object relation subjectId : String) : Prop :=
  ∃ t ∈ b.tuples, t.tenant = tenant ∧ t.namespaceName = namespaceName ∧ t.object = object ∧
    t.relation = relation ∧ t.subjectId = subjectId

instance (b : Backend ι) (tenant namespaceName object relation subjectId : String) :
    Decidable (b.Holds tenant namespaceName object relation subjectId) := by
  unfold Holds
  infer_instance

/-- Store a tuple; one that is there is not written twice. -/
def create (b : Backend ι) (tenant namespaceName object relation subjectId : String) :
    Backend ι :=
  if b.Holds tenant namespaceName object relation subjectId then b
  else { b with
    tuples := b.tuples ++ [⟨b.nextId, tenant, namespaceName, object, relation, subjectId⟩]
    nextId := b.nextId + 1
    sorted := List.pairwise_append.mpr ⟨b.sorted, List.pairwise_singleton _ _, by
      intro t ht t' ht'
      rw [List.mem_singleton.mp ht']
      exact b.fresh t ht⟩
    fresh := by
      intro t ht
      rcases List.mem_append.mp ht with ht | ht
      · exact Nat.lt_succ_of_lt (b.fresh t ht)
      · rw [List.mem_singleton.mp ht]
        exact Nat.lt_succ_self _ }

omit [DecidableEq ι] in
theorem holds_create_self {b : Backend ι} {tenant namespaceName object relation subjectId : String} :
    (b.create tenant namespaceName object relation subjectId).Holds tenant namespaceName object
      relation subjectId := by
  unfold create
  split
  · assumption
  · exact ⟨_, List.mem_append_right _ (List.mem_singleton_self _), rfl, rfl, rfl, rfl, rfl⟩

omit [DecidableEq ι] in
/-- A grant keeps every tuple. -/
theorem mem_create {b : Backend ι} {tenant namespaceName object relation subjectId : String}
    {t : RelationTuple} (h : t ∈ b.tuples) :
    t ∈ (b.create tenant namespaceName object relation subjectId).tuples := by
  unfold create
  split
  · exact h
  · exact List.mem_append_left _ h

omit [DecidableEq ι] in
theorem Holds.create {b : Backend ι} {tenant namespaceName object relation subjectId : String}
    {tenant' namespaceName' object' relation' subjectId' : String}
    (h : b.Holds tenant namespaceName object relation subjectId) :
    (b.create tenant' namespaceName' object' relation' subjectId').Holds tenant namespaceName
      object relation subjectId := by
  obtain ⟨t, ht, hfields⟩ := h
  exact ⟨t, mem_create ht, hfields⟩

/-- Remove the tuple with the id. -/
def delete (b : Backend ι) (id : ℕ) : Backend ι :=
  { b with
    tuples := b.tuples.filter fun t => t.id ≠ id
    sorted := b.sorted.filter _
    fresh := fun t ht => b.fresh t (List.mem_filter.mp ht).1 }

/-- The tuples under the filter that come after the last one listed. -/
def pending (b : Backend ι) (f : TupleFilter) (after : Option ℕ) : List RelationTuple :=
  b.tuples.filter fun t => f.admits t && (after.all (· < t.id))

/-- One page of a listing and the token of the next one. -/
def page (b : Backend ι) (f : TupleFilter) (after : Option ℕ) (size : ℕ) :
    List RelationTuple × Option ℕ :=
  ((b.pending f after).take size,
    if (b.pending f after).length ≤ size then none
    else ((b.pending f after).take size).getLast?.map RelationTuple.id)

end Backend

section React

variable {ι : Type} [DecidableEq ι]

/-- How the services answer. -/
def react : (c : Call ι) → Move ι → Backend ι → Option (Reply ι c × Backend ι)
  | .tenantClient _, .done, b => some (true, b)
  | .tenantClient _, .refuse _, b => some (false, b)
  | .checkPermission _ _, .answer granted, b => some (.ok granted, b)
  | .checkPermission _ _, .refuse transient, b => some (.error ⟨transient⟩, b)
  | .createRelationTuple tenant ns object relation subject, .done, b =>
      some (.ok (), b.create tenant ns object relation subject)
  | .createRelationTuple _ _ _ _ _, .refuse transient, b => some (.error ⟨transient⟩, b)
  | .createRelationTuple tenant ns object relation subject, .lose transient, b =>
      some (.error ⟨transient⟩, b.create tenant ns object relation subject)
  | .listRelationTuples f after, .page size, b =>
      if 0 < size then some (some (b.page f after size), b) else none
  | .listRelationTuples _ _, .refuse _, b => some (none, b)
  | .deleteRelationTuple id, .done, b => some (true, b.delete id)
  | .deleteRelationTuple _, .refuse _, b => some (false, b)
  | .deleteRelationTuple id, .lose _, b => some (false, b.delete id)
  | .resolveSubject _ _, .resolved subject, b => some (subject, b)
  | .newId, .fresh id, b =>
      if id ∈ b.issued then none else some (id, { b with issued := id :: b.issued })
  | _, _, _ => none

/-- The semantics of the handlers. -/
def kanban (ι : Type) [DecidableEq ι] :
    Semantics (Db ι) (Rec ι) (Call ι) (Reply ι) (Backend ι) (Move ι) where
  apply := Db.apply
  react := react

@[simp] theorem kanban_apply (db : Db ι) (a : Write (Rec ι)) :
    (kanban ι).apply db a = db.apply a := rfl

/-! What a write does to the rows of a table. -/

theorem stored_boards : Table.Stored (kanban ι) Db.boardsT where
  inj _ _ h := by cases h; rfl
  put _ _ := rfl
  del _ _ := rfl
  other _ a h := by rcases a with (r | r) <;> cases r <;> first | rfl | exact absurd rfl (h _)

theorem stored_columns : Table.Stored (kanban ι) Db.columnsT where
  inj _ _ h := by cases h; rfl
  put _ _ := rfl
  del _ _ := rfl
  other _ a h := by rcases a with (r | r) <;> cases r <;> first | rfl | exact absurd rfl (h _)

theorem stored_cards : Table.Stored (kanban ι) Db.cardsT where
  inj _ _ h := by cases h; rfl
  put _ _ := rfl
  del _ _ := rfl
  other _ a h := by rcases a with (r | r) <;> cases r <;> first | rfl | exact absurd rfl (h _)

theorem stored_milestones : Table.Stored (kanban ι) Db.milestonesT where
  inj _ _ h := by cases h; rfl
  put _ _ := rfl
  del _ _ := rfl
  other _ a h := by rcases a with (r | r) <;> cases r <;> first | rfl | exact absurd rfl (h _)

theorem stored_labels : Table.Stored (kanban ι) Db.labelsT where
  inj _ _ h := by cases h; rfl
  put _ _ := rfl
  del _ _ := rfl
  other _ a h := by rcases a with (r | r) <;> cases r <;> first | rfl | exact absurd rfl (h _)

theorem stored_cardLabels : Table.Stored (kanban ι) Db.cardLabelsT where
  inj _ _ h := by cases h; rfl
  put _ _ := rfl
  del _ _ := rfl
  other _ a h := by rcases a with (r | r) <;> cases r <;> first | rfl | exact absurd rfl (h _)

theorem stored_checklistItems : Table.Stored (kanban ι) Db.checklistItemsT where
  inj _ _ h := by cases h; rfl
  put _ _ := rfl
  del _ _ := rfl
  other _ a h := by rcases a with (r | r) <;> cases r <;> first | rfl | exact absurd rfl (h _)

theorem stored_aggregatedBoards : Table.Stored (kanban ι) Db.aggregatedBoardsT where
  inj _ _ h := by cases h; rfl
  put _ _ := rfl
  del _ _ := rfl
  other _ a h := by rcases a with (r | r) <;> cases r <;> first | rfl | exact absurd rfl (h _)

theorem stored_sources : Table.Stored (kanban ι) Db.sourcesT where
  inj _ _ h := by cases h; rfl
  put _ _ := rfl
  del _ _ := rfl
  other _ a h := by rcases a with (r | r) <;> cases r <;> first | rfl | exact absurd rfl (h _)

/-! The keys of the tables whose rows have a place. -/

theorem same_cards (c c' : CardRow ι) : Db.cardsT.same c c' = true ↔ c.id = c'.id :=
  decide_eq_true_iff

theorem same_columns (k k' : ColumnRow ι) : Db.columnsT.same k k' = true ↔ k.id = k'.id :=
  decide_eq_true_iff

theorem same_checklistItems (i i' : ChecklistItemRow ι) :
    Db.checklistItemsT.same i i' = true ↔ i.id = i'.id :=
  decide_eq_true_iff

theorem same_sources (r r' : SourceRow ι) : Db.sourcesT.same r r' = true ↔
    (r.aggregatedBoardId, r.boardId) = (r'.aggregatedBoardId, r'.boardId) :=
  decide_eq_true_iff.trans Prod.mk_inj.symm

end React

/-- The programs of the handlers. -/
abbrev Handler (ι : Type) := Prog (Db ι) (Rec ι) (Call ι) (Reply ι) ConnectError

section Client

variable {ι : Type}

/-- Attempts of `retry`. -/
def maxRetries : ℕ := 8

/-- `grant_with_retry`: true if the tuple was written. -/
def grantWithRetry (tenant namespaceName object relation subject : String) : Handler ι Bool :=
  attempt maxRetries
where
  attempt : ℕ → Handler ι Bool
    | 0 => .pure false
    | n + 1 => .call (.createRelationTuple tenant namespaceName object relation subject) fun
      | .ok _ => .pure true
      | .error e => if e.transient then attempt n else .pure false

/-- `check_permission_with_retry`; `none` when the backend failed. -/
def checkPermissionWithRetry (tenant : String) (query : PermissionQuery) :
    Handler ι (Option Bool) :=
  attempt maxRetries
where
  attempt : ℕ → Handler ι (Option Bool)
    | 0 => .pure none
    | n + 1 => .call (.checkPermission tenant query) fun
      | .ok granted => .pure (some granted)
      | .error e => if e.transient then attempt n else .pure none

/-- Delete the tuples of one page that have the subject; false as soon as a call fails. -/
def deletePage (subject : Option String) : List RelationTuple → Handler ι Bool
  | [] => .pure true
  | t :: rest =>
      if ∀ s ∈ subject, t.subjectId = s then
        .call (.deleteRelationTuple t.id) fun ok =>
          if ok then deletePage subject rest else .pure false
      else deletePage subject rest

/-- `delete_relation_tuples`: list page after page and delete each tuple of the subject. The
loop takes at most `pages` rounds before it counts as not ended. -/
def deleteRelationTuples (pages : ℕ) (filter : TupleFilter) (subject : Option String) :
    Handler ι Bool :=
  loop pages none
where
  loop : ℕ → Option ℕ → Handler ι Bool
    | 0, _ => .call .diverge fun e => e.elim
    | n + 1, after => .call (.listRelationTuples filter after) fun
      | none => .pure false
      | some (tuples, next) => (deletePage subject tuples).bind fun ok =>
          if ok then
            match next with
            | none => .pure true
            | some token => loop n (some token)
          else .pure false

end Client

end Kanban.Auth
