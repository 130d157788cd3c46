import Kanban.Rpc.Projects
import Mathlib.Data.List.Sort

/-!
# CardService: a card and what is read with it

A card is read with its labels, assignees, checklist, counts and dependencies.  Only the row
itself can fail the read; a relationship that cannot be read counts as empty.

## Main definitions

* `Card`, `cardFromRow` — the card of a response.
* `fetchFullCard`, `hydrateCard` — load a card with its relationships.
* `allocateCardRef` — the next reference of a project.
* `checkIdempotencyCard`, `storeIdempotencyCard` — the idempotency keys.
-/

namespace Kanban.Rpc

open Program Kanban.Store Kanban.Auth
open Kanban.Services (AuthContext ConnectError ErrorCode IdCodec)

variable {ι τ : Type} [DecidableEq ι]

/-- The permission type of a card. -/
def permissionTypeCard : String := "KanbanCard"

/-- The permission type of a board. -/
def permissionTypeBoard : String := "KanbanBoard"

/-- The subject of a parent tuple: `KanbanBoard:{board_id}`. -/
def boardSubject (codec : IdCodec ι) (boardId : ι) : String :=
  permissionTypeBoard ++ ":" ++ codec.toString boardId

def defaultPageLimit : ℕ := 50

def maxPageLimit : ℕ := 200

/-- A request page limit: unset is the default, anything else is at most the maximum. -/
def pageLimit (requestLimit : ℤ) : ℕ :=
  if requestLimit ≤ 0 then defaultPageLimit else min requestLimit.toNat maxPageLimit

/-- A page holds at least one row and at most the maximum. -/
theorem pageLimit_bounds (requestLimit : ℤ) :
    0 < pageLimit requestLimit ∧ pageLimit requestLimit ≤ maxPageLimit := by
  unfold pageLimit maxPageLimit
  split
  · decide
  · omega

/-- The value of an `INT` column; a value out of range fails the statement. -/
def int4 (n : ℤ) : Option ℤ := if -2147483648 ≤ n ∧ n < 2147483648 then some n else none

theorem int4_eq_some {n m : ℤ} (h : int4 n = some m) : m = n := by
  unfold int4 at h
  split at h
  · exact (Option.some.inj h).symm
  · cases h

/-! ## Timestamps -/

/-- A timestamp of a request or a response: a time of Unix in seconds, and the nanoseconds after it. -/
structure Timestamp where
  seconds : ℤ
  nanos : ℤ
  deriving DecidableEq, Repr

/-- The instant in nanoseconds. -/
def Timestamp.instant (ts : Timestamp) : ℤ := ts.seconds * 1000000000 + ts.nanos

/-- The start of the year 2000, from which a `TIMESTAMPTZ` counts, in microseconds. -/
def postgresEpoch : ℤ := 946684800000000

/-- `DateTime::from_timestamp`, as the microseconds that a `TIMESTAMPTZ` keeps of it.  A year that
chrono does not have gives nothing, nor do nanoseconds past the second, but for a leap second. -/
def fromProtoTs (ts : Timestamp) : Option ℤ :=
  -- `as u32`
  let nanos := ts.nanos % 4294967296
  if (-8334601228800 ≤ ts.seconds ∧ ts.seconds ≤ 8210266876799) ∧
      (nanos < 1000000000 ∨ nanos < 2000000000 ∧ ts.seconds % 60 = 59) then
    some (postgresEpoch +
      (ts.seconds * 1000000000 + nanos - postgresEpoch * 1000).tdiv 1000)
  else none

def toProtoTs (micros : ℤ) : Timestamp := ⟨micros / 1000000, micros % 1000000 * 1000⟩

/-! ## Priority and urgency -/

def priorityToI32 (s : String) : ℤ :=
  if s = "low" then 1 else if s = "medium" then 2 else if s = "high" then 3
  else if s = "urgent" then 4 else 0

def priorityFromI32 : ℤ → String
  | 1 => "low"
  | 2 => "medium"
  | 3 => "high"
  | 4 => "urgent"
  | _ => "medium"

def urgencyToI32 (s : String) : ℤ :=
  if s = "low" then 1 else if s = "medium" then 2 else if s = "high" then 3
  else if s = "critical" then 4 else 0

def urgencyFromI32 : ℤ → String
  | 1 => "low"
  | 2 => "medium"
  | 3 => "high"
  | 4 => "critical"
  | _ => "medium"

/-- How a value of an enumeration is serialized: by its name in the protocol, an unknown one as it
is. -/
def enumJson (names : List String) (v : ℤ) : Atom :=
  if 0 ≤ v then
    match names[v.toNat]? with
    | some name => .str name
    | none => .num v
  else .num v

def cardPriorityNames : List String :=
  ["CARD_PRIORITY_UNSPECIFIED", "CARD_PRIORITY_LOW", "CARD_PRIORITY_MEDIUM", "CARD_PRIORITY_HIGH",
    "CARD_PRIORITY_URGENT"]

def cardUrgencyNames : List String :=
  ["CARD_URGENCY_UNSPECIFIED", "CARD_URGENCY_LOW", "CARD_URGENCY_MEDIUM", "CARD_URGENCY_HIGH",
    "CARD_URGENCY_CRITICAL"]

/-- What is stored for a priority reads back; an unknown one is medium. -/
theorem priorityToI32_priorityFromI32 (v : ℤ) :
    priorityToI32 (priorityFromI32 v) = if 1 ≤ v ∧ v ≤ 4 then v else 2 := by
  unfold priorityFromI32
  split
  · decide
  · decide
  · decide
  · decide
  · rename_i h1 h2 h3 h4
    have hno : ¬ (1 ≤ v ∧ v ≤ 4) := by
      have h1 : v ≠ 1 := h1
      have h2 : v ≠ 2 := h2
      have h3 : v ≠ 3 := h3
      have h4 : v ≠ 4 := h4
      omega
    rw [if_neg hno]
    decide

/-- What is stored for an urgency reads back; an unknown one is medium. -/
theorem urgencyToI32_urgencyFromI32 (v : ℤ) :
    urgencyToI32 (urgencyFromI32 v) = if 1 ≤ v ∧ v ≤ 4 then v else 2 := by
  unfold urgencyFromI32
  split
  · decide
  · decide
  · decide
  · decide
  · rename_i h1 h2 h3 h4
    have hno : ¬ (1 ≤ v ∧ v ≤ 4) := by
      have h1 : v ≠ 1 := h1
      have h2 : v ≠ 2 := h2
      have h3 : v ≠ 3 := h3
      have h4 : v ≠ 4 := h4
      omega
    rw [if_neg hno]
    decide

/-! ## The card of a response -/

structure Label where
  id : String
  projectId : String
  name : String
  style : String
  deriving DecidableEq, Repr

structure ChecklistItem where
  id : String
  text : String
  done : Bool
  position : ℤ
  deriving DecidableEq, Repr

structure Comment where
  id : String
  cardId : String
  authorSub : String
  body : String
  deriving DecidableEq, Repr

/-- Derived card metadata that is not stored on the row itself. -/
structure CardAggregates where
  commentsCount : ℤ
  attachmentsCount : ℤ
  dependsOnCardIds : List String
  dependentCardIds : List String
  deriving DecidableEq, Repr

structure Card where
  id : String
  projectId : String
  boardId : String
  columnId : String
  ref : String
  title : String
  description : String
  priority : ℤ
  due : Option Timestamp
  completedAt : Option Timestamp
  blocked : Bool
  cover : String
  milestoneId : String
  position : ℤ
  labels : List Label
  assignees : List String
  checklist : List ChecklistItem
  aggregates : CardAggregates
  revision : ℤ
  urgency : ℤ
  deriving DecidableEq, Repr

section FromRow

variable (codec : IdCodec ι)

omit [DecidableEq ι]

def labelFromRow (row : LabelRow ι) : Label where
  id := codec.toString row.id
  projectId := (row.projectId.map codec.toString).getD ""
  name := row.name
  style := row.style

def checklistItemFromRow (row : ChecklistItemRow ι) : ChecklistItem where
  id := codec.toString row.id
  text := row.text
  done := row.done
  position := row.position

def commentFromRow (row : CommentRow ι) : Comment where
  id := codec.toString row.id
  cardId := codec.toString row.cardId
  authorSub := row.authorSub
  body := row.body

def cardFromRow (row : CardRow ι) (labels : List Label) (assignees : List String)
    (checklist : List ChecklistItem) (aggregates : CardAggregates) : Card where
  id := codec.toString row.id
  projectId := codec.toString row.projectId
  boardId := codec.toString row.boardId
  columnId := codec.toString row.columnId
  ref := row.ref
  title := row.title
  description := row.description.getD ""
  priority := priorityToI32 row.priority
  due := row.dueDate.map toProtoTs
  completedAt := row.completedAt.map toProtoTs
  blocked := row.blocked
  cover := row.cover.getD ""
  milestoneId := (row.milestoneId.map codec.toString).getD ""
  position := row.position
  labels := labels
  assignees := assignees
  checklist := checklist
  aggregates := aggregates
  revision := row.revision
  urgency := urgencyToI32 row.urgency

end FromRow

/-! ## Fetching a card -/

/-- `fetch_all(…).unwrap_or_default()`. -/
def fetchAll (s : Stmt (Db ι) (Rec ι) (List τ)) : Handler ι (List τ) :=
  (attempt s).bind fun rows => .pure (rows.getD [])

/-- `fetch_optional`, then `ok_or_else`. -/
def fetchOr (msg : String) (e : ConnectError) (s : Stmt (Db ι) (Rec ι) (List τ)) : Handler ι τ :=
  (fetchOptional msg s).bind (orError e)

/-- `SELECT … FROM labels l JOIN card_labels cl … WHERE cl.card_id = $1 AND l.tenant_id = $2
ORDER BY l.name`. -/
def selectLabels (tenantId : String) (cardId : ι) : Stmt (Db ι) (Rec ι) (List (LabelRow ι)) :=
  fun db =>
    let rows := db.labels.filter fun l => l.tenantId = tenantId ∧
      db.cardLabels.any fun cl => cl.cardId = cardId ∧ cl.labelId = l.id
    some ⟨rows.insertionSort fun l l' => l.name ≤ l'.name, rows.map .label, []⟩

/-- `SELECT … FROM checklist_items … ORDER BY position ASC`. -/
def selectChecklist (tenantId : String) (cardId : ι) :
    Stmt (Db ι) (Rec ι) (List (ChecklistItemRow ι)) :=
  fun db =>
    let rows := db.checklistItems.filter fun i => i.cardId = cardId ∧ i.tenantId = tenantId
    some ⟨rows.insertionSort fun i i' => i.position ≤ i'.position, rows.map .checklistItem, []⟩

/-- True if the card exists in the tenant. -/
def cardInTenant (db : Db ι) (tenantId : String) (cardId : ι) : Bool :=
  db.cards.any fun c => c.id = cardId ∧ c.tenantId = tenantId

/-- `SELECT … FROM card_dependencies WHERE card_id = $1 AND card_id IN (…)`. -/
def selectDependencies (tenantId : String) (cardId : ι) :
    Stmt (Db ι) (Rec ι) (List (DependencyRow ι)) :=
  fun db => Db.dependenciesT.select (fun d => d.cardId = cardId ∧ cardInTenant db tenantId cardId) db

/-- `SELECT … FROM card_dependencies WHERE depends_on_card_id = $1 AND depends_on_card_id IN (…)`. -/
def selectDependents (tenantId : String) (cardId : ι) :
    Stmt (Db ι) (Rec ι) (List (DependencyRow ι)) :=
  fun db => Db.dependenciesT.select
    (fun d => d.dependsOnCardId = cardId ∧ cardInTenant db tenantId cardId) db

/-- `SELECT … FROM cards WHERE id = $1 AND tenant_id = $2`. -/
def selectCard (tenantId : String) (cardId : ι) : Stmt (Db ι) (Rec ι) (List (CardRow ι)) :=
  Db.cardsT.select fun c => c.id = cardId ∧ c.tenantId = tenantId

def fetchLabels (codec : IdCodec ι) (tenantId : String) (cardId : ι) : Handler ι (List Label) := do
  let rows ← fetchAll (selectLabels tenantId cardId)
  .pure (rows.map (labelFromRow codec))

def fetchAssignees (tenantId : String) (cardId : ι) : Handler ι (List String) := do
  let rows ← fetchAll
    (Db.assigneesT.select fun a => a.cardId = cardId ∧ a.tenantId = tenantId)
  .pure (rows.map AssigneeRow.subject)

def fetchChecklist (codec : IdCodec ι) (tenantId : String) (cardId : ι) :
    Handler ι (List ChecklistItem) := do
  let rows ← fetchAll (selectChecklist tenantId cardId)
  .pure (rows.map (checklistItemFromRow codec))

def fetchCommentsCount (tenantId : String) (cardId : ι) : Handler ι ℤ := do
  let rows ← fetchAll (Db.commentsT.select fun c => c.cardId = cardId ∧ c.tenantId = tenantId)
  .pure rows.length

def fetchAttachmentsCount (tenantId : String) (cardId : ι) : Handler ι ℤ := do
  let rows ← fetchAll (Db.attachmentsT.select fun a => a.cardId = cardId ∧ a.tenantId = tenantId)
  .pure rows.length

def fetchDependencies (codec : IdCodec ι) (tenantId : String) (cardId : ι) :
    Handler ι (List String) := do
  let rows ← fetchAll (selectDependencies tenantId cardId)
  .pure (rows.map fun d => codec.toString d.dependsOnCardId)

def fetchDependents (codec : IdCodec ι) (tenantId : String) (cardId : ι) :
    Handler ι (List String) := do
  let rows ← fetchAll (selectDependents tenantId cardId)
  .pure (rows.map fun d => codec.toString d.cardId)

/-- Load the relationships of a card. -/
def hydrateCard (codec : IdCodec ι) (tenantId : String) (row : CardRow ι) : Handler ι Card := do
  let labels ← fetchLabels codec tenantId row.id
  let assignees ← fetchAssignees tenantId row.id
  let checklist ← fetchChecklist codec tenantId row.id
  let commentsCount ← fetchCommentsCount tenantId row.id
  let attachmentsCount ← fetchAttachmentsCount tenantId row.id
  let dependsOn ← fetchDependencies codec tenantId row.id
  let dependents ← fetchDependents codec tenantId row.id
  .pure (cardFromRow codec row labels assignees checklist
    ⟨commentsCount, attachmentsCount, dependsOn, dependents⟩)

/-- `fetch_full_card`: load a complete card, including its relationships, by id. -/
def fetchFullCard (codec : IdCodec ι) (tenantId : String) (cardId : ι) : Handler ι Card := do
  let row ← fetchOr "failed to fetch card" (notFound "card not found") (selectCard tenantId cardId)
  hydrateCard codec tenantId row

/-! ## The reference of a card -/

/-- `{seq:03}`. -/
def padSeq (seq : ℤ) : String :=
  let sign := if seq < 0 then "-" else ""
  let digits := (Nat.toDigits 10 seq.natAbs)
  sign ++ String.ofList (List.replicate (3 - sign.length - digits.length) '0' ++ digits)

/-- `pg_advisory_xact_lock` reads and writes no table. -/
def advisoryLock : Stmt (Db ι) (Rec ι) Unit := fun _ => some ⟨(), [], []⟩

/-- `INSERT INTO project_ref_counter … SELECT … FROM projects … ON CONFLICT DO UPDATE …
RETURNING prefix, next_seq - 1`: no row when the project does not exist. -/
def nextCardRef (tenantId : String) (projectId : ι) : Stmt (Db ι) (Rec ι) (List (String × ℤ)) :=
  fun db =>
    match db.projects.find? fun p => p.id = projectId ∧ p.tenantId = tenantId with
    | none => some ⟨[], [], []⟩
    | some p =>
        (Db.refCounterT.upsert ⟨projectId, tenantId, p.refPrefix, 2⟩ (fun r =>
          { r with nextSeq := r.nextSeq + 1, refPrefix := p.refPrefix }) db).map fun e =>
            ⟨[(e.answer.refPrefix, e.answer.nextSeq - 1)], .project p :: e.read, e.writes⟩

/-- `allocate_card_ref`: the counter of the project, under its advisory lock. -/
def allocateCardRef (tenantId : String) (projectId : ι) : Handler ι String := do
  query "advisory lock failed" advisoryLock
  let row ← fetchOne "failed to allocate card ref" (nextCardRef tenantId projectId)
  .pure (row.1 ++ "-" ++ padSeq row.2)

/-! ## Idempotency -/

/-- `check_idempotency_card`: the card stored for a replayed key. -/
def checkIdempotencyCard (tenantId key : String) : Handler ι (Option ι) :=
  if key = "" then .pure none
  else do
    let row ← fetchOptional "idempotency key lookup failed" (selectIdempotencyKey tenantId key)
    .pure (row.bind IdempotencyRow.responseCardId)

/-- `store_idempotency_card`. -/
def storeIdempotencyCard (tenantId key : String) (cardId : ι) : Handler ι Unit :=
  storeIdempotencyId tenantId key cardId

end Kanban.Rpc
