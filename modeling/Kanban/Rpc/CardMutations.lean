import Kanban.Rpc.Cards

/-!
# CardService: where a card is

The handlers that create a card, patch it, move it, transfer it to another project and delete
it.

## Main definitions

* `createCard`, `updateCard`, `moveCard`, `transferCard`, `deleteCard` — the handlers.
-/

namespace Kanban.Rpc

open Program Kanban.Store Kanban.Auth
open Kanban.Services (AuthContext ConnectError ErrorCode IdCodec)

variable {ι : Type} [DecidableEq ι]

/-! ## Statements -/

/-- `SELECT … FROM boards WHERE id = $1 AND tenant_id = $2`. -/
def selectBoard (tenantId : String) (boardId : ι) : Stmt (Db ι) (Rec ι) (List (BoardRow ι)) :=
  Db.boardsT.select fun b => b.id = boardId ∧ b.tenantId = tenantId

/-- `SELECT … FROM columns WHERE id = $1 AND tenant_id = $2`. -/
def selectColumn (tenantId : String) (columnId : ι) : Stmt (Db ι) (Rec ι) (List (ColumnRow ι)) :=
  Db.columnsT.select fun c => c.id = columnId ∧ c.tenantId = tenantId

/-- `SELECT COALESCE(MAX(position), -1) + 1 FROM cards WHERE column_id = $1 AND tenant_id = $2`. -/
def nextPosition (tenantId : String) (columnId : ι) : Stmt (Db ι) (Rec ι) ℤ := fun db =>
  let rows := db.cards.filter fun c => c.columnId = columnId ∧ c.tenantId = tenantId
  (int4 (((rows.map CardRow.position).max?).getD (-1) + 1)).map fun n => ⟨n, rows.map .card, []⟩

/-- `UPDATE cards SET position = position + $ WHERE column_id = $1 AND tenant_id = $2 AND …`. -/
def shiftCards (tenantId : String) (columnId : ι) (p : ℤ → Bool) (delta : ℤ) :
    Stmt (Db ι) (Rec ι) (List (CardRow ι)) :=
  Db.cardsT.updateChecked (fun c => c.columnId = columnId ∧ c.tenantId = tenantId ∧ p c.position)
    fun c => (int4 (c.position + delta)).map fun n => { c with position := n }

/-- `INSERT INTO cards`; the key is `id`, and `(tenant_id, project_id, ref)` is unique. -/
def insertCard (row : CardRow ι) : Stmt (Db ι) (Rec ι) Unit := fun db =>
  if db.cards.any fun c =>
      c.tenantId = row.tenantId ∧ c.projectId = row.projectId ∧ c.ref = row.ref then none
  else Db.cardsT.insert row db

/-- `UPDATE cards SET … WHERE id = $1 AND tenant_id = $2 RETURNING …`. -/
def updateCardRow (tenantId : String) (cardId : ι) (f : CardRow ι → CardRow ι) :
    Stmt (Db ι) (Rec ι) (List (CardRow ι)) :=
  Db.cardsT.update (fun c => c.id = cardId ∧ c.tenantId = tenantId) f

/-- The milestone of a request; it must belong to the project. -/
def checkMilestone (codec : IdCodec ι) (tenantId : String) (projectId : ι) (milestoneId : String) :
    Handler ι (Option ι) :=
  if milestoneId = "" then .pure none
  else do
    let mid ← parseId codec "invalid milestone_id" milestoneId
    let row ← fetchOptional "failed to check milestone" (Db.milestonesT.select fun m =>
      m.id = mid ∧ m.tenantId = tenantId ∧ m.projectId = projectId)
    ensure (row.isSome) (invalidArgument "milestone not found in this project")
    .pure (some mid)

/-- `CASE WHEN $to_done THEN COALESCE(completed_at, now()) WHEN $from_done THEN NULL ELSE
completed_at END`. -/
def completedAfter (now : ℤ) (fromIsDone toIsDone : Bool) (old : Option ℤ) : Option ℤ :=
  if toIsDone then some (old.getD now) else if fromIsDone then none else old

/-- The parent tuples of a card under a board. -/
def parentTuples (codec : IdCodec ι) (tenant : String) (cardId : ι) : TupleFilter :=
  ⟨tenant, permissionTypeCard, some (codec.toString cardId), some "parent"⟩

/-- Re-home the permission parent tuple, so that access follows the target board.
Best-effort. -/
def rehomeParent (codec : IdCodec ι) (pages : ℕ) (permission : String) (cardId boardId : ι)
    (targetBoardId : ι) : Handler ι Unit := do
  let _ ← deleteRelationTuples pages (parentTuples codec permission cardId)
    (some (boardSubject codec boardId))
  let _ ← grantWithRetry permission permissionTypeCard (codec.toString cardId) "parent"
    (boardSubject codec targetBoardId)
  .pure ()

/-! ## CreateCard -/

structure CreateCardRequest where
  columnId : String
  title : String
  description : String
  priority : ℤ
  due : Option Timestamp
  milestoneId : String
  position : ℤ
  idempotencyKey : String
  urgency : ℤ
  deriving DecidableEq, Repr

/-- The position of a new card: at the end of the column, or where the request says. -/
def insertPosition (tenantId : String) (columnId : ι) (position : ℤ) : Handler ι ℤ :=
  if position = 0 then
    (attempt (nextPosition tenantId columnId)).bind fun n => .pure (n.getD 0)
  else
    (query "failed to shift positions" (shiftCards tenantId columnId (position ≤ ·) 1)).bind
      fun _ => .pure position

/-- The row of a new card. -/
def newCardRow (ctx : RequestContext) (subject tenantId : String) (board : BoardRow ι)
    (column : ColumnRow ι) (req : CreateCardRequest) (cardId : ι) (cardRef : String) (position : ℤ)
    (milestoneId : Option ι) : CardRow ι where
  id := cardId
  tenantId := tenantId
  projectId := board.projectId
  boardId := board.id
  columnId := column.id
  ref := cardRef
  title := req.title
  description := if req.description = "" then none else some req.description
  position := position
  priority := priorityFromI32 req.priority
  urgency := urgencyFromI32 req.urgency
  dueDate := req.due.bind fromProtoTs
  completedAt := if column.isDone then some ctx.now else none
  blocked := false
  cover := none
  milestoneId := milestoneId
  createdBy := subject
  revision := 0

/-- The payload of `CardCreated`. -/
def cardCreated (codec : IdCodec ι) (row : CardRow ι) (idempotencyKey : String) : Payload :=
  [("card_id", .str (codec.toString row.id)), ("board_id", .str (codec.toString row.boardId)),
    ("column_id", .str (codec.toString row.columnId)), ("title", .str row.title),
    ("ref", .str row.ref), ("position", .num row.position), ("priority", .str row.priority),
    ("urgency", .str row.urgency), ("idempotency_key", .str idempotencyKey)]

/-- The transaction of a new card; returns its id. -/
def insertNewCard (codec : IdCodec ι) (ctx : RequestContext) (subject tenantId : String)
    (board : BoardRow ι) (column : ColumnRow ι) (req : CreateCardRequest) : Handler ι ι := do
  beginTx "begin tx failed"
  let cardRef ← allocateCardRef tenantId board.projectId
  let cardId ← newId
  let position ← insertPosition tenantId column.id req.position
  let milestoneId ← checkMilestone codec tenantId board.projectId req.milestoneId
  let row := newCardRow ctx subject tenantId board column req cardId cardRef position milestoneId
  query "failed to insert card" (insertCard row)
  insertBoardEvent tenantId board.id "CardCreated" (cardCreated codec row req.idempotencyKey)
  commitTx "commit failed"
  .pure cardId

/-- Create the card: its row and its event, the parent tuple, and the key. -/
def createCardFresh (codec : IdCodec ι) (ctx : RequestContext) (boardId : ι)
    (subject tenantId : String) (req : CreateCardRequest) : Handler ι Card := do
  let board ← fetchOr "failed to fetch board" (notFound "board not found")
    (selectBoard tenantId boardId)
  let colId ← parseId codec "invalid column_id" req.columnId
  let column ← fetchOr "failed to verify column" (notFound "column not found on this board")
    (Db.columnsT.select fun c => c.id = colId ∧ c.boardId = boardId ∧ c.tenantId = tenantId)
  let cardId ← insertNewCard codec ctx subject tenantId board column req
  let permission ← tenantClientFor ctx
  -- best-effort
  let _ ← grantWithRetry permission permissionTypeCard (codec.toString cardId) "parent"
    (boardSubject codec boardId)
  storeIdempotencyCard tenantId req.idempotencyKey cardId
  fetchFullCard codec tenantId cardId

def createCard (codec : IdCodec ι) (ctx : RequestContext) (req : CreateCardRequest) :
    Handler ι Card := do
  let objectId ← checkedObjectId ctx
  let boardId ← parseId codec "invalid board_id" objectId
  let subject ← subjectFromRequest ctx
  let tenantId ← tenantIdFromRequest ctx
  ensure (req.title ≠ "") (invalidArgument "title is required")
  match ← checkIdempotencyCard tenantId req.idempotencyKey with
  | some existingId => fetchFullCard codec tenantId existingId
  | none => createCardFresh codec ctx boardId subject tenantId req

/-! ## UpdateCard -/

/-- The patch of an `UpdateCard`; an unspecified priority or urgency is 0. -/
structure CardPatch where
  title : String
  description : String
  priority : ℤ
  urgency : ℤ
  due : Option Timestamp
  blocked : Bool
  cover : String
  milestoneId : String
  deriving DecidableEq, Repr

structure UpdateCardRequest where
  card : CardPatch
  updateMask : List String
  idempotencyKey : String
  deriving DecidableEq, Repr

/-- `CASE WHEN $ != '' THEN $ ELSE column END`, for a column that can be null. -/
def sparseOption (value : String) (old : Option String) : Option String :=
  if value ≠ "" then some value else old

/-- What the request says of the milestone: nothing, or the value to set. -/
def milestonePatch (codec : IdCodec ι) (tenantId : String) (projectId : ι)
    (req : UpdateCardRequest) : Handler ι (Option (Option ι)) :=
  if req.card.milestoneId = "" then
    .pure (if "milestone_id" ∈ req.updateMask then some none else none)
  else (checkMilestone codec tenantId projectId req.card.milestoneId).bind fun mid =>
    .pure (some mid)

/-- The row after the patch. -/
def patchCard (req : UpdateCardRequest) (milestone : Option (Option ι)) (c : CardRow ι) :
    CardRow ι :=
  { c with
    title := sparse req.card.title c.title
    description := sparseOption req.card.description c.description
    priority := if req.card.priority ≠ 0 then priorityFromI32 req.card.priority else c.priority
    urgency := if req.card.urgency ≠ 0 then urgencyFromI32 req.card.urgency else c.urgency
    dueDate := (req.card.due.bind fromProtoTs).or c.dueDate
    blocked := if req.card.blocked ∨ "blocked" ∈ req.updateMask then req.card.blocked
      else c.blocked
    cover := sparseOption req.card.cover c.cover
    milestoneId := milestone.getD c.milestoneId
    revision := c.revision + 1 }

/-- The payload of the `CardUpdated` of an `UpdateCard`. -/
def cardUpdated (codec : IdCodec ι) (cardId : ι) (prevRevision newRevision : ℤ)
    (milestone : Option (Option ι)) (req : UpdateCardRequest) : Payload :=
  [("card_id", .str (codec.toString cardId)), ("prev_revision", .num prevRevision),
    ("new_revision", .num newRevision), ("idempotency_key", .str req.idempotencyKey),
    ("patch", .obj [("title", .str req.card.title), ("description", .str req.card.description),
      ("priority", enumJson cardPriorityNames req.card.priority),
      ("urgency", enumJson cardUrgencyNames req.card.urgency), ("blocked", .bool req.card.blocked),
      ("cover", .str req.card.cover), ("milestone_id", .str req.card.milestoneId),
      ("milestone_cleared", .bool (milestone = some none))])]

def updateCard (codec : IdCodec ι) (ctx : RequestContext) (req : UpdateCardRequest) :
    Handler ι Card := do
  let objectId ← checkedObjectId ctx
  let cardId ← parseId codec "invalid card_id" objectId
  let tenantId ← tenantIdFromRequest ctx
  match ← checkIdempotencyCard (ι := ι) tenantId req.idempotencyKey with
  | some _ => fetchFullCard codec tenantId cardId
  | none => do
      let cur ← fetchOr "failed to fetch card" (notFound "card not found")
        (selectCard tenantId cardId)
      let milestone ← milestonePatch codec tenantId cur.projectId req
      let row ← fetchOr "failed to update card" (notFound "card not found")
        (updateCardRow tenantId cardId (patchCard req milestone))
      -- the event is written in a transaction of its own
      beginTx "begin tx failed"
      insertBoardEvent tenantId cur.boardId "CardUpdated"
        (cardUpdated codec cardId cur.revision row.revision milestone req)
      commitTx "commit failed"
      storeIdempotencyCard tenantId req.idempotencyKey cardId
      fetchFullCard codec tenantId cardId

/-! ## MoveCard -/

structure MoveCardRequest where
  toColumnId : String
  toPosition : ℤ
  idempotencyKey : String
  deriving DecidableEq, Repr

/-- Make room for the card: reorder its column, or close the gap it leaves and open a slot. -/
def shiftForMove (tenantId : String) (card : CardRow ι) (toColId : ι) (toPos : ℤ) :
    Handler ι Unit :=
  if card.columnId = toColId then
    if card.position = toPos then .pure ()
    else if card.position < toPos then
      (query "failed to shift (same-col forward)" (shiftCards tenantId card.columnId
        (fun p => card.position < p ∧ p ≤ toPos) (-1))).bind fun _ => .pure ()
    else
      (query "failed to shift (same-col backward)" (shiftCards tenantId card.columnId
        (fun p => toPos ≤ p ∧ p < card.position) 1)).bind fun _ => .pure ()
  else do
    let _ ← query "failed to close source gap"
      (shiftCards tenantId card.columnId (fun p => card.position < p) (-1))
    let _ ← query "failed to open target slot"
      (shiftCards tenantId toColId (fun p => toPos ≤ p) 1)
    .pure ()

/-- The done marker of the column a card comes from; a column that is gone counts as not
done. -/
def sourceIsDone (tenantId : String) (columnId : ι) : Handler ι Bool := do
  let column ← fetchOptional "failed to fetch source column" (selectColumn tenantId columnId)
  .pure (column.elim false ColumnRow.isDone)

/-- The transaction of a move. The event is written for the board the card comes from. -/
def placeCard (codec : IdCodec ι) (ctx : RequestContext) (tenantId : String) (card : CardRow ι)
    (target : ColumnRow ι) (fromIsDone : Bool) (req : MoveCardRequest) : Handler ι Unit := do
  let toPos := if req.toPosition < 1 then 0 else req.toPosition - 1
  beginTx "begin tx failed"
  shiftForMove tenantId card target.id toPos
  let row ← fetchOne "failed to place card at new position"
    (updateCardRow tenantId card.id fun c =>
      { c with
        columnId := target.id
        boardId := target.boardId
        position := toPos
        revision := c.revision + 1
        completedAt := completedAfter ctx.now (fromIsDone && !target.isDone) target.isDone
          c.completedAt })
  insertBoardEvent tenantId card.boardId "CardMoved"
    [("card_id", .str (codec.toString card.id)),
      ("from_column", .str (codec.toString card.columnId)),
      ("to_column", .str (codec.toString target.id)), ("to_position", .num toPos),
      ("prev_revision", .num card.revision), ("new_revision", .num row.revision),
      ("idempotency_key", .str req.idempotencyKey)]
  commitTx "commit failed"

def moveCard (codec : IdCodec ι) (pages : ℕ) (ctx : RequestContext) (req : MoveCardRequest) :
    Handler ι Card := do
  let objectId ← checkedObjectId ctx
  let cardId ← parseId codec "invalid card_id" objectId
  let tenantId ← tenantIdFromRequest ctx
  let toColId ← parseId codec "invalid to_column_id" req.toColumnId
  match ← checkIdempotencyCard (ι := ι) tenantId req.idempotencyKey with
  | some _ => fetchFullCard codec tenantId cardId
  | none => do
      let card ← fetchOr "failed to fetch card" (notFound "card not found")
        (selectCard tenantId cardId)
      let target ← fetchOr "failed to fetch target column" (notFound "target column not found")
        (selectColumn tenantId toColId)
      let fromIsDone ← if card.columnId = toColId then .pure target.isDone
        else sourceIsDone tenantId card.columnId
      let targetBoard ← fetchOr "failed to fetch target board" (notFound "target board not found")
        (selectBoard tenantId target.boardId)
      ensure (card.projectId = targetBoard.projectId)
        (invalidArgument "cards do not move between projects")
      placeCard codec ctx tenantId card target fromIsDone req
      if target.boardId ≠ card.boardId then do
        let permission ← tenantClientFor ctx
        rehomeParent codec pages permission cardId card.boardId target.boardId
      storeIdempotencyCard tenantId req.idempotencyKey cardId
      fetchFullCard codec tenantId cardId

/-! ## TransferCard -/

structure TransferCardRequest where
  targetBoardId : String
  targetColumnId : String
  idempotencyKey : String
  deriving DecidableEq, Repr

structure TransferCardResponse where
  card : Card
  previousRef : String
  deriving DecidableEq, Repr

/-- `SELECT payload->>'previous_ref' FROM event_log … ORDER BY created_at DESC LIMIT 1`. -/
def selectPreviousRef (codec : IdCodec ι) (tenantId : String) (cardId : ι) (key : String) :
    Stmt (Db ι) (Rec ι) (List (EventRow ι)) := fun db =>
  let rows := db.eventLog.filter fun e => e.tenantId = tenantId ∧ e.eventType = "CardTransferred" ∧
    e.payload.text "card_id" = some (codec.toString cardId) ∧
    e.payload.text "idempotency_key" = some key
  some ⟨rows.getLast?.toList, rows.map .event, []⟩

/-- On replay: the card and the reference it had before, from the payload of its event. -/
def replayTransfer (codec : IdCodec ι) (tenantId : String) (cardId : ι) (key : String) :
    Handler ι TransferCardResponse := do
  let event ← fetchOptional "failed to recover previous ref"
    (selectPreviousRef codec tenantId cardId key)
  let card ← fetchFullCard codec tenantId cardId
  .pure ⟨card, (event.bind fun e => e.payload.text "previous_ref").getD ""⟩

/-- The payload of `CardTransferred`. -/
def cardTransferred (codec : IdCodec ι) (card : CardRow ι) (target : ColumnRow ι) (toPos : ℤ)
    (newRevision : ℤ) (idempotencyKey : String) : Payload :=
  [("card_id", .str (codec.toString card.id)),
    ("from_board_id", .str (codec.toString card.boardId)),
    ("to_board_id", .str (codec.toString target.boardId)),
    ("to_column_id", .str (codec.toString target.id)), ("to_position", .num toPos),
    ("previous_ref", .str card.ref), ("prev_revision", .num card.revision),
    ("new_revision", .num newRevision), ("idempotency_key", .str idempotencyKey)]

/-- `DELETE FROM card_labels WHERE card_id = $1 AND label_id IN (SELECT id FROM labels WHERE
project_id IS NOT NULL AND project_id <> $2)`. -/
def scrubLabels (cardId projectId : ι) : Stmt (Db ι) (Rec ι) (List (CardLabelRow ι)) := fun db =>
  Db.cardLabelsT.delete (fun cl => cl.cardId = cardId ∧
    db.labels.any fun l => l.id = cl.labelId ∧ l.projectId.any (· ≠ projectId)) db

/-- The transaction of a transfer. The event is written for both boards. -/
def relocateCard (codec : IdCodec ι) (ctx : RequestContext) (tenantId : String)
    (card : CardRow ι) (targetProjectId : ι) (target : ColumnRow ι) (fromIsDone : Bool)
    (idempotencyKey : String) : Handler ι Unit := do
  beginTx "begin tx failed"
  let newRef ← allocateCardRef tenantId targetProjectId
  let toPos ← query "failed to allocate target position" (nextPosition tenantId target.id)
  let row ← fetchOne "failed to relocate card"
    (updateCardRow tenantId card.id fun c =>
      { c with
        projectId := targetProjectId
        boardId := target.boardId
        columnId := target.id
        ref := newRef
        position := toPos
        milestoneId := none
        revision := c.revision + 1
        completedAt := completedAfter ctx.now (fromIsDone && !target.isDone) target.isDone
          c.completedAt })
  let _ ← query "failed to scrub project-scoped labels" (scrubLabels card.id targetProjectId)
  let payload := cardTransferred codec card target toPos row.revision idempotencyKey
  insertBoardEvent tenantId card.boardId "CardTransferred" payload
  insertBoardEvent tenantId target.boardId "CardTransferred" payload
  commitTx "commit failed"

/-- The caller must hold `edit` on the target board too. -/
def checkTargetBoard (codec : IdCodec ι) (ctx : RequestContext) (targetBoardId : ι) :
    Handler ι String := do
  let subject ← subjectFromRequest ctx
  let permission ← tenantClientFor ctx
  let allowed ← checkPermissionWithRetry permission
    ⟨permissionTypeBoard, codec.toString targetBoardId, "edit", subject⟩
  let allowed ← orError (internal "failed to check target board permission") allowed
  ensure (allowed = true) (permissionDenied "edit required on the target board")
  .pure permission

def transferCard (codec : IdCodec ι) (pages : ℕ) (ctx : RequestContext)
    (req : TransferCardRequest) : Handler ι TransferCardResponse := do
  let objectId ← checkedObjectId ctx
  let cardId ← parseId codec "invalid card_id" objectId
  let tenantId ← tenantIdFromRequest ctx
  let targetBoardId ← parseId codec "invalid target_board_id" req.targetBoardId
  let targetColId ← parseId codec "invalid target_column_id" req.targetColumnId
  match ← checkIdempotencyCard (ι := ι) tenantId req.idempotencyKey with
  | some _ => replayTransfer codec tenantId cardId req.idempotencyKey
  | none => do
      let card ← fetchOr "failed to fetch card" (notFound "card not found")
        (selectCard tenantId cardId)
      let targetBoard ← fetchOr "failed to fetch target board" (notFound "target board not found")
        (selectBoard tenantId targetBoardId)
      ensure (card.projectId ≠ targetBoard.projectId)
        (invalidArgument "target board is in the same project; use MoveCard")
      let permission ← checkTargetBoard codec ctx targetBoardId
      let target ← fetchOr "failed to fetch target column" (notFound "target column not found")
        (selectColumn tenantId targetColId)
      ensure (target.boardId = targetBoardId)
        (invalidArgument "target column does not belong to the target board")
      let fromIsDone ← sourceIsDone tenantId card.columnId
      relocateCard codec ctx tenantId card targetBoard.projectId target fromIsDone
        req.idempotencyKey
      rehomeParent codec pages permission cardId card.boardId targetBoardId
      storeIdempotencyCard tenantId req.idempotencyKey cardId
      let full ← fetchFullCard codec tenantId cardId
      .pure ⟨full, card.ref⟩

/-! ## DeleteCard -/

/-- The rows that go with a card, by their foreign keys. -/
def cardChildren (db : Db ι) (cardId : ι) : List (Rec ι) :=
  (db.cardLabels.filter (·.cardId = cardId)).map .cardLabel ++
    (db.cardAssignees.filter (·.cardId = cardId)).map .assignee ++
    (db.checklistItems.filter (·.cardId = cardId)).map .checklistItem ++
    (db.comments.filter (·.cardId = cardId)).map .comment ++
    (db.cardAttachments.filter (·.cardId = cardId)).map .attachment ++
    (db.cardDependencies.filter fun d => d.cardId = cardId ∨ d.dependsOnCardId = cardId).map
      .dependency

/-- The foreign key of `github_links` has no cascade: a card with a link cannot be deleted. -/
def Linked (db : Db ι) (cards : List (CardRow ι)) : Prop := ∃ l ∈ db.githubLinks, l.cardId ∈ cards.map CardRow.id

instance (db : Db ι) (cards : List (CardRow ι)) : Decidable (Linked db cards) :=
  inferInstanceAs (Decidable (∃ l ∈ db.githubLinks, l.cardId ∈ cards.map CardRow.id))

/-- `DELETE FROM cards WHERE id = $1 AND tenant_id = $2`, with its cascade. -/
def deleteCardRow (tenantId : String) (cardId : ι) : Stmt (Db ι) (Rec ι) (List (CardRow ι)) :=
  fun db =>
    let rows := db.cards.filter fun c => c.id = cardId ∧ c.tenantId = tenantId
    let gone := if rows = [] then [] else cardChildren db cardId
    if Linked db rows then none
    else some ⟨rows, rows.map .card, rows.map (fun c => .del (.card c)) ++ gone.map .del⟩

/-- What the statement does when it is not rejected. -/
theorem deleteCardRow_some {tenantId : String} {cardId : ι} {db : Db ι}
    {e : Effect (Rec ι) (List (CardRow ι))} (he : deleteCardRow tenantId cardId db = some e) :
    e = ⟨db.cards.filter fun c => c.id = cardId ∧ c.tenantId = tenantId,
      (db.cards.filter fun c => c.id = cardId ∧ c.tenantId = tenantId).map .card,
      (db.cards.filter fun c => c.id = cardId ∧ c.tenantId = tenantId).map (fun c => .del (.card c)) ++
        (if (db.cards.filter fun c => c.id = cardId ∧ c.tenantId = tenantId) = [] then []
          else cardChildren db cardId).map .del⟩ := by
  simp only [deleteCardRow] at he
  split at he
  · cases he
  · exact (Option.some.inj he).symm

def deleteCard (codec : IdCodec ι) (pages : ℕ) (ctx : RequestContext) : Handler ι Unit := do
  let objectId ← checkedObjectId ctx
  let cardId ← parseId codec "invalid card_id" objectId
  let tenantId ← tenantIdFromRequest ctx
  let cur ← fetchOr "failed to fetch card" (notFound "card not found") (selectCard tenantId cardId)
  beginTx "begin tx failed"
  let deleted ← query "failed to delete card" (deleteCardRow tenantId cardId)
  ensure (deleted ≠ []) (notFound "card not found")
  insertBoardEvent tenantId cur.boardId "CardDeleted"
    [("card_id", .str (codec.toString cardId)), ("board_id", .str (codec.toString cur.boardId)),
      ("prev_revision", .num cur.revision)]
  commitTx "commit failed"
  let permission ← tenantClientFor ctx
  -- best-effort
  let _ ← deleteRelationTuples pages
    ⟨permission, permissionTypeCard, some (codec.toString cardId), none⟩ none
  .pure ()

end Kanban.Rpc
