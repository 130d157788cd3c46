import Kanban.Auth.Dispatch
import Kanban.Rpc.Boards

/-!
# AggregatedBoardService: the handlers that write

An aggregated board shows the cards of its source boards.  A source is a row of
`aggregated_board_sources` with a foreign key on the aggregated board and one on the board; neither
key knows of tenants.

## Main definitions

* `createAggregatedBoard`, `updateAggregatedBoard` — the aggregated board.
* `addSourceBoard`, `moveSourceBoard`, `removeSourceBoard` — its sources.
* `AggregateCall`, `serveAggregate` — a request, dispatched and handled.
-/

namespace Kanban.Rpc

open Program Kanban.Store Kanban.Auth
open Kanban.Services (AuthContext ConnectError IdCodec protoToDb dbToProto)

variable {ι : Type} [DecidableEq ι]

def permissionTypeAggregatedBoard : String := "KanbanAggregatedBoard"

structure AggregatedBoard where
  id : String
  name : String
  description : String
  icon : String
  visibility : ℤ
  deriving DecidableEq, Repr

omit [DecidableEq ι] in
def aggregatedBoardFromRow (codec : IdCodec ι) (row : AggregatedBoardRow ι) : AggregatedBoard where
  id := codec.toString row.id
  name := row.name
  description := row.description
  icon := row.icon
  visibility := dbToProto row.visibility

/-- The rows of an aggregated board in its tenant. -/
def selectAggregatedBoard (tenantId : String) (id : ι) :
    Stmt (Db ι) (Rec ι) (List (AggregatedBoardRow ι)) :=
  Db.aggregatedBoardsT.select fun a => a.id = id ∧ a.tenantId = tenantId

/-- `get_aggregate_metadata`. -/
def getAggregateMetadata (codec : IdCodec ι) (aggregatedBoardId : ι) (tenantId : String) :
    Handler ι AggregatedBoard := do
  let row ← fetchOr "failed to fetch aggregated board" (notFound "aggregated board not found")
    (selectAggregatedBoard tenantId aggregatedBoardId)
  .pure (aggregatedBoardFromRow codec row)

/-! ## Sources -/

/-- The foreign keys of a source row. -/
def sourceKeys (row : SourceRow ι) (db : Db ι) : Bool :=
  db.boards.any (·.id = row.boardId) && db.aggregatedBoards.any (·.id = row.aggregatedBoardId)

/-- `INSERT INTO aggregated_board_sources`. -/
def insertSource (row : SourceRow ι) : Stmt (Db ι) (Rec ι) Unit := fun db =>
  if sourceKeys row db then Db.sourcesT.insert row db else none

/-- `INSERT INTO aggregated_board_sources … ON CONFLICT … DO UPDATE SET position`. -/
def upsertSource (row : SourceRow ι) : Stmt (Db ι) (Rec ι) (SourceRow ι) := fun db =>
  if sourceKeys row db then Db.sourcesT.upsert row (fun r => { r with position := row.position }) db
  else none

/-- The rows of an aggregated board under the tenant. -/
def ofAggregate (tenantId : String) (aggregatedBoardId : ι) (s : SourceRow ι) : Bool :=
  s.aggregatedBoardId = aggregatedBoardId ∧ s.tenantId = tenantId

/-- `fetch_ordered_source_ids`. -/
def orderedSourceIds (tenantId : String) (aggregatedBoardId : ι) :
    Stmt (Db ι) (Rec ι) (List ι) := fun db =>
  let rows := db.aggregatedBoardSources.filter (ofAggregate tenantId aggregatedBoardId)
  some ⟨(rows.insertionSort fun s s' => s.position ≤ s'.position).map SourceRow.boardId,
    rows.map .source, []⟩

def fetchOrderedSourceIds (aggregatedBoardId : ι) (tenantId : String) : Handler ι (List ι) :=
  query "failed to fetch ordered source board ids" (orderedSourceIds tenantId aggregatedBoardId)

/-- `apply_source_order`: each id gets its place in the list. -/
def applySourceOrder (aggregatedBoardId : ι) (tenantId : String) : List (ι × ℕ) → Handler ι Unit
  | [] => .pure ()
  | (boardId, position) :: rest => do
      let _ ← query "failed to update source board position"
        (Db.sourcesT.update (fun s => ofAggregate tenantId aggregatedBoardId s ∧ s.boardId = boardId)
          fun s => { s with position := position })
      applySourceOrder aggregatedBoardId tenantId rest

/-- The initial source boards of an aggregated board, in the order of the request. -/
def insertSources (codec : IdCodec ι) (aggregatedBoardId : ι) (tenantId : String) :
    List (String × ℕ) → Handler ι Unit
  | [] => .pure ()
  | (boardId, position) :: rest => do
      let boardId ← parseId codec "invalid source_board_id" boardId
      query "failed to insert source board"
        (insertSource ⟨aggregatedBoardId, tenantId, boardId, position⟩)
      insertSources codec aggregatedBoardId tenantId rest

/-! ## CreateAggregatedBoard -/

structure CreateAggregatedBoardRequest where
  name : String
  description : String
  icon : String
  visibility : ℤ
  sourceBoardIds : List String
  idempotencyKey : String
  deriving DecidableEq, Repr

/-- The transaction of a new aggregated board.  The backend is written before the commit. -/
def insertNewAggregate (codec : IdCodec ι) (permission subject : String)
    (row : AggregatedBoardRow ι) (sourceBoardIds : List String) : Handler ι Unit := do
  beginTx "failed to begin transaction"
  query "failed to insert aggregated board" (Db.aggregatedBoardsT.insert row)
  insertSources codec row.id row.tenantId sourceBoardIds.zipIdx
  let owner ← grantWithRetry permission permissionTypeAggregatedBoard (codec.toString row.id) "owner"
    subject
  ensure (owner = true) (internal "failed to write owner tuple to the permission backend")
  let viewer ← grantWithRetry permission permissionTypeAggregatedBoard (codec.toString row.id)
    "viewer" subject
  ensure (viewer = true) (internal "failed to write viewer tuple to the permission backend")
  let _ ← attempt (Db.aggregatedMembersT.insertIgnore ⟨row.id, row.tenantId, subject, "owner"⟩)
  insertAggregatedEvent row.tenantId row.id "AggregatedBoardCreated"
    [("aggregated_board_id", .str (codec.toString row.id))]
  commitTx "failed to commit transaction"

def createAggregatedBoard (codec : IdCodec ι) (ctx : RequestContext)
    (req : CreateAggregatedBoardRequest) : Handler ι AggregatedBoard := do
  let subject ← subjectFromRequest ctx
  let tenantId ← tenantIdFromRequest ctx
  let permission ← tenantClientFor ctx
  ensure (req.name ≠ "") (invalidArgument "name is required")
  let aggregatedBoardId ← newId
  let row : AggregatedBoardRow ι := ⟨aggregatedBoardId, tenantId, req.name, req.description,
    req.icon, protoToDb req.visibility, subject, 0⟩
  insertNewAggregate codec permission subject row req.sourceBoardIds
  storeIdempotencyId tenantId req.idempotencyKey aggregatedBoardId
  .pure (aggregatedBoardFromRow codec row)

/-! ## UpdateAggregatedBoard -/

structure UpdateAggregatedBoardRequest where
  name : String
  description : String
  icon : String
  visibility : ℤ
  updateMask : List String
  deriving DecidableEq, Repr

/-- Only whoever manages the aggregated board may change its visibility.  The check goes through
the service's own client, which carries no tenant: its store is `serviceTenant`. -/
def checkVisibilityChange (codec : IdCodec ι) (serviceTenant subject : String)
    (aggregatedBoardId : ι) : Handler ι Unit := do
  let allowed ← checkPermissionWithRetry serviceTenant
    ⟨permissionTypeAggregatedBoard, codec.toString aggregatedBoardId, "manage", subject⟩
  let allowed ← orError (internal "failed to check aggregated board manage permission") allowed
  ensure (allowed = true)
    (permissionDenied "you do not have permission to change aggregated board visibility")

/-- `UPDATE aggregated_boards`: an empty field of the patch leaves the field as it is. -/
def updateAggregatedBoardRow (tenantId : String) (id : ι) (req : UpdateAggregatedBoardRequest) :
    Stmt (Db ι) (Rec ι) (List (AggregatedBoardRow ι)) :=
  Db.aggregatedBoardsT.update (fun a => a.id = id ∧ a.tenantId = tenantId) fun a => { a with
    name := if req.name ≠ "" then req.name else a.name
    description := if req.description ≠ "" then req.description else a.description
    icon := if req.icon ≠ "" then req.icon else a.icon
    visibility := if "visibility" ∈ req.updateMask then protoToDb req.visibility else a.visibility }

def updateAggregatedBoard (codec : IdCodec ι) (serviceTenant : String) (ctx : RequestContext)
    (req : UpdateAggregatedBoardRequest) : Handler ι AggregatedBoard := do
  let subject ← subjectFromRequest ctx
  let tenantId ← tenantIdFromRequest ctx
  let objectId ← checkedObjectId ctx
  let aggregatedBoardId ← parseId codec "invalid aggregated_board_id" objectId
  if "visibility" ∈ req.updateMask then
    checkVisibilityChange codec serviceTenant subject aggregatedBoardId
  else .pure ()
  beginTx "failed to begin transaction"
  let row ← fetchOr "failed to update aggregated board" (notFound "aggregated board not found")
    (updateAggregatedBoardRow tenantId aggregatedBoardId req)
  insertAggregatedEvent tenantId aggregatedBoardId "AggregatedBoardUpdated"
    [("aggregated_board_id", .str (codec.toString aggregatedBoardId))]
  commitTx "failed to commit transaction"
  .pure (aggregatedBoardFromRow codec row)

/-! ## AddSourceBoard, RemoveSourceBoard, MoveSourceBoard -/

/-- The tenant, the checked aggregated board and the board of a request about one source. -/
def sourceRequest (codec : IdCodec ι) (ctx : RequestContext) (boardId : String) :
    Handler ι (String × ι × ι) := do
  let tenantId ← tenantIdFromRequest ctx
  let objectId ← checkedObjectId ctx
  let aggregatedBoardId ← parseId codec "invalid aggregated_board_id" objectId
  let boardId ← parseId codec "invalid board_id" boardId
  .pure (tenantId, aggregatedBoardId, boardId)

/-- The payload of the events of a source. -/
def sourcePayload (codec : IdCodec ι) (aggregatedBoardId boardId : ι) : Payload :=
  [("aggregated_board_id", .str (codec.toString aggregatedBoardId)),
    ("board_id", .str (codec.toString boardId))]

structure AddSourceBoardRequest where
  boardId : String
  position : ℤ
  deriving DecidableEq, Repr

/-- The position of a new source: the one of the request, or the end. -/
def sourcePosition (tenantId : String) (aggregatedBoardId : ι) (position : ℤ) : Handler ι ℤ :=
  if 0 < position then .pure position
  else (query "failed to count source boards"
    (Db.sourcesT.select (ofAggregate tenantId aggregatedBoardId))).bind fun rows =>
      .pure rows.length

/-- The transaction of a new source. -/
def insertNewSource (codec : IdCodec ι) (tenantId : String) (aggregatedBoardId boardId : ι)
    (reqPosition : ℤ) : Handler ι Unit := do
  beginTx "failed to begin transaction"
  let position ← sourcePosition tenantId aggregatedBoardId reqPosition
  let _ ← query "failed to shift source board positions"
    (Db.sourcesT.updateChecked
      (fun s => ofAggregate tenantId aggregatedBoardId s ∧ position ≤ s.position)
      fun s => (int4 (s.position + 1)).map fun n => { s with position := n })
  let _ ← query "failed to insert source board"
    (upsertSource ⟨aggregatedBoardId, tenantId, boardId, position⟩)
  let ordered ← fetchOrderedSourceIds aggregatedBoardId tenantId
  applySourceOrder aggregatedBoardId tenantId ordered.zipIdx
  insertAggregatedEvent tenantId aggregatedBoardId "SourceBoardAdded"
    (sourcePayload codec aggregatedBoardId boardId)
  commitTx "failed to commit transaction"

def addSourceBoard (codec : IdCodec ι) (ctx : RequestContext) (req : AddSourceBoardRequest) :
    Handler ι AggregatedBoard := do
  let (tenantId, aggregatedBoardId, boardId) ← sourceRequest codec ctx req.boardId
  insertNewSource codec tenantId aggregatedBoardId boardId req.position
  getAggregateMetadata codec aggregatedBoardId tenantId

structure RemoveSourceBoardRequest where
  boardId : String
  deriving DecidableEq, Repr

/-- The transaction that takes a source away. -/
def deleteSource (codec : IdCodec ι) (tenantId : String) (aggregatedBoardId boardId : ι) :
    Handler ι Unit := do
  beginTx "failed to begin transaction"
  let _ ← query "failed to remove source board" (Db.sourcesT.delete fun s =>
    ofAggregate tenantId aggregatedBoardId s ∧ s.boardId = boardId)
  let ordered ← fetchOrderedSourceIds aggregatedBoardId tenantId
  applySourceOrder aggregatedBoardId tenantId ordered.zipIdx
  insertAggregatedEvent tenantId aggregatedBoardId "SourceBoardRemoved"
    (sourcePayload codec aggregatedBoardId boardId)
  commitTx "failed to commit transaction"

def removeSourceBoard (codec : IdCodec ι) (ctx : RequestContext) (req : RemoveSourceBoardRequest) :
    Handler ι AggregatedBoard := do
  let (tenantId, aggregatedBoardId, boardId) ← sourceRequest codec ctx req.boardId
  deleteSource codec tenantId aggregatedBoardId boardId
  getAggregateMetadata codec aggregatedBoardId tenantId

structure MoveSourceBoardRequest where
  boardId : String
  toPosition : ℤ
  deriving DecidableEq, Repr

/-- `ordered.remove(current)`, then `ordered.insert` at the position, at most at the end. -/
def moveSourceTo (ordered : List ι) (boardId : ι) (toPosition : ℤ) : List ι :=
  let rest := ordered.eraseIdx (ordered.idxOf boardId)
  rest.insertIdx (if toPosition < 0 then rest.length else min toPosition.toNat rest.length) boardId

/-- The transaction that puts a source in another place. -/
def reorderSources (tenantId : String) (aggregatedBoardId boardId : ι) (toPosition : ℤ) :
    Handler ι Unit := do
  beginTx "failed to begin transaction"
  let ordered ← fetchOrderedSourceIds aggregatedBoardId tenantId
  ensure (boardId ∈ ordered) (notFound "source board not found in aggregate")
  applySourceOrder aggregatedBoardId tenantId (moveSourceTo ordered boardId toPosition).zipIdx
  commitTx "failed to commit transaction"

def moveSourceBoard (codec : IdCodec ι) (ctx : RequestContext) (req : MoveSourceBoardRequest) :
    Handler ι AggregatedBoard := do
  let (tenantId, aggregatedBoardId, boardId) ← sourceRequest codec ctx req.boardId
  reorderSources tenantId aggregatedBoardId boardId req.toPosition
  getAggregateMetadata codec aggregatedBoardId tenantId

/-! ## Requests -/

/-- A call that writes aggregated boards or their sources. -/
inductive AggregateCall
  | createAggregatedBoard (req : CreateAggregatedBoardRequest)
  | updateAggregatedBoard (req : UpdateAggregatedBoardRequest)
  | addSourceBoard (req : AddSourceBoardRequest)
  | moveSourceBoard (req : MoveSourceBoardRequest)
  | removeSourceBoard (req : RemoveSourceBoardRequest)
  | deleteBoard
  deriving DecidableEq, Repr

/-- The path of the method. -/
def AggregateCall.method : AggregateCall → String
  | .createAggregatedBoard _ => methodPath "AggregatedBoardService" "CreateAggregatedBoard"
  | .updateAggregatedBoard _ => methodPath "AggregatedBoardService" "UpdateAggregatedBoard"
  | .addSourceBoard _ => methodPath "AggregatedBoardService" "AddSourceBoard"
  | .moveSourceBoard _ => methodPath "AggregatedBoardService" "MoveSourceBoard"
  | .removeSourceBoard _ => methodPath "AggregatedBoardService" "RemoveSourceBoard"
  | .deleteBoard => methodPath "BoardService" "DeleteBoard"

/-- The handler of a call, without its response. -/
def aggregateHandler (codec : IdCodec ι) (serviceTenant : String) (ctx : RequestContext) :
    AggregateCall → Handler ι Unit
  | .createAggregatedBoard req => (createAggregatedBoard codec ctx req).bind fun _ => .pure ()
  | .updateAggregatedBoard req =>
      (updateAggregatedBoard codec serviceTenant ctx req).bind fun _ => .pure ()
  | .addSourceBoard req => (addSourceBoard codec ctx req).bind fun _ => .pure ()
  | .moveSourceBoard req => (moveSourceBoard codec ctx req).bind fun _ => .pure ()
  | .removeSourceBoard req => (removeSourceBoard codec ctx req).bind fun _ => .pure ()
  | .deleteBoard => deleteBoard codec ctx

/-- A request after `auth_middleware`. -/
structure AggregateRequest where
  auth : AuthContext
  tenantId : String
  objectId : Option String
  now : ℤ
  call : AggregateCall
  deriving DecidableEq, Repr

/-- What the dispatcher sees of the request. -/
def AggregateRequest.dispatch (q : AggregateRequest) : DispatchRequest :=
  ⟨q.auth, q.tenantId, q.call.method, q.objectId⟩

/-- What the handler sees of the request, with the id that was checked. -/
def AggregateRequest.context (q : AggregateRequest) (checked : Option String) : RequestContext :=
  ⟨some q.auth, checked, q.now⟩

/-- The dispatcher, then the handler. -/
def serveAggregate (isAuthenticated : AuthContext → Bool) (codec : IdCodec ι)
    (serviceTenant : String) (q : AggregateRequest) :
    Prog (Db ι) (Rec ι) (Call ι) (Reply ι) (StatusError ⊕ ConnectError) Unit :=
  ((dispatchCheck isAuthenticated q.dispatch).mapError .inl).bind fun checked =>
    (aggregateHandler codec serviceTenant (q.context checked) q.call).mapError .inr

end Kanban.Rpc
