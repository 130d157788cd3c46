import Kanban.Rpc.CardMutations

/-!
# BoardService: boards and their columns

The handlers that create and delete a board, and add, patch, remove and move a column.  A deletion
takes along what refers to the row: the columns of a board, the cards of a column.

## Main definitions

* `createBoard`, `deleteBoard`, `addColumn`, `updateColumn`, `removeColumn`, `moveColumn` — the
  handlers.
-/

namespace Kanban.Rpc

open Program Kanban.Store Kanban.Auth
open Kanban.Services (AuthContext ConnectError ErrorCode IdCodec protoToDb dbToProto)

variable {ι : Type} [DecidableEq ι]

/-! ## Responses -/

structure Board where
  id : String
  projectId : String
  name : String
  description : String
  icon : String
  visibility : ℤ
  columnsCount : ℤ
  cardsCount : ℤ
  deriving DecidableEq, Repr

structure Column where
  id : String
  boardId : String
  title : String
  accent : String
  wipLimit : ℤ
  position : ℤ
  isDone : Bool
  deriving DecidableEq, Repr

section FromRow

variable (codec : IdCodec ι)

omit [DecidableEq ι]

def boardFromRow (row : BoardRow ι) (columnsCount cardsCount : ℤ) : Board where
  id := codec.toString row.id
  projectId := codec.toString row.projectId
  name := row.name
  description := row.description
  icon := row.icon.getD ""
  visibility := dbToProto row.visibility
  columnsCount := columnsCount
  cardsCount := cardsCount

def columnFromRow (row : ColumnRow ι) : Column where
  id := codec.toString row.id
  boardId := codec.toString row.boardId
  title := row.title
  accent := row.accent.getD ""
  wipLimit := row.wipLimit.getD 0
  position := row.position
  isDone := row.isDone

end FromRow

/-- The fields of an `event_column_json`. -/
def eventColumnFields (column : Column) : List (String × Atom) :=
  [("id", .str column.id), ("board_id", .str column.boardId), ("title", .str column.title),
    ("accent", .str column.accent), ("wip_limit", .num column.wipLimit),
    ("position", .num column.position), ("is_done", .bool column.isDone)]

/-- `event_column_json`. -/
def eventColumnJson (column : Column) : Json := .obj (eventColumnFields column)

/-- `fetch_columns_count`; a failure counts as none. -/
def fetchColumnsCount (boardId : ι) (tenantId : String) : Handler ι ℤ := do
  let rows ← fetchAll (Db.columnsT.select fun k => k.boardId = boardId ∧ k.tenantId = tenantId)
  .pure rows.length

/-- `fetch_cards_count`; a failure counts as none. -/
def fetchCardsCount (boardId : ι) (tenantId : String) : Handler ι ℤ := do
  let rows ← fetchAll (Db.cardsT.select fun c => c.boardId = boardId ∧ c.tenantId = tenantId)
  .pure rows.length

/-! ## CreateBoard -/

structure CreateBoardRequest where
  name : String
  description : String
  icon : String
  visibility : ℤ
  idempotencyKey : String
  deriving DecidableEq, Repr

/-- `slug_from_name`. -/
def slugFromName (unicode : Unicode) (name : String) : String :=
  String.ofList (((name.toList.filter fun c => unicode.isAlphanumeric c || c == '-' || c == '_').map
    Char.toLower).take 40)

/-- A text that is stored as null when it is empty. -/
def nullIfEmpty (s : String) : Option String := if s = "" then none else some s

/-- `INSERT INTO boards`; the project must exist, and `(project_id, slug)` is unique. -/
def insertBoard (row : BoardRow ι) : Stmt (Db ι) (Rec ι) Unit := fun db =>
  if (db.boards.any fun b => b.projectId = row.projectId ∧ b.slug = row.slug) ∨
      ¬ db.projects.any (·.id = row.projectId) then none
  else Db.boardsT.insert row db

/-- The board recorded for the key, if the key was used and the board still exists. -/
def cachedBoard (tenantId key : String) : Handler ι (Option (BoardRow ι)) :=
  if key = "" then .pure none
  else do
    let cached ← fetchOptional "idempotency key lookup failed" (selectIdempotencyKey tenantId key)
    match cached.bind IdempotencyRow.responseCardId with
    | none => .pure none
    | some boardId => fetchOptional "failed to fetch cached board" (selectBoard tenantId boardId)

/-- The transaction of a new board. -/
def insertNewBoard (codec : IdCodec ι) (row : BoardRow ι) : Handler ι Unit := do
  beginTx "begin tx failed"
  query "failed to insert board" (insertBoard row)
  insertProjectEvent row.tenantId row.projectId "BoardCreated"
    [("project_id", .str (codec.toString row.projectId)),
      ("board_id", .str (codec.toString row.id)), ("name", .str row.name)]
  commitTx "commit failed"

def createBoard (codec : IdCodec ι) (unicode : Unicode) (ctx : RequestContext)
    (req : CreateBoardRequest) : Handler ι Board := do
  let objectId ← checkedObjectId ctx
  let projectId ← parseId codec "invalid project_id" objectId
  let permission ← tenantClientFor ctx
  let tenantId ← tenantIdFromRequest ctx
  match ← cachedBoard tenantId req.idempotencyKey with
  | some row => do
      let columnsCount ← fetchColumnsCount row.id tenantId
      let cardsCount ← fetchCardsCount row.id tenantId
      .pure (boardFromRow codec row columnsCount cardsCount)
  | none => do
      ensure (req.name ≠ "") (invalidArgument "name is required")
      let boardId ← newId
      let row : BoardRow ι := ⟨boardId, tenantId, projectId, req.name, slugFromName unicode req.name,
        req.description, nullIfEmpty req.icon, protoToDb req.visibility, 0⟩
      insertNewBoard codec row
      -- best-effort
      let _ ← grantWithRetry permission permissionTypeBoard (codec.toString boardId) "parent"
        (permissionTypeProject ++ ":" ++ codec.toString projectId)
      storeIdempotencyId tenantId req.idempotencyKey boardId
      .pure (boardFromRow codec row 0 0)

/-! ## DeleteBoard -/

/-- Cards, each with the rows that refer to it. -/
def withChildren (db : Db ι) (cards : List (CardRow ι)) : List (Rec ι) :=
  cards.flatMap fun c => .card c :: cardChildren db c.id

/-- The cards that a board takes with it. -/
def cardsOfBoard (db : Db ι) (boardId : ι) : List (CardRow ι) :=
  db.cards.filter fun c =>
    c.boardId = boardId ∨ c.columnId ∈ (db.columns.filter (·.boardId = boardId)).map ColumnRow.id

/-- `DELETE FROM boards WHERE tenant_id = $1 AND id = $2`, with its cascade. -/
def deleteBoardRow (tenantId : String) (boardId : ι) : Stmt (Db ι) (Rec ι) (List (BoardRow ι)) :=
  fun db =>
    let rows := db.boards.filter fun b => b.id = boardId ∧ b.tenantId = tenantId
    let cards := cardsOfBoard db boardId
    let gone := if rows = [] then [] else
      withChildren db cards ++ (db.columns.filter (·.boardId = boardId)).map .column ++
        (db.eventLog.filter (·.boardId = some boardId)).map .event ++
        (db.aggregatedBoardSources.filter (·.boardId = boardId)).map .source
    if rows ≠ [] ∧ Linked db cards then none
    else some ⟨rows, rows.map .board, gone.map .del ++ rows.map fun b => .del (.board b)⟩

/-- What the statement does when it is not rejected. -/
theorem deleteBoardRow_some {tenantId : String} {boardId : ι} {db : Db ι}
    {e : Effect (Rec ι) (List (BoardRow ι))} (he : deleteBoardRow tenantId boardId db = some e) :
    e = ⟨db.boards.filter fun b => b.id = boardId ∧ b.tenantId = tenantId,
      (db.boards.filter fun b => b.id = boardId ∧ b.tenantId = tenantId).map .board,
      (if (db.boards.filter fun b => b.id = boardId ∧ b.tenantId = tenantId) = [] then [] else
          withChildren db (cardsOfBoard db boardId) ++
            (db.columns.filter (·.boardId = boardId)).map .column ++
            (db.eventLog.filter (·.boardId = some boardId)).map .event ++
            (db.aggregatedBoardSources.filter (·.boardId = boardId)).map .source).map .del ++
        (db.boards.filter fun b => b.id = boardId ∧ b.tenantId = tenantId).map fun b =>
          .del (.board b)⟩ := by
  simp only [deleteBoardRow] at he
  split at he
  · cases he
  · exact (Option.some.inj he).symm

def deleteBoard (codec : IdCodec ι) (ctx : RequestContext) : Handler ι Unit := do
  let tenantId ← tenantIdFromRequest ctx
  let objectId ← checkedObjectId ctx
  let boardId ← parseId codec "invalid board_id" objectId
  beginTx "begin tx failed"
  let board ← fetchOr "failed to fetch board" (notFound "board not found")
    (selectBoard tenantId boardId)
  insertProjectEvent tenantId board.projectId "BoardDeleted"
    [("project_id", .str (codec.toString board.projectId)),
      ("board_id", .str (codec.toString boardId))]
  let deleted ← query "failed to delete board" (deleteBoardRow tenantId boardId)
  ensure (deleted ≠ []) (notFound "board not found")
  commitTx "commit failed"

/-! ## AddColumn -/

structure AddColumnRequest where
  title : String
  accent : String
  wipLimit : ℤ
  position : ℤ
  isDone : Bool
  idempotencyKey : String
  deriving DecidableEq, Repr

/-- `INSERT INTO columns`; the board must exist. -/
def insertColumn (row : ColumnRow ι) : Stmt (Db ι) (Rec ι) (ColumnRow ι) := fun db =>
  if db.boards.any (·.id = row.boardId) then
    (Db.columnsT.insert row db).map fun e => ⟨row, e.read, e.writes⟩
  else none

/-- `INSERT INTO columns … SELECT …, COALESCE((SELECT MAX(position) …), -1) + 1, …`. -/
def insertColumnLast (row : ColumnRow ι) : Stmt (Db ι) (Rec ι) (ColumnRow ι) := fun db =>
  let rows := db.columns.filter (·.boardId = row.boardId)
  (int4 (((rows.map ColumnRow.position).max?).getD (-1) + 1)).bind fun n =>
    insertColumn { row with position := n } db

/-- `WITH shift AS (UPDATE columns SET position = position + 1 …) INSERT INTO columns …`. -/
def insertColumnAt (row : ColumnRow ι) : Stmt (Db ι) (Rec ι) (ColumnRow ι) := fun db =>
  (Db.columnsT.updateChecked (fun k => k.boardId = row.boardId ∧ row.position ≤ k.position)
    (fun k => (int4 (k.position + 1)).map fun n => { k with position := n }) db).bind fun shift =>
      (insertColumn row db).map fun e => ⟨row, shift.read ++ e.read, e.writes ++ shift.writes⟩

/-- The column recorded for the key, if the key was used and the column still exists. -/
def cachedColumn (tenantId key : String) : Handler ι (Option (ColumnRow ι)) :=
  if key = "" then .pure none
  else do
    let cached ← fetchOptional "idempotency key lookup failed" (selectIdempotencyKey tenantId key)
    match cached.bind IdempotencyRow.responseCardId with
    | none => .pure none
    | some columnId =>
        fetchOptional "failed to fetch cached column" (selectColumn tenantId columnId)

/-- The transaction of a new column: at the end of its board, or at its position. -/
def insertNewColumn (codec : IdCodec ι) (row : ColumnRow ι) : Handler ι (ColumnRow ι) := do
  beginTx "begin tx failed"
  let row ← if row.position = 0 then query "failed to insert column" (insertColumnLast row)
    else query "failed to insert column at position" (insertColumnAt row)
  insertBoardEvent row.tenantId row.boardId "ColumnAdded"
    [("column", eventColumnJson (columnFromRow codec row)), ("position", .num row.position)]
  commitTx "commit failed"
  .pure row

def addColumn (codec : IdCodec ι) (ctx : RequestContext) (req : AddColumnRequest) :
    Handler ι Column := do
  let objectId ← checkedObjectId ctx
  let boardId ← parseId codec "invalid board_id" objectId
  let tenantId ← tenantIdFromRequest ctx
  ensure (req.title ≠ "") (invalidArgument "title is required")
  match ← cachedColumn tenantId req.idempotencyKey with
  | some row => .pure (columnFromRow codec row)
  | none => do
      let columnId ← newId
      let row ← insertNewColumn codec ⟨columnId, tenantId, boardId, req.title,
        nullIfEmpty req.accent, if req.wipLimit = 0 then none else some req.wipLimit, req.position,
        req.isDone⟩
      storeIdempotencyId tenantId req.idempotencyKey columnId
      .pure (columnFromRow codec row)

/-- The columns that `tenant_id = $1 AND id = $2 AND board_id = $3` describes. -/
def columnOnBoard (tenantId : String) (columnId boardId : ι) (k : ColumnRow ι) : Bool :=
  k.tenantId = tenantId ∧ k.id = columnId ∧ k.boardId = boardId

/-! ## UpdateColumn -/

/-- The patch of an `UpdateColumn`. -/
structure ColumnPatch where
  title : String
  accent : String
  wipLimit : ℤ
  isDone : Bool
  deriving DecidableEq, Repr

structure UpdateColumnRequest where
  columnId : String
  column : ColumnPatch
  updateMask : List String
  deriving DecidableEq, Repr

/-- The row after the patch. -/
def patchColumn (req : UpdateColumnRequest) (k : ColumnRow ι) : ColumnRow ι :=
  { k with
    title := sparse req.column.title k.title
    accent := sparseOption req.column.accent k.accent
    wipLimit := if req.column.wipLimit ≠ 0 then some req.column.wipLimit else k.wipLimit
    isDone := if "is_done" ∈ req.updateMask then req.column.isDone else k.isDone }

def updateColumn (codec : IdCodec ι) (ctx : RequestContext) (req : UpdateColumnRequest) :
    Handler ι Column := do
  let tenantId ← tenantIdFromRequest ctx
  let objectId ← checkedObjectId ctx
  let boardId ← parseId codec "invalid board_id" objectId
  let columnId ← parseId codec "invalid column_id" req.columnId
  beginTx "begin tx failed"
  let row ← fetchOr "failed to update column" (notFound "column not found on this board")
    (Db.columnsT.update (columnOnBoard tenantId columnId boardId) (patchColumn req))
  let column := columnFromRow codec row
  insertBoardEvent tenantId boardId "ColumnUpdated" [("column", eventColumnJson column)]
  commitTx "commit failed"
  .pure column

/-! ## RemoveColumn -/

structure RemoveColumnRequest where
  columnId : String
  deriving DecidableEq, Repr

/-- `DELETE FROM columns`, with its cascade. -/
def deleteColumnRow (tenantId : String) (columnId boardId : ι) :
    Stmt (Db ι) (Rec ι) (List (ColumnRow ι)) := fun db =>
  let rows := db.columns.filter (columnOnBoard tenantId columnId boardId)
  let cards := db.cards.filter (·.columnId = columnId)
  let gone := if rows = [] then [] else withChildren db cards
  if rows ≠ [] ∧ Linked db cards then none
  else some ⟨rows, rows.map .column, gone.map .del ++ rows.map fun k => .del (.column k)⟩

/-- What the statement does when it is not rejected. -/
theorem deleteColumnRow_some {tenantId : String} {columnId boardId : ι} {db : Db ι}
    {e : Effect (Rec ι) (List (ColumnRow ι))}
    (he : deleteColumnRow tenantId columnId boardId db = some e) :
    e = ⟨db.columns.filter (columnOnBoard tenantId columnId boardId),
      (db.columns.filter (columnOnBoard tenantId columnId boardId)).map .column,
      (if db.columns.filter (columnOnBoard tenantId columnId boardId) = [] then []
          else withChildren db (db.cards.filter (·.columnId = columnId))).map .del ++
        (db.columns.filter (columnOnBoard tenantId columnId boardId)).map fun k => .del (.column k)⟩ := by
  simp only [deleteColumnRow] at he
  split at he
  · cases he
  · exact (Option.some.inj he).symm

/-- Renumber the columns of a board 0, 1, 2, … in their order. -/
def gapFill (tenantId : String) (boardId : ι) : Stmt (Db ι) (Rec ι) Unit := fun db =>
  let rows := db.columns.filter fun k => k.tenantId = tenantId ∧ k.boardId = boardId
  let ranked := (rows.insertionSort fun k k' => k.position ≤ k'.position).zipIdx
  some ⟨(), rows.map .column, ranked.map fun k => .put (.column { k.1 with position := k.2 })⟩

def removeColumn (codec : IdCodec ι) (ctx : RequestContext) (req : RemoveColumnRequest) :
    Handler ι Unit := do
  let tenantId ← tenantIdFromRequest ctx
  let objectId ← checkedObjectId ctx
  let boardId ← parseId codec "invalid board_id" objectId
  let columnId ← parseId codec "invalid column_id" req.columnId
  beginTx "begin tx failed"
  let found ← query "failed to verify column ownership"
    (Db.columnsT.select (columnOnBoard tenantId columnId boardId))
  ensure (found ≠ []) (notFound "column not found on this board")
  let deleted ← query "failed to delete column" (deleteColumnRow tenantId columnId boardId)
  ensure (deleted ≠ []) (notFound "column not found")
  -- best-effort, but a statement that fails aborts the transaction
  let _ ← attempt (gapFill tenantId boardId)
  insertBoardEvent tenantId boardId "ColumnRemoved"
    [("column_id", .str (codec.toString columnId)), ("move_cards_to_column", .str "")]
  commitTx "commit failed"

/-! ## MoveColumn -/

structure MoveColumnRequest where
  columnId : String
  toPosition : ℤ
  deriving DecidableEq, Repr

/-- `UPDATE columns SET position = position + $ WHERE tenant_id = $1 AND board_id = $2 AND …`. -/
def shiftColumns (tenantId : String) (boardId : ι) (p : ℤ → Bool) (delta : ℤ) :
    Stmt (Db ι) (Rec ι) (List (ColumnRow ι)) :=
  Db.columnsT.updateChecked (fun k => k.tenantId = tenantId ∧ k.boardId = boardId ∧ p k.position)
    fun k => (int4 (k.position + delta)).map fun n => { k with position := n }

/-- `UPDATE columns SET position = $3 WHERE tenant_id = $1 AND id = $2`. -/
def placeColumn (tenantId : String) (columnId : ι) (position : ℤ) :
    Stmt (Db ι) (Rec ι) (List (ColumnRow ι)) :=
  Db.columnsT.update (fun k => k.tenantId = tenantId ∧ k.id = columnId)
    fun k => { k with position := position }

/-- `SELECT … FROM columns WHERE tenant_id = $1 AND board_id = $2 ORDER BY position ASC`. -/
def selectColumnsInOrder (tenantId : String) (boardId : ι) :
    Stmt (Db ι) (Rec ι) (List (ColumnRow ι)) := fun db =>
  let rows := db.columns.filter fun k => k.tenantId = tenantId ∧ k.boardId = boardId
  some ⟨rows.insertionSort fun k k' => k.position ≤ k'.position, rows.map .column, []⟩

/-- Shift the columns between the position of the column and its target, and place it there. -/
def reorderColumn (tenantId : String) (columnId boardId : ι) (currentPos targetPos : ℤ) :
    Handler ι Unit :=
  if currentPos = targetPos then .pure ()
  else do
    let _ ← if targetPos > currentPos then
        query "failed to shift columns (forward move)"
          (shiftColumns tenantId boardId (fun p => currentPos < p ∧ p ≤ targetPos) (-1))
      else
        query "failed to shift columns (backward move)"
          (shiftColumns tenantId boardId (fun p => targetPos ≤ p ∧ p < currentPos) 1)
    let _ ← query "failed to place moved column" (placeColumn tenantId columnId targetPos)
    .pure ()

def moveColumn (codec : IdCodec ι) (ctx : RequestContext) (req : MoveColumnRequest) :
    Handler ι (List Column) := do
  let tenantId ← tenantIdFromRequest ctx
  let objectId ← checkedObjectId ctx
  let boardId ← parseId codec "invalid board_id" objectId
  let columnId ← parseId codec "invalid column_id" req.columnId
  ensure (1 ≤ req.toPosition) (invalidArgument "to_position must be >= 1")
  beginTx "begin tx failed"
  let current ← fetchOr "failed to fetch column position"
    (notFound "column not found on this board")
    (Db.columnsT.select (columnOnBoard tenantId columnId boardId))
  reorderColumn tenantId columnId boardId current.position (req.toPosition - 1)
  let rows ← query "failed to fetch columns" (selectColumnsInOrder tenantId boardId)
  let columns := rows.map (columnFromRow codec)
  insertBoardEvent tenantId boardId "ColumnsReordered"
    [("columns", .objs (columns.map eventColumnFields))]
  commitTx "commit failed"
  .pure columns

end Kanban.Rpc
