import Mathlib.Data.Prod.Lex
import Mathlib.Data.String.Basic
import Kanban.Services.AggregatedStream
import Kanban.Services.Subscriptions

/-!
# Aggregated boards

`services/aggregated_boards.rs`: the two read paths of an aggregated board and the handlers
that attach and detach its source boards.  `get_aggregated_board` filters the source boards
by visibility and permission; `subscribe_aggregated_board` takes the attached ids as they are.

## Main definitions

* `World` — the tables and the permission backend.
* `getAggregatedBoard`, `subscribeAggregatedBoard` — the two read paths.
* `createAggregatedBoard`, `addSourceBoard`, `removeSourceBoard` — the writes.
* `World.MayRead` — the test that the first path applies to a source board.
* `Session` — one caller's stream beside the changes of the world.
-/

namespace Kanban.Services

open Machine History Kanban.Realtime

variable {ι : Type}

/-! ## Tables -/

/-- A row of `aggregated_boards`. -/
structure AggregateRow (ι : Type) where
  id : ι
  tenantId : String
  name : String
  description : Option String
  icon : Option String
  visibility : String

/-- A row of `aggregated_board_sources`. -/
structure SourceRow (ι : Type) where
  aggregatedBoardId : ι
  tenantId : String
  boardId : ι
  position : ℤ
  addedAt : ℕ

/-- A row of `cards`, with its full proto. -/
structure CardRow (ι : Type) where
  boardId : ι
  columnId : ι
  position : ℤ
  tenantId : String
  proto : Value

/-- The tables that the aggregated boards read, and the tenant's permission backend. -/
structure World (ι : Type) where
  boards : Boards ι
  aggregates : List (AggregateRow ι)
  sources : List (SourceRow ι)
  cards : List (CardRow ι)
  permissions : Permissions

/-! ## Reads -/

/-- A source board as it is sent. -/
structure SourceBoardRef where
  boardId : String
  projectId : String
  name : String
  icon : String
  position : ℤ

structure AggregatedColumn where
  id : String
  title : String
  accent : String
  wipLimit : ℤ
  position : ℤ
  sourceBoardId : String

/-- A card of a batch, with the board it belongs to. -/
structure BatchCard where
  boardId : String
  proto : Value

/-- A chunk of the answer of `get_aggregated_board`. -/
inductive Chunk
  | metadata (id name description icon : String) (visibility : ℤ)
  | sourceBoard (ref : SourceBoardRef)
  | column (column : AggregatedColumn)
  | cardBatch (cards : List BatchCard)

/-- The source boards that a chunk shows something of. -/
def Chunk.boardIds : Chunk → List String
  | .metadata .. => []
  | .sourceBoard ref => [ref.boardId]
  | .column col => [col.sourceBoardId]
  | .cardBatch cards => cards.map BatchCard.boardId

def cardBatchSize : ℕ := 100

/-- `slice::chunks`. -/
def batches {α : Type*} (size : ℕ) : List α → List (List α)
  | [] => []
  | x :: l => (x :: l.take (size - 1)) :: batches size (l.drop (size - 1))
  termination_by l => l.length
  decreasing_by simp only [List.length_drop, List.length_cons]; omega

theorem mem_of_mem_batches {α : Type*} {size : ℕ} {l batch : List α} {x : α}
    (hbatch : batch ∈ batches size l) (hx : x ∈ batch) : x ∈ l := by
  induction l using batches.induct size with
  | case1 => simp [batches] at hbatch
  | case2 y l ih =>
      rw [batches] at hbatch
      rcases List.mem_cons.mp hbatch with rfl | hbatch
      · rcases List.mem_cons.mp hx with rfl | hx
        · simp
        · exact List.mem_cons_of_mem _ (List.mem_of_mem_take hx)
      · exact List.mem_cons_of_mem _ (List.mem_of_mem_drop (ih hbatch))

/-- `ORDER BY board_id, column_id, position`. -/
def cardOrder (codec : IdCodec ι) (a b : CardRow ι) : Bool :=
  toLex (codec.toString a.boardId, toLex (codec.toString a.columnId, a.position)) ≤
    toLex (codec.toString b.boardId, toLex (codec.toString b.columnId, b.position))

namespace World

variable [DecidableEq ι] (codec : IdCodec ι) (w : World ι)

/-- The rows of an aggregate, `ORDER BY position ASC, added_at ASC`. -/
def sourceRows (aggregatedBoardId : ι) (tenantId : String) : List (SourceRow ι) :=
  (w.sources.filter fun s => s.aggregatedBoardId = aggregatedBoardId ∧ s.tenantId = tenantId).mergeSort
    fun a b => a.position < b.position ∨ a.position = b.position ∧ a.addedAt ≤ b.addedAt

/-- `fetch_source_board_ids`: nothing is asked of the boards. -/
def fetchSourceBoardIds (aggregatedBoardId : ι) (tenantId : String) : List ι :=
  (w.sourceRows aggregatedBoardId tenantId).map SourceRow.boardId

/-- `fetch_source_boards`: joined with `boards`. -/
def fetchSourceBoards (aggregatedBoardId : ι) (tenantId : String) : List SourceBoardRef :=
  (w.sourceRows aggregatedBoardId tenantId).filterMap fun s =>
    (w.boards.rows.find? (·.id = s.boardId)).map fun b =>
      ⟨codec.toString b.id, codec.toString b.projectId, b.name, b.icon.getD "", s.position⟩

/-- `fetch_public_internal_board_ids`. -/
def fetchPublicInternalBoardIds (tenantId : String) (boardIds : List ι) : List ι :=
  if boardIds = [] then []
  else (w.boards.rows.filter fun b => b.id ∈ boardIds ∧ b.tenantId = tenantId ∧
    (b.visibility = "public" ∨ b.visibility = "internal")).map BoardRow.id

/-- `fetch_cards_for_boards`. -/
def fetchCardsForBoards (boardIds visibleBoardIds : List ι) (tenantId : String) :
    List BatchCard :=
  if boardIds = [] then []
  else ((w.cards.filter fun c => c.boardId ∈ boardIds ∧ c.tenantId = tenantId ∧
    c.boardId ∈ visibleBoardIds).mergeSort (cardOrder codec)).map
      fun c => ⟨codec.toString c.boardId, c.proto⟩

/-- The row of an aggregated board. -/
def fetchAggregate (tenantId : String) (id : ι) : Option (AggregateRow ι) :=
  w.aggregates.find? fun row => row.id = id ∧ row.tenantId = tenantId

end World

def subjectFromRequest (auth : Option AuthContext) : Except ConnectError String :=
  match auth.bind AuthContext.subject with
  | some subject => .ok subject
  | none => .error ⟨.unauthenticated, "missing auth context"⟩

def tenantIdFromRequest (auth : Option AuthContext) : Except ConnectError String :=
  match auth.bind AuthContext.tenantId with
  | some tenant => .ok tenant
  | none => .error ⟨.unauthenticated, "missing tenant context"⟩

section Reads

variable [DecidableEq ι] (codec : IdCodec ι) (w : World ι)

/-- The ids of the source boards that were read. -/
def World.sourceBoardIds (aggregatedBoardId : ι) (tenantId : String) : List ι :=
  (w.fetchSourceBoards codec aggregatedBoardId tenantId).filterMap fun sb => codec.parse sb.boardId

/-- The source boards that are public or internal, or private with an explicit view relation. -/
def World.allowedSourceIds (aggregatedBoardId : ι) (tenantId : String)
    (allowedPrivateIds : List String) : List ι :=
  let boardIds := w.sourceBoardIds codec aggregatedBoardId tenantId
  boardIds.filter fun id =>
    id ∈ w.fetchPublicInternalBoardIds tenantId boardIds ∨ codec.toString id ∈ allowedPrivateIds

/-- The chunks for an aggregate whose caller has view of `allowedPrivateIds`. -/
def aggregateChunks (row : AggregateRow ι) (tenantId : String) (allowedPrivateIds : List String) :
    List Chunk :=
  let allowedSourceIds := w.allowedSourceIds codec row.id tenantId allowedPrivateIds
  let cards := w.fetchCardsForBoards codec (w.sourceBoardIds codec row.id tenantId)
    allowedSourceIds tenantId
  let filtered := (w.fetchSourceBoards codec row.id tenantId).filter fun sb =>
    (codec.parse sb.boardId).any (· ∈ allowedSourceIds)
  .metadata (codec.toString row.id) row.name (row.description.getD "") (row.icon.getD "")
    (dbToProto row.visibility) ::
  (filtered.map .sourceBoard ++
    filtered.mapIdx (fun i sb => .column ⟨"agg-col-" ++ sb.boardId, sb.name, sb.icon, 0, i + 1,
      sb.boardId⟩) ++
    (batches cardBatchSize cards).map .cardBatch)

/-- `get_aggregated_board`. -/
def getAggregatedBoard (auth : Option AuthContext) (aggregatedBoardId : String) :
    Except ConnectError (List Chunk) := do
  let subject ← subjectFromRequest auth
  let tenantId ← tenantIdFromRequest auth
  let some id := codec.parse aggregatedBoardId
    | .error ⟨.invalidArgument, "invalid aggregated_board_id"⟩
  let some row := w.fetchAggregate tenantId id
    | .error ⟨.notFound, "aggregated board not found"⟩
  let allowed ← if isPublicOrInternal row.visibility then .ok true
    else match w.permissions.check ⟨"KanbanAggregatedBoard", codec.toString id, "view", subject⟩ with
      | some allowed => .ok allowed
      | none => .error ⟨.internal, "failed to check aggregated board view permission"⟩
  if allowed then
    let some allowedPrivateIds := w.permissions.expandObjects "KanbanBoard" "view" subject 10000
      | .error ⟨.internal, "permission expand failed"⟩
    .ok (aggregateChunks codec w row tenantId allowedPrivateIds)
  else .error ⟨.permissionDenied, "you do not have permission to view this aggregated board"⟩

/-- `subscribe_aggregated_board`: the source boards are taken as they are attached. -/
def subscribeAggregatedBoard (config : StreamConfig) (auth : Option AuthContext)
    (aggregatedBoardId : String) : Except ConnectError (SubscribeAggregatedBoardArgs ι) := do
  let (auth, tenantId) ← callerTenant auth
  let some id := codec.parse aggregatedBoardId
    | .error ⟨.invalidArgument, "invalid aggregated_board_id"⟩
  let some row := w.fetchAggregate tenantId id
    | .error ⟨.notFound, "aggregated board not found"⟩
  .ok {
    auth := auth
    aggregatedBoardId := aggregatedBoardId
    sourceBoardIds := w.fetchSourceBoardIds id tenantId
    isPrivate := !isPublicOrInternal row.visibility
    permissionRecheckInterval := config.permissionRecheckInterval
    cutoverSeenCapacity := config.cutoverSeenCapacity }

end Reads

/-! ## Writes -/

section Writes

variable [DecidableEq ι] (codec : IdCodec ι) (w : World ι)

structure CreateAggregatedBoardRequest where
  name : String
  description : String
  icon : String
  visibility : ℤ
  sourceBoardIds : List String

def checkedObjectId (object : Option String) : Except ConnectError String :=
  match object with
  | some object => .ok object
  | none => .error ⟨.internal, "missing CheckedObjectId extension"⟩

/-- Parse an id of a request. -/
def parseId (text what : String) : Except ConnectError ι :=
  match codec.parse text with
  | some id => .ok id
  | none => .error ⟨.invalidArgument, "invalid " ++ what⟩

/-- Insert a source row.  Any board may be attached that exists; a row of the same aggregate and
board is a conflict. -/
def World.insertSource (row : SourceRow ι) : Except ConnectError (World ι) :=
  if (∃ b ∈ w.boards.rows, b.id = row.boardId) ∧
      ∀ s ∈ w.sources, ¬ (s.aggregatedBoardId = row.aggregatedBoardId ∧ s.boardId = row.boardId) then
    .ok { w with sources := w.sources ++ [row] }
  else .error ⟨.internal, "failed to insert source board"⟩

/-- Insert a source row, or move the row of the same aggregate and board to its position. -/
def World.upsertSource (row : SourceRow ι) : Except ConnectError (World ι) :=
  if ∃ s ∈ w.sources, s.aggregatedBoardId = row.aggregatedBoardId ∧ s.boardId = row.boardId then
    .ok { w with sources := w.sources.map fun s =>
      if s.aggregatedBoardId = row.aggregatedBoardId ∧ s.boardId = row.boardId then
        { s with position := row.position }
      else s }
  else w.insertSource row

/-- `apply_source_order` with the current order: contiguous positions. -/
def World.normaliseSources (aggregatedBoardId : ι) (tenantId : String) : World ι :=
  let ordered := w.fetchSourceBoardIds aggregatedBoardId tenantId
  { w with sources := w.sources.map fun s =>
      if s.aggregatedBoardId = aggregatedBoardId ∧ s.tenantId = tenantId then
        { s with position := ordered.idxOf s.boardId }
      else s }

/-- `insert_aggregated_event` fails when it finds no aggregate to bump. -/
def World.bumpAggregate (id : ι) : Except ConnectError Unit :=
  if ∃ row ∈ w.aggregates, row.id = id then .ok ()
  else .error ⟨.internal, "failed to bump aggregated board revision"⟩

/-- `get_aggregate_metadata`. -/
def World.aggregateMetadata (id : ι) (tenantId : String) : Except ConnectError (AggregateRow ι) :=
  match w.fetchAggregate tenantId id with
  | some row => .ok row
  | none => .error ⟨.notFound, "aggregated board not found"⟩

/-- A transaction: rolled back on an error, and answered from what it has committed. -/
def World.transact (tx : Except ConnectError (World ι))
    (answer : World ι → Except ConnectError (AggregateRow ι)) :
    World ι × Except ConnectError (AggregateRow ι) :=
  match tx with
  | .ok w' => (w', answer w')
  | .error e => (w, .error e)

/-- `create_aggregated_board`, under a new id.  The permission backend is written before the
commit; `granted` says whether that succeeds. -/
def createAggregatedBoard (auth : Option AuthContext) (req : CreateAggregatedBoardRequest) (id : ι)
    (granted : Bool) (now : ℕ) : World ι × Except ConnectError (AggregateRow ι) :=
  w.transact
    (do
      let _ ← subjectFromRequest auth
      let tenantId ← tenantIdFromRequest auth
      if req.name = "" then .error ⟨.invalidArgument, "name is required"⟩
      if ∃ row ∈ w.aggregates, row.id = id then
        .error ⟨.internal, "failed to insert aggregated board"⟩
      let row : AggregateRow ι := ⟨id, tenantId, req.name, some req.description, some req.icon,
        protoToDb req.visibility⟩
      let w' ← req.sourceBoardIds.zipIdx.foldlM (fun (w : World ι) source => do
        let boardId ← parseId codec source.1 "source_board_id"
        w.insertSource ⟨id, tenantId, boardId, source.2, now⟩)
        { w with aggregates := w.aggregates ++ [row] }
      if granted then .ok w'
      else .error ⟨.internal, "failed to write owner tuple to the permission backend"⟩)
    fun w' => (tenantIdFromRequest auth).bind (w'.aggregateMetadata id)

/-- The tenant, the checked aggregate and the board of a request about one source. -/
def sourceRequest (auth : Option AuthContext) (object : Option String) (boardId : String) :
    Except ConnectError (String × ι × ι) := do
  let tenantId ← tenantIdFromRequest auth
  let object ← checkedObjectId object
  let id ← parseId codec object "aggregated_board_id"
  let boardId ← parseId codec boardId "board_id"
  .ok (tenantId, id, boardId)

/-- `add_source_board`: the aggregate is the checked object, the board is any board. -/
def addSourceBoard (auth : Option AuthContext) (object : Option String) (boardId : String)
    (reqPosition : ℤ) (now : ℕ) : World ι × Except ConnectError (AggregateRow ι) :=
  match sourceRequest codec auth object boardId with
  | .error e => (w, .error e)
  | .ok (tenantId, id, boardId) =>
      let position : ℤ := if 0 < reqPosition then reqPosition else (w.sourceRows id tenantId).length
      let shifted : World ι := { w with sources := w.sources.map fun s =>
        if s.aggregatedBoardId = id ∧ s.tenantId = tenantId ∧ position ≤ s.position then
          { s with position := s.position + 1 }
        else s }
      w.transact
        (do
          let w' ← shifted.upsertSource ⟨id, tenantId, boardId, position, now⟩
          let w' := w'.normaliseSources id tenantId
          w'.bumpAggregate id
          .ok w')
        (·.aggregateMetadata id tenantId)

/-- `remove_source_board`. -/
def removeSourceBoard (auth : Option AuthContext) (object : Option String) (boardId : String) :
    World ι × Except ConnectError (AggregateRow ι) :=
  match sourceRequest codec auth object boardId with
  | .error e => (w, .error e)
  | .ok (tenantId, id, boardId) =>
      w.transact
        (do
          let w' : World ι := { w with sources := w.sources.filter fun s =>
            ¬ (s.aggregatedBoardId = id ∧ s.tenantId = tenantId ∧ s.boardId = boardId) }
          let w' := w'.normaliseSources id tenantId
          w'.bumpAggregate id
          .ok w')
        (·.aggregateMetadata id tenantId)

/-- What changes the world while a stream is open. -/
inductive Change (ι : Type)
  | createAggregatedBoard (auth : Option AuthContext) (req : CreateAggregatedBoardRequest) (id : ι)
      (granted : Bool) (now : ℕ)
  | addSourceBoard (auth : Option AuthContext) (object : Option String) (boardId : String)
      (position : ℤ) (now : ℕ)
  | removeSourceBoard (auth : Option AuthContext) (object : Option String) (boardId : String)
  /-- Boards are created, deleted or given another visibility; rows that attach a deleted board
  go with it. -/
  | boards (boards : Boards ι)
  /-- Aggregates are deleted, renamed or given another visibility. -/
  | aggregates (rows : List (AggregateRow ι))
  | cards (rows : List (CardRow ι))
  /-- Relations are granted or revoked. -/
  | permissions (permissions : Permissions)

def World.change : Change ι → World ι
  | .createAggregatedBoard auth req id granted now =>
      (createAggregatedBoard codec w auth req id granted now).1
  | .addSourceBoard auth object boardId position now =>
      (addSourceBoard codec w auth object boardId position now).1
  | .removeSourceBoard auth object boardId => (removeSourceBoard codec w auth object boardId).1
  | .boards boards => { w with
      boards := boards
      sources := w.sources.filter fun s => ∃ b ∈ boards.rows, b.id = s.boardId }
  | .aggregates rows => { w with
      aggregates := rows
      sources := w.sources.filter fun s => ∃ row ∈ rows, row.id = s.aggregatedBoardId }
  | .cards rows => { w with cards := rows }
  | .permissions permissions => { w with permissions := permissions }

end Writes

/-! ## What the unary read discloses -/

section Disclosure

variable [DecidableEq ι] {codec : IdCodec ι} {w : World ι} {tenantId : String}
  {allowedPrivateIds : List String}

/-- The board exists and passes the test of `get_aggregated_board`. -/
def World.Shows (codec : IdCodec ι) (w : World ι) (tenantId : String)
    (allowedPrivateIds : List String) (id : ι) : Prop :=
  ∃ b ∈ w.boards.rows, b.id = id ∧
    (b.tenantId = tenantId ∧ isPublicOrInternal b.visibility ∨
      codec.toString id ∈ allowedPrivateIds)

theorem exists_find_board {id : ι} (h : ∃ b ∈ w.boards.rows, b.id = id) :
    ∃ b ∈ w.boards.rows, b.id = id ∧ w.boards.rows.find? (·.id = id) = some b := by
  obtain ⟨b, hb, rfl⟩ := h
  refine ⟨b, hb, rfl, ?_⟩
  cases hfind : w.boards.rows.find? (·.id = b.id) with
  | none => simpa using List.find?_eq_none.mp hfind b hb
  | some b' =>
      have hid : b'.id = b.id := by simpa using List.find?_some hfind
      rw [Boards.row_unique (List.mem_of_find?_eq_some hfind) hb hid]

/-- A source board that is read carries the id of an attached board. -/
theorem fetchSourceBoards_boardId {aggregatedBoardId : ι} {sb : SourceBoardRef}
    (h : sb ∈ w.fetchSourceBoards codec aggregatedBoardId tenantId) :
    ∃ b ∈ w.boards.rows, b.id ∈ w.fetchSourceBoardIds aggregatedBoardId tenantId ∧
      sb.boardId = codec.toString b.id := by
  obtain ⟨s, hs, hsb⟩ := List.mem_filterMap.mp h
  obtain ⟨b, hfind, rfl⟩ := Option.map_eq_some_iff.mp hsb
  have hid : b.id = s.boardId := by simpa using List.find?_some hfind
  exact ⟨b, List.mem_of_find?_eq_some hfind, hid ▸ List.mem_map_of_mem hs, rfl⟩

/-- Every attached board that exists is read. -/
theorem exists_fetchSourceBoards (codec : IdCodec ι) {aggregatedBoardId id : ι}
    (hid : id ∈ w.fetchSourceBoardIds aggregatedBoardId tenantId)
    (hb : ∃ b ∈ w.boards.rows, b.id = id) :
    ∃ sb ∈ w.fetchSourceBoards codec aggregatedBoardId tenantId,
      sb.boardId = codec.toString id := by
  obtain ⟨s, hs, rfl⟩ := List.mem_map.mp hid
  obtain ⟨b, -, hbid, hfind⟩ := exists_find_board hb
  refine ⟨_, List.mem_filterMap.mpr ⟨s, hs, by rw [hfind]; rfl⟩, ?_⟩
  exact congrArg codec.toString hbid

theorem mem_fetchPublicInternalBoardIds {boardIds : List ι} {id : ι} :
    id ∈ w.fetchPublicInternalBoardIds tenantId boardIds ↔ id ∈ boardIds ∧
      ∃ b ∈ w.boards.rows, b.id = id ∧ b.tenantId = tenantId ∧ isPublicOrInternal b.visibility := by
  unfold World.fetchPublicInternalBoardIds
  split
  · simp [*]
  · simp only [List.mem_map, List.mem_filter, decide_eq_true_eq, isPublicOrInternal_iff]
    constructor
    · rintro ⟨b, ⟨hb, hid, hread⟩, rfl⟩
      exact ⟨hid, b, hb, rfl, hread⟩
    · rintro ⟨hid, b, hb, rfl, hread⟩
      exact ⟨b, ⟨hb, hid, hread⟩, rfl⟩

theorem mem_sourceBoardIds {aggregatedBoardId id : ι} :
    id ∈ w.sourceBoardIds codec aggregatedBoardId tenantId ↔
      id ∈ w.fetchSourceBoardIds aggregatedBoardId tenantId ∧ ∃ b ∈ w.boards.rows, b.id = id := by
  rw [World.sourceBoardIds, List.mem_filterMap]
  constructor
  · intro ⟨sb, hmem, hparse⟩
    obtain ⟨b, hb, hbid, htext⟩ := fetchSourceBoards_boardId hmem
    rw [htext, codec.parse_toString] at hparse
    obtain rfl := Option.some.inj hparse
    exact ⟨hbid, b, hb, rfl⟩
  · intro ⟨hid, hb⟩
    obtain ⟨sb, hmem, htext⟩ := exists_fetchSourceBoards codec hid hb
    exact ⟨sb, hmem, by rw [htext, codec.parse_toString]⟩

theorem mem_allowedSourceIds {aggregatedBoardId id : ι} :
    id ∈ w.allowedSourceIds codec aggregatedBoardId tenantId allowedPrivateIds ↔
      id ∈ w.fetchSourceBoardIds aggregatedBoardId tenantId ∧
        w.Shows codec tenantId allowedPrivateIds id := by
  simp only [World.allowedSourceIds, List.mem_filter, decide_eq_true_eq,
    mem_fetchPublicInternalBoardIds, mem_sourceBoardIds, World.Shows]
  constructor
  · rintro ⟨⟨hid, b, hb, rfl⟩, ⟨-, b', hb', hbid, hvis⟩ | hpriv⟩
    · exact ⟨hid, b', hb', hbid, .inl hvis⟩
    · exact ⟨hid, b, hb, rfl, .inr hpriv⟩
  · rintro ⟨hid, b, hb, rfl, hvis | hpriv⟩
    · exact ⟨⟨hid, b, hb, rfl⟩, .inl ⟨⟨hid, b, hb, rfl⟩, b, hb, rfl, hvis⟩⟩
    · exact ⟨⟨hid, b, hb, rfl⟩, .inr hpriv⟩

/-- The cards that are read belong to visible boards. -/
theorem fetchCardsForBoards_boardId {boardIds visibleBoardIds : List ι} {card : BatchCard}
    (h : card ∈ w.fetchCardsForBoards codec boardIds visibleBoardIds tenantId) :
    ∃ id ∈ visibleBoardIds, codec.toString id = card.boardId := by
  unfold World.fetchCardsForBoards at h
  split at h
  · cases h
  · obtain ⟨c, hc, rfl⟩ := List.mem_map.mp h
    simp only [List.mem_mergeSort, List.mem_filter, decide_eq_true_eq] at hc
    exact ⟨c.boardId, hc.2.2.2, rfl⟩

/-- **The unary read discloses the attached boards that pass its test, and no others.** -/
theorem mem_aggregateChunks {row : AggregateRow ι} {x : String} :
    x ∈ (aggregateChunks codec w row tenantId allowedPrivateIds).flatMap Chunk.boardIds ↔
      ∃ id ∈ w.allowedSourceIds codec row.id tenantId allowedPrivateIds,
        codec.toString id = x := by
  have hfiltered : ∀ sb ∈ w.fetchSourceBoards codec row.id tenantId,
      (codec.parse sb.boardId).any
        (· ∈ w.allowedSourceIds codec row.id tenantId allowedPrivateIds) →
      ∃ id ∈ w.allowedSourceIds codec row.id tenantId allowedPrivateIds,
        codec.toString id = sb.boardId := by
    intro sb hsb hallowed
    obtain ⟨b, -, -, htext⟩ := fetchSourceBoards_boardId hsb
    refine ⟨b.id, ?_, htext.symm⟩
    simpa [htext, codec.parse_toString] using hallowed
  simp only [aggregateChunks, List.flatMap_cons, List.flatMap_append, List.mem_append,
    List.mem_flatMap, List.mem_map, List.mem_mapIdx, Chunk.boardIds, List.not_mem_nil, false_or]
  constructor
  · rintro ((⟨_, ⟨sb, hsb, rfl⟩, hx⟩ | ⟨_, ⟨i, hi, rfl⟩, hx⟩) | ⟨_, ⟨batch, hbatch, rfl⟩, hx⟩)
    · obtain rfl := List.mem_singleton.mp hx
      exact hfiltered sb (List.mem_filter.mp hsb).1 (List.mem_filter.mp hsb).2
    · obtain rfl := List.mem_singleton.mp hx
      have hsb := List.mem_filter.mp (List.getElem_mem hi)
      exact hfiltered _ hsb.1 hsb.2
    · obtain ⟨card, hcard, rfl⟩ := List.mem_map.mp hx
      exact fetchCardsForBoards_boardId (mem_of_mem_batches hbatch hcard)
  · rintro ⟨id, hid, rfl⟩
    obtain ⟨hattached, b, hb, hbid, -⟩ := mem_allowedSourceIds.mp hid
    obtain ⟨sb, hsb, htext⟩ := exists_fetchSourceBoards codec hattached ⟨b, hb, hbid⟩
    refine .inl (.inl ⟨_, ⟨sb, List.mem_filter.mpr ⟨hsb, ?_⟩, rfl⟩, ?_⟩)
    · simpa [htext, codec.parse_toString] using hid
    · simp [htext]

theorem getAggregatedBoard_ok {auth : Option AuthContext} {aggregatedBoardId : String}
    {chunks : List Chunk} (h : getAggregatedBoard codec w auth aggregatedBoardId = .ok chunks) :
    ∃ subject tenantId id row allowedPrivateIds,
      auth.bind AuthContext.subject = some subject ∧ auth.bind AuthContext.tenantId = some tenantId ∧
      codec.parse aggregatedBoardId = some id ∧ w.fetchAggregate tenantId id = some row ∧
      w.permissions.expandObjects "KanbanBoard" "view" subject 10000 = some allowedPrivateIds ∧
      chunks = aggregateChunks codec w row tenantId allowedPrivateIds := by
  unfold getAggregatedBoard subjectFromRequest tenantIdFromRequest at h
  cases hsubject : auth.bind AuthContext.subject with
  | none => simp [hsubject, bind, Except.bind] at h
  | some subject =>
      cases htenant : auth.bind AuthContext.tenantId with
      | none => simp [hsubject, htenant, bind, Except.bind] at h
      | some tenantId =>
          simp only [hsubject, htenant, bind, Except.bind] at h
          split at h <;> try cases h
          split at h <;> try cases h
          split at h
          · rw [if_pos trivial] at h
            split at h <;> cases h
            exact ⟨_, _, _, _, _, rfl, rfl, ‹_›, ‹_›, ‹_›, rfl⟩
          · split at h
            · split at h
              · split at h <;> cases h
                exact ⟨_, _, _, _, _, rfl, rfl, ‹_›, ‹_›, ‹_›, rfl⟩
              · cases h
            · cases h

theorem subscribeAggregatedBoard_ok {config : StreamConfig} {auth : Option AuthContext}
    {aggregatedBoardId : String} {args : SubscribeAggregatedBoardArgs ι}
    (h : subscribeAggregatedBoard codec w config auth aggregatedBoardId = .ok args) :
    ∃ tenantId id row, auth = some args.auth ∧ args.auth.tenantId = some tenantId ∧
      codec.parse aggregatedBoardId = some id ∧ w.fetchAggregate tenantId id = some row ∧
      args.sourceBoardIds = w.fetchSourceBoardIds id tenantId := by
  unfold subscribeAggregatedBoard at h
  cases hcaller : callerTenant auth with
  | error e => simp [hcaller, bind, Except.bind] at h
  | ok caller =>
      simp only [hcaller, bind, Except.bind] at h
      split at h <;> try cases h
      split at h <;> cases h
      obtain ⟨hauth, htenant⟩ := callerTenant_ok hcaller
      exact ⟨_, _, _, hauth, htenant, ‹_›, ‹_›, rfl⟩

theorem fetchAggregate_id {id : ι} {row : AggregateRow ι}
    (h : w.fetchAggregate tenantId id = some row) : row.id = id := by
  have hrow := List.find?_some h
  simp only [decide_eq_true_eq] at hrow
  exact hrow.1

end Disclosure

end Kanban.Services
