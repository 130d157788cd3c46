import Kanban.Store.Rows
import Mathlib.Algebra.Group.Nat.Defs

/-!
# The payloads of the envelopes

The dispatcher maps a row of `event_log` to the payload of its envelope.  It reads the fields that the
event has; a field that the row does not have is empty, 0 or false.

## Main definitions

* `jsonStr`, `jsonU64`, `jsonI32`, `jsonBool`, `revisionPair` — the fields.
* `isUnchangedSentinel`, `buildPatchStruct` — the patch of a `CardUpdated`.
* `EventPayload`, `buildPayload` — the payloads.
-/

namespace Kanban.Rpc

open Kanban.Store

/-! ## Fields -/

/-- `json_str`: missing or wrong-typed is empty. -/
def jsonStr (json : Payload) (key : String) : String :=
  match json.lookup key with
  | some (.atom (.str s)) => s
  | _ => ""

/-- `json_u64`: missing or wrong-typed is 0. -/
def jsonU64 (json : Payload) (key : String) : ℕ :=
  match json.lookup key with
  | some (.atom (.num n)) => n.toNat
  | _ => 0

/-- `json_i32`: what is an `i64` is cut to its lower half. -/
def jsonI32 (json : Payload) (key : String) : ℤ :=
  match json.lookup key with
  | some (.atom (.num n)) =>
      if -9223372036854775808 ≤ n ∧ n ≤ 9223372036854775807 then n.bmod 4294967296 else 0
  | _ => 0

def jsonBool (json : Payload) (key : String) : Bool :=
  match json.lookup key with
  | some (.atom (.bool b)) => b
  | _ => false

/-- The `(prev_revision, new_revision)` pair of a card mutation. -/
def revisionPair (json : Payload) : ℕ × ℕ := (jsonU64 json "prev_revision", jsonU64 json "new_revision")

/-- The fields of a nested object. -/
def objectFields (fields : List (String × Atom)) : Payload := fields.map fun f => (f.1, .atom f.2)

/-- The fields of a nested payload object; there are none if there is no object. -/
def nestedObject (json : Payload) (key : String) : Payload :=
  match json.lookup key with
  | some (.obj fields) => objectFields fields
  | _ => []

structure EventColumn where
  id : String
  boardId : String
  title : String
  accent : String
  wipLimit : ℤ
  position : ℤ
  isDone : Bool
  deriving DecidableEq, Repr

def parseEventColumn (json : Payload) : EventColumn where
  id := jsonStr json "id"
  boardId := jsonStr json "board_id"
  title := jsonStr json "title"
  accent := jsonStr json "accent"
  wipLimit := jsonI32 json "wip_limit"
  position := jsonI32 json "position"
  isDone := jsonBool json "is_done"

structure EventBoard where
  id : String
  projectId : String
  name : String
  description : String
  icon : String
  deriving DecidableEq, Repr

def parseEventBoard (json : Payload) : EventBoard where
  id := jsonStr json "id"
  projectId := jsonStr json "project_id"
  name := jsonStr json "name"
  description := jsonStr json "description"
  icon := jsonStr json "icon"

/-! ## The patch of a `CardUpdated` -/

/-- True for the values that say "field not changed". -/
def isUnchangedSentinel : Atom → Bool
  | .str s => s = "" ∨ "_UNSPECIFIED".toList <:+ s.toList
  | _ => false

/-- `Map::insert`. -/
def insertField (key : String) (value : Atom) (fields : List (String × Atom)) :
    List (String × Atom) :=
  (key, value) :: fields.filter (·.1 ≠ key)

/-- The patch of a payload, without the sentinels; `revision` is always set.  The numbers of a `Struct`
are doubles; revisions, which count the changes of a row, stay below 2⁵³ and are exact in them. -/
def buildPatchStruct (patch : Option Json) (newRevision : ℕ) : List (String × Atom) :=
  insertField "revision" (.num newRevision) <| match patch with
    | some (.obj fields) => fields.filter fun f => !isUnchangedSentinel f.2
    | _ => []

/-! ## Payloads -/

/-- The payload of an envelope.  The cards of `cardCreated` and `cardTransferred` are filled in by the
dispatcher. -/
inductive EventPayload
  | cardCreated (columnId : String) (position : ℤ) (idempotencyKey : String)
  | cardUpdated (cardId : String) (prevRevision newRevision : ℕ) (patch : List (String × Atom))
      (idempotencyKey : String)
  | cardMoved (cardId fromColumn toColumn : String) (toPosition : ℤ) (prevRevision newRevision : ℕ)
      (idempotencyKey : String)
  | cardDeleted (cardId : String) (prevRevision : ℕ) (idempotencyKey : String)
  | cardTransferred (fromBoardId toBoardId toColumnId : String) (toPosition : ℤ)
      (previousRef idempotencyKey : String)
  | columnAdded (column : EventColumn) (position : ℤ)
  | columnUpdated (column : EventColumn)
  | columnRenamed (columnId newTitle : String)
  | columnRemoved (columnId moveCardsToColumn : String)
  | columnsReordered (columns : List EventColumn)
  | boardCreated (projectId boardId name : String)
  | boardDeleted (projectId boardId : String)
  | boardRenamed (newName : String)
  | boardUpdated (board : EventBoard)
  | memberAdded (projectId subject relation displayName email : String)
  | memberRemoved (projectId subject : String)
  | memberRoleChanged (projectId subject oldRelation newRelation : String)
  | projectUpdated (projectId name projectPrefix description : String)
  | aggregatedBoardCreated (aggregatedBoardId : String)
  | aggregatedBoardUpdated (aggregatedBoardId : String)
  | aggregatedBoardDeleted (aggregatedBoardId : String)
  | sourceBoardAdded (aggregatedBoardId boardId : String)
  | sourceBoardRemoved (aggregatedBoardId boardId : String)
  | githubLinkAdded (cardId linkId : String)
  | githubLinkRefreshed (cardId linkId newState : String)
  | membershipChanged (subject relation : String) (granted : Bool)
  deriving DecidableEq

/-- `build_payload`; an unknown type has no payload. -/
def buildPayload (eventType : String) (json : Payload) : Option EventPayload :=
  let cardId := jsonStr json "card_id"
  let idempotencyKey := jsonStr json "idempotency_key"
  let (prevRevision, newRevision) := revisionPair json
  match eventType with
  | "CardCreated" =>
      some (.cardCreated (jsonStr json "column_id") (jsonI32 json "position") idempotencyKey)
  | "CardUpdated" => some (.cardUpdated cardId prevRevision newRevision
      (buildPatchStruct (json.lookup "patch") newRevision) idempotencyKey)
  | "CardMoved" => some (.cardMoved cardId (jsonStr json "from_column") (jsonStr json "to_column")
      (jsonI32 json "to_position") prevRevision newRevision idempotencyKey)
  | "CardDeleted" => some (.cardDeleted cardId prevRevision idempotencyKey)
  | "CardTransferred" => some (.cardTransferred (jsonStr json "from_board_id")
      (jsonStr json "to_board_id") (jsonStr json "to_column_id") (jsonI32 json "to_position")
      (jsonStr json "previous_ref") idempotencyKey)
  | "ColumnAdded" =>
      some (.columnAdded (parseEventColumn (nestedObject json "column")) (jsonI32 json "position"))
  | "ColumnUpdated" => some (.columnUpdated (parseEventColumn (nestedObject json "column")))
  | "ColumnRenamed" => some (.columnRenamed (jsonStr json "column_id") (jsonStr json "new_title"))
  | "ColumnRemoved" =>
      some (.columnRemoved (jsonStr json "column_id") (jsonStr json "move_cards_to_column"))
  | "ColumnsReordered" => some (.columnsReordered <| match json.lookup "columns" with
      | some (.objs items) => items.map fun fields => parseEventColumn (objectFields fields)
      | _ => [])
  | "BoardCreated" => some (.boardCreated (jsonStr json "project_id") (jsonStr json "board_id")
      (jsonStr json "name"))
  | "BoardDeleted" => some (.boardDeleted (jsonStr json "project_id") (jsonStr json "board_id"))
  | "BoardRenamed" => some (.boardRenamed (jsonStr json "new_name"))
  | "BoardUpdated" => some (.boardUpdated (parseEventBoard (nestedObject json "board")))
  | "MemberAdded" => some (.memberAdded (jsonStr json "project_id") (jsonStr json "subject")
      (jsonStr json "relation") (jsonStr json "display_name") (jsonStr json "email"))
  | "MemberRemoved" => some (.memberRemoved (jsonStr json "project_id") (jsonStr json "subject"))
  | "MemberRoleChanged" => some (.memberRoleChanged (jsonStr json "project_id")
      (jsonStr json "subject") (jsonStr json "old_relation") (jsonStr json "new_relation"))
  | "ProjectUpdated" => some (.projectUpdated (jsonStr json "project_id") (jsonStr json "name")
      (jsonStr json "prefix") (jsonStr json "description"))
  | "AggregatedBoardCreated" =>
      some (.aggregatedBoardCreated (jsonStr json "aggregated_board_id"))
  | "AggregatedBoardUpdated" =>
      some (.aggregatedBoardUpdated (jsonStr json "aggregated_board_id"))
  | "AggregatedBoardDeleted" =>
      some (.aggregatedBoardDeleted (jsonStr json "aggregated_board_id"))
  | "SourceBoardAdded" => some (.sourceBoardAdded (jsonStr json "aggregated_board_id")
      (jsonStr json "board_id"))
  | "SourceBoardRemoved" => some (.sourceBoardRemoved (jsonStr json "aggregated_board_id")
      (jsonStr json "board_id"))
  | "GitHubLinkAdded" => some (.githubLinkAdded cardId (jsonStr json "link_id"))
  | "GitHubLinkRefreshed" => some (.githubLinkRefreshed cardId (jsonStr json "link_id")
      (jsonStr json "new_state"))
  | "MembershipChanged" => some (.membershipChanged (jsonStr json "subject")
      (jsonStr json "relation") (jsonBool json "granted"))
  | _ => none

end Kanban.Rpc
