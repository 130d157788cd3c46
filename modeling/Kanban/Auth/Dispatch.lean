import Kanban.Auth.PermissionClient

/-!
# Per-RPC authorization

The dispatcher runs before every handler.  It looks the RPC up in a static matrix, checks the
object of the `x-sunbeam-object-id` header, and hands the checked id on; the request body is
never read.

## Main definitions

* `matrix` — the permission each RPC needs.
* `dispatchCheck` — the check of one request.
-/

namespace Kanban.Auth

open Program Kanban.Store Kanban.Services

/-- Where the dispatcher gets the object id from. -/
inductive ObjectIdSource
  | header
  | none
  deriving DecidableEq, Repr

/-- One row of the matrix. -/
structure DispatchEntry where
  method : String
  namespaceName : String
  relation : String
  objectIdSource : ObjectIdSource
  deriving DecidableEq, Repr

/-- The path of a method of a service. -/
def methodPath (service name : String) : String := "/sunbeam.kanban.v1." ++ service ++ "/" ++ name

/-- A method whose object is checked. -/
def DispatchEntry.checked (service name namespaceName relation : String) : DispatchEntry :=
  ⟨methodPath service name, namespaceName, relation, .header⟩

/-- A method that is open to any authenticated user. -/
def DispatchEntry.unchecked (service name : String) : DispatchEntry :=
  ⟨methodPath service name, "", "", .none⟩

/-- `MATRIX`. -/
def matrix : List DispatchEntry :=
  [.unchecked "ProjectService" "ListProjects",
    .checked "ProjectService" "GetProject" "KanbanProject" "view",
    .unchecked "ProjectService" "CreateProject",
    .checked "ProjectService" "UpdateProject" "KanbanProject" "edit",
    .checked "ProjectService" "DeleteProject" "KanbanProject" "manage",
    .checked "ProjectService" "ListMembers" "KanbanProject" "view",
    .checked "ProjectService" "AddMember" "KanbanProject" "manage",
    .checked "ProjectService" "RemoveMember" "KanbanProject" "manage",
    .checked "ProjectService" "SubscribeProject" "KanbanProject" "view",
    .unchecked "BoardService" "ListBoards",
    .unchecked "BoardService" "GetBoard",
    .checked "BoardService" "CreateBoard" "KanbanProject" "edit",
    .checked "BoardService" "UpdateBoard" "KanbanBoard" "edit",
    .checked "BoardService" "DeleteBoard" "KanbanBoard" "manage",
    .checked "BoardService" "AddColumn" "KanbanBoard" "edit",
    .checked "BoardService" "UpdateColumn" "KanbanBoard" "edit",
    .checked "BoardService" "RemoveColumn" "KanbanBoard" "edit",
    .checked "BoardService" "MoveColumn" "KanbanBoard" "edit",
    .unchecked "BoardService" "SubscribeBoard",
    .checked "CardService" "GetCard" "KanbanCard" "view",
    .checked "CardService" "BatchGetCards" "KanbanBoard" "view",
    .checked "CardService" "ListCardsByBoard" "KanbanBoard" "view",
    .checked "CardService" "CreateCard" "KanbanBoard" "edit",
    .checked "CardService" "UpdateCard" "KanbanCard" "edit",
    .checked "CardService" "MoveCard" "KanbanCard" "edit",
    .checked "CardService" "TransferCard" "KanbanCard" "edit",
    .checked "CardService" "DeleteCard" "KanbanCard" "manage",
    .checked "CardService" "AddCardDependency" "KanbanBoard" "edit",
    .checked "CardService" "RemoveCardDependency" "KanbanBoard" "edit",
    .checked "CardService" "BulkUpdateCardLabels" "KanbanBoard" "edit",
    .checked "CardService" "AssignCard" "KanbanCard" "edit",
    .checked "CardService" "UnassignCard" "KanbanCard" "edit",
    .checked "CardService" "AddChecklistItem" "KanbanCard" "edit",
    .checked "CardService" "UpdateChecklistItem" "KanbanCard" "edit",
    .checked "CardService" "RemoveChecklistItem" "KanbanCard" "edit",
    .checked "CardService" "AddComment" "KanbanCard" "view",
    .checked "CardService" "EditComment" "KanbanCard" "view",
    .checked "CardService" "DeleteComment" "KanbanCard" "edit",
    .checked "CardService" "ListComments" "KanbanCard" "view",
    .checked "AttachmentService" "RequestPresignedUpload" "KanbanCard" "edit",
    .checked "AttachmentService" "ConfirmUpload" "KanbanCard" "edit",
    .checked "AttachmentService" "RequestPresignedDownload" "KanbanCard" "view",
    .checked "AttachmentService" "DeleteAttachment" "KanbanCard" "edit",
    .checked "AttachmentService" "ListAttachmentsByCard" "KanbanCard" "view",
    .checked "GithubLinkService" "LinkIssue" "KanbanCard" "edit",
    .checked "GithubLinkService" "UnlinkIssue" "KanbanCard" "edit",
    .checked "GithubLinkService" "ListLinksByCard" "KanbanCard" "view",
    .checked "GithubLinkService" "SearchGithubIssues" "KanbanCard" "view",
    .checked "GithubLinkService" "ResyncLink" "KanbanCard" "edit",
    .unchecked "AggregatedBoardService" "CreateAggregatedBoard",
    .unchecked "AggregatedBoardService" "GetAggregatedBoard",
    .checked "AggregatedBoardService" "UpdateAggregatedBoard" "KanbanAggregatedBoard" "edit",
    .checked "AggregatedBoardService" "DeleteAggregatedBoard" "KanbanAggregatedBoard" "manage",
    .unchecked "AggregatedBoardService" "ListAggregatedBoards",
    .checked "AggregatedBoardService" "AddSourceBoard" "KanbanAggregatedBoard" "manage",
    .checked "AggregatedBoardService" "RemoveSourceBoard" "KanbanAggregatedBoard" "manage",
    .checked "AggregatedBoardService" "MoveSourceBoard" "KanbanAggregatedBoard" "manage",
    .unchecked "AggregatedBoardService" "SubscribeAggregatedBoard",
    .unchecked "SearchService" "SearchCards",
    .unchecked "TemplatesService" "ListTemplates",
    .unchecked "TemplatesService" "GetTemplate",
    .unchecked "TemplatesService" "CreateTemplate",
    .unchecked "TemplatesService" "UpdateTemplate",
    .unchecked "TemplatesService" "DeleteTemplate",
    .unchecked "TemplatesService" "ListCardTemplates",
    .unchecked "TemplatesService" "GetCardTemplate",
    .unchecked "TemplatesService" "CreateCardTemplate",
    .unchecked "TemplatesService" "UpdateCardTemplate",
    .unchecked "TemplatesService" "DeleteCardTemplate",
    .unchecked "MilestoneService" "CreateMilestone",
    .unchecked "MilestoneService" "ListMilestones",
    .unchecked "MilestoneService" "GetMilestone",
    .unchecked "MilestoneService" "UpdateMilestone",
    .unchecked "MilestoneService" "DeleteMilestone",
    .unchecked "LabelService" "CreateLabel",
    .unchecked "LabelService" "ListLabels",
    .unchecked "LabelService" "UpdateLabel",
    .unchecked "LabelService" "DeleteLabel"]

/-- A response of the dispatcher that is not the handler's. -/
structure StatusError where
  status : ℕ
  message : String
  deriving DecidableEq, Repr

/-- A request after `auth_middleware`, without its body. -/
structure DispatchRequest where
  auth : AuthContext
  tenantId : String
  method : String
  /-- The `x-sunbeam-object-id` header, if it is there and is text. -/
  objectId : Option String
  deriving DecidableEq, Repr

/-- A program that answers with a status. -/
abbrev Dispatch (ι α : Type) := Prog (Db ι) (Rec ι) (Call ι) (Reply ι) StatusError α

variable {ι : Type}

/-- The check of the object in the header; returns the `CheckedObjectId`. -/
def checkHeader (entry : DispatchEntry) (subject : String) (req : DispatchRequest) :
    Dispatch ι (Option String) :=
  match req.objectId.filter (· ≠ "") with
  | none => .fail ⟨400, "x-sunbeam-object-id header is required for this RPC"⟩
  | some objectId => .call (.tenantClient req.tenantId) fun ok =>
      if ok then
        .call (.checkPermission req.tenantId
            ⟨entry.namespaceName, objectId, entry.relation, subject⟩) fun
          | .error _ => .fail ⟨500, "authorization check failed"⟩
          | .ok allowed => if allowed then .pure (some objectId) else .fail ⟨403, "permission denied"⟩
      else .fail ⟨500, "authorization client error"⟩

/-- `dispatch_check`; `isAuthenticated` is a method of the middleware's `AuthContext`. -/
def dispatchCheck (isAuthenticated : AuthContext → Bool) (req : DispatchRequest) :
    Dispatch ι (Option String) :=
  if isAuthenticated req.auth then
    match matrix.find? fun e => e.method = req.method with
    | none => .fail ⟨500, "unknown RPC method"⟩
    | some entry =>
        match entry.objectIdSource with
        | .none => .pure none
        | .header => checkHeader entry (req.auth.subject.getD "") req
  else .fail ⟨401, "authentication required"⟩

end Kanban.Auth
