import Kanban.Lib.Table
import Mathlib.Data.Int.Notation
import Mathlib.Tactic.Simps.Basic

/-!
# The rows of the database

One structure for each table the handlers of projects, boards and cards read or write, with
the columns they use; timestamps that only order a listing are left to the order of the
rows.  `Rec` is a row of any table and `Db` the database.

## Main definitions

* `Json` — the JSON objects of `event_log.payload`.
* `ProjectRow`, …, `EventRow` — the rows.
* `Rec`, `Db`, `Db.apply` — a record, the database and what a write does to it.
* `Db.projectsT`, … — the tables.
-/

namespace Kanban.Store

open Program

/-! ## JSON payloads -/

/-- A JSON value without fields. -/
inductive Atom
  | null
  | bool (b : Bool)
  | num (n : ℤ)
  | str (s : String)
  | strs (l : List String)
  deriving DecidableEq

/-- A JSON value as the handlers build it. -/
inductive Json
  | atom (a : Atom)
  | obj (fields : List (String × Atom))
  | objs (items : List (List (String × Atom)))
  deriving DecidableEq

namespace Json

def str (s : String) : Json := .atom (.str s)
def num (n : ℤ) : Json := .atom (.num n)
def bool (b : Bool) : Json := .atom (.bool b)
def strs (l : List String) : Json := .atom (.strs l)

end Json

/-- A JSON object, field by field. -/
abbrev Payload := List (String × Json)

/-- `payload->>'field'`, for a field that holds a string. -/
def Payload.text (payload : Payload) (field : String) : Option String :=
  match payload.lookup field with
  | some (.atom (.str s)) => some s
  | _ => none

/-! ## Rows -/

/-- A column of a board template. -/
structure TemplateColumn where
  title : String
  position : ℤ
  accent : String
  isDone : Bool
  deriving DecidableEq, Repr

section Rows

variable (ι : Type)

structure ProjectRow where
  id : ι
  tenantId : String
  name : String
  slug : String
  refPrefix : String
  description : String
  ownerId : String
  deriving DecidableEq

structure MemberRow where
  projectId : ι
  tenantId : String
  userId : String
  role : String
  deriving DecidableEq

/-- A row of `project_ref_counter`. -/
structure RefCounterRow where
  projectId : ι
  tenantId : String
  refPrefix : String
  nextSeq : ℤ
  deriving DecidableEq

structure BoardRow where
  id : ι
  tenantId : String
  projectId : ι
  name : String
  slug : String
  description : String
  icon : Option String
  visibility : String
  revision : ℤ
  deriving DecidableEq

structure ColumnRow where
  id : ι
  tenantId : String
  boardId : ι
  title : String
  accent : Option String
  wipLimit : Option ℤ
  position : ℤ
  isDone : Bool
  deriving DecidableEq

structure CardRow where
  id : ι
  tenantId : String
  projectId : ι
  boardId : ι
  columnId : ι
  ref : String
  title : String
  description : Option String
  position : ℤ
  priority : String
  urgency : String
  dueDate : Option ℤ
  completedAt : Option ℤ
  blocked : Bool
  cover : Option String
  milestoneId : Option ι
  createdBy : String
  revision : ℤ
  deriving DecidableEq

structure MilestoneRow where
  id : ι
  tenantId : String
  projectId : ι
  title : String
  due : Option ℤ
  deriving DecidableEq

/-- A row of `labels`; a label without a project is global. -/
structure LabelRow where
  id : ι
  tenantId : String
  projectId : Option ι
  name : String
  style : String
  deriving DecidableEq

structure CardLabelRow where
  cardId : ι
  labelId : ι
  deriving DecidableEq

structure AssigneeRow where
  tenantId : String
  cardId : ι
  subject : String
  deriving DecidableEq

structure ChecklistItemRow where
  id : ι
  tenantId : String
  cardId : ι
  text : String
  done : Bool
  position : ℤ
  deriving DecidableEq

structure CommentRow where
  id : ι
  tenantId : String
  cardId : ι
  authorSub : String
  body : String
  createdAt : ℤ
  deriving DecidableEq

structure AttachmentRow where
  id : ι
  tenantId : String
  cardId : ι
  deriving DecidableEq

structure DependencyRow where
  cardId : ι
  dependsOnCardId : ι
  deriving DecidableEq

/-- A row of `github_links`. -/
structure GitHubLinkRow where
  id : ι
  tenantId : String
  cardId : ι
  repo : String
  issueId : ℤ
  state : String
  title : Option String
  url : String
  kind : String
  deriving DecidableEq

/-- A row of `idempotency_keys`; `responseComment` is the field `comment_id` of
`response_payload`. -/
structure IdempotencyRow where
  tenantId : String
  key : String
  responseCardId : Option ι
  responseComment : Option String
  deriving DecidableEq

/-- A row of `event_log`. -/
structure EventRow where
  id : ι
  tenantId : String
  boardId : Option ι
  aggregatedBoardId : Option ι
  projectId : Option ι
  eventType : String
  payload : Payload
  deriving DecidableEq

structure AggregatedBoardRow where
  id : ι
  tenantId : String
  name : String
  description : String
  icon : String
  visibility : String
  createdBy : String
  revision : ℤ
  deriving DecidableEq

structure SourceRow where
  aggregatedBoardId : ι
  tenantId : String
  boardId : ι
  position : ℤ
  deriving DecidableEq

structure AggregatedMemberRow where
  aggregatedBoardId : ι
  tenantId : String
  subject : String
  relation : String
  deriving DecidableEq

/-- A row of `board_templates`; `columns` is its JSON array of columns. -/
structure BoardTemplateRow where
  id : ι
  tenantId : String
  projectId : Option ι
  name : String
  description : String
  columns : List TemplateColumn
  isGlobal : Bool
  createdBy : String
  deriving DecidableEq

/-- A row of any table. -/
inductive Rec
  | project (r : ProjectRow ι)
  | member (r : MemberRow ι)
  | refCounter (r : RefCounterRow ι)
  | board (r : BoardRow ι)
  | column (r : ColumnRow ι)
  | card (r : CardRow ι)
  | milestone (r : MilestoneRow ι)
  | label (r : LabelRow ι)
  | cardLabel (r : CardLabelRow ι)
  | assignee (r : AssigneeRow ι)
  | checklistItem (r : ChecklistItemRow ι)
  | comment (r : CommentRow ι)
  | attachment (r : AttachmentRow ι)
  | dependency (r : DependencyRow ι)
  | githubLink (r : GitHubLinkRow ι)
  | idempotencyKey (r : IdempotencyRow ι)
  | event (r : EventRow ι)
  | aggregatedBoard (r : AggregatedBoardRow ι)
  | source (r : SourceRow ι)
  | aggregatedMember (r : AggregatedMemberRow ι)
  | boardTemplate (r : BoardTemplateRow ι)
  deriving DecidableEq

/-- The database. -/
structure Db where
  projects : List (ProjectRow ι)
  projectMembers : List (MemberRow ι)
  projectRefCounter : List (RefCounterRow ι)
  boards : List (BoardRow ι)
  columns : List (ColumnRow ι)
  cards : List (CardRow ι)
  milestones : List (MilestoneRow ι)
  labels : List (LabelRow ι)
  cardLabels : List (CardLabelRow ι)
  cardAssignees : List (AssigneeRow ι)
  checklistItems : List (ChecklistItemRow ι)
  comments : List (CommentRow ι)
  cardAttachments : List (AttachmentRow ι)
  cardDependencies : List (DependencyRow ι)
  githubLinks : List (GitHubLinkRow ι)
  idempotencyKeys : List (IdempotencyRow ι)
  eventLog : List (EventRow ι)
  aggregatedBoards : List (AggregatedBoardRow ι)
  aggregatedBoardSources : List (SourceRow ι)
  aggregatedBoardMembers : List (AggregatedMemberRow ι)
  boardTemplates : List (BoardTemplateRow ι)
  deriving DecidableEq

end Rows

/-! The rows of one table among the records. -/

namespace Rec

variable {ι : Type}

def toCard : Rec ι → Option (CardRow ι)
  | .card r => some r
  | _ => none

theorem toCard_iff (r : Rec ι) (x : CardRow ι) : r.toCard = some x ↔ r = .card x := by
  cases r <;> simp [toCard]

def toMilestone : Rec ι → Option (MilestoneRow ι)
  | .milestone r => some r
  | _ => none

theorem toMilestone_iff (r : Rec ι) (x : MilestoneRow ι) : r.toMilestone = some x ↔ r = .milestone x := by
  cases r <;> simp [toMilestone]

def toLabel : Rec ι → Option (LabelRow ι)
  | .label r => some r
  | _ => none

theorem toLabel_iff (r : Rec ι) (x : LabelRow ι) : r.toLabel = some x ↔ r = .label x := by
  cases r <;> simp [toLabel]

def toCardLabel : Rec ι → Option (CardLabelRow ι)
  | .cardLabel r => some r
  | _ => none

theorem toCardLabel_iff (r : Rec ι) (x : CardLabelRow ι) : r.toCardLabel = some x ↔ r = .cardLabel x := by
  cases r <;> simp [toCardLabel]

end Rec

/-! ## Tables -/

namespace Db

variable {ι : Type}

def empty : Db ι :=
  ⟨[], [], [], [], [], [], [], [], [], [], [], [], [], [], [], [], [], [], [], [], []⟩

variable [DecidableEq ι]

@[simps] def projectsT : Table (Db ι) (Rec ι) (ProjectRow ι) :=
  ⟨Db.projects, .project, fun r r' => r.id = r'.id⟩

@[simps] def membersT : Table (Db ι) (Rec ι) (MemberRow ι) :=
  ⟨Db.projectMembers, .member, fun r r' => r.projectId = r'.projectId ∧ r.userId = r'.userId⟩

@[simps] def refCounterT : Table (Db ι) (Rec ι) (RefCounterRow ι) :=
  ⟨Db.projectRefCounter, .refCounter, fun r r' => r.projectId = r'.projectId⟩

@[simps] def boardsT : Table (Db ι) (Rec ι) (BoardRow ι) :=
  ⟨Db.boards, .board, fun r r' => r.id = r'.id⟩

@[simps] def columnsT : Table (Db ι) (Rec ι) (ColumnRow ι) :=
  ⟨Db.columns, .column, fun r r' => r.id = r'.id⟩

@[simps] def cardsT : Table (Db ι) (Rec ι) (CardRow ι) :=
  ⟨Db.cards, .card, fun r r' => r.id = r'.id⟩

@[simps] def milestonesT : Table (Db ι) (Rec ι) (MilestoneRow ι) :=
  ⟨Db.milestones, .milestone, fun r r' => r.id = r'.id⟩

@[simps] def labelsT : Table (Db ι) (Rec ι) (LabelRow ι) :=
  ⟨Db.labels, .label, fun r r' => r.id = r'.id⟩

@[simps] def cardLabelsT : Table (Db ι) (Rec ι) (CardLabelRow ι) :=
  ⟨Db.cardLabels, .cardLabel, fun r r' => r.cardId = r'.cardId ∧ r.labelId = r'.labelId⟩

@[simps] def assigneesT : Table (Db ι) (Rec ι) (AssigneeRow ι) :=
  ⟨Db.cardAssignees, .assignee, fun r r' => r.cardId = r'.cardId ∧ r.subject = r'.subject⟩

@[simps] def checklistItemsT : Table (Db ι) (Rec ι) (ChecklistItemRow ι) :=
  ⟨Db.checklistItems, .checklistItem, fun r r' => r.id = r'.id⟩

@[simps] def commentsT : Table (Db ι) (Rec ι) (CommentRow ι) :=
  ⟨Db.comments, .comment, fun r r' => r.id = r'.id⟩

@[simps] def attachmentsT : Table (Db ι) (Rec ι) (AttachmentRow ι) :=
  ⟨Db.cardAttachments, .attachment, fun r r' => r.id = r'.id⟩

@[simps] def dependenciesT : Table (Db ι) (Rec ι) (DependencyRow ι) :=
  ⟨Db.cardDependencies, .dependency,
    fun r r' => r.cardId = r'.cardId ∧ r.dependsOnCardId = r'.dependsOnCardId⟩

@[simps] def githubLinksT : Table (Db ι) (Rec ι) (GitHubLinkRow ι) :=
  ⟨Db.githubLinks, .githubLink, fun r r' => r.id = r'.id⟩

@[simps] def idempotencyKeysT : Table (Db ι) (Rec ι) (IdempotencyRow ι) :=
  ⟨Db.idempotencyKeys, .idempotencyKey, fun r r' => r.tenantId = r'.tenantId ∧ r.key = r'.key⟩

@[simps] def eventLogT : Table (Db ι) (Rec ι) (EventRow ι) :=
  ⟨Db.eventLog, .event, fun r r' => r.id = r'.id⟩

@[simps] def aggregatedBoardsT : Table (Db ι) (Rec ι) (AggregatedBoardRow ι) :=
  ⟨Db.aggregatedBoards, .aggregatedBoard, fun r r' => r.id = r'.id⟩

@[simps] def sourcesT : Table (Db ι) (Rec ι) (SourceRow ι) :=
  ⟨Db.aggregatedBoardSources, .source,
    fun r r' => r.aggregatedBoardId = r'.aggregatedBoardId ∧ r.boardId = r'.boardId⟩

@[simps] def aggregatedMembersT : Table (Db ι) (Rec ι) (AggregatedMemberRow ι) :=
  ⟨Db.aggregatedBoardMembers, .aggregatedMember,
    fun r r' => r.aggregatedBoardId = r'.aggregatedBoardId ∧ r.subject = r'.subject⟩

@[simps] def boardTemplatesT : Table (Db ι) (Rec ι) (BoardTemplateRow ι) :=
  ⟨Db.boardTemplates, .boardTemplate, fun r r' => r.id = r'.id⟩

/-- Change the table of a record by `f`, which is given the table's key equality. -/
def modify (db : Db ι) (f : {τ : Type} → (τ → τ → Bool) → τ → List τ → List τ) : Rec ι → Db ι
  | .project r => { db with projects := f projectsT.same r db.projects }
  | .member r => { db with projectMembers := f membersT.same r db.projectMembers }
  | .refCounter r => { db with projectRefCounter := f refCounterT.same r db.projectRefCounter }
  | .board r => { db with boards := f boardsT.same r db.boards }
  | .column r => { db with columns := f columnsT.same r db.columns }
  | .card r => { db with cards := f cardsT.same r db.cards }
  | .milestone r => { db with milestones := f milestonesT.same r db.milestones }
  | .label r => { db with labels := f labelsT.same r db.labels }
  | .cardLabel r => { db with cardLabels := f cardLabelsT.same r db.cardLabels }
  | .assignee r => { db with cardAssignees := f assigneesT.same r db.cardAssignees }
  | .checklistItem r => { db with checklistItems := f checklistItemsT.same r db.checklistItems }
  | .comment r => { db with comments := f commentsT.same r db.comments }
  | .attachment r => { db with cardAttachments := f attachmentsT.same r db.cardAttachments }
  | .dependency r => { db with cardDependencies := f dependenciesT.same r db.cardDependencies }
  | .githubLink r => { db with githubLinks := f githubLinksT.same r db.githubLinks }
  | .idempotencyKey r =>
      { db with idempotencyKeys := f idempotencyKeysT.same r db.idempotencyKeys }
  | .event r => { db with eventLog := f eventLogT.same r db.eventLog }
  | .aggregatedBoard r =>
      { db with aggregatedBoards := f aggregatedBoardsT.same r db.aggregatedBoards }
  | .source r => { db with aggregatedBoardSources := f sourcesT.same r db.aggregatedBoardSources }
  | .aggregatedMember r =>
      { db with aggregatedBoardMembers := f aggregatedMembersT.same r db.aggregatedBoardMembers }
  | .boardTemplate r => { db with boardTemplates := f boardTemplatesT.same r db.boardTemplates }

/-- The database after a write. -/
def apply (db : Db ι) : Write (Rec ι) → Db ι
  | .put r => db.modify (fun same r rows => Table.put same r rows) r
  | .del r => db.modify (fun same r rows => Table.del same r rows) r

@[simp] theorem apply_put (db : Db ι) (r : Rec ι) :
    db.apply (.put r) = db.modify (fun same r rows => Table.put same r rows) r := rfl

@[simp] theorem apply_del (db : Db ι) (r : Rec ι) :
    db.apply (.del r) = db.modify (fun same r rows => Table.del same r rows) r := rfl

end Db

end Kanban.Store
