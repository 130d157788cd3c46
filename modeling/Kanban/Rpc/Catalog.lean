import Kanban.Rpc.Cards

/-!
# Labels, milestones and board templates

`services/labels.rs`, `services/milestones.rs` and `services/templates.rs`: what a project offers
its cards and boards.  The handlers check the caller against the project themselves, in the
caller's tenant; a label without a project is global, and any project of the tenant that the
caller manages lets him write it.

## Main definitions

* `createLabel`, `updateLabel`, `deleteLabel`.
* `createMilestone`, `updateMilestone`, `deleteMilestone`.
* `createTemplate`, `updateTemplate`, `deleteTemplate`.
-/

namespace Kanban.Rpc

open Program Kanban.Store Kanban.Auth
open Kanban.Services (AuthContext ConnectError ErrorCode IdCodec)

variable {ι : Type} [DecidableEq ι]

/-! ## Permissions -/

section Permissions

omit [DecidableEq ι]

/-- `check_permission_with_retry` on a project. -/
def projectAllows (codec : IdCodec ι) (permission : String) (projectId : ι)
    (relation subject : String) : Handler ι Bool := do
  let answer ← checkPermissionWithRetry permission
    ⟨permissionTypeProject, codec.toString projectId, relation, subject⟩
  orError (internal "failed to check project permission") answer

def checkProjectPermission (codec : IdCodec ι) (permission : String) (projectId : ι)
    (relation subject : String) : Handler ι Unit := do
  let allowed ← projectAllows codec permission projectId relation subject
  ensure (allowed = true) (permissionDenied "permission denied")

/-- `manage` on one of the projects, the first grant decides. -/
def managesAny (codec : IdCodec ι) (permission subject : String) :
    List (ProjectRow ι) → Handler ι Unit
  | [] => .fail (permissionDenied "permission denied")
  | row :: rest => do
      let allowed ← projectAllows codec permission row.id "manage" subject
      if allowed then .pure () else managesAny codec permission subject rest

end Permissions

def checkGlobalLabelPermission (codec : IdCodec ι) (permission tenantId subject : String) :
    Handler ι Unit := do
  let rows ← query "failed to list tenant projects"
    (Db.projectsT.select fun p => p.tenantId = tenantId)
  managesAny codec permission subject rows

/-- Gate a write on the scope of a label. -/
def checkLabelScopePermission (codec : IdCodec ι) (permission : String) (projectId : Option ι)
    (tenantId subject : String) : Handler ι Unit :=
  match projectId with
  | some pid => checkProjectPermission codec permission pid "manage" subject
  | none => checkGlobalLabelPermission codec permission tenantId subject

/-- The value of a field that the mask names. -/
def masked {α : Type} (updateMask : List String) (path : String) (value : α) : Option α :=
  if path ∈ updateMask then some value else none

/-! ## Labels -/

/-- Another label of the scope has the name. -/
def labelTaken (db : Db ι) (row : LabelRow ι) : Bool :=
  db.labels.any fun l => l.id ≠ row.id ∧ l.tenantId = row.tenantId ∧ l.projectId = row.projectId ∧
    l.name = row.name

/-- `INSERT INTO labels`; the project must exist, and the name is unique in its scope. -/
def insertLabel (row : LabelRow ι) : Stmt (Db ι) (Rec ι) Unit := fun db =>
  if labelTaken db row ∨ ∃ pid ∈ row.projectId, ¬ db.projects.any (·.id = pid) then none
  else Db.labelsT.insert row db

/-- `UPDATE labels … WHERE id = $1 AND tenant_id = $4`. -/
def updateLabelRow (tenantId : String) (labelId : ι) (f : LabelRow ι → LabelRow ι) :
    Stmt (Db ι) (Rec ι) (List (LabelRow ι)) := fun db =>
  Db.labelsT.updateChecked (fun l => l.id = labelId ∧ l.tenantId = tenantId)
    (fun l => if labelTaken db (f l) then none else some (f l)) db

/-- `DELETE FROM labels`, with the labels of cards that go with it. -/
def deleteLabelRow (tenantId : String) (labelId : ι) : Stmt (Db ι) (Rec ι) (List (LabelRow ι)) :=
  fun db =>
    let rows := db.labels.filter fun l => l.id = labelId ∧ l.tenantId = tenantId
    let gone := if rows = [] then [] else db.cardLabels.filter (·.labelId = labelId)
    some ⟨rows, rows.map .label,
      rows.map (fun l => .del (.label l)) ++ gone.map fun cl => .del (.cardLabel cl)⟩

/-- `SELECT project_id FROM labels WHERE id = $1 AND tenant_id = $2`. -/
def selectLabel (tenantId : String) (labelId : ι) : Stmt (Db ι) (Rec ι) (List (LabelRow ι)) :=
  Db.labelsT.select fun l => l.id = labelId ∧ l.tenantId = tenantId

structure CreateLabelRequest where
  projectId : String
  name : String
  style : String
  deriving DecidableEq, Repr

def createLabel (codec : IdCodec ι) (ctx : RequestContext) (req : CreateLabelRequest) :
    Handler ι Label := do
  let subject ← subjectFromRequest ctx
  let tenantId ← tenantIdFromRequest ctx
  let permission ← tenantClientFor ctx
  ensure (req.name ≠ "") (invalidArgument "name is required")
  ensure (req.style ≠ "") (invalidArgument "style is required")
  let projectId ←
    if req.projectId = "" then
      (checkGlobalLabelPermission codec permission tenantId subject).bind fun _ => .pure none
    else do
      let pid ← parseId codec "invalid project_id" req.projectId
      checkProjectPermission codec permission pid "manage" subject
      .pure (some pid)
  let labelId ← newId
  let row : LabelRow ι := ⟨labelId, tenantId, projectId, req.name, req.style⟩
  query "failed to create label" (insertLabel row)
  .pure (labelFromRow codec row)

structure UpdateLabelRequest where
  labelId : String
  name : String
  style : String
  updateMask : List String
  deriving DecidableEq, Repr

def updateLabel (codec : IdCodec ι) (ctx : RequestContext) (req : UpdateLabelRequest) :
    Handler ι Label := do
  let subject ← subjectFromRequest ctx
  let tenantId ← tenantIdFromRequest ctx
  let permission ← tenantClientFor ctx
  let labelId ← parseId codec "invalid label_id" req.labelId
  let existing ← fetchOr "failed to fetch label for update" (notFound "label not found")
    (selectLabel tenantId labelId)
  checkLabelScopePermission codec permission existing.projectId tenantId subject
  -- a named field is set, also to the empty text
  let row ← fetchOne "failed to update label" (updateLabelRow tenantId labelId fun l =>
    { l with
      name := (masked req.updateMask "name" req.name).getD l.name
      style := (masked req.updateMask "style" req.style).getD l.style })
  .pure (labelFromRow codec row)

structure DeleteLabelRequest where
  labelId : String
  deriving DecidableEq, Repr

def deleteLabel (codec : IdCodec ι) (ctx : RequestContext) (req : DeleteLabelRequest) :
    Handler ι Unit := do
  let subject ← subjectFromRequest ctx
  let tenantId ← tenantIdFromRequest ctx
  let permission ← tenantClientFor ctx
  let labelId ← parseId codec "invalid label_id" req.labelId
  let existing ← fetchOr "failed to fetch label for delete" (notFound "label not found")
    (selectLabel tenantId labelId)
  checkLabelScopePermission codec permission existing.projectId tenantId subject
  let deleted ← query "failed to delete label" (deleteLabelRow tenantId labelId)
  ensure (deleted ≠ []) (notFound "label not found")

/-! ## Milestones -/

structure Milestone where
  id : String
  projectId : String
  title : String
  due : Option Timestamp
  totalCards : ℤ
  completedCards : ℤ
  deriving DecidableEq, Repr

omit [DecidableEq ι] in
/-- `milestone_from_row`, with the cards of the milestone and those of them that are completed. -/
def milestoneFromRow (codec : IdCodec ι) (row : MilestoneRow ι) (stats : ℤ × ℤ) : Milestone where
  id := codec.toString row.id
  projectId := codec.toString row.projectId
  title := row.title
  due := row.due.map toProtoTs
  totalCards := stats.1
  completedCards := stats.2

/-- `fetch_card_stats` of one milestone. -/
def fetchCardStats (tenantId : String) (milestoneId : ι) : Handler ι (ℤ × ℤ) := do
  let rows ← query "failed to fetch milestone card stats" (Db.cardsT.select fun c =>
    c.tenantId = tenantId ∧ c.milestoneId = some milestoneId)
  .pure (rows.length, (rows.filter (·.completedAt.isSome)).length)

def milestoneWithStats (codec : IdCodec ι) (tenantId : String) (row : MilestoneRow ι) :
    Handler ι Milestone := do
  let stats ← fetchCardStats tenantId row.id
  .pure (milestoneFromRow codec row stats)

def loadMilestoneRow (tenantId : String) (milestoneId : ι) : Handler ι (MilestoneRow ι) :=
  fetchOr "failed to fetch milestone" (notFound "milestone not found")
    (Db.milestonesT.select fun m => m.id = milestoneId ∧ m.tenantId = tenantId)

/-- `INSERT INTO milestones`; the project must exist. -/
def insertMilestone (row : MilestoneRow ι) : Stmt (Db ι) (Rec ι) Unit := fun db =>
  if db.projects.any (·.id = row.projectId) then Db.milestonesT.insert row db else none

structure CreateMilestoneRequest where
  projectId : String
  title : String
  due : Option Timestamp
  deriving DecidableEq, Repr

def createMilestone (codec : IdCodec ι) (ctx : RequestContext) (req : CreateMilestoneRequest) :
    Handler ι Milestone := do
  let subject ← subjectFromRequest ctx
  let tenantId ← tenantIdFromRequest ctx
  let permission ← tenantClientFor ctx
  ensure (req.title ≠ "") (invalidArgument "title is required")
  let projectId ← parseId codec "invalid project_id" req.projectId
  checkProjectPermission codec permission projectId "manage" subject
  let milestoneId ← newId
  let row : MilestoneRow ι := ⟨milestoneId, tenantId, projectId, req.title,
    req.due.bind fromProtoTs⟩
  query "failed to create milestone" (insertMilestone row)
  .pure (milestoneFromRow codec row (0, 0))

structure UpdateMilestoneRequest where
  milestoneId : String
  title : String
  due : Option Timestamp
  updateMask : List String
  deriving DecidableEq, Repr

def updateMilestone (codec : IdCodec ι) (ctx : RequestContext) (req : UpdateMilestoneRequest) :
    Handler ι Milestone := do
  let subject ← subjectFromRequest ctx
  let tenantId ← tenantIdFromRequest ctx
  let permission ← tenantClientFor ctx
  let milestoneId ← parseId codec "invalid milestone_id" req.milestoneId
  let existing ← loadMilestoneRow tenantId milestoneId
  checkProjectPermission codec permission existing.projectId "manage" subject
  let title := masked req.updateMask "title" req.title
  ensure (title ≠ some "") (invalidArgument "title cannot be empty")
  let row ← fetchOne "failed to update milestone" (Db.milestonesT.update
    (fun m => m.id = milestoneId ∧ m.tenantId = tenantId) fun m =>
      { m with
        title := title.getD m.title
        due := if "due" ∈ req.updateMask then req.due.bind fromProtoTs else m.due })
  milestoneWithStats codec tenantId row

structure DeleteMilestoneRequest where
  milestoneId : String
  deriving DecidableEq, Repr

/-- `cards.milestone_id` has no foreign key: the cards are cleared first. -/
def deleteMilestone (codec : IdCodec ι) (ctx : RequestContext) (req : DeleteMilestoneRequest) :
    Handler ι Unit := do
  let subject ← subjectFromRequest ctx
  let tenantId ← tenantIdFromRequest ctx
  let permission ← tenantClientFor ctx
  let milestoneId ← parseId codec "invalid milestone_id" req.milestoneId
  let existing ← loadMilestoneRow tenantId milestoneId
  checkProjectPermission codec permission existing.projectId "manage" subject
  beginTx "begin tx failed"
  let _ ← query "failed to clear milestone from cards" (Db.cardsT.update
    (fun c => c.tenantId = tenantId ∧ c.milestoneId = some milestoneId)
    fun c => { c with milestoneId := none })
  let deleted ← query "failed to delete milestone" (Db.milestonesT.delete fun m =>
    m.id = milestoneId ∧ m.tenantId = tenantId)
  ensure (deleted ≠ []) (notFound "milestone not found")
  commitTx "commit tx failed"

/-! ## Board templates -/

structure BoardTemplate where
  id : String
  projectId : String
  name : String
  description : String
  columns : List TemplateColumn
  isGlobal : Bool
  deriving DecidableEq, Repr

omit [DecidableEq ι] in
def boardTemplateFromRow (codec : IdCodec ι) (row : BoardTemplateRow ι) : BoardTemplate where
  id := codec.toString row.id
  projectId := (row.projectId.map codec.toString).getD ""
  name := row.name
  description := row.description
  columns := row.columns
  isGlobal := row.isGlobal

/-- `INSERT INTO board_templates`; the project must exist. -/
def insertBoardTemplate (row : BoardTemplateRow ι) : Stmt (Db ι) (Rec ι) Unit := fun db =>
  if ∃ pid ∈ row.projectId, ¬ db.projects.any (·.id = pid) then none
  else Db.boardTemplatesT.insert row db

structure CreateTemplateRequest where
  projectId : String
  name : String
  description : String
  columns : List TemplateColumn
  deriving DecidableEq, Repr

def createTemplate (codec : IdCodec ι) (ctx : RequestContext) (req : CreateTemplateRequest) :
    Handler ι BoardTemplate := do
  let subject ← subjectFromRequest ctx
  let tenantId ← tenantIdFromRequest ctx
  let permission ← tenantClientFor ctx
  ensure (req.name ≠ "") (invalidArgument "name is required")
  ensure (req.projectId ≠ "") (permissionDenied "global templates cannot be created via API")
  let projectId ← parseId codec "invalid project_id" req.projectId
  checkProjectPermission codec permission projectId "manage" subject
  let templateId ← newId
  let row : BoardTemplateRow ι := ⟨templateId, tenantId, some projectId, req.name, req.description,
    req.columns, false, subject⟩
  query "failed to create board template" (insertBoardTemplate row)
  .pure (boardTemplateFromRow codec row)

/-- The template of a write, which the caller must manage; a global one is read-only. -/
def writableTemplate (codec : IdCodec ι) (permission tenantId subject : String) (templateId : ι)
    (msg denied : String) : Handler ι (BoardTemplateRow ι) := do
  let existing ← fetchOr msg (notFound "template not found") (Db.boardTemplatesT.select fun t =>
    t.id = templateId ∧ t.tenantId = tenantId)
  ensure (existing.isGlobal = false) (permissionDenied denied)
  match existing.projectId with
  | some pid => do
      checkProjectPermission codec permission pid "manage" subject
      .pure existing
  | none => .pure existing

structure UpdateTemplateRequest where
  templateId : String
  name : String
  description : String
  columns : List TemplateColumn
  updateMask : List String
  deriving DecidableEq, Repr

def updateTemplate (codec : IdCodec ι) (ctx : RequestContext) (req : UpdateTemplateRequest) :
    Handler ι BoardTemplate := do
  let subject ← subjectFromRequest ctx
  let tenantId ← tenantIdFromRequest ctx
  let permission ← tenantClientFor ctx
  let templateId ← parseId codec "invalid template_id" req.templateId
  let _ ← writableTemplate codec permission tenantId subject templateId
    "failed to fetch board template for update" "global templates cannot be modified"
  -- a named field is set, also to the empty text
  let row ← fetchOne "failed to update board template" (Db.boardTemplatesT.update
    (fun t => t.id = templateId ∧ t.tenantId = tenantId) fun t =>
      { t with
        name := (masked req.updateMask "name" req.name).getD t.name
        description := (masked req.updateMask "description" req.description).getD t.description
        columns := (masked req.updateMask "columns" req.columns).getD t.columns })
  .pure (boardTemplateFromRow codec row)

structure DeleteTemplateRequest where
  templateId : String
  deriving DecidableEq, Repr

def deleteTemplate (codec : IdCodec ι) (ctx : RequestContext) (req : DeleteTemplateRequest) :
    Handler ι Unit := do
  let subject ← subjectFromRequest ctx
  let tenantId ← tenantIdFromRequest ctx
  let permission ← tenantClientFor ctx
  let templateId ← parseId codec "invalid template_id" req.templateId
  let _ ← writableTemplate codec permission tenantId subject templateId
    "failed to fetch board template for delete" "global templates cannot be deleted"
  let deleted ← query "failed to delete board template" (Db.boardTemplatesT.delete fun t =>
    t.id = templateId ∧ t.tenantId = tenantId)
  ensure (deleted ≠ []) (notFound "template not found")

end Kanban.Rpc
