import Kanban.Rpc.Handler

/-!
# ProjectService: projects and their members

A membership is held twice: as relation tuples of the permission backend, which is the
source of truth, and as the mirror row of `project_members`.

## Main definitions

* `createProject`, `updateProject`, `addMember`, `removeMember` — the handlers.
-/

namespace Kanban.Rpc

open Program Kanban.Store Kanban.Auth
open Kanban.Services (AuthContext ConnectError ErrorCode IdCodec)

variable {ι : Type} [DecidableEq ι]

/-- The permission type of a project. -/
def permissionTypeProject : String := "KanbanProject"

/-- The tables of the Unicode standard that the handlers use. -/
structure Unicode where
  isAlphanumeric : Char → Bool
  toUppercase : String → String

structure Project where
  id : String
  name : String
  refPrefix : String
  description : String
  memberCount : ℤ
  deriving DecidableEq, Repr

def projectFromRow (codec : IdCodec ι) (unicode : Unicode) (row : ProjectRow ι)
    (memberCount : ℤ) : Project where
  id := codec.toString row.id
  name := row.name
  refPrefix :=
    if row.refPrefix ≠ "" then row.refPrefix
    else unicode.toUppercase (String.ofList (row.slug.toList.take 4))
  description := row.description
  memberCount := memberCount

/-- `fetch_member_count`; a failure counts as no member. -/
def fetchMemberCount (tenantId : String) (projectId : ι) : Handler ι ℤ :=
  (attempt (Db.membersT.select fun m => m.tenantId = tenantId ∧ m.projectId = projectId)).bind
    fun rows => .pure (rows.getD []).length

/-- `SELECT … FROM projects WHERE tenant_id = $1 AND id = $2`. -/
def selectProject (tenantId : String) (projectId : ι) :
    Stmt (Db ι) (Rec ι) (List (ProjectRow ι)) :=
  Db.projectsT.select fun p => p.tenantId = tenantId ∧ p.id = projectId

/-! ## CreateProject -/

structure CreateProjectRequest where
  name : String
  refPrefix : String
  description : String
  idempotencyKey : String
  deriving DecidableEq, Repr

/-- `INSERT INTO projects`; the key is `id`, and `(tenant_id, slug)` is unique. -/
def insertProject (row : ProjectRow ι) : Stmt (Db ι) (Rec ι) Unit := fun db =>
  if db.projects.any fun p => p.tenantId = row.tenantId ∧ p.slug = row.slug then none
  else Db.projectsT.insert row db

/-- `SELECT response_card_id FROM idempotency_keys WHERE tenant_id = $1 AND key = $2`. -/
def selectIdempotencyKey (tenantId key : String) :
    Stmt (Db ι) (Rec ι) (List (IdempotencyRow ι)) :=
  Db.idempotencyKeysT.select fun r => r.tenantId = tenantId ∧ r.key = key

/-- The project recorded for the key, if the key was used and the project still exists. -/
def cachedProject (tenantId key : String) : Handler ι (Option (ProjectRow ι)) :=
  if key = "" then .pure none
  else do
    let cached ← fetchOptional "idempotency key lookup failed" (selectIdempotencyKey tenantId key)
    match cached.bind IdempotencyRow.responseCardId with
    | none => .pure none
    | some projectId =>
        fetchOptional "failed to fetch cached project" (selectProject tenantId projectId)

/-- `INSERT INTO idempotency_keys … ON CONFLICT DO NOTHING`; a failure is logged. -/
def storeIdempotencyId (tenantId key : String) (id : ι) : Handler ι Unit :=
  if key = "" then .pure ()
  else (attempt (Db.idempotencyKeysT.insertIgnore ⟨tenantId, key, some id, none⟩)).bind
    fun _ => .pure ()

/-- The slug of a new project: its prefix, else the first letters of its name. -/
def projectSlug (unicode : Unicode) (req : CreateProjectRequest) : String :=
  if req.refPrefix = "" then
    unicode.toUppercase (String.ofList ((req.name.toList.filter unicode.isAlphanumeric).take 8))
  else unicode.toUppercase req.refPrefix

/-- The prefix of the card references of a new project. -/
def projectPrefix (unicode : Unicode) (req : CreateProjectRequest) : String :=
  if req.refPrefix = "" then String.ofList ((projectSlug unicode req).toList.take 4)
  else unicode.toUppercase req.refPrefix

/-- Create the project: its row, the owner's tuples, the mirror row, and the key. -/
def createFresh (codec : IdCodec ι) (unicode : Unicode) (permission tenantId subject : String)
    (req : CreateProjectRequest) : Handler ι Project := do
  ensure (req.name ≠ "") (invalidArgument "name is required")
  let projectId ← newId
  let row : ProjectRow ι := ⟨projectId, tenantId, req.name, projectSlug unicode req,
    projectPrefix unicode req, req.description, subject⟩
  query "failed to insert project" (insertProject row)
  let owner ← grantWithRetry permission permissionTypeProject (codec.toString projectId) "owner"
    subject
  ensure (owner = true) (internal "failed to write owner tuple to the permission backend")
  let viewer ← grantWithRetry permission permissionTypeProject (codec.toString projectId) "viewer"
    subject
  ensure (viewer = true) (internal "failed to write viewer tuple to the permission backend")
  -- the mirror is best-effort: a failure is logged
  let _ ← attempt (Db.membersT.insertIgnore ⟨projectId, tenantId, subject, "owner"⟩)
  let memberCount ← fetchMemberCount tenantId projectId
  storeIdempotencyId tenantId req.idempotencyKey projectId
  -- the row of the `INSERT … RETURNING` has no prefix
  .pure (projectFromRow codec unicode { row with refPrefix := "" } memberCount)

def createProject (codec : IdCodec ι) (unicode : Unicode) (ctx : RequestContext)
    (req : CreateProjectRequest) : Handler ι Project := do
  let subject ← subjectFromRequest ctx
  let tenantId ← tenantIdFromRequest ctx
  let permission ← tenantClientFor ctx
  match ← cachedProject tenantId req.idempotencyKey with
  | some row => do
      let memberCount ← fetchMemberCount tenantId row.id
      .pure (projectFromRow codec unicode row memberCount)
  | none => createFresh codec unicode permission tenantId subject req

/-! ## UpdateProject -/

structure UpdateProjectRequest where
  name : String
  refPrefix : String
  description : String
  deriving DecidableEq, Repr

/-- `CASE WHEN $ != '' THEN $ ELSE column END`. -/
def sparse (value old : String) : String := if value ≠ "" then value else old

def updateProject (codec : IdCodec ι) (unicode : Unicode) (ctx : RequestContext)
    (req : UpdateProjectRequest) : Handler ι Project := do
  let objectId ← checkedObjectId ctx
  let tenantId ← tenantIdFromRequest ctx
  let projectId ← parseId codec "invalid project_id" objectId
  beginTx "begin tx failed"
  let rows ← query "failed to update project"
    (Db.projectsT.update (fun p => p.tenantId = tenantId ∧ p.id = projectId) fun p =>
      { p with
        name := sparse req.name p.name
        refPrefix := sparse (unicode.toUppercase req.refPrefix) p.refPrefix
        description := sparse req.description p.description })
  let row ← orError (notFound "project not found") rows.head?
  insertProjectEvent tenantId projectId "ProjectUpdated"
    [("project_id", .str (codec.toString projectId)), ("name", .str row.name),
      ("prefix", .str row.refPrefix), ("description", .str row.description)]
  commitTx "commit failed"
  let memberCount ← fetchMemberCount tenantId projectId
  .pure (projectFromRow codec unicode row memberCount)

/-! ## AddMember -/

structure AddMemberRequest where
  subject : String
  relation : String
  deriving DecidableEq, Repr

/-- Subjects are typed ids: `user:<id>` or `agent:<id>`. -/
def subjectValid (subject : String) : Bool :=
  ["user:", "agent:"].any fun kind =>
    kind.toList.isPrefixOf subject.toList && kind.length < subject.length

/-- The filter of the tuples of one project. -/
def projectTuples (codec : IdCodec ι) (tenant : String) (projectId : ι)
    (relation : Option String) : TupleFilter :=
  ⟨tenant, permissionTypeProject, some (codec.toString projectId), relation⟩

/-- `SELECT role FROM project_members WHERE tenant_id = $1 AND project_id = $2 AND user_id = $3`. -/
def selectMember (tenantId : String) (projectId : ι) (subject : String) :
    Stmt (Db ι) (Rec ι) (List (MemberRow ι)) :=
  Db.membersT.select fun m =>
    m.tenantId = tenantId ∧ m.projectId = projectId ∧ m.userId = subject

/-- The event of a grant: a role swap is `MemberRoleChanged`, anything else `MemberAdded`. -/
def memberEvent (codec : IdCodec ι) (projectId : ι) (req : AddMemberRequest)
    (existingRole : Option String) : String × Payload :=
  match existingRole.filter (· ≠ req.relation) with
  | some old =>
      ("MemberRoleChanged",
        [("project_id", .str (codec.toString projectId)), ("subject", .str req.subject),
          ("old_relation", .str old), ("new_relation", .str req.relation)])
  | none =>
      ("MemberAdded",
        [("project_id", .str (codec.toString projectId)), ("subject", .str req.subject),
          ("relation", .str req.relation), ("display_name", .str ""), ("email", .str "")])

/-- A subject may already hold a different role: clear its stale tuple. True if there was
nothing to clear or the deletion went through. -/
def clearStaleRole (codec : IdCodec ι) (pages : ℕ) (permission : String) (projectId : ι)
    (req : AddMemberRequest) : Option String → Handler ι Bool
  | some old =>
      if old ≠ req.relation then
        deleteRelationTuples pages (projectTuples codec permission projectId (some old))
          (some req.subject)
      else .pure true
  | none => .pure true

def addMember (codec : IdCodec ι) (pages : ℕ) (ctx : RequestContext) (req : AddMemberRequest) :
    Handler ι Unit := do
  let objectId ← checkedObjectId ctx
  let tenantId ← tenantIdFromRequest ctx
  let projectId ← parseId codec "invalid project_id" objectId
  let permission ← tenantClientFor ctx
  ensure (req.subject ≠ "") (invalidArgument "subject is required")
  ensure (subjectValid req.subject)
    (invalidArgument "subject must be of the form user:<id> or agent:<id>")
  ensure (req.relation ≠ "") (invalidArgument "relation is required")
  ensure (req.relation ≠ "owner") (permissionDenied "owner relation cannot be granted via AddMember")
  ensure (req.relation = "admin" ∨ req.relation = "editor" ∨ req.relation = "viewer")
    (invalidArgument "relation must be one of: admin, editor, viewer")
  let existing ← fetchOptional "failed to look up existing member role"
    (selectMember tenantId projectId req.subject)
  let existingRole := existing.map MemberRow.role
  -- a failure is logged
  let _ ← clearStaleRole codec pages permission projectId req existingRole
  let granted ← grantWithRetry permission permissionTypeProject (codec.toString projectId)
    req.relation req.subject
  ensure (granted = true) (internal "failed to write member tuple to the permission backend")
  -- the mirror is best-effort: a failure is logged
  let _ ← attempt (Db.membersT.upsert ⟨projectId, tenantId, req.subject, req.relation⟩
    fun m => { m with role := req.relation })
  let event := memberEvent codec projectId req existingRole
  beginTx "begin tx failed"
  insertProjectEvent tenantId projectId event.1 event.2
  commitTx "commit failed"

/-! ## RemoveMember -/

structure RemoveMemberRequest where
  subject : String
  deriving DecidableEq, Repr

def removeMember (codec : IdCodec ι) (pages : ℕ) (ctx : RequestContext)
    (req : RemoveMemberRequest) : Handler ι Unit := do
  let objectId ← checkedObjectId ctx
  let tenantId ← tenantIdFromRequest ctx
  let projectId ← parseId codec "invalid project_id" objectId
  let permission ← tenantClientFor ctx
  ensure (req.subject ≠ "") (invalidArgument "subject is required")
  -- every role tuple the subject holds on this project; a failure is logged
  let _ ← deleteRelationTuples pages (projectTuples codec permission projectId none)
    (some req.subject)
  let deleted ← query "failed to delete member row" (Db.membersT.delete fun m =>
    m.tenantId = tenantId ∧ m.projectId = projectId ∧ m.userId = req.subject)
  ensure (deleted ≠ []) (notFound "member not found")
  beginTx "begin tx failed"
  insertProjectEvent tenantId projectId "MemberRemoved"
    [("project_id", .str (codec.toString projectId)), ("subject", .str req.subject)]
  commitTx "commit failed"

end Kanban.Rpc
