import Mathlib.Data.List.Nodup
import Mathlib.Data.List.Sort

/-!
# What the services share

The caller's context, the errors of a handler, the visibility strings and the questions put to
the permission backend.

## Main definitions

* `AuthContext`, `ConnectError` — the caller, and the error of a request.
* `isPublicOrInternal` — the visibilities that need no relation.
* `PermissionQuery` — one check of the permission backend.
* `Permissions` — the permission backend.
* `Obs` — what is observed of a stream.
* `BoardRow`, `Boards` — the columns of `boards` that the streams and the checks read.
-/

namespace Kanban.Services

/-- The authenticated caller. -/
structure AuthContext where
  tenantId : Option String
  subject : Option String
  deriving DecidableEq, Repr

inductive ErrorCode
  | unauthenticated
  | permissionDenied
  | invalidArgument
  | notFound
  | alreadyExists
  | failedPrecondition
  | resourceExhausted
  | internal
  deriving DecidableEq, Repr

structure ConnectError where
  code : ErrorCode
  message : String
  deriving DecidableEq, Repr

/-! ## Visibility -/

def visPrivate : String := "private"
def visInternal : String := "internal"
def visPublic : String := "public"

/-- True if the visibility is public or internal. -/
def isPublicOrInternal (s : String) : Bool := s = visPublic ∨ s = visInternal

theorem isPublicOrInternal_iff {s : String} :
    isPublicOrInternal s ↔ s = "public" ∨ s = "internal" := decide_eq_true_iff

/-- Map a protobuf `BoardVisibility` value to its database string. -/
def protoToDb : ℤ → String
  | 2 => visInternal
  | 3 => visPublic
  | _ => visPrivate

/-- Map a visibility string back; anything unknown is private. -/
def dbToProto (s : String) : ℤ := if s = visInternal then 2 else if s = visPublic then 3 else 1

/-- What is stored for a protobuf value reads back as one of the three levels. -/
theorem dbToProto_protoToDb (v : ℤ) :
    dbToProto (protoToDb v) = if v = 2 ∨ v = 3 then v else 1 := by
  unfold protoToDb
  split
  · rfl
  · rfl
  · rename_i h2 h3
    have hno : ¬ (v = 2 ∨ v = 3) := fun h => h.elim h2 h3
    rw [if_neg hno]
    rfl

/-! ## Permission checks -/

/-- One check of the permission backend: does `subject` have `relation` on the object. -/
structure PermissionQuery where
  namespaceName : String
  objectId : String
  relation : String
  subject : String
  deriving DecidableEq, Repr

/-- The question of `revalidate_permission`. -/
def viewQuery (auth : AuthContext) (objectType objectId : String) : PermissionQuery :=
  ⟨objectType, objectId, "view", auth.subject.getD ""⟩

/-- The tenant's permission backend, an arbitrary oracle: the answers of its checks and the
objects on which a subject has a relation; `none` when the call fails. -/
structure Permissions where
  check : PermissionQuery → Option Bool
  expand : String → String → String → Option (List String)

/-- `expand_objects`: fails rather than truncate. -/
def Permissions.expandObjects (p : Permissions) (namespaceName relation subject : String)
    (maxResults : ℕ) : Option (List String) :=
  if maxResults = 0 then none
  else (p.expand namespaceName relation subject).filter (·.length ≤ maxResults)

/-- What is observed of a stream of items: its yields and the answers of the permission
backend. -/
inductive Obs (κ : Type*)
  | yielded (item : κ)
  | answered (query : PermissionQuery) (granted : Bool)

/-! ## Rows -/

/-- A row of `boards`. -/
structure BoardRow (ι : Type*) where
  id : ι
  tenantId : String
  projectId : ι
  name : String
  icon : Option String
  visibility : String
  createdAt : ℕ
  deriving DecidableEq, Repr

/-- The table `boards` with its primary key. -/
structure Boards (ι : Type*) where
  rows : List (BoardRow ι)
  key : (rows.map BoardRow.id).Nodup

namespace Boards

variable {ι : Type*} {boards : Boards ι}

/-- The primary key determines the row. -/
theorem row_unique {r r' : BoardRow ι} (h : r ∈ boards.rows) (h' : r' ∈ boards.rows)
    (hid : r.id = r'.id) : r = r' :=
  List.inj_on_of_nodup_map boards.key h h' hid

/-- `SELECT … FROM boards WHERE tenant_id = $1 AND id = $2`. -/
def fetch [DecidableEq ι] (boards : Boards ι) (tenantId : String) (id : ι) :
    Option (BoardRow ι) :=
  boards.rows.find? fun row => row.tenantId = tenantId ∧ row.id = id

theorem fetch_some [DecidableEq ι] {tenantId : String} {id : ι} {row : BoardRow ι}
    (h : boards.fetch tenantId id = some row) :
    row ∈ boards.rows ∧ row.tenantId = tenantId ∧ row.id = id := by
  have hrow := List.find?_some h
  simp only [decide_eq_true_eq] at hrow
  exact ⟨List.mem_of_find?_eq_some h, hrow⟩

/-- `SELECT … FROM boards WHERE tenant_id = $1 AND project_id = $2 ORDER BY created_at ASC`. -/
def ofProject [DecidableEq ι] (boards : Boards ι) (tenantId : String) (projectId : ι) :
    List (BoardRow ι) :=
  (boards.rows.filter fun row => row.tenantId = tenantId ∧ row.projectId = projectId).mergeSort
    fun a b => a.createdAt ≤ b.createdAt

theorem mem_ofProject [DecidableEq ι] {tenantId : String} {projectId : ι} {row : BoardRow ι} :
    row ∈ boards.ofProject tenantId projectId ↔
      row ∈ boards.rows ∧ row.tenantId = tenantId ∧ row.projectId = projectId := by
  simp [ofProject]

end Boards

/-- The id codec: `FromStr` and `Display` of `Id`. -/
structure IdCodec (ι : Type*) where
  parse : String → Option ι
  toString : ι → String
  parse_toString : ∀ id, parse (toString id) = some id

theorem IdCodec.toString_injective {ι : Type*} (codec : IdCodec ι) :
    Function.Injective codec.toString := by
  intro a b h
  have hparse := congrArg codec.parse h
  rw [codec.parse_toString, codec.parse_toString] at hparse
  exact Option.some.inj hparse

end Kanban.Services
