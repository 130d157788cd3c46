import Kanban.Lib.Pool
import Kanban.Rpc.CreateProject
import Kanban.Rpc.Frame

/-!
# The owner of a project

AddMember and RemoveMember take any subject, the creator included: AddMember swaps the
creator's mirrored role like any other, and RemoveMember deletes every tuple of the creator.

## Main results

* `createProject_ownerKept` — a project keeps its owner in every run whose calls do not name
  the creator.
-/

namespace Kanban.Rpc

open Program Kanban.Store Kanban.Auth
open Kanban.Services (AuthContext ConnectError IdCodec)

variable {ι : Type} [DecidableEq ι]

/-- A call of AddMember or RemoveMember. -/
inductive MemberCall
  | add (req : AddMemberRequest)
  | remove (req : RemoveMemberRequest)
  deriving DecidableEq, Repr

/-- The subject a call is about. -/
def MemberCall.subject : MemberCall → String
  | .add req => req.subject
  | .remove req => req.subject

structure MemberRequest where
  ctx : RequestContext
  call : MemberCall
  deriving DecidableEq, Repr

/-- The handler of a call. -/
def memberHandler (codec : IdCodec ι) (pages : ℕ) (q : MemberRequest) : Handler ι Unit :=
  match q.call with
  | .add req => addMember codec pages q.ctx req
  | .remove req => removeMember codec pages q.ctx req

/-- The roles AddMember accepts. -/
def grantable (relation : String) : Prop :=
  relation = "admin" ∨ relation = "editor" ∨ relation = "viewer"

/-- The call changes the creator's membership: AddMember with a subject and a role that it
accepts, RemoveMember with any subject at all. -/
def NamesOwner (codec : IdCodec ι) (row : ProjectRow ι) (q : MemberRequest) : Prop :=
  q.ctx.checked.bind codec.parse = some row.id ∧ q.call.subject = row.ownerId ∧
  match q.call with
  | .add req => subjectValid req.subject ∧ grantable req.relation
  | .remove req => req.subject ≠ ""

instance {codec : IdCodec ι} {row : ProjectRow ι} {q : MemberRequest} :
    Decidable (NamesOwner codec row q) :=
  match q with
  | ⟨_, .add _⟩ => inferInstanceAs (Decidable (_ ∧ _ ∧ _ ∧ (_ ∨ _ ∨ _)))
  | ⟨_, .remove _⟩ => inferInstanceAs (Decidable (_ ∧ _ ∧ _))

/-- No call that arrives changes the creator's membership. -/
def SparesOwner (codec : IdCodec ι) (row : ProjectRow ι)
    (_ : Pool MemberRequest (Db ι) (Rec ι) (Call ι) (Reply ι) (Backend ι) ConnectError Unit) :
    Turn MemberRequest (Move ι) → Prop
  | .arrive q => ¬ NamesOwner codec row q
  | _ => True

instance {codec : IdCodec ι} {row : ProjectRow ι}
    {P : Pool MemberRequest (Db ι) (Rec ι) (Call ι) (Reply ι) (Backend ι) ConnectError Unit}
    {a : Turn MemberRequest (Move ι)} : Decidable (SparesOwner codec row P a) :=
  match a with
  | .arrive _ => inferInstanceAs (Decidable (¬ _))
  | .act _ _ | .crash _ => .isTrue trivial

/-- The creator still holds the owner tuple, and the mirror row, if it was written, is there. -/
def OwnerKept (codec : IdCodec ι) (row : ProjectRow ι) (w w' : World (Db ι) (Backend ι)) : Prop :=
  w'.ext.Holds row.tenantId permissionTypeProject (codec.toString row.id) "owner" row.ownerId ∧
  (⟨row.id, row.tenantId, row.ownerId, "owner"⟩ ∈ w.store.projectMembers →
    ⟨row.id, row.tenantId, row.ownerId, "owner"⟩ ∈ w'.store.projectMembers)

/-! ## The frame of a membership -/

/-- A write that leaves the mirror row of a member alone. -/
def leavesMember (m : MemberRow ι) : Write (Rec ι) → Prop
  | .put (.member m') => ¬ (m'.projectId = m.projectId ∧ m'.userId = m.userId)
  | .del (.member m') => ¬ (m'.projectId = m.projectId ∧ m'.userId = m.userId)
  | _ => True

theorem mem_projectMembers_apply {m : MemberRow ι} {db : Db ι} {a : Write (Rec ι)}
    (ha : leavesMember m a) (h : m ∈ db.projectMembers) :
    m ∈ (db.apply a).projectMembers := by
  cases a with
  | put r =>
      cases r with
      | member m' => exact Table.mem_put_of_mem h (decide_eq_false ha)
      | _ => exact h
  | del r =>
      cases r with
      | member m' => exact Table.mem_del.mpr ⟨h, decide_eq_false ha⟩
      | _ => exact h

/-- One tuple and the mirror row of one member. -/
def memberFrame (t : RelationTuple) (m : MemberRow ι) (mirrored : Prop) : Frame ι where
  Holds w := t ∈ w.ext.tuples ∧ (mirrored → m ∈ w.store.projectMembers)
  ok := leavesMember m
  write _ _ ha h := ⟨h.1, fun hm => mem_projectMembers_apply ha (h.2 hm)⟩
  create _ _ _ _ _ _ h := ⟨Backend.mem_create h.1, h.2⟩
  issue _ _ h := h

variable {codec : IdCodec ι} {pages : ℕ} {ctx : RequestContext} {t : RelationTuple}
  {m : MemberRow ι} {mirrored : Prop}

/-- A deletion that does not target the tuple keeps it. -/
theorem memberFrame_delete {filter : TupleFilter} {subject : Option String}
    (h : ¬ targeted filter subject t) :
    (memberFrame t m mirrored).Keeps (deleteRelationTuples pages filter subject) := by
  refine .deleteRelationTuples (fun t' => t'.id ≠ t.id) ?_ ?_
  · rintro w t' ⟨ht, -⟩ ht' htarget hid
    rw [eq_of_id_eq w.ext.sorted ht' ht hid] at htarget
    exact h htarget
  · rintro w t' hid ⟨ht, hm⟩
    exact ⟨List.mem_filter.mpr ⟨ht, decide_eq_true (Ne.symm hid)⟩, hm⟩

omit [DecidableEq ι] in
/-- A tuple that a member's deletion targets is the member's, on the project. -/
theorem targeted_projectTuples {tenant : String} {projectId : ι} {relation : Option String}
    {subject : String}
    (h : targeted (projectTuples codec tenant projectId relation) (some subject) t) :
    t.tenant = tenant ∧ t.object = codec.toString projectId ∧ t.subjectId = subject := by
  obtain ⟨hadmits, hsubject⟩ := of_decide_eq_true h
  obtain ⟨htenant, -, hobject, -⟩ := of_decide_eq_true hadmits
  exact ⟨htenant, hobject _ rfl, hsubject _ rfl⟩

/-- The upsert of another member leaves the mirror row alone. -/
theorem leavesMember_upsert {r : MemberRow ι} {role : String}
    (hr : ¬ (r.projectId = m.projectId ∧ r.userId = m.userId)) {db : Db ι}
    {e : Effect (Rec ι) (MemberRow ι)}
    (he : Db.membersT.upsert r (fun m' => { m' with role := role }) db = some e) :
    ∀ a ∈ e.writes, leavesMember m a := by
  intro a ha
  unfold Table.upsert at he
  split at he
  · rename_i r' hfind
    have hsame : Db.membersT.same r r' = true := List.find?_some hfind
    obtain ⟨hp, hu⟩ := of_decide_eq_true hsame
    cases he
    rw [List.mem_singleton.mp ha]
    intro ⟨hp', hu'⟩
    exact hr ⟨hp.trans hp', hu.trans hu'⟩
  · cases he
    rw [List.mem_singleton.mp ha]
    exact hr

theorem keeps_addMember {req : AddMemberRequest} (hobject : t.object = codec.toString m.projectId)
    (hsubject : t.subjectId = m.userId)
    (h : ¬ (ctx.checked.bind codec.parse = some m.projectId ∧ req.subject = m.userId ∧
      subjectValid req.subject ∧ grantable req.relation)) :
    (memberFrame t m mirrored).Keeps (addMember codec pages ctx req) := by
  unfold addMember
  refine .orError_bind fun objectId hobjectId => .orError_bind fun tenantId _ =>
    .orError_bind fun projectId hprojectId => .tenantClientFor_bind fun permission _ =>
    .ensure_bind fun _ => .ensure_bind fun hvalid => .ensure_bind fun _ => .ensure_bind fun _ =>
    .ensure_bind fun hrole => .bind .fetchOptional fun existing => ?_
  have hother : ¬ (projectId = m.projectId ∧ req.subject = m.userId) := by
    rintro ⟨rfl, hs⟩
    exact h ⟨by rw [hobjectId, Option.bind_some, hprojectId], hs, hvalid, hrole⟩
  refine .bind ?_ fun _ => .bind .grantWithRetry fun _ => .ensure_bind fun _ =>
    .bind (.attempt fun _ _ he => leavesMember_upsert hother he) fun _ =>
    .bind .beginTx fun _ => .bind (.insertProjectEvent fun _ => trivial) fun _ => .commitTx
  unfold clearStaleRole
  split
  · split
    · refine memberFrame_delete fun htarget => ?_
      obtain ⟨-, hobject', hsubject'⟩ := targeted_projectTuples htarget
      refine hother ⟨codec.toString_injective (hobject'.symm.trans hobject), ?_⟩
      exact hsubject'.symm.trans hsubject
    · exact .pure
  · exact .pure

/-- Deleting another member leaves the mirror row alone. -/
theorem leavesMember_delete {p : MemberRow ι → Bool}
    (hp : ∀ r, p r → ¬ (r.projectId = m.projectId ∧ r.userId = m.userId)) {db : Db ι}
    {e : Effect (Rec ι) (List (MemberRow ι))} (he : Db.membersT.delete p db = some e) :
    ∀ a ∈ e.writes, leavesMember m a := by
  intro a ha
  cases he
  obtain ⟨r, hr, rfl⟩ := List.mem_map.mp ha
  exact hp r (List.mem_filter.mp hr).2

theorem keeps_removeMember {req : RemoveMemberRequest}
    (hobject : t.object = codec.toString m.projectId) (hsubject : t.subjectId = m.userId)
    (h : ¬ (ctx.checked.bind codec.parse = some m.projectId ∧ req.subject = m.userId ∧
      req.subject ≠ "")) :
    (memberFrame t m mirrored).Keeps (removeMember codec pages ctx req) := by
  unfold removeMember
  refine .orError_bind fun objectId hobjectId => .orError_bind fun tenantId _ =>
    .orError_bind fun projectId hprojectId => .tenantClientFor_bind fun permission _ =>
    .ensure_bind fun hne => ?_
  have hother : ¬ (projectId = m.projectId ∧ req.subject = m.userId) := by
    rintro ⟨rfl, hs⟩
    exact h ⟨by rw [hobjectId, Option.bind_some, hprojectId], hs, hne⟩
  refine .bind (memberFrame_delete fun htarget => ?_) fun _ =>
    .bind (.query fun _ _ => leavesMember_delete fun r hr => ?_) fun _ =>
    .ensure_bind fun _ => .bind .beginTx fun _ =>
    .bind (.insertProjectEvent fun _ => trivial) fun _ => .commitTx
  · obtain ⟨-, hobject', hsubject'⟩ := targeted_projectTuples htarget
    refine hother ⟨codec.toString_injective (hobject'.symm.trans hobject), ?_⟩
    exact hsubject'.symm.trans hsubject
  · obtain ⟨-, hp, hu⟩ := of_decide_eq_true hr
    rintro ⟨hp', hu'⟩
    exact hother ⟨hp.symm.trans hp', hu.symm.trans hu'⟩

/-- A call that does not name the owner keeps the owner's tuple and mirror row. -/
theorem keeps_memberHandler {row : ProjectRow ι} {q : MemberRequest}
    (h : ¬ NamesOwner codec row q) (hobject : t.object = codec.toString row.id)
    (hsubject : t.subjectId = row.ownerId) :
    (memberFrame t ⟨row.id, row.tenantId, row.ownerId, "owner"⟩ mirrored).Keeps
      (memberHandler codec pages q) := by
  obtain ⟨ctx, call⟩ := q
  cases call with
  | add req => exact keeps_addMember hobject hsubject h
  | remove req => exact keeps_removeMember hobject hsubject h

variable {unicode : Unicode} {req : CreateProjectRequest} {w₀ w : World (Db ι) (Backend ι)}

/-- What a run of calls that spare the owner keeps. -/
theorem ownerKept_of_run {row : ProjectRow ι} {turns : List (Turn MemberRequest (Move ι))}
    {P : Pool MemberRequest (Db ι) (Rec ι) (Call ι) (Reply ι) (Backend ι) ConnectError Unit}
    (howner : w.ext.Holds row.tenantId permissionTypeProject (codec.toString row.id) "owner"
      row.ownerId)
    (hrun : Machine.ExecWhile (Pool.step (kanban ι) (memberHandler codec pages))
      (SparesOwner codec row) (Pool.idle w) turns P) :
    OwnerKept codec row w P.world := by
  obtain ⟨t, ht, htenant, hns, hobject, hrelation, hsubject⟩ := howner
  let F := memberFrame t (⟨row.id, row.tenantId, row.ownerId, "owner"⟩ : MemberRow ι)
    (⟨row.id, row.tenantId, row.ownerId, "owner"⟩ ∈ w.store.projectMembers)
  have hkept : F.Holds P.world := by
    refine (Pool.invariant (R := F.rely) (G := fun _ => F.guarantee) (Q := fun _ => F.post)
      (fun _ _ => id) (fun _ _ _ _ h h' hw => h' (h hw)) (fun _ _ _ _ _ _ h _ => h)
      (fun _ _ _ _ _ h hw => h hw) ?_ hrun rfl ⟨ht, id⟩).1
    intro _ q hq w hw
    exact keeps_memberHandler hq hobject hsubject .idle [] w trivial hw
  exact ⟨⟨t, hkept.1, htenant, hns, hobject, hrelation, hsubject⟩, hkept.2⟩

/-- **A project keeps its owner**: from the project that CreateProject made, every run of calls
that do not name its creator, in any order of their steps and with any failures, keeps the
owner's tuple and its mirror row.  The row was written if nothing failed in CreateProject. -/
theorem createProject_ownerKept {acts : List (Act (Move ι))}
    {t : Thread (Db ι) (Rec ι) (Call ι) (Reply ι) ConnectError Project} {project : Project}
    (hrun : Machine.Exec (Thread.step (kanban ι))
      (Thread.start (createProject codec unicode ctx req), w₀) acts (t, w))
    (hr : t.prog.result = some (.ok project))
    (hnew : ∀ tenantId, ctx.auth.bind AuthContext.tenantId = some tenantId →
      recordedProject w₀.store tenantId req.idempotencyKey = none) :
    ∃ row ∈ w.store.projects, project.id = codec.toString row.id ∧
      ((∀ m ∈ w₀.store.projectMembers, m.projectId ∈ w₀.ext.issued) → .failed ∉ t.trace →
        ⟨row.id, row.tenantId, row.ownerId, "owner"⟩ ∈ w.store.projectMembers) ∧
      ∀ pages turns P, Machine.ExecWhile (Pool.step (kanban ι) (memberHandler codec pages))
        (SparesOwner codec row) (Pool.idle w) turns P → OwnerKept codec row w P.world := by
  obtain ⟨acts', tr, hlossy, htr⟩ := exec_lossy hrun
  rcases ensures_createProject.post_of_exec hlossy (result_lossy.trans hr) with
    ⟨tenantId, row, _, htenant, hrow, -⟩ | ⟨⟨row, hrow, hid, howner, hmirror⟩, -⟩
  · rw [hnew tenantId htenant] at hrow
    cases hrow
  · rw [hid] at howner
    exact ⟨row, hrow, hid, fun hissued hok => hmirror hissued fun hf => hok (htr hf),
      fun pages turns P h => ownerKept_of_run howner h⟩

/-- The client, the project's id, the row, the two grants, the mirror row and the count. -/
def grantsDone : List (Act (Move String)) :=
  [.move .done, .move (.fresh "p"), .ok, .move .done, .move .done, .ok, .ok]

/-- The project that is created. -/
def roadmap : ProjectRow String := ⟨"p", "t", "Roadmap", "ROAD", "ROAD", "", "user:ann"⟩

/-- An admin adds an editor, and removes someone who is not a member. -/
def addsEditor : List (Turn MemberRequest (Move String)) :=
  .arrive ⟨⟨some ⟨some "t", some "user:bob"⟩, some "p", 0⟩, .add ⟨"user:cal", "editor"⟩⟩ ::
    .arrive ⟨⟨some ⟨some "t", some "user:bob"⟩, some "p", 0⟩, .remove ⟨"user:dan"⟩⟩ ::
    [.move .done, .move (.page 200), .ok].map (.act 1) ++
    [.move .done, .ok, .move .done, .ok, .ok, .move (.fresh "e"), .ok, .ok, .ok].map (.act 0)

theorem createProject_ownerKept_addsEditor :
    ∃ t w P, Machine.Exec (Thread.step (kanban String))
        (Thread.start createRoadmap, ⟨Db.empty, Backend.empty⟩) grantsDone (t, w) ∧
      Machine.ExecWhile (Pool.step (kanban String) (memberHandler textIds 1))
        (SparesOwner textIds roadmap) (Pool.idle w) addsEditor P ∧
      P.world.store.projectMembers =
        [⟨"p", "t", "user:ann", "owner"⟩, ⟨"p", "t", "user:cal", "editor"⟩] ∧
      P.world.ext.Holds "t" permissionTypeProject "p" "owner" "user:ann" := by
  obtain ⟨x, hx, hr, hprojects, P, hP, hmembers⟩ : ∃ x, createRoadmap.returns (kanban String)
      ⟨Db.empty, Backend.empty⟩ grantsDone = some x ∧
      x.1 = .ok ⟨"p", "Roadmap", "ROAD", "", 1⟩ ∧ x.2.2.store.projects = [roadmap] ∧
      ∃ P, Machine.run (Machine.guarded (Pool.step (kanban String) (memberHandler textIds 1))
        (SparesOwner textIds roadmap)) (Pool.idle x.2.2) addsEditor = some P ∧
      P.world.store.projectMembers =
        [⟨"p", "t", "user:ann", "owner"⟩, ⟨"p", "t", "user:cal", "editor"⟩] :=
    ⟨_, rfl, rfl, rfl, _, rfl, rfl⟩
  obtain ⟨r, tr, w⟩ := x
  obtain ⟨t, hrun, hr', -⟩ := Prog.exec_of_returns hx
  obtain ⟨row, hrow, -, -, hkept⟩ :=
    createProject_ownerKept hrun (hr'.trans (congrArg some hr)) fun _ _ => rfl
  rw [hprojects] at hrow
  obtain rfl := List.mem_singleton.mp hrow
  have hturns := Machine.execWhile_of_run hP
  exact ⟨t, w, P, hrun, hturns, hmembers, (hkept 1 addsEditor P hturns).1⟩

/-- An admin removes the creator: the client, the one page, the two deletions, the mirror row,
the event. -/
def removeOwner : List (Turn MemberRequest (Move String)) :=
  .arrive ⟨⟨some ⟨some "t", some "user:bob"⟩, some "p", 0⟩, .remove ⟨"user:ann"⟩⟩ ::
    [.move .done, .move (.page 200), .move .done, .move .done, .ok, .ok, .move (.fresh "e"),
      .ok, .ok, .ok].map (.act 0)

/-- Removing the creator takes the owner tuple away. -/
theorem createProject_not_ownerKept :
    ∃ t w row P, Machine.Exec (Thread.step (kanban String))
        (Thread.start createRoadmap, ⟨Db.empty, Backend.empty⟩) grantsDone (t, w) ∧
      t.prog.result = some (.ok ⟨"p", "Roadmap", "ROAD", "", 1⟩) ∧
      row ∈ w.store.projects ∧
      Machine.Exec (Pool.step (kanban String) (memberHandler textIds 1)) (Pool.idle w)
        removeOwner P ∧
      ¬ OwnerKept textIds row w P.world := by
  obtain ⟨x, hx, hr, row, hrow, P, hP, htuples⟩ : ∃ x, createRoadmap.returns (kanban String)
      ⟨Db.empty, Backend.empty⟩ grantsDone = some x ∧
      x.1 = .ok ⟨"p", "Roadmap", "ROAD", "", 1⟩ ∧ ∃ row, x.2.2.store.projects = [row] ∧
      ∃ P, Machine.run (Pool.step (kanban String) (memberHandler textIds 1)) (Pool.idle x.2.2)
        removeOwner = some P ∧ P.world.ext.tuples = [] :=
    ⟨_, rfl, rfl, _, rfl, _, rfl, rfl⟩
  obtain ⟨r, tr, w⟩ := x
  obtain ⟨t, hrun, hr', -⟩ := Prog.exec_of_returns hx
  refine ⟨t, w, row, P, hrun, hr'.trans (congrArg some hr), ?_, Machine.exec_of_run hP, fun h => ?_⟩
  · rw [hrow]
    exact List.mem_singleton_self row
  · obtain ⟨t, ht, -⟩ := h.1
    rw [htuples] at ht
    cases ht

end Kanban.Rpc
