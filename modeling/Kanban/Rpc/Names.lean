import Kanban.Lib.Commit
import Kanban.Rpc.Catalog
import Kanban.Rpc.Frame

/-!
# Names that are not empty

A label needs a name and a style, a board template a name and a milestone a title: the create
calls refuse an empty one.  Of the update calls only UpdateMilestone does; UpdateLabel and
UpdateTemplate set what the mask names, also to the empty text.

## Main definitions

* `CatalogCall`, `catalogHandler` — the calls that write labels, templates and milestones.
* `Named` — no stored name is empty.
* `CatalogCall.Blanks` — a request that sets a name to the empty text.
* `catalog_named` — the names stay as long as no row is updated for such a request.
-/

namespace Kanban.Rpc

open Program Kanban.Store Kanban.Auth
open Kanban.Services (AuthContext ConnectError IdCodec)

variable {ι : Type} [DecidableEq ι]

/-- A call that writes a label, a board template or a milestone. -/
inductive CatalogCall
  | createLabel (req : CreateLabelRequest)
  | updateLabel (req : UpdateLabelRequest)
  | deleteLabel (req : DeleteLabelRequest)
  | createTemplate (req : CreateTemplateRequest)
  | updateTemplate (req : UpdateTemplateRequest)
  | deleteTemplate (req : DeleteTemplateRequest)
  | createMilestone (req : CreateMilestoneRequest)
  | updateMilestone (req : UpdateMilestoneRequest)
  | deleteMilestone (req : DeleteMilestoneRequest)
  deriving DecidableEq, Repr

/-- The handler of a call, without its response. -/
def catalogHandler (codec : IdCodec ι) (q : RequestContext × CatalogCall) : Handler ι Unit :=
  match q.2 with
  | .createLabel req => (createLabel codec q.1 req).bind fun _ => .pure ()
  | .updateLabel req => (updateLabel codec q.1 req).bind fun _ => .pure ()
  | .deleteLabel req => deleteLabel codec q.1 req
  | .createTemplate req => (createTemplate codec q.1 req).bind fun _ => .pure ()
  | .updateTemplate req => (updateTemplate codec q.1 req).bind fun _ => .pure ()
  | .deleteTemplate req => deleteTemplate codec q.1 req
  | .createMilestone req => (createMilestone codec q.1 req).bind fun _ => .pure ()
  | .updateMilestone req => (updateMilestone codec q.1 req).bind fun _ => .pure ()
  | .deleteMilestone req => deleteMilestone codec q.1 req

/-- The fields of a row that the create call requires are not empty. -/
def NamedRow : Rec ι → Prop
  | .label l => l.name ≠ "" ∧ l.style ≠ ""
  | .boardTemplate t => t.name ≠ ""
  | .milestone m => m.title ≠ ""
  | _ => True

/-- No stored name is empty. -/
structure Named (db : Db ι) : Prop where
  labels : ∀ l ∈ db.labels, NamedRow (.label l)
  templates : ∀ t ∈ db.boardTemplates, NamedRow (.boardTemplate t)
  milestones : ∀ m ∈ db.milestones, NamedRow (.milestone m)

/-- The request sets a name to the empty text. -/
def CatalogCall.Blanks : CatalogCall → Prop
  | .updateLabel req =>
      ("name" ∈ req.updateMask ∧ req.name = "") ∨ ("style" ∈ req.updateMask ∧ req.style = "")
  | .updateTemplate req => "name" ∈ req.updateMask ∧ req.name = ""
  | _ => False

instance (call : CatalogCall) : Decidable call.Blanks :=
  match call with
  | .updateLabel req => inferInstanceAs (Decidable
      (("name" ∈ req.updateMask ∧ req.name = "") ∨ ("style" ∈ req.updateMask ∧ req.style = "")))
  | .updateTemplate req => inferInstanceAs (Decidable ("name" ∈ req.updateMask ∧ req.name = ""))
  | .createLabel _ | .deleteLabel _ | .createTemplate _ | .deleteTemplate _ | .createMilestone _
  | .updateMilestone _ | .deleteMilestone _ => .isFalse id

/-- The calls under way. -/
abbrev CatalogPool (ι : Type) := Pool (RequestContext × CatalogCall) (Db ι) (Rec ι) (Call ι)
  (Reply ι) (Backend ι) ConnectError Unit

/-- No row is updated for a request that sets a name to the empty text. -/
def NoBlanks (P : CatalogPool ι) (a : Turn (RequestContext × CatalogCall) (Move ι)) : Prop :=
  ∀ c ∈ P.commitOf (kanban ι) a, c.1.2.Blanks → c.2.2 = []

instance (P : CatalogPool ι) (a : Turn (RequestContext × CatalogCall) (Move ι)) :
    Decidable (NoBlanks P a) :=
  inferInstanceAs (Decidable (∀ c ∈ P.commitOf (kanban ι) a, c.1.2.Blanks → c.2.2 = []))

/-! ## Writes -/

/-- A deletion, or a row with names. -/
def NamedWrite : Write (Rec ι) → Prop
  | .put r => NamedRow r
  | .del _ => True

omit [DecidableEq ι] in
/-- The rows of a table after a row is put there. -/
theorem forall_mem_put {τ : Type} {same : τ → τ → Bool} {r : τ} {rows : List τ} {p : τ → Prop}
    (h : ∀ r' ∈ rows, p r') (hr : p r) : ∀ r' ∈ Table.put same r rows, p r' := by
  intro r' hr'
  rcases Table.mem_put hr' with rfl | ⟨hmem, -⟩
  · exact hr
  · exact h r' hmem

theorem Named.apply {db : Db ι} {a : Write (Rec ι)} (h : Named db) (ha : NamedWrite a) :
    Named (db.apply a) := by
  have hdel : ∀ {τ : Type} {same : τ → τ → Bool} {r : τ} {rows : List τ} {p : τ → Prop},
      (∀ r' ∈ rows, p r') → ∀ r' ∈ Table.del same r rows, p r' :=
    fun h r' hr' => h r' (Table.mem_del.mp hr').1
  obtain ⟨hlabels, htemplates, hmilestones⟩ := h
  cases a with
  | put r =>
      cases r with
      | label l => exact ⟨forall_mem_put hlabels ha, htemplates, hmilestones⟩
      | boardTemplate t => exact ⟨hlabels, forall_mem_put htemplates ha, hmilestones⟩
      | milestone m => exact ⟨hlabels, htemplates, forall_mem_put hmilestones ha⟩
      | _ => exact ⟨hlabels, htemplates, hmilestones⟩
  | del r =>
      cases r with
      | label l => exact ⟨hdel hlabels, htemplates, hmilestones⟩
      | boardTemplate t => exact ⟨hlabels, hdel htemplates, hmilestones⟩
      | milestone m => exact ⟨hlabels, htemplates, hdel hmilestones⟩
      | _ => exact ⟨hlabels, htemplates, hmilestones⟩

/-- No stored name is empty, and the writes keep it so. -/
def namedFrame (ι : Type) [DecidableEq ι] : Frame ι where
  Holds w := Named w.store
  ok := NamedWrite
  write _ _ ha h := h.apply ha
  create _ _ _ _ _ _ h := h
  issue _ _ h := h

/-! ## Handlers -/

namespace Frame.Keeps

variable {F : Frame ι} {codec : IdCodec ι} {permission tenantId subject relation : String}

theorem fetchOr {τ : Type} {msg : String} {e : ConnectError} {T : Table (Db ι) (Rec ι) τ}
    {p : τ → Bool} : F.Keeps (fetchOr msg e (T.select p)) :=
  .bind .fetchOptional fun _ => .orError

theorem ite {α : Type} {c : Prop} [Decidable c] {p q : Handler ι α} (hp : F.Keeps p)
    (hq : F.Keeps q) : F.Keeps (if c then p else q) := by
  split
  · exact hp
  · exact hq

theorem fetchOne_of_holds {τ : Type} {msg : String} {s : Stmt (Db ι) (Rec ι) (List τ)}
    (hs : ∀ w e, F.Holds w → s w.store = some e → ∀ a ∈ e.writes, F.ok a) :
    F.Keeps (fetchOne msg s) := .bind (.query_of_holds hs) fun _ => .orError

theorem checkProjectPermission {projectId : ι} :
    F.Keeps (checkProjectPermission codec permission projectId relation subject) :=
  .bind (.bind .checkPermissionWithRetry fun _ => .orError) fun _ => .ensure

theorem managesAny {rows : List (ProjectRow ι)} :
    F.Keeps (managesAny codec permission subject rows) := by
  induction rows with
  | nil => exact .fail
  | cons row rest ih =>
      refine .bind (.bind .checkPermissionWithRetry fun _ => .orError) fun allowed => ?_
      split
      · exact .pure
      · exact ih

theorem checkGlobalLabelPermission :
    F.Keeps (checkGlobalLabelPermission codec permission tenantId subject : Handler ι Unit) :=
  .bind .select fun _ => .managesAny

theorem checkLabelScopePermission {projectId : Option ι} :
    F.Keeps (checkLabelScopePermission codec permission projectId tenantId subject) := by
  cases projectId with
  | some pid => exact .checkProjectPermission
  | none => exact .checkGlobalLabelPermission

theorem writableTemplate {templateId : ι} {msg denied : String} :
    F.Keeps (writableTemplate codec permission tenantId subject templateId msg denied) := by
  refine .bind .fetchOr fun existing => .bind .ensure fun _ => ?_
  cases existing.projectId with
  | some pid => exact .bind .checkProjectPermission fun _ => .pure
  | none => exact .pure

theorem milestoneWithStats {row : MilestoneRow ι} :
    F.Keeps (milestoneWithStats codec tenantId row) :=
  .bind (.bind .select fun _ => .pure) fun _ => .pure

end Frame.Keeps

section Handlers

variable {codec : IdCodec ι} {ctx : RequestContext}

omit [DecidableEq ι] in
/-- A row that is inserted has its names. -/
theorem namedWrite_insert {τ : Type} {T : Table (Db ι) (Rec ι) τ} {r : τ} {db : Db ι}
    {e : Effect (Rec ι) Unit} (he : T.insert r db = some e) (hr : NamedRow (T.record r)) :
    ∀ a ∈ e.writes, NamedWrite a := by
  intro a ha
  rw [Table.writes_insert he] at ha
  rw [List.mem_singleton.mp ha]
  exact hr

omit [DecidableEq ι] in
/-- What the mask does not set to the empty text stays named. -/
theorem masked_getD_ne {mask : List String} {path value old : String}
    (h : ¬ (path ∈ mask ∧ value = "")) (hold : old ≠ "") :
    (masked mask path value).getD old ≠ "" := by
  unfold masked
  split
  · exact fun hvalue => h ⟨‹_›, hvalue⟩
  · exact hold

theorem named_createLabel {req : CreateLabelRequest} :
    (namedFrame ι).Keeps (createLabel codec ctx req) := by
  refine .bind .orError fun subject => .bind .orError fun tenantId =>
    .tenantClientFor_bind fun permission _ => .ensure_bind fun hname => .ensure_bind fun hstyle => ?_
  have hrest : ∀ projectId, (namedFrame ι).Keeps (newId.bind fun labelId =>
      (query "failed to create label" (insertLabel
        ⟨labelId, tenantId, projectId, req.name, req.style⟩)).bind fun _ =>
      .pure (labelFromRow codec ⟨labelId, tenantId, projectId, req.name, req.style⟩)) := by
    refine fun projectId => .bind .newId fun labelId => .bind (.query fun db e he => ?_) fun _ =>
      .pure
    unfold insertLabel at he
    split at he
    · cases he
    · exact namedWrite_insert he ⟨hname, hstyle⟩
  exact .ite (.bind (.bind .checkGlobalLabelPermission fun _ => .pure) hrest) (.bind .orError
    fun pid => .bind .checkProjectPermission fun _ => .bind .pure hrest)

theorem named_updateLabel {req : UpdateLabelRequest} (h : ¬ (CatalogCall.updateLabel req).Blanks) :
    (namedFrame ι).Keeps (updateLabel codec ctx req) := by
  refine .bind .orError fun subject => .bind .orError fun tenantId =>
    .tenantClientFor_bind fun permission _ => .bind .orError fun labelId => .bind .fetchOr
    fun existing => .bind .checkLabelScopePermission fun _ =>
    .bind (.fetchOne_of_holds fun w e hw he a ha => ?_) fun _ => .pure
  obtain ⟨rs, hrs, rfl⟩ := Option.map_eq_some_iff.mp he
  obtain ⟨l', hl', rfl⟩ := List.mem_map.mp ha
  obtain ⟨l, hl, hf⟩ := Table.mem_of_mapM hrs hl'
  obtain ⟨hname, hstyle⟩ := hw.labels l (List.mem_filter.mp hl).1
  split at hf
  · cases hf
  · cases hf
    exact ⟨masked_getD_ne (fun hb => h (.inl hb)) hname,
      masked_getD_ne (fun hb => h (.inr hb)) hstyle⟩

theorem named_deleteLabel {req : DeleteLabelRequest} :
    (namedFrame ι).Keeps (deleteLabel codec ctx req) := by
  refine .bind .orError fun subject => .bind .orError fun tenantId =>
    .tenantClientFor_bind fun permission _ => .bind .orError fun labelId => .bind .fetchOr
    fun existing => .bind .checkLabelScopePermission fun _ => .bind (.query ?_) fun _ => .ensure
  rintro db e ⟨⟩ a ha
  rcases List.mem_append.mp ha with ha | ha
  · obtain ⟨l, -, rfl⟩ := List.mem_map.mp ha
    trivial
  · obtain ⟨cl, -, rfl⟩ := List.mem_map.mp ha
    trivial

theorem named_createTemplate {req : CreateTemplateRequest} :
    (namedFrame ι).Keeps (createTemplate codec ctx req) := by
  refine .bind .orError fun subject => .bind .orError fun tenantId =>
    .tenantClientFor_bind fun permission _ => .ensure_bind fun hname => .bind .ensure fun _ =>
    .bind .orError fun projectId => .bind .checkProjectPermission fun _ => .bind .newId
    fun templateId => .bind (.query fun db e he => ?_) fun _ => .pure
  unfold insertBoardTemplate at he
  split at he
  · cases he
  · exact namedWrite_insert he hname

theorem named_updateTemplate {req : UpdateTemplateRequest}
    (h : ¬ (CatalogCall.updateTemplate req).Blanks) :
    (namedFrame ι).Keeps (updateTemplate codec ctx req) := by
  refine .bind .orError fun subject => .bind .orError fun tenantId =>
    .tenantClientFor_bind fun permission _ => .bind .orError fun templateId =>
    .bind .writableTemplate fun _ => .bind (.fetchOne_of_holds fun w e hw he a ha => ?_)
    fun _ => .pure
  cases he
  obtain ⟨t, ht, rfl⟩ := List.mem_map.mp ha
  exact masked_getD_ne h (hw.templates t (List.mem_filter.mp ht).1)

omit [DecidableEq ι] in
/-- A `DELETE` of rows. -/
theorem namedWrite_delete {τ : Type} {T : Table (Db ι) (Rec ι) τ} {p : τ → Bool} {db : Db ι}
    {e : Effect (Rec ι) (List τ)} (he : T.delete p db = some e) : ∀ a ∈ e.writes, NamedWrite a := by
  cases he
  intro a ha
  obtain ⟨r, -, rfl⟩ := List.mem_map.mp ha
  trivial

theorem named_deleteTemplate {req : DeleteTemplateRequest} :
    (namedFrame ι).Keeps (deleteTemplate codec ctx req) :=
  .bind .orError fun _ => .bind .orError fun _ => .tenantClientFor_bind fun _ _ =>
    .bind .orError fun _ => .bind .writableTemplate fun _ =>
    .bind (.query fun _ _ => namedWrite_delete) fun _ => .ensure

theorem named_createMilestone {req : CreateMilestoneRequest} :
    (namedFrame ι).Keeps (createMilestone codec ctx req) := by
  refine .bind .orError fun subject => .bind .orError fun tenantId =>
    .tenantClientFor_bind fun permission _ => .ensure_bind fun htitle => .bind .orError
    fun projectId => .bind .checkProjectPermission fun _ => .bind .newId fun milestoneId =>
    .bind (.query fun db e he => ?_) fun _ => .pure
  unfold insertMilestone at he
  split at he
  · exact namedWrite_insert he htitle
  · cases he

theorem named_updateMilestone {req : UpdateMilestoneRequest} :
    (namedFrame ι).Keeps (updateMilestone codec ctx req) := by
  refine .bind .orError fun subject => .bind .orError fun tenantId =>
    .tenantClientFor_bind fun permission _ => .bind .orError fun milestoneId => .bind .fetchOr
    fun existing => .bind .checkProjectPermission fun _ => .ensure_bind fun htitle =>
    .bind (.fetchOne_of_holds fun w e hw he a ha => ?_) fun _ => .milestoneWithStats
  cases he
  obtain ⟨m, hm, rfl⟩ := List.mem_map.mp ha
  have hold := hw.milestones m (List.mem_filter.mp hm).1
  refine masked_getD_ne (fun ⟨hmask, hempty⟩ => htitle ?_) hold
  rw [masked, if_pos hmask, hempty]

theorem named_deleteMilestone {req : DeleteMilestoneRequest} :
    (namedFrame ι).Keeps (deleteMilestone codec ctx req) := by
  refine .bind .orError fun _ => .bind .orError fun _ => .tenantClientFor_bind fun _ _ =>
    .bind .orError fun _ => .bind .fetchOr fun _ => .bind .checkProjectPermission fun _ =>
    .bind .beginTx fun _ => .bind (.query ?_) fun _ =>
    .bind (.query fun _ _ => namedWrite_delete) fun _ => .bind .ensure fun _ => .commitTx
  rintro db e ⟨⟩ a ha
  obtain ⟨c, -, rfl⟩ := List.mem_map.mp ha
  trivial

/-- A call that sets no name to the empty text keeps the names. -/
theorem named_catalogHandler {q : RequestContext × CatalogCall} (h : ¬ q.2.Blanks) :
    (namedFrame ι).Keeps (catalogHandler codec q) := by
  obtain ⟨ctx, call⟩ := q
  cases call with
  | createLabel req => exact .bind named_createLabel fun _ => .pure
  | updateLabel req => exact .bind (named_updateLabel h) fun _ => .pure
  | deleteLabel req => exact named_deleteLabel
  | createTemplate req => exact .bind named_createTemplate fun _ => .pure
  | updateTemplate req => exact .bind (named_updateTemplate h) fun _ => .pure
  | deleteTemplate req => exact named_deleteTemplate
  | createMilestone req => exact .bind named_createMilestone fun _ => .pure
  | updateMilestone req => exact .bind named_updateMilestone fun _ => .pure
  | deleteMilestone req => exact named_deleteMilestone

/-- **Names stay non-empty.**  Whatever calls run together, and whatever fails or crashes, no
stored name becomes empty unless a row is updated for a request that sets one to the empty text. -/
theorem catalog_named {w : World (Db ι) (Backend ι)}
    {turns : List (Turn (RequestContext × CatalogCall) (Move ι))} {P : CatalogPool ι}
    (hnamed : Named w.store)
    (hrun : Machine.ExecWhile (Pool.step (kanban ι) (catalogHandler codec)) NoBlanks (Pool.idle w)
      turns P) : Named P.world.store := by
  refine (namedFrame ι).holds_of_run (fun _ => named_catalogHandler) ?_ hrun rfl hnamed
  intro P i b q t t' w' hP hC hi hblanks hst
  rcases Thread.store_of_step hst with hsame | ⟨ws, past, htr, hpast, happly⟩
  · change Named w'.store
    rw [hsame]
    exact hP
  · -- what the call commits is empty, by the condition
    obtain rfl : ws = [] := hC _ (Pool.commitOf_eq_some hi hst htr hpast) (not_not.mp hblanks)
    change Named w'.store
    rw [happly]
    exact hP

end Handlers

/-- A project with one label. -/
def oneLabel : World (Db String) (Backend String) where
  store := { Db.empty with
    projects := [⟨"p", "t", "Roadmap", "ROAD", "ROAD", "", "user:ann"⟩]
    labels := [⟨"l", "t", some "p", "bug", "red"⟩] }
  ext := Backend.empty

/-- A manager of the project sets the name of the label. -/
def rename (name : String) : RequestContext × CatalogCall :=
  ⟨⟨some ⟨some "t", some "user:ann"⟩, none, 0⟩, .updateLabel ⟨"l", name, "", ["name"]⟩⟩

/-- The client, the label, the check of the project, the update. -/
def renameTo (name : String) : List (Turn (RequestContext × CatalogCall) (Move String)) :=
  .arrive (rename name) :: [.move .done, .ok, .move (.answer true), .ok].map (.act 0)

theorem named_oneLabel : Named oneLabel.store :=
  ⟨by simp [oneLabel, NamedRow, Db.empty], by simp [oneLabel, Db.empty],
    by simp [oneLabel, Db.empty]⟩

theorem catalog_named_defect :
    ∃ P, Machine.ExecWhile (Pool.step (kanban String) (catalogHandler textIds)) NoBlanks
        (Pool.idle oneLabel) (renameTo "defect") P ∧
      Named P.world.store ∧ P.world.store.labels.map LabelRow.name = ["defect"] := by
  obtain ⟨P, hP, hlabels⟩ : ∃ P, Machine.run
      (Machine.guarded (Pool.step (kanban String) (catalogHandler textIds)) NoBlanks)
      (Pool.idle oneLabel) (renameTo "defect") = some P ∧
      P.world.store.labels.map LabelRow.name = ["defect"] := ⟨_, rfl, rfl⟩
  have hrun := Machine.execWhile_of_run hP
  exact ⟨P, hrun, catalog_named named_oneLabel hrun, hlabels⟩

theorem catalog_not_named :
    ∃ P, Machine.Exec (Pool.step (kanban String) (catalogHandler textIds)) (Pool.idle oneLabel)
        (renameTo "") P ∧ Named oneLabel.store ∧ ¬ Named P.world.store := by
  obtain ⟨P, hP, hlabels⟩ : ∃ P, Machine.run (Pool.step (kanban String) (catalogHandler textIds))
      (Pool.idle oneLabel) (renameTo "") = some P ∧
      P.world.store.labels = [⟨"l", "t", some "p", "", "red"⟩] := ⟨_, rfl, rfl⟩
  refine ⟨P, Machine.exec_of_run hP, named_oneLabel, fun h => ?_⟩
  have hl := h.labels ⟨"l", "t", some "p", "", "red"⟩ (by rw [hlabels]; exact List.mem_cons_self)
  exact hl.1 rfl

end Kanban.Rpc
