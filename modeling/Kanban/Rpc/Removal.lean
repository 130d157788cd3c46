import Kanban.Rpc.Alone
import Kanban.Rpc.GitHubLinks
import Kanban.Rpc.Surely

/-!
# Removing cards

A card is removed by itself, with its column, with its board or with its project.  The database removes
with it the rows whose foreign key to the card cascades.  The foreign key of the links has no cascade,
so a card with a link cannot be removed; and the response recorded under an idempotency key is no
foreign key, so it stays.

## Main definitions

* `deleteProject` — the handler.
* `RemovalCall`, `removalHandler` — the calls that remove cards.
* `Target` — what a call removes, and the cards that go with it.
-/

namespace Kanban.Rpc

open Program Kanban.Store Kanban.Auth
open Kanban.Services (AuthContext ConnectError IdCodec)

variable {ι : Type} [DecidableEq ι]

/-! ## DeleteProject -/

/-- The ids of the boards of a project. -/
def boardsOfProject (db : Db ι) (projectId : ι) : List ι :=
  (db.boards.filter (·.projectId = projectId)).map BoardRow.id

/-- The cards that a project takes with it. -/
def cardsOfProject (db : Db ι) (projectId : ι) : List (CardRow ι) :=
  db.cards.filter fun c => c.projectId = projectId ∨ c.boardId ∈ boardsOfProject db projectId ∨
    c.columnId ∈ (db.columns.filter (·.boardId ∈ boardsOfProject db projectId)).map ColumnRow.id

/-- What a project takes with it, besides its cards. -/
def partsOfProject (db : Db ι) (projectId : ι) : List (Rec ι) :=
  let boards := boardsOfProject db projectId
  let labels := db.labels.filter (·.projectId = some projectId)
  (db.columns.filter (·.boardId ∈ boards)).map .column ++
    (db.eventLog.filter fun e => e.projectId = some projectId ∨ ∃ b ∈ e.boardId, b ∈ boards).map .event ++
    (db.aggregatedBoardSources.filter (·.boardId ∈ boards)).map .source ++
    (db.boards.filter (·.projectId = projectId)).map .board ++
    (db.milestones.filter (·.projectId = projectId)).map .milestone ++
    (db.cardLabels.filter (·.labelId ∈ labels.map LabelRow.id)).map .cardLabel ++
    labels.map .label ++
    (db.projectMembers.filter (·.projectId = projectId)).map .member ++
    (db.projectRefCounter.filter (·.projectId = projectId)).map .refCounter ++
    (db.boardTemplates.filter (·.projectId = some projectId)).map .boardTemplate

/-- `DELETE FROM projects WHERE tenant_id = $1 AND id = $2`, with its cascade. -/
def deleteProjectRow (tenantId : String) (projectId : ι) :
    Stmt (Db ι) (Rec ι) (List (ProjectRow ι)) := fun db =>
  let rows := db.projects.filter fun p => p.tenantId = tenantId ∧ p.id = projectId
  let cards := cardsOfProject db projectId
  let gone := if rows = [] then [] else withChildren db cards ++ partsOfProject db projectId
  if rows ≠ [] ∧ Linked db cards then none
  else some ⟨rows, rows.map .project, gone.map .del ++ rows.map fun p => .del (.project p)⟩

def deleteProject (codec : IdCodec ι) (ctx : RequestContext) : Handler ι Unit := do
  let objectId ← checkedObjectId ctx
  let tenantId ← tenantIdFromRequest ctx
  let projectId ← parseId codec "invalid project_id" objectId
  let deleted ← query "failed to delete project" (deleteProjectRow tenantId projectId)
  ensure (deleted ≠ []) (notFound "project not found")

/-! ## The calls that remove cards -/

inductive RemovalCall
  | deleteCard
  | removeColumn (req : RemoveColumnRequest)
  | deleteBoard
  | deleteProject
  deriving DecidableEq, Repr

/-- The handler of a call, without its response. -/
def removalHandler (codec : IdCodec ι) (pages : ℕ) (q : RequestContext × RemovalCall) :
    Handler ι Unit :=
  match q.2 with
  | .deleteCard => deleteCard codec pages q.1
  | .removeColumn req => removeColumn codec q.1 req
  | .deleteBoard => deleteBoard codec q.1
  | .deleteProject => deleteProject codec q.1

/-- What a call removes. -/
inductive Target (ι : Type)
  | card (id : ι)
  | column (id boardId : ι)
  | board (id : ι)
  | project (id : ι)

/-- The target that a request names. -/
def RemovalCall.target (codec : IdCodec ι) (q : RequestContext × RemovalCall) : Option (Target ι) :=
  (q.1.checked.bind codec.parse).bind fun id =>
    match q.2 with
    | .deleteCard => some (.card id)
    | .removeColumn req => (codec.parse req.columnId).map (.column · id)
    | .deleteBoard => some (.board id)
    | .deleteProject => some (.project id)

namespace Target

/-- The target exists in the tenant. -/
def Exists (db : Db ι) (tenantId : String) : Target ι → Prop
  | card id => ∃ c ∈ db.cards, c.id = id ∧ c.tenantId = tenantId
  | column id boardId => ∃ k ∈ db.columns, k.tenantId = tenantId ∧ k.id = id ∧ k.boardId = boardId
  | board id => ∃ b ∈ db.boards, b.id = id ∧ b.tenantId = tenantId
  | project id => ∃ p ∈ db.projects, p.tenantId = tenantId ∧ p.id = id

/-- The cards that are removed. -/
def cards (db : Db ι) (tenantId : String) : Target ι → List (CardRow ι)
  | card id => db.cards.filter fun c => c.id = id ∧ c.tenantId = tenantId
  | column id _ => db.cards.filter (·.columnId = id)
  | board id => cardsOfBoard db id
  | project id => cardsOfProject db id

end Target

/-! ## What a removal deletes -/

/-- A card, or a row that goes with a card. -/
def OfCard : Rec ι → Prop
  | .card _ => True
  | .cardLabel _ => True
  | .assignee _ => True
  | .checklistItem _ => True
  | .comment _ => True
  | .attachment _ => True
  | .dependency _ => True
  | _ => False

section Gone

variable {db : Db ι} {x : ι} {cards : List (CardRow ι)} {c : CardRow ι} {r : Rec ι}

theorem ofCard_of_mem_cardChildren (h : r ∈ cardChildren db x) : OfCard r := by
  simp only [cardChildren, List.mem_append, List.mem_map] at h
  rcases h with ((((⟨_, -, rfl⟩ | ⟨_, -, rfl⟩) | ⟨_, -, rfl⟩) | ⟨_, -, rfl⟩) | ⟨_, -, rfl⟩) | ⟨_, -, rfl⟩ <;>
    trivial

theorem ofCard_of_mem_withChildren (h : r ∈ withChildren db cards) : OfCard r := by
  obtain ⟨c, -, h⟩ := List.mem_flatMap.mp h
  rcases List.mem_cons.mp h with rfl | h
  · trivial
  · exact ofCard_of_mem_cardChildren h

/-- Every row whose reference goes with the card is deleted with it. -/
theorem mem_cardChildren (hr : db.Has r) (hrefs : x ∈ r.cardRefs) (hcascades : r.Cascades) :
    r ∈ cardChildren db x := by
  cases r with
  | dependency d =>
      have : x = d.cardId ∨ x = d.dependsOnCardId := by simpa [Rec.cardRefs] using hrefs
      exact List.mem_append_right _ (List.mem_map_of_mem
        (List.mem_filter.mpr ⟨hr, decide_eq_true (this.imp Eq.symm Eq.symm)⟩))
  | idempotencyKey k => exact hcascades.elim
  | githubLink l => exact hcascades.elim
  | _ =>
      first
      | cases hrefs; done
      | obtain rfl := List.mem_singleton.mp hrefs
        simpa [cardChildren, Db.Has] using hr

theorem mem_withChildren (hc : c ∈ cards) (hr : db.Has r) (hrefs : c.id ∈ r.cardRefs)
    (hcascades : r.Cascades) : r ∈ withChildren db cards :=
  List.mem_flatMap.mpr ⟨c, hc, List.mem_cons_of_mem _ (mem_cardChildren hr hrefs hcascades)⟩

omit [DecidableEq ι] in
theorem OfCard.unreferring (h : OfCard r) : Unreferring (.del r) := by
  cases r <;> first | exact True.intro | exact h.elim

/-- What the statement deletes: cards and what goes with them, those with the id all. -/
theorem writes_deleteCardRow {t : String} {e : Effect (Rec ι) (List (CardRow ι))}
    (he : deleteCardRow t x db = some e) : e.answer = (Target.card x).cards db t ∧
      (∀ a ∈ e.writes, ∃ r, a = .del r ∧ OfCard r) ∧
      ∀ r ∈ withChildren db ((Target.card x).cards db t), .del r ∈ e.writes := by
  obtain rfl := deleteCardRow_some he
  refine ⟨rfl, fun a ha => ?_, fun r hr => ?_⟩
  · rcases List.mem_append.mp ha with ha | ha
    · obtain ⟨c, -, rfl⟩ := List.mem_map.mp ha
      exact ⟨_, rfl, trivial⟩
    · obtain ⟨r, hr, rfl⟩ := List.mem_map.mp ha
      split at hr
      · cases hr
      · exact ⟨r, rfl, ofCard_of_mem_cardChildren hr⟩
  · obtain ⟨c, hc, hr⟩ := List.mem_flatMap.mp hr
    rcases List.mem_cons.mp hr with rfl | hr
    · exact List.mem_append_left _ (List.mem_map.mpr ⟨c, hc, rfl⟩)
    · obtain ⟨rfl, -⟩ := of_decide_eq_true (List.mem_filter.mp hc).2
      have hne : db.cards.filter (fun c' => c'.id = c.id ∧ c'.tenantId = t) ≠ [] := List.ne_nil_of_mem hc
      refine List.mem_append_right _ (List.mem_map_of_mem ?_)
      rwa [if_neg hne]

theorem writes_deleteColumnRow {t : String} {boardId : ι} {e : Effect (Rec ι) (List (ColumnRow ι))}
    (he : deleteColumnRow t x boardId db = some e) (hne : e.answer ≠ []) :
    (∀ a ∈ e.writes, ∃ r, a = .del r ∧ (OfCard r ∨ ∃ k, r = .column k)) ∧
      ∀ r ∈ withChildren db ((Target.column x boardId).cards db t), .del r ∈ e.writes := by
  obtain rfl := deleteColumnRow_some he
  have hne : db.columns.filter (columnOnBoard t x boardId) ≠ [] := hne
  rw [if_neg hne]
  refine ⟨fun a ha => ?_, fun r hr => List.mem_append_left _ (List.mem_map_of_mem hr)⟩
  rcases List.mem_append.mp ha with ha | ha
  · obtain ⟨r, hr, rfl⟩ := List.mem_map.mp ha
    exact ⟨r, rfl, .inl (ofCard_of_mem_withChildren hr)⟩
  · obtain ⟨k, -, rfl⟩ := List.mem_map.mp ha
    exact ⟨_, rfl, .inr ⟨k, rfl⟩⟩

theorem writes_deleteBoardRow {t : String} {e : Effect (Rec ι) (List (BoardRow ι))}
    (he : deleteBoardRow t x db = some e) (hne : e.answer ≠ []) : (∀ a ∈ e.writes, Unreferring a) ∧
      ∀ r ∈ withChildren db ((Target.board x).cards db t), .del r ∈ e.writes := by
  obtain rfl := deleteBoardRow_some he
  have hne : (db.boards.filter fun b => b.id = x ∧ b.tenantId = t) ≠ [] := hne
  rw [if_neg hne]
  refine ⟨fun a ha => ?_, fun r hr => List.mem_append_left _ (List.mem_map_of_mem ?_)⟩
  · simp only [List.mem_append, List.mem_map] at ha
    rcases ha with ⟨r, ((hr | ⟨k, -, rfl⟩) | ⟨e, -, rfl⟩) | ⟨r, -, rfl⟩, rfl⟩ | ⟨b, -, rfl⟩
    · exact (ofCard_of_mem_withChildren hr).unreferring
    all_goals trivial
  · simp only [List.mem_append]
    exact .inl (.inl (.inl hr))

/-- What the statement does when it is not rejected. -/
theorem deleteProjectRow_some {t : String} {e : Effect (Rec ι) (List (ProjectRow ι))}
    (he : deleteProjectRow t x db = some e) :
    e = ⟨db.projects.filter fun p => p.tenantId = t ∧ p.id = x,
      (db.projects.filter fun p => p.tenantId = t ∧ p.id = x).map .project,
      (if (db.projects.filter fun p => p.tenantId = t ∧ p.id = x) = [] then []
          else withChildren db (cardsOfProject db x) ++ partsOfProject db x).map .del ++
        (db.projects.filter fun p => p.tenantId = t ∧ p.id = x).map fun p => .del (.project p)⟩ := by
  simp only [deleteProjectRow] at he
  split at he
  · cases he
  · exact (Option.some.inj he).symm

theorem writes_deleteProjectRow {t : String} {e : Effect (Rec ι) (List (ProjectRow ι))}
    (he : deleteProjectRow t x db = some e) (hne : e.answer ≠ []) :
    (∀ a ∈ e.writes, Unreferring a) ∧
      ∀ r ∈ withChildren db ((Target.project x).cards db t), .del r ∈ e.writes := by
  obtain rfl := deleteProjectRow_some he
  have hne : (db.projects.filter fun p => p.tenantId = t ∧ p.id = x) ≠ [] := hne
  rw [if_neg hne]
  refine ⟨fun a ha => ?_, fun r hr => List.mem_append_left _ (List.mem_map_of_mem ?_)⟩
  · rcases List.mem_append.mp ha with ha | ha
    · obtain ⟨r, hr, rfl⟩ := List.mem_map.mp ha
      rcases List.mem_append.mp hr with hr | hr
      · exact (ofCard_of_mem_withChildren hr).unreferring
      · simp only [partsOfProject, List.mem_append, List.mem_map] at hr
        rcases hr with ((((((((⟨_, -, rfl⟩ | ⟨_, -, rfl⟩) | ⟨_, -, rfl⟩) | ⟨_, -, rfl⟩) | ⟨_, -, rfl⟩) |
          ⟨_, -, rfl⟩) | ⟨_, -, rfl⟩) | ⟨_, -, rfl⟩) | ⟨_, -, rfl⟩) | ⟨_, -, rfl⟩ <;> trivial
    · obtain ⟨p, -, rfl⟩ := List.mem_map.mp ha
      trivial
  · exact List.mem_append_left _ hr

/-- What is left when a removal has landed, whatever was logged with it. -/
theorem erased_of_writes {ws : List (Write (Rec ι))}
    (hws : ∀ a ∈ ws, Unreferring a) (hall : ∀ r ∈ withChildren db cards, .del r ∈ ws) :
    Erased cards db ((kanban ι).applyAll db ws) :=
  erased_applyAll hws
    (fun _ hc => hall _ (List.mem_flatMap.mpr ⟨_, hc, List.mem_cons_self⟩))
    fun _ hc r hr hrefs hcascades => hall r (mem_withChildren hc hr hrefs hcascades)

end Gone

/-! ## What surely happens -/

/-- What holds in every state of the database: the foreign keys of cards and columns, as the schema
declares them, and the ids of the events were issued. -/
structure Sound (w : World (Db ι) (Backend ι)) : Prop where
  cardBoard : ∀ c ∈ w.store.cards, ∃ b ∈ w.store.boards, b.id = c.boardId
  columnBoard : ∀ k ∈ w.store.columns, ∃ b ∈ w.store.boards, b.id = k.boardId
  events : ∀ e ∈ w.store.eventLog, e.id ∈ w.ext.issued

section Views

variable {db : Db ι} {ws : List (Write (Rec ι))} {ids : List ι} {x : ι}

/-- The events that a transaction sees are those of the store, if it wrote none. -/
theorem issued_of_view (hids : ∀ e ∈ db.eventLog, e.id ∈ ids)
    (hws : ∀ a ∈ ws, ∀ e, a ≠ .put (.event e)) :
    ∀ e ∈ ((kanban ι).applyAll db ws).eventLog, e.id ∈ ids := by
  intro e he
  rcases has_of_applyAll (show ((kanban ι).applyAll db ws).Has (.event e) from he) with hput | ⟨he, -⟩
  · exact absurd rfl (hws _ hput e)
  · exact hids e he

theorem board_of_view (hb : ∃ b ∈ db.boards, b.id = x) (hws : ∀ a ∈ ws, ∀ b, a.record ≠ .board b) :
    ∃ b ∈ ((kanban ι).applyAll db ws).boards, b.id = x := by
  obtain ⟨b, hb, hid⟩ := hb
  refine ⟨b, ?_, hid⟩
  have hhas : db.Has (.board b) := hb
  refine hhas.applyAll fun a ha => ?_
  cases hrec : a.record with
  | board b' => exact absurd hrec (hws a ha b')
  | _ => rfl

omit [DecidableEq ι] in
theorem Logs.unreferring (h : Logs ws) : ∀ a ∈ ws, Unreferring a := by
  intro a ha
  rcases h a ha with ⟨b, rfl⟩ | ⟨e, rfl⟩
  · exact rfl
  · exact rfl

end Views

section Surely

variable [Infinite ι] {codec : IdCodec ι} {pages : ℕ} {ctx : RequestContext} {up : String → Bool}
  {w : World (Db ι) (Backend ι)} {s t : String} {x : ι}

theorem sure_deleteCard (hw : Sound w) (hpages : w.ext.tuples.length < pages)
    (hchecked : ctx.checked = some s) (hid : codec.parse s = some x)
    (htenant : ctx.auth.bind AuthContext.tenantId = some t) (hup : up t = true)
    (hx : (Target.card x).Exists w.store t)
    (hlink : ¬ Linked w.store ((Target.card x).cards w.store t)) :
    Sure ((kanban ι).limit (clientUp up)) (deleteCard codec pages ctx) .idle w fun _ _ w' =>
      Erased ((Target.card x).cards w.store t) w.store w'.store := by
  obtain ⟨c, hc, hcid, hct⟩ := hx
  have hcards : c ∈ (Target.card x).cards w.store t :=
    List.mem_filter.mpr ⟨hc, decide_eq_true ⟨hcid, hct⟩⟩
  have hne : (Target.card x).cards w.store t ≠ [] := List.ne_nil_of_mem hcards
  obtain ⟨e, he⟩ : ∃ e, deleteCardRow t x w.store = some e := ⟨_, if_neg hlink⟩
  obtain ⟨hanswer, hwrites, hall⟩ := writes_deleteCardRow he
  have hunreferring : ∀ a ∈ e.writes, Unreferring a := fun a ha => by
    obtain ⟨r, rfl, hr⟩ := hwrites a ha
    exact hr.unreferring
  refine sure_orError_bind hchecked (sure_orError_bind hid (sure_orError_bind htenant
    (sure_fetchOr_bind ⟨c, hc, decide_eq_true ⟨hcid, hct⟩⟩ fun cur hcur _ => sure_beginTx_bind
      (sure_queryTx_bind he (sure_ensure_bind (hanswer ▸ hne) (sure_insertBoardEvent_bind ?_ ?_
        fun ws ext hlogs => sure_commitTx_bind (sure_tenantClientFor_bind htenant hup
          (sure_bind (sure_deleteRelationTuples hpages fun ok ext hsub => ?_)))))))))
  · refine issued_of_view hw.events fun a ha e' => ?_
    obtain ⟨r, rfl, -⟩ := hwrites a ha
    exact nofun
  · refine board_of_view (hw.cardBoard cur hcur) fun a ha b heq => ?_
    obtain ⟨r, rfl, hr⟩ := hwrites a ha
    cases heq
    exact hr
  · refine erased_of_writes (fun a ha => ?_) fun r hr => List.mem_append_left _ (hall r hr)
    rcases List.mem_append.mp ha with ha | ha
    · exact hunreferring a ha
    · exact hlogs.unreferring a ha

theorem sure_removeColumn {req : RemoveColumnRequest} {k : ι} (hw : Sound w)
    (hchecked : ctx.checked = some s) (hid : codec.parse s = some x)
    (hcolumn : codec.parse req.columnId = some k)
    (htenant : ctx.auth.bind AuthContext.tenantId = some t)
    (hx : (Target.column k x).Exists w.store t)
    (hlink : ¬ Linked w.store ((Target.column k x).cards w.store t)) :
    Sure ((kanban ι).limit (clientUp up)) (removeColumn codec ctx req) .idle w fun _ _ w' =>
      Erased ((Target.column k x).cards w.store t) w.store w'.store := by
  obtain ⟨r, hr, hrow⟩ := hx
  have hmem : r ∈ w.store.columns.filter (columnOnBoard t k x) :=
    List.mem_filter.mpr ⟨hr, decide_eq_true hrow⟩
  have hne : w.store.columns.filter (columnOnBoard t k x) ≠ [] := List.ne_nil_of_mem hmem
  obtain ⟨e, he⟩ : ∃ e, deleteColumnRow t k x w.store = some e := ⟨_, if_neg fun h => hlink h.2⟩
  have hanswer : e.answer ≠ [] := by
    rw [deleteColumnRow_some he]
    exact hne
  obtain ⟨hwrites, hall⟩ := writes_deleteColumnRow he hanswer
  obtain ⟨e', he'⟩ : ∃ e', gapFill t x ((kanban ι).applyAll w.store e.writes) = some e' := ⟨_, rfl⟩
  have hfill : ∀ a ∈ e'.writes, ∃ k, a = .put (.column k) := fun a ha => by
    cases he'
    obtain ⟨k', -, rfl⟩ := List.mem_map.mp ha
    exact ⟨_, rfl⟩
  have hdel : ∀ a ∈ e.writes ++ e'.writes, (∃ r, a = .del r ∧ OfCard r) ∨ ∃ k, a.record = .column k := by
    intro a ha
    rcases List.mem_append.mp ha with ha | ha
    · obtain ⟨r, rfl, hr | ⟨k, rfl⟩⟩ := hwrites a ha
      · exact .inl ⟨r, rfl, hr⟩
      · exact .inr ⟨k, rfl⟩
    · obtain ⟨k, rfl⟩ := hfill a ha
      exact .inr ⟨k, rfl⟩
  refine sure_orError_bind htenant (sure_orError_bind hchecked (sure_orError_bind hid
    (sure_orError_bind hcolumn (sure_beginTx_bind (sure_queryTx_bind rfl (sure_ensure_bind hne
      (sure_queryTx_bind he (sure_ensure_bind hanswer (sure_attemptTx_bind he'
        (sure_insertBoardEvent_bind ?_ ?_ fun ws ext hlogs => sure_commitTx ?_))))))))))
  · refine issued_of_view hw.events fun a ha e heq => ?_
    rcases hdel a ha with ⟨r, rfl, -⟩ | ⟨k, hk⟩
    · cases heq
    · rw [heq] at hk
      cases hk
  · refine board_of_view (hrow.2.2 ▸ hw.columnBoard r hr) fun a ha b heq => ?_
    rcases hdel a ha with ⟨r, rfl, hr⟩ | ⟨k, hk⟩
    · cases heq
      exact hr
    · rw [heq] at hk
      cases hk
  · refine erased_of_writes (fun a ha => ?_) fun r hr =>
      List.mem_append_left _ (List.mem_append_left _ (hall r hr))
    rcases List.mem_append.mp ha with ha | ha
    · rcases List.mem_append.mp ha with ha | ha
      · obtain ⟨r, rfl, hr | ⟨k, rfl⟩⟩ := hwrites a ha
        · exact hr.unreferring
        · trivial
      · obtain ⟨k, rfl⟩ := hfill a ha
        exact rfl
    · exact hlogs.unreferring a ha

theorem sure_deleteBoard (hw : Sound w) (hchecked : ctx.checked = some s) (hid : codec.parse s = some x)
    (htenant : ctx.auth.bind AuthContext.tenantId = some t) (hx : (Target.board x).Exists w.store t)
    (hlink : ¬ Linked w.store ((Target.board x).cards w.store t)) :
    Sure ((kanban ι).limit (clientUp up)) (deleteBoard codec ctx) .idle w fun _ _ w' =>
      Erased ((Target.board x).cards w.store t) w.store w'.store := by
  obtain ⟨b, hb, hrow⟩ := hx
  have hmem : b ∈ w.store.boards.filter fun b => b.id = x ∧ b.tenantId = t :=
    List.mem_filter.mpr ⟨hb, decide_eq_true hrow⟩
  refine sure_orError_bind htenant (sure_orError_bind hchecked (sure_orError_bind hid
    (sure_beginTx_bind (sure_fetchOrTx_bind ⟨b, hb, decide_eq_true hrow⟩ fun board _ _ => ?_))))
  refine sure_insertRow_bind hw.events fun e ext => ?_
  -- the event is no row that the deletion is about
  have hlink : ¬ Linked (w.store.apply (.put (.event e)))
    ((Target.board x).cards (w.store.apply (.put (.event e))) t) := hlink
  obtain ⟨e', he'⟩ : ∃ e', deleteBoardRow t x (w.store.apply (.put (.event e))) = some e' :=
    ⟨_, if_neg fun h => hlink h.2⟩
  have hanswer : e'.answer ≠ [] := by
    rw [deleteBoardRow_some he']
    exact List.ne_nil_of_mem hmem
  obtain ⟨hwrites, hall⟩ := writes_deleteBoardRow he' hanswer
  refine sure_queryTx_bind he' (sure_ensure_bind hanswer (sure_commitTx (erased_of_writes
    (fun a ha => ?_) fun r hr => List.mem_append_right _ (hall r hr))))
  rcases List.mem_append.mp ha with ha | ha
  · obtain rfl := List.mem_singleton.mp ha
    exact rfl
  · exact hwrites a ha

omit [Infinite ι] in
theorem sure_deleteProject (hchecked : ctx.checked = some s) (hid : codec.parse s = some x)
    (htenant : ctx.auth.bind AuthContext.tenantId = some t) (hx : (Target.project x).Exists w.store t)
    (hlink : ¬ Linked w.store ((Target.project x).cards w.store t)) :
    Sure ((kanban ι).limit (clientUp up)) (deleteProject codec ctx) .idle w fun _ _ w' =>
      Erased ((Target.project x).cards w.store t) w.store w'.store := by
  obtain ⟨p, hp, hrow⟩ := hx
  have hmem : p ∈ w.store.projects.filter fun p => p.tenantId = t ∧ p.id = x :=
    List.mem_filter.mpr ⟨hp, decide_eq_true hrow⟩
  obtain ⟨e, he⟩ : ∃ e, deleteProjectRow t x w.store = some e := ⟨_, if_neg fun h => hlink h.2⟩
  have hanswer : e.answer ≠ [] := by
    rw [deleteProjectRow_some he]
    exact List.ne_nil_of_mem hmem
  obtain ⟨hwrites, hall⟩ := writes_deleteProjectRow he hanswer
  refine sure_orError_bind hchecked (sure_orError_bind htenant (sure_orError_bind hid
    (sure_query_bind he ?_)))
  rw [← Prog.bind_pure (ensure _ _)]
  exact sure_ensure_bind hanswer (erased_of_writes hwrites hall)

end Surely

/-! ## What a link prevents -/

section Prevented

variable {codec : IdCodec ι} {pages : ℕ} {ctx : RequestContext} {v : Db ι} {s t : String} {x : ι}

/-- A program that never returns alone does not go through. -/
theorem not_goesThrough_of_solo {allow : Call ι → Move ι → Bool} {E : Db ι → Prop} {p : Handler ι Unit}
    {w : World (Db ι) (Backend ι)} {Q : World (Db ι) (Backend ι) → Prop}
    (h : Solo (kanban ι) E p .idle w.store fun _ _ _ => False) :
    ¬ GoesThrough ((kanban ι).limit allow) p w Q := by
  intro hp
  obtain ⟨acts, t, w', a, -, hrun, ha, -⟩ := hp.returns [] _ _ .nil
  refine (h.exec (exec_of_limit hrun)).2 a ?_
  rw [ha]
  rfl

theorem solo_deleteCard_linked (hchecked : ctx.checked = some s) (hid : codec.parse s = some x)
    (htenant : ctx.auth.bind AuthContext.tenantId = some t)
    (hlink : Linked v ((Target.card x).cards v t)) :
    Solo (kanban ι) (fun _ => True) (deleteCard codec pages ctx) .idle v fun _ _ _ => False := by
  refine solo_orError_bind fun s' hs => solo_orError_bind fun x' hx => solo_orError_bind fun t' ht =>
    solo_fetchOr_bind fun cur _ _ => solo_beginTx_bind (SoloTx.bind_soloIn (B := fun _ _ => False)
      (soloTx_query fun e he => ?_) fun _ _ h => h.elim)
  obtain rfl := Option.some.inj (hchecked.symm.trans hs)
  obtain rfl := Option.some.inj (hid.symm.trans hx)
  obtain rfl := Option.some.inj (htenant.symm.trans ht)
  have hnone : deleteCardRow t x v = none := if_pos hlink
  rw [hnone] at he
  cases he

theorem solo_removeColumn_linked {req : RemoveColumnRequest} {k : ι} (hchecked : ctx.checked = some s)
    (hid : codec.parse s = some x) (hcolumn : codec.parse req.columnId = some k)
    (htenant : ctx.auth.bind AuthContext.tenantId = some t)
    (hlink : Linked v ((Target.column k x).cards v t)) :
    Solo (kanban ι) (fun _ => True) (removeColumn codec ctx req) .idle v fun _ _ _ => False := by
  refine solo_orError_bind fun t' ht => solo_orError_bind fun s' hs => solo_orError_bind fun x' hx =>
    solo_orError_bind fun k' hk => solo_beginTx_bind (SoloTx.bind_soloIn
      (B := fun found v' => v' = v ∧ found = v.columns.filter (columnOnBoard t' k' x'))
      (soloTx_query fun e he => ?_) ?_)
  · cases he
    exact ⟨rfl, rfl⟩
  rintro found v' ⟨rfl, rfl⟩
  refine soloIn_ensure_bind fun hfound => SoloTx.bind_soloIn (B := fun _ _ => False)
    (soloTx_query fun e he => ?_) fun _ _ h => h.elim
  obtain rfl := Option.some.inj (hchecked.symm.trans hs)
  obtain rfl := Option.some.inj (hid.symm.trans hx)
  obtain rfl := Option.some.inj (hcolumn.symm.trans hk)
  obtain rfl := Option.some.inj (htenant.symm.trans ht)
  have hnone : deleteColumnRow t k x v' = none := if_pos ⟨hfound, hlink⟩
  rw [hnone] at he
  cases he

/-- An event is all that a transaction has written when it has inserted one. -/
theorem soloTx_insertRow {tenantId eventType : String} {boardId aggregatedBoardId projectId : Option ι}
    {payload : Payload} : SoloTx (kanban ι) (insertRow tenantId boardId aggregatedBoardId projectId
      eventType payload) v fun _ v' => ∃ e, v' = v.apply (.put (.event e)) := by
  refine soloTx_bind (soloTx_call fun i => soloTx_pure (soloTx_bind (soloTx_query fun e he => ?_)))
  refine soloTx_query fun e' he' => ?_
  cases he'
  rw [Table.writes_insert he]
  exact ⟨_, rfl⟩

theorem solo_deleteBoard_linked (hchecked : ctx.checked = some s) (hid : codec.parse s = some x)
    (htenant : ctx.auth.bind AuthContext.tenantId = some t) (hx : (Target.board x).Exists v t)
    (hlink : Linked v ((Target.board x).cards v t)) :
    Solo (kanban ι) (fun _ => True) (deleteBoard codec ctx) .idle v fun _ _ _ => False := by
  refine solo_orError_bind fun t' ht => solo_orError_bind fun s' hs => solo_orError_bind fun x' hx' =>
    solo_beginTx_bind (SoloTx.bind_soloIn (B := fun _ v' => v' = v)
      (soloTx_fetchOr fun e b he _ => ?_) ?_)
  · cases he
    rfl
  rintro board v' rfl
  refine soloTx_insertRow.bind_soloIn ?_
  rintro _ v'' ⟨e, rfl⟩
  refine SoloTx.bind_soloIn (B := fun _ _ => False) (soloTx_query fun e' he => ?_) fun _ _ h => h.elim
  obtain rfl := Option.some.inj (hchecked.symm.trans hs)
  obtain rfl := Option.some.inj (hid.symm.trans hx')
  obtain rfl := Option.some.inj (htenant.symm.trans ht)
  obtain ⟨b, hb, hrow⟩ := hx
  have hne : (v'.boards.filter fun b => b.id = x ∧ b.tenantId = t) ≠ [] :=
    List.ne_nil_of_mem (List.mem_filter.mpr ⟨hb, decide_eq_true hrow⟩)
  have hnone : deleteBoardRow t x (v'.apply (.put (.event e))) = none := if_pos ⟨hne, hlink⟩
  rw [hnone] at he
  cases he

theorem solo_deleteProject_linked (hchecked : ctx.checked = some s) (hid : codec.parse s = some x)
    (htenant : ctx.auth.bind AuthContext.tenantId = some t) (hx : (Target.project x).Exists v t)
    (hlink : Linked v ((Target.project x).cards v t)) :
    Solo (kanban ι) (fun _ => True) (deleteProject codec ctx) .idle v fun _ _ _ => False := by
  refine solo_orError_bind fun s' hs => solo_orError_bind fun t' ht => solo_orError_bind fun x' hx' =>
    solo_bind (solo_stmt_idle (fun e he => ?_) solo_fail)
  obtain rfl := Option.some.inj (hchecked.symm.trans hs)
  obtain rfl := Option.some.inj (hid.symm.trans hx')
  obtain rfl := Option.some.inj (htenant.symm.trans ht)
  obtain ⟨p, hp, hrow⟩ := hx
  have hne : (v.projects.filter fun p => p.tenantId = t ∧ p.id = x) ≠ [] :=
    List.ne_nil_of_mem (List.mem_filter.mpr ⟨hp, decide_eq_true hrow⟩)
  have hnone : deleteProjectRow t x v = none := if_pos ⟨hne, hlink⟩
  rw [hnone] at he
  cases he

end Prevented

/-! ## Exactly when a deletion goes through -/

section Exactly

variable {codec : IdCodec ι} {pages : ℕ} {q : RequestContext × RemovalCall} {up : String → Bool}
  {w : World (Db ι) (Backend ι)} {t : String} {x : Target ι}

omit [DecidableEq ι] in
/-- The request names the target. -/
theorem exists_ids (htarget : RemovalCall.target codec q = some x) :
    ∃ s id, q.1.checked = some s ∧ codec.parse s = some id ∧
      (q.2 = .deleteCard ∧ x = .card id ∨
        (∃ req k, q.2 = .removeColumn req ∧ codec.parse req.columnId = some k ∧ x = .column k id) ∨
        q.2 = .deleteBoard ∧ x = .board id ∨ q.2 = .deleteProject ∧ x = .project id) := by
  obtain ⟨id, hid, hx⟩ := Option.bind_eq_some_iff.mp htarget
  obtain ⟨s, hs, hid⟩ := Option.bind_eq_some_iff.mp hid
  refine ⟨s, id, hs, hid, ?_⟩
  cases hcall : q.2 with
  | deleteCard =>
      rw [hcall] at hx
      exact .inl ⟨rfl, (Option.some.inj hx).symm⟩
  | removeColumn req =>
      rw [hcall] at hx
      obtain ⟨k, hk, rfl⟩ := Option.map_eq_some_iff.mp hx
      exact .inr (.inl ⟨req, k, rfl, hk, rfl⟩)
  | deleteBoard =>
      rw [hcall] at hx
      exact .inr (.inr (.inl ⟨rfl, (Option.some.inj hx).symm⟩))
  | deleteProject =>
      rw [hcall] at hx
      exact .inr (.inr (.inr ⟨rfl, (Option.some.inj hx).symm⟩))

theorem sure_removal [Infinite ι] (hw : Sound w) (hpages : w.ext.tuples.length < pages)
    (htenant : q.1.auth.bind AuthContext.tenantId = some t)
    (htarget : RemovalCall.target codec q = some x) (hx : x.Exists w.store t)
    (hlink : ¬ Linked w.store (x.cards w.store t)) (hup : q.2 = .deleteCard → up t = true) :
    Sure ((kanban ι).limit (clientUp up)) (removalHandler codec pages q) .idle w fun _ _ w' =>
      Erased (x.cards w.store t) w.store w'.store := by
  obtain ⟨s, id, hs, hid, hcase⟩ := exists_ids htarget
  obtain ⟨ctx, call⟩ := q
  rcases hcase with ⟨rfl, rfl⟩ | ⟨req, k, rfl, hk, rfl⟩ | ⟨rfl, rfl⟩ | ⟨rfl, rfl⟩
  · exact sure_deleteCard hw hpages hs hid htenant (hup rfl) hx hlink
  · exact sure_removeColumn hw hs hid hk htenant hx hlink
  · exact sure_deleteBoard hw hs hid htenant hx hlink
  · exact sure_deleteProject hs hid htenant hx hlink

theorem solo_removal_linked (htenant : q.1.auth.bind AuthContext.tenantId = some t)
    (htarget : RemovalCall.target codec q = some x) (hx : x.Exists w.store t)
    (hlink : Linked w.store (x.cards w.store t)) :
    Solo (kanban ι) (fun _ => True) (removalHandler codec pages q) .idle w.store
      fun _ _ _ => False := by
  obtain ⟨s, id, hs, hid, hcase⟩ := exists_ids htarget
  obtain ⟨ctx, call⟩ := q
  rcases hcase with ⟨rfl, rfl⟩ | ⟨req, k, rfl, hk, rfl⟩ | ⟨rfl, rfl⟩ | ⟨rfl, rfl⟩
  · exact solo_deleteCard_linked hs hid htenant hlink
  · exact solo_removeColumn_linked hs hid hk htenant hlink
  · exact solo_deleteBoard_linked hs hid htenant hx hlink
  · exact solo_deleteProject_linked hs hid htenant hx hlink

/-- Without a permission client `DeleteCard` ends in an error, though the card is gone by then. -/
theorem fails_deleteCard {ctx : RequestContext} (htenant : ctx.auth.bind AuthContext.tenantId = some t)
    (hup : up t = false) : (deleteCard codec pages ctx).Fails ((kanban ι).limit (clientUp up)) :=
  .of_bind fun _ => .of_bind fun _ => .of_bind fun _ => .of_bind fun _ => .of_bind fun _ =>
    .of_bind fun _ => .of_bind fun _ => .of_bind fun _ => .of_bind fun _ =>
    fails_tenantClientFor_bind htenant hup

/-- The cards of a removal are gone, and no row refers to one of them. -/
def NoneLeft (cards : List (CardRow ι)) (w' : World (Db ι) (Backend ι)) : Prop :=
  ∀ c ∈ cards, c ∉ w'.store.cards ∧ ∀ r, w'.store.Has r → c.id ∉ r.cardRefs

/-- **Exactly when a deletion goes through.**  Deleting a card, column, board or project goes through
and leaves no reference to a removed card exactly if none of these cards is linked, none is the
response recorded under an idempotency key, and, for a single card, the permission client of the
tenant can be built. -/
theorem removal_goes_through_iff [Infinite ι] (hw : Sound w) (hpages : w.ext.tuples.length < pages)
    (htenant : q.1.auth.bind AuthContext.tenantId = some t)
    (htarget : RemovalCall.target codec q = some x) (hx : x.Exists w.store t) :
    GoesThrough ((kanban ι).limit (clientUp up)) (removalHandler codec pages q) w
        (NoneLeft (x.cards w.store t)) ↔
      ¬ Linked w.store (x.cards w.store t) ∧
        (∀ k ∈ w.store.idempotencyKeys, ∀ c ∈ x.cards w.store t, k.responseCardId ≠ some c.id) ∧
        (q.2 = .deleteCard → up t = true) := by
  constructor
  · intro h
    have hlink : ¬ Linked w.store (x.cards w.store t) := fun hlink =>
      not_goesThrough_of_solo (solo_removal_linked htenant htarget hx hlink) h
    have hup : q.2 = .deleteCard → up t = true := by
      intro hcall
      obtain ⟨ctx, call⟩ := q
      obtain rfl : call = .deleteCard := hcall
      by_contra hdown
      exact (fails_deleteCard htenant (Bool.not_eq_true _ ▸ hdown)).not_goesThrough h
    refine ⟨hlink, fun k hk c hc heq => ?_, hup⟩
    -- the recorded response outlives the card
    obtain ⟨acts, th, w', a, hok, hrun, ha, herased⟩ :=
      (sure_removal hw hpages htenant htarget hx hlink hup).completes []
    have hnone := (h.post acts th w' a (undisturbed_of_not_mem hok hrun) ha c hc).2
    exact hnone _ (herased.kept k hk) (Option.mem_toList.mpr heq)
  · rintro ⟨hlink, hkeys, hup⟩
    refine ((sure_removal hw hpages htenant htarget hx hlink hup).mono ?_).goesThrough
    rintro _ _ w' herased c hc
    refine ⟨herased.removed c hc, fun r hr hrefs => ?_⟩
    obtain ⟨hold, hnot⟩ := herased.gone c hc r hr hrefs
    cases r with
    | githubLink l =>
        have hcard : c.id = l.cardId := List.mem_singleton.mp hrefs
        exact hlink ⟨l, hold, List.mem_map.mpr ⟨c, hc, hcard⟩⟩
    | idempotencyKey k => exact hkeys k hold c hc (Option.mem_toList.mp hrefs)
    | _ => exact hnot trivial

end Exactly

/-- A card with a comment, an attachment, a checklist item and an assignee. -/
def busyCard : World (Db String) (Backend String) where
  store := { Db.empty with
    projects := [⟨"p", "t", "Roadmap", "ROAD", "ROAD", "", "user:ann"⟩]
    boards := [⟨"b", "t", "p", "Board", "BOARD", "", none, "", 0⟩]
    columns := [⟨"k", "t", "b", "Todo", none, none, 0, false⟩]
    cards := [⟨"c", "t", "p", "b", "k", "ROAD-1", "Ship", none, 0, "", "", none, none, false, none, none,
      "user:ann", 1⟩]
    cardAssignees := [⟨"t", "c", "user:ann"⟩]
    checklistItems := [⟨"i", "t", "c", "Test", false, 0⟩]
    comments := [⟨"m", "t", "c", "user:ann", "Soon", 0⟩]
    cardAttachments := [⟨"a", "t", "c"⟩] }
  ext := Backend.empty.create "t" permissionTypeCard "c" "owner" "user:ann"

def annFor (objectId : String) : RequestContext :=
  ⟨some ⟨some "t", some "user:ann"⟩, some objectId, 0⟩

theorem removal_goes_through_busyCard :
    GoesThrough ((kanban String).limit (clientUp fun _ => true))
      (removalHandler textIds 2 (annFor "c", .deleteCard)) busyCard
      (NoneLeft ((Target.card "c").cards busyCard.store "t")) := by
  have hx : (Target.card "c").Exists busyCard.store "t" := ⟨_, List.mem_cons_self, rfl, rfl⟩
  exact (removal_goes_through_iff ⟨by decide, by decide, List.forall_mem_nil _⟩ (by decide) rfl rfl
    hx).mpr ⟨by decide, by decide, fun _ => rfl⟩

/-- Once the card is linked to an issue, it cannot be deleted any more. -/
theorem linked_card_stays :
    ∃ acts th w', Machine.Exec (Thread.step (kanban String)) (Thread.start (linkIssue textIds
        (fun _ _ _ => none) (annFor "c") ⟨"acme", "site", 7⟩), busyCard) acts (th, w') ∧
      th.prog.result.any (fun r => r.toOption.isSome) = true ∧ Sound w' ∧
      (Target.card "c").Exists w'.store "t" ∧
      ¬ GoesThrough ((kanban String).limit (clientUp fun _ => true))
        (removalHandler textIds 2 (annFor "c", .deleteCard)) w'
        (NoneLeft ((Target.card "c").cards w'.store "t")) := by
  obtain ⟨th, w', hw', hr, hlink, hsound, hx⟩ : ∃ th w', Machine.run (Thread.step (kanban String))
      (Thread.start (linkIssue textIds (fun _ _ _ => none) (annFor "c") ⟨"acme", "site", 7⟩), busyCard)
      [.ok, .move (.fresh "l"), .ok, .ok, .ok, .move (.fresh "e"), .ok, .ok, .ok] = some (th, w') ∧
      th.prog.result.any (fun r => r.toOption.isSome) = true ∧
      Linked w'.store ((Target.card "c").cards w'.store "t") ∧ Sound w' ∧
      (Target.card "c").Exists w'.store "t" :=
    ⟨_, _, rfl, rfl, by decide, ⟨by decide, by decide, by decide⟩, ⟨_, List.mem_cons_self, rfl, rfl⟩⟩
  exact ⟨_, th, w', Machine.exec_of_run hw', hr, hsound, hx,
    not_goesThrough_of_solo (solo_deleteCard_linked rfl rfl rfl hlink)⟩

end Kanban.Rpc
