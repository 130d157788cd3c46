import Kanban.Rpc.CardService
import Kanban.Rpc.Membership

/-!
# A change and its event

Every mutation of cards and projects writes a row of `event_log`, and nearly all of them in the
transaction of the change: then no crash and no failing statement separates the two.  UpdateCard,
AddMember and RemoveMember commit the change first and the event in a transaction of its own, and
RemoveCardDependency writes its event even if there is no edge to remove.

## Main definitions

* `Mutation`, `mutationHandler` — the mutations that write an event.
* `StateWrite`, `Balanced` — a change, and writes that hold a change and an event or neither.
* `Mutation.Whole` — a call that does not get to write the two apart.
* `mutation_atomic` — in every state of every run the change is there iff its event is.
-/

namespace Kanban.Rpc

open Program Kanban.Store Kanban.Auth
open Kanban.Services (AuthContext ConnectError IdCodec)

variable {ι α : Type} [DecidableEq ι]

/-- A mutation that writes an event, with its request. -/
inductive Mutation
  | card (call : CardCall)
  | updateProject (req : UpdateProjectRequest)
  | addMember (req : AddMemberRequest)
  | removeMember (req : RemoveMemberRequest)

/-- The handler of a mutation, without its response. -/
def mutationHandler (codec : IdCodec ι) (unicode : Unicode) (pages : ℕ) (ctx : RequestContext) :
    Mutation → Handler ι Unit
  | .card call => (cardHandler codec pages ctx call).bind fun _ => .pure ()
  | .updateProject req => (updateProject codec unicode ctx req).bind fun _ => .pure ()
  | .addMember req => addMember codec pages ctx req
  | .removeMember req => removeMember codec pages ctx req

/-- A change of the state: a write that is not of the log, of the idempotency keys, or of the
counter `boards.revision` that numbers the events of a board. -/
def StateWrite (a : Write (Rec ι)) : Prop :=
  match a.record with
  | .event _ => False
  | .idempotencyKey _ => False
  | .board _ => False
  | _ => True

/-- The writes hold a change of the state. -/
def Changes (ws : List (Write (Rec ι))) : Prop := ∃ a ∈ ws, StateWrite a

/-- The writes hold a change and an event, or neither. -/
def Balanced (ws : List (Write (Rec ι))) : Prop := Changes ws ↔ eventWrites ws ≠ []

section Writes

omit [DecidableEq ι]

variable {ws ws' : List (Write (Rec ι))}

theorem not_changes_of_quiet (h : Quiet ws) : ¬ Changes ws := by
  rintro ⟨a, ha, hstate⟩
  obtain ⟨r, rfl⟩ := h a ha
  exact hstate

theorem eventWrites_of_quiet (h : Quiet ws) : eventWrites ws = [] :=
  List.filterMap_eq_nil_iff.mpr fun a ha => by
    obtain ⟨r, rfl⟩ := h a ha
    rfl

theorem balanced_of_quiet (h : Quiet ws) : Balanced ws :=
  iff_of_false (not_changes_of_quiet h) fun hne => hne (eventWrites_of_quiet h)

/-- A write of a card is a change. -/
theorem changes_of_cardWrites (h : cardWrites ws ≠ []) : Changes ws := by
  obtain ⟨b, hb⟩ := List.exists_mem_of_ne_nil _ h
  obtain ⟨a, ha, hab⟩ := List.mem_filterMap.mp hb
  refine ⟨a, ha, ?_⟩
  rcases a with (r | r) <;> cases r <;> trivial

theorem changes_append : Changes (ws ++ ws') ↔ Changes ws ∨ Changes ws' := by
  simp [Changes, or_and_right, exists_or]

theorem Balanced.append (h : Balanced ws) (h' : Balanced ws') : Balanced (ws ++ ws') := by
  unfold Balanced at *
  rw [changes_append, h, h', eventWrites_append]
  simp only [ne_eq, List.append_eq_nil_iff]
  tauto

end Writes

/-! ## The mutations of one transaction -/

section Atomic

variable {codec : IdCodec ι} {unicode : Unicode} {pages : ℕ} {ctx : RequestContext}
  {tr : Trace (Rec ι) (Call ι) (Reply ι)} {ws : List (Write (Rec ι))}
  {Good : Commitment (Rec ι) (Call ι) (Reply ι)}

omit [DecidableEq ι] in
theorem balanced_of_tells (h : cardWrites ws ≠ [] ∧ eventWrites ws ≠ []) : Balanced ws :=
  iff_of_true (changes_of_cardWrites h.1) h.2

/-- The transaction gets the row of a project event. -/
theorem runs_insertProjectEvent {tenantId eventType : String} {projectId : ι} {payload : Payload}
    {B : Unit → Tx (Rec ι) → Trace (Rec ι) (Call ι) (Reply ι) → Prop}
    (h : ∀ e tr', tr <:+ tr' → B () (.active (ws ++ [.put (.event e)])) tr') :
    Runs (kanban ι) Good (insertProjectEvent tenantId projectId eventType payload) (.active ws) tr
      B := by
  refine runs_bind (runs_newId fun id => runs_bind (runs_query_active fun db e he => ?_))
  rw [Table.writes_insert he]
  exact runs_read_active (fun db e he => by cases he; rfl) fun db' e' _ =>
    h _ _ ⟨[.ran e'.read, .ran e.read, .called .newId id], rfl⟩

/-- Commits of a change with its event, or of neither. -/
def BalancedCommit : Commitment (Rec ι) (Call ι) (Reply ι) := fun _ ws => Balanced ws

omit [DecidableEq ι] in
theorem balancedCommit_of_quiet (tr : Trace (Rec ι) (Call ι) (Reply ι)) (ws : List (Write (Rec ι)))
    (h : Quiet ws) : BalancedCommit tr ws := balanced_of_quiet h

theorem runs_updateProject {req : UpdateProjectRequest} :
    Runs (kanban ι) BalancedCommit (updateProject codec unicode ctx req) .idle tr
      fun _ _ _ => True := by
  refine runs_bind (runs_orError fun objectId _ => runs_bind (runs_orError fun tenantId _ =>
    runs_bind (runs_orError fun projectId _ => runs_bind (runs_beginTx ?_))))
  refine runs_bind (runs_query_active fun db e he => runs_bind (runs_orError fun row hrow => ?_))
  refine runs_bind (runs_insertProjectEvent fun event tr' _ => runs_bind (runs_commitTx ?_ ?_))
  · refine iff_of_true ?_ (by simp [eventWrites, eventWrite])
    cases he
    obtain ⟨p, hp, -⟩ := List.mem_map.mp (List.mem_of_mem_head? hrow)
    exact ⟨_, List.mem_append_left _ (List.mem_append_right _ (List.mem_map_of_mem hp)), trivial⟩
  · exact (Settles.bind (Settles.bind (Settles.attempt balancedCommit_of_quiet fun db e he => by
      cases he; exact quiet_nil) fun _ => .pure _) fun _ => .pure _).runs

/-- Every commit of these calls is a change with its event. -/
theorem runs_cardHandler_balanced {call : CardCall} (h : ¬ call.Loose) :
    Runs (kanban ι) BalancedCommit (cardHandler codec pages ctx call) .idle tr fun _ _ _ => True :=
  runs_cardHandler_of call balancedCommit_of_quiet
    (fun _ _ _ hne hmakes _ => balanced_of_tells (hmakes.tells hne))
    (fun _ _ hdelivers => balanced_of_tells ⟨hdelivers.changes, hdelivers.tells⟩)
    fun hloose => absurd hloose h

end Atomic

/-! ## The store before the first commit -/

section Reading

/-- The card stored for a key. -/
def storedCard (db : Db ι) (tenantId key : String) : Option ι :=
  if key = "" then none
  else (db.idempotencyKeys.find? fun r => r.tenantId = tenantId ∧ r.key = key).bind
    IdempotencyRow.responseCardId

/-- The milestone of a request is one of the project, or there is none. -/
def MilestoneValid (codec : IdCodec ι) (db : Db ι) (tenantId : String) (projectId : ι)
    (milestoneId : String) : Prop :=
  milestoneId = "" ∨ ∃ m ∈ db.milestones, codec.parse milestoneId = some m.id ∧
    m.tenantId = tenantId ∧ m.projectId = projectId

theorem ReadsOnly.fetchOr {τ : Type} {msg : String} {e : ConnectError} {T : Table (Db ι) (Rec ι) τ}
    {p : τ → Bool} : ReadsOnly (fetchOr msg e (T.select p)) fun db a => a ∈ T.rows db ∧ p a := by
  refine ReadsOnly.fetchOptional.bind fun o => ReadsOnly.orError.mono ?_
  rintro db a rfl heq
  exact List.mem_filter.mp (List.mem_of_mem_head? (heq ▸ rfl))

theorem ReadsOnly.checkIdempotencyCard {tenantId key : String} :
    ReadsOnly (checkIdempotencyCard tenantId key : Handler ι (Option ι)) fun db o =>
      o = storedCard db tenantId key := by
  unfold Rpc.checkIdempotencyCard storedCard
  split
  · exact .pure none
  · refine ReadsOnly.fetchOptional.bind fun row => (ReadsOnly.pure _).mono ?_
    rintro db o rfl rfl
    rw [List.head?_filter]
    rfl

theorem ReadsOnly.checkMilestone {codec : IdCodec ι} {tenantId milestoneId : String}
    {projectId : ι} :
    ReadsOnly (checkMilestone codec tenantId projectId milestoneId) fun db _ =>
      MilestoneValid codec db tenantId projectId milestoneId := by
  unfold Rpc.checkMilestone
  split
  · exact (ReadsOnly.pure _).mono fun db o _ => .inl ‹_›
  · refine ReadsOnly.orError.bind fun mid => ReadsOnly.fetchOptional.bind fun row =>
      ReadsOnly.ensure.bind fun _ => (ReadsOnly.pure _).mono ?_
    rintro db o - hsome hrow hmid
    obtain ⟨m, hm⟩ := Option.isSome_iff_exists.mp hsome
    obtain ⟨hmem, hp⟩ := List.mem_filter.mp (List.mem_of_mem_head? (hrow ▸ hm))
    obtain ⟨hid, htenant, hproject⟩ := of_decide_eq_true hp
    exact .inr ⟨m, hmem, hid ▸ hmid, htenant, hproject⟩

theorem ReadsOnly.milestonePatch {codec : IdCodec ι} {tenantId : String} {projectId : ι}
    {req : UpdateCardRequest} :
    ReadsOnly (milestonePatch codec tenantId projectId req) fun db _ =>
      MilestoneValid codec db tenantId projectId req.card.milestoneId := by
  unfold Rpc.milestonePatch
  split
  · exact (ReadsOnly.pure _).mono fun db o _ => .inl ‹_›
  · exact ReadsOnly.checkMilestone.bind fun mid => (ReadsOnly.pure _).mono fun _ _ _ h => h

end Reading

/-! ## The mutations of two transactions -/

/-- A stretch of a run: the store is what the stretch has committed, and that is balanced. -/
def Stretch : Guarantee (Db ι) (Rec ι) (Call ι) (Reply ι) (Backend ι) := fun tr w tr' w' =>
  ∃ l, tr' = l ++ tr ∧ w'.store = (kanban ι).applyAll w.store (Trace.writes l) ∧
    Balanced (Trace.writes l)

/-- Alone, and from the store of `w`, the handler makes only balanced commits. -/
def StaysBalanced (p : Handler ι α) (w : World (Db ι) (Backend ι)) : Prop :=
  ∀ tr, Ensures (kanban ι) Alone Stretch (fun _ _ _ _ => True) p .idle tr w

section Stretches

variable {w w' : World (Db ι) (Backend ι)} {tr tr' : Trace (Rec ι) (Call ι) (Reply ι)}

omit [DecidableEq ι] in
theorem writes_of_inert {l : Trace (Rec ι) (Call ι) (Reply ι)} (h : ∀ e ∈ l, Inert e) :
    Trace.writes l = [] := by
  induction l with
  | nil => rfl
  | cons e l ih =>
      have hrest := ih fun e he => h e (List.mem_cons_of_mem _ he)
      cases e with
      | committed ws =>
          obtain rfl : ws = [] := h _ List.mem_cons_self
          rw [Trace.writes, hrest]
          rfl
      | ran read => exact hrest
      | called c r => exact hrest
      | failed => exact hrest

theorem stretch_of_reads (h : Reads tr tr') : Stretch tr w tr' w := by
  obtain ⟨l, rfl, hl⟩ := h
  refine ⟨l, rfl, ?_⟩
  rw [writes_of_inert hl]
  exact ⟨rfl, balanced_of_quiet quiet_nil⟩

theorem stretch_of_commits (h : Commits (kanban ι) BalancedCommit tr w tr' w') :
    Stretch tr w tr' w' := by
  rcases h with ⟨e, rfl, hne, hsame⟩ | ⟨ws, past, rfl, hpast, hgood, happly⟩
  · refine ⟨[e], rfl, ?_⟩
    have hnil : Trace.writes [e] = [] := by
      cases e with
      | committed ws => exact absurd rfl (hne ws)
      | ran read => rfl
      | called c r => rfl
      | failed => rfl
    rw [hnil]
    exact ⟨hsame, balanced_of_quiet quiet_nil⟩
  · have hbalanced : Balanced ws := hgood
    rcases hpast with rfl | ⟨read, rfl⟩
    · exact ⟨[.committed ws], rfl, happly, hbalanced⟩
    · exact ⟨[.committed ws, .ran read], rfl, happly, hbalanced⟩

/-- The stretches of a run make one. -/
theorem exec_of_stretches {p : Handler ι α} {acts : List (Act (Move ι))}
    {t : Thread (Db ι) (Rec ι) (Call ι) (Reply ι) ConnectError α} (h : StaysBalanced p w)
    (hrun : Machine.Exec (Thread.step (kanban ι)) (Thread.start p, w) acts (t, w')) :
    w'.store = (kanban ι).applyAll w.store (Trace.writes t.trace) ∧
      Balanced (Trace.writes t.trace) := by
  refine ((h []).exec hrun (fun tr w₁ => w₁.store = (kanban ι).applyAll w.store (Trace.writes tr) ∧
    Balanced (Trace.writes tr)) ?_ (fun _ _ hj => hj) ?_).2
  · exact ⟨rfl, balanced_of_quiet quiet_nil⟩
  · rintro tr₁ w₁ tr₂ w₂ ⟨l, rfl, happly, hl⟩ ⟨hstore, hbalanced⟩
    rw [Trace.writes_append, Semantics.applyAll_append, ← hstore]
    exact ⟨happly, hbalanced.append hl⟩

namespace StaysBalanced

theorem of_runs {p : Handler ι α}
    (h : ∀ tr, Runs (kanban ι) BalancedCommit p .idle tr fun _ _ _ => True) :
    StaysBalanced p w := fun tr =>
  (h tr).alone.mono (fun _ _ _ h => h) (fun _ _ _ _ => stretch_of_commits) fun _ _ _ _ _ => trivial

theorem of_settles {p : Handler ι α} (h : Settles BalancedCommit p) : StaysBalanced p w :=
  .of_runs fun _ => h.runs

/-- What was read is known of the store. -/
theorem reads {β : Type} {p : Handler ι α} {S : Db ι → α → Prop} {f : α → Handler ι β}
    (h : ReadsOnly p S) (hf : ∀ a, S w.store a → StaysBalanced (f a) w) :
    StaysBalanced (p.bind f) w := fun _ =>
  h.bind_ensures (fun _ _ _ => stretch_of_reads) (fun a tr' _ hS => hf a hS tr')
    fun _ _ _ => trivial

/-- Calls to the permission backend leave the store as it is. -/
theorem still {β : Type} {p : Handler ι α} {f : α → Handler ι β}
    (h : Settles (fun _ ws => ws = []) p)
    (hf : ∀ a w', w'.store = w.store → StaysBalanced (f a) w') : StaysBalanced (p.bind f) w := by
  intro tr
  rw [ensures_bind]
  refine (h tr).still.mono (fun _ _ _ h => h) (fun _ _ _ _ hc => stretch_of_commits ?_) ?_
  · rcases hc with hc | ⟨ws, past, htr, hpast, rfl, happly⟩
    · exact .inl hc
    · exact .inr ⟨[], past, htr, hpast, balanced_of_quiet quiet_nil, happly⟩
  · rintro r tx tr' w' ⟨hsame, hB⟩
    cases r with
    | ok a =>
        obtain ⟨rfl, -⟩ := hB a rfl
        exact hf a w' hsame tr'
    | error e => trivial

/-- A `DELETE` that finds no row. -/
theorem missing {τ : Type} {msg : String} {T : Table (Db ι) (Rec ι) τ} {p : τ → Bool}
    {f : List τ → Handler ι α} (h : ∀ a ∈ T.rows w.store, ¬ p a) (hf : StaysBalanced (f []) w) :
    StaysBalanced ((query msg (T.delete p)).bind f) w := by
  intro tr
  rw [ensures_bind, ensures_query]
  rintro w₁ rfl
  refine ⟨?_, trivial⟩
  have hnil : (T.rows ((Tx.idle : Tx (Rec ι)).view (kanban ι) w.store)).filter p = [] :=
    List.filter_eq_nil_iff.mpr h
  rintro e ⟨⟩
  dsimp only [Tx.note_idle, Tx.land_idle, Tx.record_idle]
  rw [hnil]
  exact ⟨stretch_of_reads ⟨[.committed [], .ran []], rfl, by simp [Inert]⟩, hf _⟩

end StaysBalanced

end Stretches

/-- UpdateCard gets to its `UPDATE`, and there is a row for it. -/
def Patches (codec : IdCodec ι) (ctx : RequestContext) (db : Db ι) (req : UpdateCardRequest) :
    Prop :=
  ∃ tenant, ctx.auth.bind AuthContext.tenantId = some tenant ∧
    storedCard db tenant req.idempotencyKey = none ∧
    ∃ c ∈ db.cards, ctx.checked.bind codec.parse = some c.id ∧ c.tenantId = tenant ∧
      MilestoneValid codec db tenant c.projectId req.card.milestoneId

/-- RemoveCardDependency gets to its `DELETE`, and there is no edge. -/
def Misses (codec : IdCodec ι) (ctx : RequestContext) (db : Db ι) (req : CardDependencyRequest) :
    Prop :=
  ∃ tenant board cardId dependsOnId, ctx.auth.bind AuthContext.tenantId = some tenant ∧
    ctx.checked.bind codec.parse = some board ∧ codec.parse req.cardId = some cardId ∧
    codec.parse req.dependsOnCardId = some dependsOnId ∧ req.idempotencyKey ≠ "" ∧
    storedCard db tenant req.idempotencyKey = none ∧
    (∃ c ∈ db.cards, c.id = cardId ∧ c.boardId = board ∧ c.tenantId = tenant) ∧
    (∃ c ∈ db.cards, c.id = dependsOnId ∧ c.tenantId = tenant) ∧
    ∀ d ∈ db.cardDependencies, ¬ (d.cardId = cardId ∧ d.dependsOnCardId = dependsOnId)

/-- The request to AddMember is valid. -/
def AddsMember (codec : IdCodec ι) (ctx : RequestContext) (req : AddMemberRequest) : Prop :=
  (ctx.auth.bind AuthContext.tenantId).isSome ∧ (ctx.checked.bind codec.parse).isSome ∧
    req.subject ≠ "" ∧ subjectValid req.subject ∧ grantable req.relation

/-- RemoveMember has a row to delete. -/
def RemovesMember (codec : IdCodec ι) (ctx : RequestContext) (db : Db ι)
    (req : RemoveMemberRequest) : Prop :=
  req.subject ≠ "" ∧ ∃ m ∈ db.projectMembers, m.userId = req.subject ∧
    ctx.auth.bind AuthContext.tenantId = some m.tenantId ∧
    ctx.checked.bind codec.parse = some m.projectId

/-- The call does not get to write a change and its event apart from each other. -/
def Mutation.Whole (codec : IdCodec ι) (ctx : RequestContext) (db : Db ι) : Mutation → Prop
  | .card (.updateCard req) => ¬ Patches codec ctx db req
  | .card (.removeCardDependency req) => ¬ Misses codec ctx db req
  | .card _ => True
  | .updateProject _ => True
  | .addMember req => ¬ AddsMember codec ctx req
  | .removeMember req => ¬ RemovesMember codec ctx db req

section Apart

variable {codec : IdCodec ι} {unicode : Unicode} {pages : ℕ} {ctx : RequestContext}
  {w w' : World (Db ι) (Backend ι)}

theorem staysBalanced_updateCard {req : UpdateCardRequest} (h : ¬ Patches codec ctx w.store req) :
    StaysBalanced (updateCard codec ctx req) w := by
  refine .reads .orError fun objectId hobjectId => .reads .orError fun cardId hcardId =>
    .reads .orError fun tenantId htenantId => .reads .checkIdempotencyCard fun found hfound => ?_
  cases found with
  | some _ => exact .of_settles (.fetchFullCard balancedCommit_of_quiet)
  | none =>
      refine .reads .fetchOr fun cur ⟨hcur, hp⟩ => .reads .milestonePatch fun milestone hvalid => ?_
      obtain ⟨hid, htenant⟩ := of_decide_eq_true hp
      refine absurd ⟨tenantId, htenantId, hfound.symm, cur, hcur, ?_, htenant, hvalid⟩ h
      rw [hobjectId, Option.bind_some, hcardId, hid]

theorem staysBalanced_addMember {req : AddMemberRequest} (h : ¬ AddsMember codec ctx req) :
    StaysBalanced (addMember codec pages ctx req) w := by
  refine .reads .orError fun objectId hobjectId => .reads .orError fun tenantId htenantId =>
    .reads .orError fun projectId hprojectId => .reads .tenantClientFor fun permission _ =>
    .reads .ensure fun _ hne => .reads .ensure fun _ hvalid => .reads .ensure fun _ _ =>
    .reads .ensure fun _ _ => .reads .ensure fun _ hrole => absurd ?_ h
  refine ⟨htenantId ▸ rfl, ?_, hne, hvalid, hrole⟩
  rw [hobjectId, Option.bind_some, hprojectId]
  rfl

theorem staysBalanced_removeMember {req : RemoveMemberRequest}
    (h : ¬ RemovesMember codec ctx w.store req) :
    StaysBalanced (removeMember codec pages ctx req) w := by
  refine .reads .orError fun objectId hobjectId => .reads .orError fun tenantId htenantId =>
    .reads .orError fun projectId hprojectId => .reads .tenantClientFor fun permission _ =>
    .reads .ensure fun _ hne => .still (fun _ => .of_only only_deleteRelationTuples fun _ _ h => h)
    fun _ w' hstore =>
    .missing (fun m hm hp => h ?_) (.reads .ensure fun _ hdeleted => absurd rfl hdeleted)
  obtain ⟨htenant, hproject, huser⟩ := of_decide_eq_true hp
  refine ⟨hne, m, hstore ▸ hm, huser, htenantId.trans (htenant ▸ rfl), ?_⟩
  rw [hobjectId, Option.bind_some, hprojectId, hproject]

theorem ReadsOnly.dependencyRequest {req : CardDependencyRequest} :
    ReadsOnly (dependencyRequest codec ctx req) fun _ q =>
      ctx.checked.bind codec.parse = some q.1 ∧
      ctx.auth.bind AuthContext.tenantId = some q.2.1 ∧ req.idempotencyKey ≠ "" ∧
      codec.parse req.cardId = some q.2.2.1 ∧ codec.parse req.dependsOnCardId = some q.2.2.2 := by
  refine ReadsOnly.orError.bind fun objectId => ReadsOnly.orError.bind fun boardId =>
    ReadsOnly.orError.bind fun tenantId => ReadsOnly.ensure.bind fun _ =>
    ReadsOnly.orError.bind fun cardId => ReadsOnly.orError.bind fun dependsOnId =>
    (ReadsOnly.pure _).mono ?_
  rintro db q rfl hdependsOn hcard hkey htenant hboard hobject
  exact ⟨by rw [hobject, Option.bind_some, hboard], htenant, hkey, hcard, hdependsOn⟩

/-- A row that a transaction reads is one of the store it sees. -/
theorem ensures_fetchOr_active {β τ : Type} {msg : String} {err : ConnectError}
    {T : Table (Db ι) (Rec ι) τ} {p : τ → Bool} {f : τ → Handler ι β} {ws : List (Write (Rec ι))}
    {tr : Trace (Rec ι) (Call ι) (Reply ι)}
    {Q : Post (Db ι) (Rec ι) (Call ι) (Reply ι) (Backend ι) ConnectError β}
    (h : ∀ a ∈ T.rows ((kanban ι).applyAll w.store ws), p a → ∀ read,
      Ensures (kanban ι) Alone Stretch Q (f a) (.active ws) (.ran read :: tr) w)
    (herror : ∀ e tx tr, Q (.error e) tx tr w) :
    Ensures (kanban ι) Alone Stretch Q ((fetchOr msg err (T.select p)).bind f) (.active ws) tr w := by
  rw [fetchOr, fetchOptional, ensures_bind, ensures_bind, ensures_bind, ensures_query]
  rintro w₁ rfl
  refine ⟨?_, herror _ _ _⟩
  rintro e ⟨⟩
  dsimp only [Tx.note_active, Tx.land_active, Tx.record_active]
  rw [List.append_nil, ensures_pure]
  refine ⟨stretch_of_reads ⟨[.ran _], rfl, by simp [Inert]⟩, ?_⟩
  refine ensures_orError.mpr ⟨fun a ha => ?_, fun _ => herror _ _ _⟩
  obtain ⟨hmem, hp⟩ := List.mem_filter.mp (List.mem_of_mem_head? ha)
  exact h a hmem hp _

/-- With an edge to remove, its removal, the revisions and the events are one commit. -/
theorem ensures_unlinkCards {tenantId key : String} {boardId cardId dependsOnId : ι}
    {tr : Trace (Rec ι) (Call ι) (Reply ι)}
    (hedge : (∃ c ∈ w.store.cards, c.id = cardId ∧ c.boardId = boardId ∧ c.tenantId = tenantId) →
      (∃ c ∈ w.store.cards, c.id = dependsOnId ∧ c.tenantId = tenantId) →
      ∃ d ∈ w.store.cardDependencies, d.cardId = cardId ∧ d.dependsOnCardId = dependsOnId) :
    Ensures (kanban ι) Alone Stretch (fun r tx _ _ => ∀ a, r = .ok a → tx = .idle)
      (unlinkCards codec tenantId boardId cardId dependsOnId key) .idle tr w := by
  rw [unlinkCards, Prog.bind_eq, ensures_bind, ensures_beginTx]
  rintro w₁ rfl
  refine ⟨?_, nofun⟩
  refine ensures_fetchOr_active (fun source hsource hp read => ?_) fun _ _ _ => nofun
  refine ensures_fetchOr_active (fun target htarget hp' read' => ?_) fun _ _ _ => nofun
  obtain ⟨d, hd, hdp⟩ := hedge ⟨source, hsource, of_decide_eq_true hp⟩
    ⟨target, htarget, of_decide_eq_true hp'⟩
  rw [Prog.bind_eq, ensures_bind, ensures_query]
  rintro w₁ rfl
  refine ⟨?_, nofun⟩
  intro e he
  have hremoved : e.answer ≠ [] := by
    cases he
    exact List.ne_nil_of_mem (List.mem_filter.mpr ⟨hd, decide_eq_true hdp⟩)
  refine ⟨stretch_of_reads ⟨[.ran _], rfl, by simp [Inert]⟩, ?_⟩
  refine (@Runs.alone _ _ _ _ _ _ _ _ _ BalancedCommit _ (fun _ tx _ => tx = .idle) _ _ _ ?_).mono
    (fun _ _ _ h => h) (fun _ _ _ _ => stretch_of_commits) fun _ _ _ _ h => h
  have hw := ((Builds.start (List.suffix_rfl (l := tr))).grow
    ⟨[.ran e.read, .ran read', .ran read], rfl⟩).plain (plain_of_within (T := Db.dependenciesT)
    (fun _ => trivial) Table.within_delete he)
  rw [if_pos hremoved, if_pos hremoved]
  refine runs_bind (runs_bumpRevision hw fun newRevision ws₁ tr₁ hw₁ hcards _ => ?_)
  refine runs_bind (runs_insertBoardEvent hw₁ ?_)
  intro event revision ws₂ tr₂ hw₂ _ _ _ htype _
  refine runs_bind (Settles.runs_touchTarget ⟨hw₂, by simpa using htype⟩
    fun evs ws₃ tr₃ hw₃ hevs hcards => runs_commitTx ?_ rfl)
  exact balanced_of_tells ⟨hcards, hw₃.1.events ▸ hevs⟩

theorem staysBalanced_removeCardDependency {req : CardDependencyRequest}
    (h : ¬ Misses codec ctx w.store req) :
    StaysBalanced (removeCardDependency codec ctx req) w := by
  refine .reads .dependencyRequest fun q ⟨hboard, htenant, hkey, hcard, hdependsOn⟩ => ?_
  obtain ⟨boardId, tenantId, cardId, dependsOnId⟩ := q
  refine .reads .checkIdempotencyCard fun found hfound => ?_
  cases found with
  | some _ => exact .of_settles (.fetchFullCard balancedCommit_of_quiet)
  | none =>
      intro tr
      refine ensures_bind.mpr ((ensures_unlinkCards fun hsource htarget => ?_).post_mono ?_)
      · by_contra hnone
        refine h ⟨tenantId, boardId, cardId, dependsOnId, htenant, hboard, hcard, hdependsOn, hkey,
          hfound.symm, hsource, htarget, fun d hd hdp => hnone ⟨d, hd, hdp⟩⟩
      · intro r tx tr' w' htx
        cases r with
        | ok a =>
            obtain rfl := htx a rfl
            exact StaysBalanced.of_settles (.bind (.storeIdempotencyCard balancedCommit_of_quiet)
              fun _ => .fetchFullCard balancedCommit_of_quiet) tr'
        | error e => trivial

/-- A result is only renamed. -/
theorem StaysBalanced.map {β : Type} {p : Handler ι α} {f : α → β} (h : StaysBalanced p w) :
    StaysBalanced (p.bind fun a => .pure (f a)) w := by
  intro tr
  refine ensures_bind.mpr ((h tr).post_mono ?_)
  rintro r tx tr' w' -
  cases r with
  | ok a => trivial
  | error e => trivial

/-- From a state in which it is whole, a call makes only balanced commits. -/
theorem staysBalanced_mutationHandler {m : Mutation} (h : m.Whole codec ctx w.store) :
    StaysBalanced (mutationHandler codec unicode pages ctx m) w := by
  cases m with
  | card call =>
      refine .map ?_
      by_cases hloose : call.Loose
      · cases call with
        | updateCard req => exact .map (staysBalanced_updateCard h)
        | removeCardDependency req => exact .map (staysBalanced_removeCardDependency h)
        | _ => exact hloose.elim
      · exact .of_runs fun _ => runs_cardHandler_balanced hloose
  | updateProject req => exact .map (.of_runs fun _ => runs_updateProject)
  | addMember req => exact staysBalanced_addMember h
  | removeMember req => exact staysBalanced_removeMember h

/-- **A change is committed iff its event is.**  A run may end anywhere, by a crash or after a
failed statement: what the call has committed until then holds a change iff it holds an event. -/
theorem mutation_atomic {m : Mutation} {acts : List (Act (Move ι))}
    {t : Thread (Db ι) (Rec ι) (Call ι) (Reply ι) ConnectError Unit}
    (h : m.Whole codec ctx w.store)
    (hrun : Machine.Exec (Thread.step (kanban ι))
      (Thread.start (mutationHandler codec unicode pages ctx m), w) acts (t, w')) :
    w'.store = (kanban ι).applyAll w.store (Trace.writes t.trace) ∧
      (Changes (Trace.writes t.trace) ↔ eventWrites (Trace.writes t.trace) ≠ []) :=
  exec_of_stretches (staysBalanced_mutationHandler h) hrun

end Apart

/-- A board with one card. -/
def oneCard : World (Db String) (Backend String) where
  store := { Db.empty with
    projects := [⟨"p", "t", "Roadmap", "ROAD", "ROAD", "", "user:ann"⟩]
    projectRefCounter := [⟨"p", "t", "ROAD", 2⟩]
    boards := [⟨"a", "t", "p", "A", "a", "", none, "private", 0⟩]
    columns := [⟨"a1", "t", "a", "Todo", none, none, 0, false⟩]
    cards := [⟨"c", "t", "p", "a", "a1", "ROAD-001", "Ship", none, 0, "medium", "medium", none,
      none, false, none, none, "user:ann", 0⟩] }
  ext := Backend.empty

/-- A member of the tenant works on the card. -/
def onCard : RequestContext := ⟨some ⟨some "t", some "user:cal"⟩, some "c", 0⟩

theorem mutation_atomic_moveCard :
    ∃ t w', Machine.Exec (Thread.step (kanban String)) (Thread.start (mutationHandler textIds
        asciiUpper 1 onCard (.card (.moveCard ⟨"a1", 1, ""⟩))), oneCard)
        [.ok, .ok, .ok, .ok, .ok, .ok, .move (.fresh "e"), .ok, .ok, .ok] (t, w') ∧
      w'.store = (kanban String).applyAll oneCard.store (Trace.writes t.trace) ∧
      (Changes (Trace.writes t.trace) ↔ eventWrites (Trace.writes t.trace) ≠ []) ∧
      (eventWrites (Trace.writes t.trace)).map EventRow.eventType = ["CardMoved"] := by
  obtain ⟨⟨t, w'⟩, hrun, hevents⟩ : ∃ c, Machine.run (Thread.step (kanban String))
      (Thread.start (mutationHandler textIds asciiUpper 1 onCard
        (.card (.moveCard ⟨"a1", 1, ""⟩))), oneCard)
      [.ok, .ok, .ok, .ok, .ok, .ok, .move (.fresh "e"), .ok, .ok, .ok] = some c ∧
      (eventWrites (Trace.writes c.1.trace)).map EventRow.eventType = ["CardMoved"] := ⟨_, rfl, rfl⟩
  have hexec := Machine.exec_of_run hrun
  have hwhole : Mutation.Whole textIds onCard oneCard.store (.card (.moveCard ⟨"a1", 1, ""⟩)) :=
    trivial
  obtain ⟨hstore, hiff⟩ := mutation_atomic hwhole hexec
  exact ⟨t, w', hexec, hstore, hiff, hevents⟩

/-- UpdateCard stops after its `UPDATE`. -/
theorem mutation_not_atomic :
    ∃ t w', Machine.Exec (Thread.step (kanban String)) (Thread.start (mutationHandler textIds
        asciiUpper 1 onCard (.card (.updateCard
          ⟨⟨"Fix", "", 0, 0, none, false, "", ""⟩, [], ""⟩))), oneCard) [.ok, .ok] (t, w') ∧
      w'.store.cards ≠ oneCard.store.cards ∧ w'.store.eventLog = oneCard.store.eventLog ∧
      ¬ (Changes (Trace.writes t.trace) ↔ eventWrites (Trace.writes t.trace) ≠ []) := by
  obtain ⟨⟨t, w'⟩, hrun, hcards, hlog, ⟨c, hc⟩, hevents⟩ : ∃ c, Machine.run
      (Thread.step (kanban String)) (Thread.start (mutationHandler textIds asciiUpper 1 onCard
        (.card (.updateCard ⟨⟨"Fix", "", 0, 0, none, false, "", ""⟩, [], ""⟩))), oneCard)
      [.ok, .ok] = some c ∧ decide (c.2.store.cards ≠ oneCard.store.cards) = true ∧
      c.2.store.eventLog = [] ∧ (∃ row, Trace.writes c.1.trace = [.put (.card row)]) ∧
      eventWrites (Trace.writes c.1.trace) = [] := ⟨_, rfl, rfl, rfl, ⟨_, rfl⟩, rfl⟩
  refine ⟨t, w', Machine.exec_of_run hrun, of_decide_eq_true hcards, hlog, fun hiff => ?_⟩
  exact hiff.mp ⟨.put (.card c), by rw [hc]; exact List.mem_singleton_self _, trivial⟩ hevents

end Kanban.Rpc
