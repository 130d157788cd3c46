import Kanban.Lib.Commit
import Kanban.Rpc.CardQueries

/-!
# What a handler commits

The rules of `Runs` for the statements and the calls of the handlers.  A statement leaves in the
trace the rows it has read, and nothing else of the database is known afterwards.

## Main definitions

* `Silent`, `Quiet` — a statement without writes, and writes of idempotency keys only.
* `Mute`, `Tame` — a program that writes nothing, and one that writes keys at most.
* `Settles` — a handler that leaves no transaction open.
-/

namespace Kanban.Rpc

open Program Kanban.Store Kanban.Auth
open Kanban.Services (AuthContext ConnectError IdCodec)

variable {ι α β τ : Type} [DecidableEq ι] {Good : Commitment (Rec ι) (Call ι) (Reply ι)}
  {tx : Tx (Rec ι)} {tr : Trace (Rec ι) (Call ι) (Reply ι)} {ws : List (Write (Rec ι))}
  {B : α → Tx (Rec ι) → Trace (Rec ι) (Call ι) (Reply ι) → Prop}

/-- A statement without writes. -/
def Silent (s : Stmt (Db ι) (Rec ι) β) : Prop := ∀ db e, s db = some e → e.writes = []

omit [DecidableEq ι] in
theorem silent_select {T : Table (Db ι) (Rec ι) τ} {p : τ → Bool} : Silent (T.select p) := by
  rintro db e ⟨⟩
  rfl

theorem silent_nextPosition {tenantId : String} {columnId : ι} :
    Silent (nextPosition tenantId columnId) := by
  intro db e h
  obtain ⟨n, -, rfl⟩ := Option.map_eq_some_iff.mp h
  rfl

/-- A write of an idempotency key. -/
def QuietWrite (a : Write (Rec ι)) : Prop := ∃ r, a = .put (.idempotencyKey r)

/-- Writes of idempotency keys. -/
def Quiet (ws : List (Write (Rec ι))) : Prop := ∀ a ∈ ws, QuietWrite a

omit [DecidableEq ι] in
theorem quiet_nil : Quiet ([] : List (Write (Rec ι))) := by simp [Quiet]

/-! ## Values -/

section Values

theorem runs_ensure {p : Prop} [Decidable p] {e : ConnectError}
    {B : Unit → Tx (Rec ι) → Trace (Rec ι) (Call ι) (Reply ι) → Prop} (h : p → B () tx tr) :
    Runs (kanban ι) Good (ensure p e) tx tr B := by
  by_cases hp : p
  · rw [ensure, if_pos hp]
    exact runs_pure (h hp)
  · rw [ensure, if_neg hp]
    exact runs_fail

theorem runs_orError {o : Option α} {e : ConnectError} (h : ∀ a, o = some a → B a tx tr) :
    Runs (kanban ι) Good (orError e o) tx tr B := by
  cases o with
  | none => exact runs_fail
  | some a => exact runs_pure (h a rfl)

theorem runs_ite {c : Prop} [Decidable c] {p q : Handler ι α}
    (hp : c → Runs (kanban ι) Good p tx tr B) (hq : ¬ c → Runs (kanban ι) Good q tx tr B) :
    Runs (kanban ι) Good (if c then p else q) tx tr B := by
  by_cases hc : c
  · rw [if_pos hc]
    exact hp hc
  · rw [if_neg hc]
    exact hq hc

end Values

/-! ## Statements in a transaction -/

section Active

theorem runs_beginTx {msg : String}
    {B : Unit → Tx (Rec ι) → Trace (Rec ι) (Call ι) (Reply ι) → Prop} (h : B () (.active []) tr) :
    Runs (kanban ι) Good (beginTx msg) tx tr B := runs_begin (runs_pure h) runs_fail

theorem runs_commitTx {msg : String}
    {B : Unit → Tx (Rec ι) → Trace (Rec ι) (Call ι) (Reply ι) → Prop} (hgood : Good tr ws)
    (h : B () .idle (.committed ws :: tr)) :
    Runs (kanban ι) Good (commitTx msg) (.active ws) tr B :=
  runs_commit hgood (runs_pure h) runs_fail

theorem runs_query_active {msg : String} {s : Stmt (Db ι) (Rec ι) α}
    (h : ∀ db e, s db = some e → B e.answer (.active (ws ++ e.writes)) (.ran e.read :: tr)) :
    Runs (kanban ι) Good (query msg s) (.active ws) tr B :=
  runs_stmt_active (fun db e he => runs_pure (h db e he)) runs_fail

/-- A statement without writes in a transaction. -/
theorem runs_read_active {msg : String} {s : Stmt (Db ι) (Rec ι) α} (hs : Silent s)
    (h : ∀ db e, s db = some e → B e.answer (.active ws) (.ran e.read :: tr)) :
    Runs (kanban ι) Good (query msg s) (.active ws) tr B :=
  runs_query_active fun db e he => by
    rw [hs db e he, List.append_nil]
    exact h db e he

theorem runs_query_aborted {msg : String} {s : Stmt (Db ι) (Rec ι) α} :
    Runs (kanban ι) Good (query msg s) .aborted tr B := runs_stmt_aborted runs_fail

theorem runs_attempt_active {s : Stmt (Db ι) (Rec ι) β}
    {B : Option β → Tx (Rec ι) → Trace (Rec ι) (Call ι) (Reply ι) → Prop}
    (h : ∀ db e, s db = some e → B (some e.answer) (.active (ws ++ e.writes)) (.ran e.read :: tr))
    (hfail : B none .aborted (.failed :: tr)) :
    Runs (kanban ι) Good (attempt s) (.active ws) tr B :=
  runs_stmt_active (fun db e he => runs_pure (h db e he)) (runs_pure hfail)

theorem runs_fetchOne_active {msg : String} {s : Stmt (Db ι) (Rec ι) (List α)}
    (h : ∀ db e a, s db = some e → e.answer.head? = some a →
      B a (.active (ws ++ e.writes)) (.ran e.read :: tr)) :
    Runs (kanban ι) Good (fetchOne msg s) (.active ws) tr B :=
  runs_bind (runs_query_active fun db e he => runs_orError fun a ha => h db e a he ha)

end Active

/-! ## Statements outside of a transaction -/

section Idle

variable (hnil : ∀ tr, Good tr [])
include hnil

/-- Outside of a transaction a statement without writes only adds what it has read. -/
theorem runs_query_idle {msg : String} {s : Stmt (Db ι) (Rec ι) α} (hs : Silent s)
    (h : ∀ db e tr', s db = some e → tr <:+ tr' → (∀ r ∈ e.read, Saw tr' r) →
      B e.answer .idle tr') :
    Runs (kanban ι) Good (query msg s) .idle tr B := by
  refine runs_stmt_idle (fun db e he => ?_) runs_fail
  rw [hs db e he]
  refine ⟨hnil _, runs_pure (h db e _ he ⟨[.committed [], .ran e.read], rfl⟩ ?_)⟩
  exact fun r hr => (saw_ran hr).cons

theorem runs_fetchOptional_idle {msg : String} {s : Stmt (Db ι) (Rec ι) (List β)}
    {B : Option β → Tx (Rec ι) → Trace (Rec ι) (Call ι) (Reply ι) → Prop} (hs : Silent s)
    (h : ∀ db e tr', s db = some e → tr <:+ tr' → (∀ r ∈ e.read, Saw tr' r) →
      B e.answer.head? .idle tr') :
    Runs (kanban ι) Good (fetchOptional msg s) .idle tr B :=
  runs_bind (runs_query_idle hnil hs fun db e tr' he htr hsaw => runs_pure (h db e tr' he htr hsaw))

/-- The first row of a `SELECT` meets its condition. -/
theorem runs_fetchOr_idle {msg : String} {err : ConnectError} {T : Table (Db ι) (Rec ι) α}
    {p : α → Bool}
    (h : ∀ a tr', p a → tr <:+ tr' → Saw tr' (T.record a) → B a .idle tr') :
    Runs (kanban ι) Good (fetchOr msg err (T.select p)) .idle tr B := by
  refine runs_bind (runs_fetchOptional_idle hnil silent_select fun db e tr' he htr hsaw =>
    runs_orError fun a ha => ?_)
  cases he
  have hmem := List.mem_of_mem_head? ha
  exact h a tr' (List.mem_filter.mp hmem).2 htr (hsaw _ (List.mem_map_of_mem hmem))

end Idle

/-! ## Calls -/

section Calls

theorem runs_newId {B : ι → Tx (Rec ι) → Trace (Rec ι) (Call ι) (Reply ι) → Prop}
    (h : ∀ id, B id tx (.called .newId id :: tr)) : Runs (kanban ι) Good newId tx tr B :=
  runs_call fun id => runs_pure (h id)

theorem runs_tenantClientFor {ctx : RequestContext}
    {B : String → Tx (Rec ι) → Trace (Rec ι) (Call ι) (Reply ι) → Prop}
    (h : ∀ tenant, ctx.auth.bind AuthContext.tenantId = some tenant →
      B tenant tx (.called (.tenantClient tenant) true :: tr)) :
    Runs (kanban ι) Good (tenantClientFor ctx) tx tr B := by
  refine runs_bind (runs_orError fun tenant htenant => runs_call fun ok => ?_)
  cases ok with
  | true => exact runs_pure (h tenant htenant)
  | false => exact runs_fail

/-- A check that is granted is an event of the trace, and no check reads a row. -/
theorem runs_checkPermissionWithRetry {tenant : String} {q : Services.PermissionQuery}
    {B : Option Bool → Tx (Rec ι) → Trace (Rec ι) (Call ι) (Reply ι) → Prop}
    (h : ∀ answer tr', tr <:+ tr' → Trace.seen tr' = Trace.seen tr →
      (answer = some true → .called (.checkPermission tenant q) (.ok true) ∈ tr') →
      B answer tx tr') :
    Runs (kanban ι) Good (checkPermissionWithRetry tenant q) tx tr B := by
  have key : ∀ n tr', tr <:+ tr' → Trace.seen tr' = Trace.seen tr → Runs (kanban ι) Good
      (checkPermissionWithRetry.attempt tenant q n) tx tr' B := by
    intro n
    induction n with
    | zero => exact fun tr' htr hseen => runs_pure (h none tr' htr hseen nofun)
    | succ n ih =>
        intro tr' htr hseen
        refine runs_call fun r => ?_
        have htr' := htr.trans (List.suffix_cons (.called _ r) tr')
        cases r with
        | ok granted =>
            refine runs_pure (h _ _ htr' hseen ?_)
            rintro ⟨⟩
            exact List.mem_cons_self
        | error e =>
            exact runs_ite (fun _ => ih _ htr' hseen) fun _ => runs_pure (h none _ htr' hseen nofun)
  exact key maxRetries tr List.suffix_rfl rfl

end Calls

/-! ## Programs that write keys at most -/

omit [DecidableEq ι] in
theorem only_deletePage {S : List (Write (Rec ι)) → Prop} {subject : Option String}
    {tuples : List RelationTuple} : Prog.Only S (deletePage subject tuples : Handler ι Bool) := by
  induction tuples with
  | nil => trivial
  | cons t rest ih =>
      unfold deletePage
      split
      · intro ok
        cases ok with
        | true => exact ih
        | false => trivial
      · exact ih

omit [DecidableEq ι] in
/-- A deletion of tuples has no statements. -/
theorem only_deleteRelationTuples {S : List (Write (Rec ι)) → Prop} {pages : ℕ}
    {filter : TupleFilter} {subject : Option String} :
    Prog.Only S (deleteRelationTuples pages filter subject : Handler ι Bool) := by
  have key : ∀ n after, Prog.Only S
      (deleteRelationTuples.loop filter subject n after : Handler ι Bool) := by
    intro n
    induction n with
    | zero => exact fun after e => e.elim
    | succ n ih =>
        intro after r
        cases r with
        | none => trivial
        | some page =>
            obtain ⟨tuples, next⟩ := page
            refine only_deletePage.bind fun ok => ?_
            cases ok with
            | false => trivial
            | true =>
                cases next with
                | none => trivial
                | some token => exact ih _
  exact key pages none

/-- Outside of every transaction, and no statement writes. -/
def Mute (p : Handler ι α) : Prop := p.Only (· = [])

/-- Outside of every transaction, and no statement writes more than idempotency keys. -/
def Tame (p : Handler ι α) : Prop := p.Only Quiet

namespace Mute

omit [DecidableEq ι]

theorem tame {p : Handler ι α} (hp : Mute p) : Tame p :=
  Prog.Only.mono (fun ws hws => by subst hws; exact quiet_nil) hp

theorem pure (a : α) : Mute (.pure a : Handler ι α) := trivial

theorem bind {p : Handler ι α} {f : α → Handler ι β} (hp : Mute p) (hf : ∀ a, Mute (f a)) :
    Mute (p.bind f) := Prog.Only.bind hp hf

theorem ite {c : Prop} [Decidable c] {p q : Handler ι α} (hp : Mute p) (hq : Mute q) :
    Mute (if c then p else q) := by
  split
  · exact hp
  · exact hq

theorem orError {o : Option α} {e : ConnectError} : Mute (orError e o : Handler ι α) := by
  cases o with
  | none => trivial
  | some a => exact pure a

theorem ensure {p : Prop} [Decidable p] {e : ConnectError} :
    Mute (ensure p e : Handler ι Unit) := by
  unfold Rpc.ensure
  exact ite (pure ()) trivial

theorem newId : Mute (newId : Handler ι ι) := fun _ => trivial

theorem tenantClientFor {ctx : RequestContext} :
    Mute (tenantClientFor ctx : Handler ι String) := by
  refine bind orError fun tenant => ?_
  intro ok
  cases ok with
  | true => exact pure _
  | false => trivial

theorem checkPermissionWithRetry {tenant : String} {q : Services.PermissionQuery} :
    Mute (checkPermissionWithRetry tenant q : Handler ι (Option Bool)) := by
  have key : ∀ n, Mute
      (Auth.checkPermissionWithRetry.attempt tenant q n : Handler ι (Option Bool)) := by
    intro n
    induction n with
    | zero => exact pure none
    | succ n ih =>
        intro r
        cases r with
        | ok granted => exact pure _
        | error e => exact ite ih (pure none)
  exact key maxRetries

theorem grantWithRetry {tenant ns object relation subject : String} :
    Mute (grantWithRetry tenant ns object relation subject : Handler ι Bool) := by
  have key : ∀ n, Mute
      (Auth.grantWithRetry.attempt tenant ns object relation subject n : Handler ι Bool) := by
    intro n
    induction n with
    | zero => exact pure false
    | succ n ih =>
        intro r
        cases r with
        | ok u => exact pure true
        | error e => exact ite ih (pure false)
  exact key maxRetries

theorem query {msg : String} {s : Stmt (Db ι) (Rec ι) β} (hs : Silent s) : Mute (query msg s) := by
  refine ⟨hs, fun o => ?_⟩
  cases o with
  | none => trivial
  | some b => exact pure b

/-- A read whose failure is defaulted. -/
theorem fetchAll {s : Stmt (Db ι) (Rec ι) (List τ)} (hs : Silent s) : Mute (fetchAll s) :=
  ⟨hs, fun _ => pure _⟩

theorem fetchOptional {msg : String} {s : Stmt (Db ι) (Rec ι) (List τ)} (hs : Silent s) :
    Mute (fetchOptional msg s) := bind (query hs) fun _ => pure _

theorem fetchOr {msg : String} {err : ConnectError} {s : Stmt (Db ι) (Rec ι) (List τ)}
    (hs : Silent s) : Mute (fetchOr msg err s) := bind (fetchOptional hs) fun _ => orError

theorem checkTargetBoard {codec : IdCodec ι} {ctx : RequestContext} {boardId : ι} :
    Mute (checkTargetBoard codec ctx boardId) :=
  bind orError fun _ => bind tenantClientFor fun _ => bind checkPermissionWithRetry fun _ =>
    bind orError fun _ => bind ensure fun _ => pure _

variable [DecidableEq ι]

theorem hydrateCard {codec : IdCodec ι} {tenantId : String} {row : CardRow ι} :
    Mute (hydrateCard codec tenantId row) := by
  refine bind (bind (fetchAll ?_) fun _ => pure _) fun _ => bind (bind (fetchAll ?_)
    fun _ => pure _) fun _ => bind (bind (fetchAll ?_) fun _ => pure _) fun _ =>
    bind (bind (fetchAll ?_) fun _ => pure _) fun _ => bind (bind (fetchAll ?_)
    fun _ => pure _) fun _ => bind (bind (fetchAll ?_) fun _ => pure _) fun _ =>
    bind (bind (fetchAll ?_) fun _ => pure _) fun _ => pure _
  all_goals rintro db e ⟨⟩; rfl

theorem fetchFullCard {codec : IdCodec ι} {tenantId : String} {cardId : ι} :
    Mute (fetchFullCard codec tenantId cardId) :=
  bind (fetchOr silent_select) fun _ => hydrateCard

omit [DecidableEq ι] in
theorem checkIdempotencyCard {tenantId key : String} :
    Mute (checkIdempotencyCard tenantId key : Handler ι (Option ι)) :=
  ite (pure none) (bind (fetchOptional silent_select) fun _ => pure _)

theorem checkMilestone {codec : IdCodec ι} {tenantId : String} {projectId : ι}
    {milestoneId : String} : Mute (checkMilestone codec tenantId projectId milestoneId) :=
  ite (pure none) (bind orError fun _ => bind (fetchOptional silent_select) fun _ =>
    bind ensure fun _ => pure _)

theorem milestonePatch {codec : IdCodec ι} {tenantId : String} {projectId : ι}
    {req : UpdateCardRequest} : Mute (milestonePatch codec tenantId projectId req) :=
  ite (pure _) (bind checkMilestone fun _ => pure _)

theorem sourceIsDone {tenantId : String} {columnId : ι} : Mute (sourceIsDone tenantId columnId) :=
  bind (fetchOptional silent_select) fun _ => pure _

theorem replayTransfer {codec : IdCodec ι} {tenantId key : String} {cardId : ι} :
    Mute (replayTransfer codec tenantId cardId key) :=
  bind (fetchOptional fun db e he => by cases he; rfl) fun _ => bind fetchFullCard fun _ => pure _

end Mute

namespace Tame

omit [DecidableEq ι]

/-! ### Programs without statements -/

theorem pure (a : α) : Tame (.pure a : Handler ι α) := trivial

theorem fail (e : ConnectError) : Tame (.fail e : Handler ι α) := trivial

theorem bind {p : Handler ι α} {f : α → Handler ι β} (hp : Tame p) (hf : ∀ a, Tame (f a)) :
    Tame (p.bind f) := Prog.Only.bind hp hf

theorem ite {c : Prop} [Decidable c] {p q : Handler ι α} (hp : Tame p) (hq : Tame q) :
    Tame (if c then p else q) := by
  split
  · exact hp
  · exact hq

theorem orError {o : Option α} {e : ConnectError} : Tame (orError e o : Handler ι α) :=
  Mute.orError.tame

theorem ensure {p : Prop} [Decidable p] {e : ConnectError} :
    Tame (ensure p e : Handler ι Unit) := Mute.ensure.tame

theorem newId : Tame (newId : Handler ι ι) := Mute.newId.tame

theorem resolveSubject {tenantId input : String} :
    Tame (resolveSubject tenantId input : Handler ι String) := by
  intro r
  cases r <;> trivial

theorem tenantClientFor {ctx : RequestContext} :
    Tame (tenantClientFor ctx : Handler ι String) := Mute.tenantClientFor.tame

theorem grantWithRetry {tenant ns object relation subject : String} :
    Tame (grantWithRetry tenant ns object relation subject : Handler ι Bool) := Mute.grantWithRetry.tame

theorem checkPermissionWithRetry {tenant : String} {q : Services.PermissionQuery} :
    Tame (checkPermissionWithRetry tenant q : Handler ι (Option Bool)) :=
  Mute.checkPermissionWithRetry.tame

theorem deleteRelationTuples {pages : ℕ} {filter : TupleFilter} {subject : Option String} :
    Tame (deleteRelationTuples pages filter subject : Handler ι Bool) := only_deleteRelationTuples

/-! ### Statements -/

theorem stmt {s : Stmt (Db ι) (Rec ι) β} {k : Option β → Handler ι α}
    (hs : ∀ db e, s db = some e → Quiet e.writes) (hk : ∀ o, Tame (k o)) : Tame (.stmt s k) := ⟨hs, hk⟩

theorem attempt {s : Stmt (Db ι) (Rec ι) β} (hs : ∀ db e, s db = some e → Quiet e.writes) :
    Tame (attempt s) := stmt hs fun _ => pure _

theorem quiet_of_silent {s : Stmt (Db ι) (Rec ι) β} (hs : Silent s) (db : Db ι)
    (e : Effect (Rec ι) β) (he : s db = some e) : Quiet e.writes := by
  rw [hs db e he]
  exact quiet_nil

theorem query {msg : String} {s : Stmt (Db ι) (Rec ι) β} (hs : Silent s) : Tame (query msg s) :=
  (Mute.query hs).tame

theorem fetchAll {s : Stmt (Db ι) (Rec ι) (List τ)} (hs : Silent s) : Tame (fetchAll s) :=
  (Mute.fetchAll hs).tame

theorem fetchOptional {msg : String} {s : Stmt (Db ι) (Rec ι) (List τ)} (hs : Silent s) :
    Tame (fetchOptional msg s) := (Mute.fetchOptional hs).tame

theorem fetchOr {msg : String} {err : ConnectError} {s : Stmt (Db ι) (Rec ι) (List τ)}
    (hs : Silent s) : Tame (fetchOr msg err s) := (Mute.fetchOr hs).tame

/-! ### What the handlers read and store -/

/-- The key is stored, or it is there. -/
theorem insertKey [DecidableEq ι] {r : IdempotencyRow ι} :
    Tame (Rpc.attempt (Db.idempotencyKeysT.insertIgnore r)) := by
  refine attempt fun db e he a ha => ?_
  cases he
  dsimp only at ha
  split at ha
  · cases ha
  · exact ⟨r, List.mem_singleton.mp ha⟩

section Store

variable [DecidableEq ι]

theorem storeIdempotencyId {tenantId key : String} {id : ι} :
    Tame (storeIdempotencyId tenantId key id) :=
  ite (pure ()) (bind insertKey fun _ => pure _)

omit [DecidableEq ι] in
theorem checkIdempotencyCard {tenantId key : String} :
    Tame (checkIdempotencyCard tenantId key : Handler ι (Option ι)) :=
  Mute.checkIdempotencyCard.tame

theorem hydrateCard {codec : IdCodec ι} {tenantId : String} {row : CardRow ι} :
    Tame (hydrateCard codec tenantId row) := Mute.hydrateCard.tame

theorem fetchFullCard {codec : IdCodec ι} {tenantId : String} {cardId : ι} :
    Tame (fetchFullCard codec tenantId cardId) := Mute.fetchFullCard.tame

theorem fetchCards {codec : IdCodec ι} {tenantId : String} {cardIds : List ι} :
    Tame (fetchCards codec tenantId cardIds) := by
  induction cardIds with
  | nil => exact pure _
  | cons cardId rest ih => exact bind fetchFullCard fun _ => bind ih fun _ => pure _

theorem refetchCards {codec : IdCodec ι} {tenantId : String} {cardIds : List ι} :
    Tame (refetchCards codec tenantId cardIds) := by
  induction cardIds with
  | nil => exact pure _
  | cons cardId rest ih =>
      refine bind (bind (attempt (quiet_of_silent silent_select)) fun rows => ?_) fun _ =>
        bind ih fun _ => pure _
      cases rows.bind List.head? with
      | none => exact pure _
      | some row => exact bind hydrateCard fun _ => pure _

theorem checkMilestone {codec : IdCodec ι} {tenantId : String} {projectId : ι}
    {milestoneId : String} : Tame (checkMilestone codec tenantId projectId milestoneId) :=
  Mute.checkMilestone.tame

theorem milestonePatch {codec : IdCodec ι} {tenantId : String} {projectId : ι}
    {req : UpdateCardRequest} : Tame (milestonePatch codec tenantId projectId req) :=
  Mute.milestonePatch.tame

theorem sourceIsDone {tenantId : String} {columnId : ι} : Tame (sourceIsDone tenantId columnId) :=
  Mute.sourceIsDone.tame

omit [DecidableEq ι] in
theorem rehomeParent {codec : IdCodec ι} {pages : ℕ} {permission : String}
    {cardId boardId targetBoardId : ι} :
    Tame (rehomeParent codec pages permission cardId boardId targetBoardId) :=
  bind deleteRelationTuples fun _ => bind grantWithRetry fun _ => pure _

theorem replayTransfer {codec : IdCodec ι} {tenantId key : String} {cardId : ι} :
    Tame (replayTransfer codec tenantId cardId key) := Mute.replayTransfer.tame

omit [DecidableEq ι] in
theorem checkTargetBoard {codec : IdCodec ι} {ctx : RequestContext} {boardId : ι} :
    Tame (checkTargetBoard codec ctx boardId) := Mute.checkTargetBoard.tame

end Store

end Tame

/-! ## The rest of a handler -/

/-- From outside of a transaction the handler makes only good commits, and it leaves no
transaction open. -/
def Settles (Good : Commitment (Rec ι) (Call ι) (Reply ι)) (p : Handler ι α) : Prop :=
  ∀ tr, Runs (kanban ι) Good p .idle tr fun _ tx tr' => tx = .idle ∧ tr <:+ tr'

namespace Settles

variable (hquiet : ∀ tr ws, Quiet ws → Good tr ws)

theorem pure (a : α) : Settles Good (.pure a : Handler ι α) := fun _ =>
  runs_pure ⟨rfl, List.suffix_rfl⟩

theorem bind {p : Handler ι α} {f : α → Handler ι β} (hp : Settles Good p)
    (hf : ∀ a, Settles Good (f a)) : Settles Good (p.bind f) := fun tr =>
  runs_bind ((hp tr).mono fun a tx tr' h => by
    obtain ⟨rfl, htr⟩ := h
    exact (hf a tr').mono fun _ _ _ h => ⟨h.1, htr.trans h.2⟩)

theorem orError {o : Option α} {e : ConnectError} : Settles Good (orError e o : Handler ι α) :=
  fun _ => runs_orError fun _ _ => ⟨rfl, List.suffix_rfl⟩

theorem ensure {p : Prop} [Decidable p] {e : ConnectError} :
    Settles Good (ensure p e : Handler ι Unit) := fun _ => runs_ensure fun _ => ⟨rfl, List.suffix_rfl⟩

theorem ite {c : Prop} [Decidable c] {p q : Handler ι α} (hp : Settles Good p)
    (hq : Settles Good q) : Settles Good (if c then p else q) := by
  split
  · exact hp
  · exact hq

include hquiet

/-- A program that writes keys at most. -/
theorem of_tame {p : Handler ι α} (h : Tame p) : Settles Good p := fun _ => Runs.of_only h hquiet

theorem attempt {s : Stmt (Db ι) (Rec ι) β} (hs : ∀ db e, s db = some e → Quiet e.writes) :
    Settles Good (attempt s) := of_tame hquiet (.attempt hs)

theorem fetchOptional {msg : String} {s : Stmt (Db ι) (Rec ι) (List τ)} (hs : Silent s) :
    Settles Good (fetchOptional msg s) := of_tame hquiet (.fetchOptional hs)

theorem fetchFullCard {codec : IdCodec ι} {tenantId : String} {cardId : ι} :
    Settles Good (fetchFullCard codec tenantId cardId) := of_tame hquiet .fetchFullCard

theorem checkIdempotencyCard {tenantId key : String} :
    Settles Good (checkIdempotencyCard tenantId key : Handler ι (Option ι)) :=
  of_tame hquiet .checkIdempotencyCard

theorem storeIdempotencyCard {tenantId key : String} {cardId : ι} :
    Settles Good (storeIdempotencyCard tenantId key cardId) := of_tame hquiet .storeIdempotencyId

end Settles

/-- The rest of a call after something that settles. -/
theorem Settles.bind_runs {p : Handler ι β} {f : β → Handler ι α} (hp : Settles Good p)
    (h : ∀ b tr', tr <:+ tr' → Runs (kanban ι) Good (f b) .idle tr' B) :
    Runs (kanban ι) Good (p.bind f) .idle tr B :=
  runs_bind ((hp tr).mono fun b tx tr' hs => by
    obtain ⟨rfl, htr⟩ := hs
    exact h b tr' htr)

/-- Two ways to the same rest. -/
theorem Settles.fork_runs {c : Prop} [Decidable c] {p q : Handler ι β} {f : β → Handler ι α}
    (hp : Settles Good p) (hq : Settles Good q)
    (h : ∀ b tr', tr <:+ tr' → Runs (kanban ι) Good (f b) .idle tr' B) :
    Runs (kanban ι) Good (if c then p.bind f else q.bind f) .idle tr B :=
  runs_ite (fun _ => hp.bind_runs h) fun _ => hq.bind_runs h

/-- A handler that settles ends its call. -/
theorem Settles.runs {p : Handler ι α} (h : Settles Good p) :
    Runs (kanban ι) Good p .idle tr fun _ _ _ => True := (h tr).mono fun _ _ _ _ => trivial

end Kanban.Rpc
