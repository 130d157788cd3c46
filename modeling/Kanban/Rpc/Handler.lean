import Kanban.Auth.PermissionClient

/-!
# What the handlers share

The statements of a handler with the error each failure is turned into, the request context,
and the writers of `event_log`.

## Main definitions

* `query`, `attempt`, `fetchOptional`, `fetchOne` — statements; `query` turns a failure into
  an internal error, `attempt` leaves it to the handler.
* `RequestContext`, `checkedObjectId`, `tenantIdFromRequest`, `subjectFromRequest`.
* `insertBoardEvent`, `insertProjectEvent`, `insertAggregatedEvent` — one row of
  `event_log`, in the transaction of the entity write.
-/

namespace Kanban.Rpc

open Program Kanban.Store Kanban.Auth
open Kanban.Services (AuthContext ConnectError ErrorCode IdCodec)

variable {ι α β τ : Type}

/-! ## Errors -/

def internal (msg : String) : ConnectError := ⟨.internal, msg⟩
def invalidArgument (msg : String) : ConnectError := ⟨.invalidArgument, msg⟩
def notFound (msg : String) : ConnectError := ⟨.notFound, msg⟩
def permissionDenied (msg : String) : ConnectError := ⟨.permissionDenied, msg⟩
def unauthenticated (msg : String) : ConnectError := ⟨.unauthenticated, msg⟩
def alreadyExists (msg : String) : ConnectError := ⟨.alreadyExists, msg⟩

/-- Go on only if the condition holds. -/
def ensure (p : Prop) [Decidable p] (e : ConnectError) : Handler ι Unit :=
  if p then .pure () else .fail e

/-- The value, or the error. -/
def orError (e : ConnectError) : Option α → Handler ι α
  | some a => .pure a
  | none => .fail e

/-! ## Statements -/

/-- A statement whose failure is an internal error. -/
def query (msg : String) (s : Stmt (Db ι) (Rec ι) β) : Handler ι β :=
  .stmt s fun
    | some b => .pure b
    | none => .fail (internal msg)

/-- A statement whose failure is only logged. -/
def attempt (s : Stmt (Db ι) (Rec ι) β) : Handler ι (Option β) := .stmt s .pure

/-- The first row, if there is one. -/
def fetchOptional (msg : String) (s : Stmt (Db ι) (Rec ι) (List τ)) : Handler ι (Option τ) :=
  (query msg s).bind fun rows => .pure rows.head?

/-- The first row; no row is an error. -/
def fetchOne (msg : String) (s : Stmt (Db ι) (Rec ι) (List τ)) : Handler ι τ :=
  (query msg s).bind fun rows => orError (internal msg) rows.head?

def beginTx (msg : String) : Handler ι Unit :=
  .begin fun ok => if ok then .pure () else .fail (internal msg)

def commitTx (msg : String) : Handler ι Unit :=
  .commit fun ok => if ok then .pure () else .fail (internal msg)

/-- `Id::new()`. -/
def newId : Handler ι ι := .call .newId .pure

/-! ## Rules -/

section Rules

variable [DecidableEq ι] {R : Rely (Db ι) (Rec ι) (Call ι) (Reply ι) (Backend ι)}
  {G : Guarantee (Db ι) (Rec ι) (Call ι) (Reply ι) (Backend ι)} {tx : Tx (Rec ι)}
  {tr : Trace (Rec ι) (Call ι) (Reply ι)} {w : World (Db ι) (Backend ι)}

@[simp] theorem ensures_pure {Q : Post (Db ι) (Rec ι) (Call ι) (Reply ι) (Backend ι) ConnectError α}
    {a : α} : Ensures (kanban ι) R G Q (.pure a) tx tr w ↔ Q (.ok a) tx tr w := Iff.rfl

@[simp] theorem ensures_fail {Q : Post (Db ι) (Rec ι) (Call ι) (Reply ι) (Backend ι) ConnectError α}
    {e : ConnectError} : Ensures (kanban ι) R G Q (.fail e) tx tr w ↔ Q (.error e) tx tr w :=
  Iff.rfl

@[simp] theorem ensures_ensure {Q : Post (Db ι) (Rec ι) (Call ι) (Reply ι) (Backend ι) ConnectError Unit}
    {p : Prop} [Decidable p] {e : ConnectError} :
    Ensures (kanban ι) R G Q (ensure p e) tx tr w ↔
      (p → Q (.ok ()) tx tr w) ∧ (¬ p → Q (.error e) tx tr w) := by
  by_cases hp : p <;> simp [ensure, hp]

@[simp] theorem ensures_orError {Q : Post (Db ι) (Rec ι) (Call ι) (Reply ι) (Backend ι) ConnectError α}
    {o : Option α} {e : ConnectError} :
    Ensures (kanban ι) R G Q (orError e o) tx tr w ↔
      (∀ a, o = some a → Q (.ok a) tx tr w) ∧ (o = none → Q (.error e) tx tr w) := by
  cases o <;> simp [orError]

@[simp] theorem ensures_query {Q : Post (Db ι) (Rec ι) (Call ι) (Reply ι) (Backend ι) ConnectError β}
    {msg : String} {s : Stmt (Db ι) (Rec ι) β} :
    Ensures (kanban ι) R G Q (query msg s) tx tr w ↔ ∀ w₁, R tr w w₁ →
      (∀ e, tx.query (kanban ι) s w₁.store = some e →
        G tr w₁ (tx.note e tr) (tx.land (kanban ι) e.writes w₁) ∧
        Q (.ok e.answer) (tx.record e.writes) (tx.note e tr) (tx.land (kanban ι) e.writes w₁)) ∧
      Q (.error (internal msg)) tx.abort (.failed :: tr) w₁ := Iff.rfl

@[simp] theorem ensures_attempt
    {Q : Post (Db ι) (Rec ι) (Call ι) (Reply ι) (Backend ι) ConnectError (Option β)}
    {s : Stmt (Db ι) (Rec ι) β} :
    Ensures (kanban ι) R G Q (attempt s) tx tr w ↔ ∀ w₁, R tr w w₁ →
      (∀ e, tx.query (kanban ι) s w₁.store = some e →
        G tr w₁ (tx.note e tr) (tx.land (kanban ι) e.writes w₁) ∧
        Q (.ok (some e.answer)) (tx.record e.writes) (tx.note e tr)
          (tx.land (kanban ι) e.writes w₁)) ∧
      Q (.ok none) tx.abort (.failed :: tr) w₁ := Iff.rfl

@[simp] theorem ensures_ite {Q : Post (Db ι) (Rec ι) (Call ι) (Reply ι) (Backend ι) ConnectError α}
    {c : Prop} [Decidable c] {p q : Handler ι α} :
    Ensures (kanban ι) R G Q (if c then p else q) tx tr w ↔
      (c → Ensures (kanban ι) R G Q p tx tr w) ∧ (¬ c → Ensures (kanban ι) R G Q q tx tr w) := by
  by_cases hc : c <;> simp [hc]

@[simp] theorem ensures_beginTx
    {Q : Post (Db ι) (Rec ι) (Call ι) (Reply ι) (Backend ι) ConnectError Unit} {msg : String} :
    Ensures (kanban ι) R G Q (beginTx msg) tx tr w ↔ ∀ w₁, R tr w w₁ →
      Q (.ok ()) (.active []) tr w₁ ∧ Q (.error (internal msg)) .idle (.failed :: tr) w₁ := Iff.rfl

@[simp] theorem ensures_commitTx
    {Q : Post (Db ι) (Rec ι) (Call ι) (Reply ι) (Backend ι) ConnectError Unit} {msg : String}
    {ws : List (Write (Rec ι))} :
    Ensures (kanban ι) R G Q (commitTx msg) (.active ws) tr w ↔ ∀ w₁, R tr w w₁ →
      (G tr w₁ (.committed ws :: tr)
          { w₁ with store := (kanban ι).applyAll w₁.store ws } ∧
        Q (.ok ()) .idle (.committed ws :: tr)
          { w₁ with store := (kanban ι).applyAll w₁.store ws }) ∧
      Q (.error (internal msg)) .idle (.failed :: tr) w₁ := Iff.rfl

@[simp] theorem ensures_newId {Q : Post (Db ι) (Rec ι) (Call ι) (Reply ι) (Backend ι) ConnectError ι} :
    Ensures (kanban ι) R G Q newId tx tr w ↔ ∀ w₁, R tr w w₁ → ∀ id, id ∉ w₁.ext.issued →
      G tr w₁ (.called .newId id :: tr)
        { w₁ with ext := { w₁.ext with issued := id :: w₁.ext.issued } } ∧
      Q (.ok id) tx (.called .newId id :: tr)
        { w₁ with ext := { w₁.ext with issued := id :: w₁.ext.issued } } := by
  simp only [newId, Ensures, kanban]
  constructor
  · intro h w₁ hw id hid
    exact h w₁ hw (.fresh id) (id, _) (if_neg hid)
  · intro h w₁ hw m r hr
    cases m with
    | fresh id =>
        simp only [react] at hr
        split at hr
        · cases hr
        · cases hr
          exact h w₁ hw id ‹_›
    | done => cases hr
    | refuse t => cases hr
    | lose t => cases hr
    | answer g => cases hr
    | page n => cases hr
    | resolved s => cases hr

/-- An event that leaves every store as it is. -/
def Inert : Event (Rec ι) (Call ι) (Reply ι) → Prop
  | .ran _ => True
  | .committed ws => ws = []
  | .called (.tenantClient _) _ => True
  | .called (.checkPermission _ _) _ => True
  | .called (.listRelationTuples _ _) _ => True
  | .called (.resolveSubject _ _) _ => True
  | .called _ _ => False
  | .failed => True

/-- The trace grew by events that leave every store as it is. -/
def Reads (tr tr' : Trace (Rec ι) (Call ι) (Reply ι)) : Prop :=
  ∃ l, tr' = l ++ tr ∧ ∀ e ∈ l, Inert e

omit [DecidableEq ι] in
theorem Reads.refl : Reads tr tr := ⟨[], rfl, by simp⟩

omit [DecidableEq ι] in
theorem Reads.failed : Reads tr (.failed :: tr) := ⟨[.failed], rfl, by simp [Inert]⟩

omit [DecidableEq ι] in
theorem Reads.trans {tr' tr'' : Trace (Rec ι) (Call ι) (Reply ι)} (h : Reads tr tr')
    (h' : Reads tr' tr'') : Reads tr tr'' := by
  obtain ⟨l, rfl, hl⟩ := h
  obtain ⟨l', rfl, hl'⟩ := h'
  refine ⟨l' ++ l, by simp, fun e he => ?_⟩
  rcases List.mem_append.mp he with he | he
  · exact hl' e he
  · exact hl e he

/-- A program that only reads: outside of a transaction it leaves every store as it is, and a
value it returns is related to the store by `S`. -/
def ReadsOnly (p : Handler ι α) (S : Db ι → α → Prop) : Prop :=
  ∀ (tr : Trace (Rec ι) (Call ι) (Reply ι)) (w : World (Db ι) (Backend ι)),
    Ensures (kanban ι) Alone (fun tr w tr' w' => Reads tr tr' ∧ w' = w)
      (fun r tx tr' w' => tx = .idle ∧ Reads tr tr' ∧ w' = w ∧ ∀ a, r = .ok a → S w.store a)
      p .idle tr w

/-- The rule of a program that only reads and goes on. -/
theorem ReadsOnly.bind_ensures {Q : Post (Db ι) (Rec ι) (Call ι) (Reply ι) (Backend ι) ConnectError β}
    {p : Handler ι α} {S : Db ι → α → Prop} {f : α → Handler ι β} (h : ReadsOnly p S)
    (hG : ∀ tr w tr', Reads tr tr' → G tr w tr' w)
    (hok : ∀ a tr', Reads tr tr' → S w.store a → Ensures (kanban ι) Alone G Q (f a) .idle tr' w)
    (herror : ∀ e tr', Reads tr tr' → Q (.error e) .idle tr' w) :
    Ensures (kanban ι) Alone G Q (p.bind f) .idle tr w := by
  rw [ensures_bind]
  refine (h tr w).mono (fun _ _ _ h => h) ?_ ?_
  · rintro tr w tr' w' ⟨hr, rfl⟩
    exact hG tr w' tr' hr
  · rintro r tx tr' w' ⟨rfl, hr, rfl, hS⟩
    cases r with
    | ok a => exact hok a tr' hr (hS a rfl)
    | error e => exact herror e tr' hr

theorem ReadsOnly.pure (a : α) : ReadsOnly (.pure a : Handler ι α) (fun _ b => b = a) := by
  intro tr w
  exact ⟨rfl, .refl, rfl, fun b hb => by cases hb; rfl⟩

theorem ReadsOnly.mono {p : Handler ι α} {S S' : Db ι → α → Prop} (h : ReadsOnly p S)
    (hS : ∀ db a, S db a → S' db a) : ReadsOnly p S' := by
  intro tr w
  refine (h tr w).post_mono ?_
  rintro r tx tr' w' ⟨htx, hr, hw, ha⟩
  exact ⟨htx, hr, hw, fun a h => hS _ a (ha a h)⟩

theorem ReadsOnly.bind {p : Handler ι α} {f : α → Handler ι β} {S : Db ι → α → Prop}
    {S' : Db ι → β → Prop} (h : ReadsOnly p S)
    (hf : ∀ a, ReadsOnly (f a) fun db b => S db a → S' db b) : ReadsOnly (p.bind f) S' := by
  intro tr w
  refine h.bind_ensures (fun _ _ _ h => ⟨h, rfl⟩) ?_ ?_
  · intro a tr' hr hS
    refine (hf a tr' w).post_mono ?_
    rintro r tx tr'' w' ⟨htx, hr', hw, hb⟩
    exact ⟨htx, hr.trans hr', hw, fun b h => hb b h hS⟩
  · intro e tr' hr
    exact ⟨rfl, hr, rfl, fun _ h => by cases h⟩

theorem ReadsOnly.ensure {p : Prop} [Decidable p] {e : ConnectError} :
    ReadsOnly (ensure p e : Handler ι Unit) fun _ _ => p := by
  intro tr w
  simp [Reads.refl]

theorem ReadsOnly.orError {o : Option α} {e : ConnectError} :
    ReadsOnly (orError e o : Handler ι α) fun _ a => o = some a := by
  intro tr w
  cases o <;> simp [Kanban.Rpc.orError, Reads.refl]

/-- A statement without writes. -/
theorem ReadsOnly.query {msg : String} {s : Stmt (Db ι) (Rec ι) β} {S : Db ι → β → Prop}
    (hs : ∀ db e, s db = some e → e.writes = [] ∧ S db e.answer) :
    ReadsOnly (query msg s) S := by
  intro tr w
  simp only [ensures_query, forall_eq', Tx.query_idle, Tx.record_idle, Tx.note_idle, Tx.land_idle,
    Tx.abort_idle]
  refine ⟨fun e he => ?_, trivial, .failed, trivial, fun _ h => by cases h⟩
  obtain ⟨hw, hS⟩ := hs _ _ he
  rw [hw]
  have hr : Reads tr (.committed [] :: .ran e.read :: tr) :=
    ⟨[.committed [], .ran e.read], rfl, by simp [Inert]⟩
  exact ⟨⟨hr, rfl⟩, trivial, hr, rfl, fun a h => by cases h; exact hS⟩

/-- A statement without writes whose failure is left to the handler. -/
theorem ReadsOnly.attempt {s : Stmt (Db ι) (Rec ι) β}
    (hs : ∀ db e, s db = some e → e.writes = []) :
    ReadsOnly (attempt s) fun _ _ => True := by
  intro tr w
  simp only [ensures_attempt, forall_eq', Tx.query_idle, Tx.record_idle, Tx.note_idle,
    Tx.land_idle, Tx.abort_idle]
  refine ⟨fun e he => ?_, trivial, .failed, trivial, fun _ _ => trivial⟩
  rw [hs _ _ he]
  have hr : Reads tr (.committed [] :: .ran e.read :: tr) :=
    ⟨[.committed [], .ran e.read], rfl, by simp [Inert]⟩
  exact ⟨⟨hr, rfl⟩, trivial, hr, rfl, fun _ _ => trivial⟩

/-- `fetch_optional` of a `SELECT`. -/
theorem ReadsOnly.fetchOptional {msg : String} {T : Table (Db ι) (Rec ι) τ} {p : τ → Bool} :
    ReadsOnly (fetchOptional msg (T.select p)) fun db o => o = ((T.rows db).filter p).head? := by
  refine .bind (.query (S := fun db rows => rows = (T.rows db).filter p) ?_) fun rows => ?_
  · rintro db e he
    cases he
    exact ⟨rfl, rfl⟩
  · refine (ReadsOnly.pure rows.head?).mono ?_
    rintro db o rfl rfl
    rfl

/-- The grant went through. -/
def granted (tenant ns object relation subject : String) : Event (Rec ι) (Call ι) (Reply ι) :=
  .called (.createRelationTuple tenant ns object relation subject) (.ok ())

/-- The grant was refused. -/
def refused (tenant ns object relation subject : String) (e : BackendError) :
    Event (Rec ι) (Call ι) (Reply ι) :=
  .called (.createRelationTuple tenant ns object relation subject) (.error e)

/-- The rule of a grant: `I` holds before each attempt. -/
theorem ensures_grantWithRetry
    {Q : Post (Db ι) (Rec ι) (Call ι) (Reply ι) (Backend ι) ConnectError Bool}
    {tenant ns object relation subject : String}
    (I : Trace (Rec ι) (Call ι) (Reply ι) → World (Db ι) (Backend ι) → Prop) (h : I tr w)
    (hrely : ∀ tr w w', I tr w → R tr w w' → I tr w')
    (hrefuse : ∀ tr w e, I tr w →
      G tr w (refused tenant ns object relation subject e :: tr) w ∧
      I (refused tenant ns object relation subject e :: tr) w)
    (hlose : ∀ tr w e, I tr w →
      G tr w (refused tenant ns object relation subject e :: tr)
        { w with ext := w.ext.create tenant ns object relation subject } ∧
      I (refused tenant ns object relation subject e :: tr)
        { w with ext := w.ext.create tenant ns object relation subject })
    (hdone : ∀ tr w, I tr w →
      G tr w (granted tenant ns object relation subject :: tr)
        { w with ext := w.ext.create tenant ns object relation subject } ∧
      Q (.ok true) tx (granted tenant ns object relation subject :: tr)
        { w with ext := w.ext.create tenant ns object relation subject })
    (hgive : ∀ tr w e, I (refused tenant ns object relation subject e :: tr) w →
      Q (.ok false) tx (refused tenant ns object relation subject e :: tr) w) :
    Ensures (kanban ι) R G Q (grantWithRetry tenant ns object relation subject) tx tr w := by
  have key : ∀ n tr w, I tr w →
      (n = 0 → ∃ e rest, tr = refused tenant ns object relation subject e :: rest) →
      Ensures (kanban ι) R G Q
        (grantWithRetry.attempt tenant ns object relation subject n) tx tr w := by
    intro n
    induction n with
    | zero =>
        intro tr w hI hlast
        obtain ⟨e, rest, rfl⟩ := hlast rfl
        exact hgive rest w e hI
    | succ n ih =>
        intro tr w hI _ w₁ hw m r hr
        have hI' := hrely tr w w₁ hI hw
        cases m with
        | done =>
            cases hr
            exact hdone tr w₁ hI'
        | refuse transient =>
            cases hr
            obtain ⟨hg, hI''⟩ := hrefuse tr w₁ ⟨transient⟩ hI'
            refine ⟨hg, ?_⟩
            cases transient with
            | true => exact ih _ _ hI'' fun _ => ⟨_, _, rfl⟩
            | false => exact hgive tr w₁ _ hI''
        | lose transient =>
            cases hr
            obtain ⟨hg, hI''⟩ := hlose tr w₁ ⟨transient⟩ hI'
            refine ⟨hg, ?_⟩
            cases transient with
            | true => exact ih _ _ hI'' fun _ => ⟨_, _, rfl⟩
            | false => exact hgive tr _ _ hI''
        | answer g => cases hr
        | page k => cases hr
        | resolved s => cases hr
        | fresh id => cases hr
  exact key maxRetries tr w h fun h0 => absurd h0 (by decide)

end Rules

/-! ## The request -/

/-- What the middleware leaves in a request; `now` is the time of its statements. -/
structure RequestContext where
  auth : Option AuthContext
  checked : Option String
  now : ℤ
  deriving DecidableEq, Repr

def checkedObjectId (ctx : RequestContext) : Handler ι String :=
  orError (internal "missing CheckedObjectId extension") ctx.checked

def subjectFromRequest (ctx : RequestContext) : Handler ι String :=
  orError (unauthenticated "missing auth context") (ctx.auth.bind AuthContext.subject)

def tenantIdFromRequest (ctx : RequestContext) : Handler ι String :=
  orError (unauthenticated "missing tenant context") (ctx.auth.bind AuthContext.tenantId)

/-- `tenant_client_for`: the client is the tenant whose store the calls go to. -/
def tenantClientFor (ctx : RequestContext) : Handler ι String :=
  (tenantIdFromRequest ctx).bind fun tenant =>
    .call (.tenantClient tenant) fun ok =>
      if ok then .pure tenant else .fail (internal "failed to build tenant permission client")

@[simp] theorem ensures_tenantClientFor [DecidableEq ι] {R : Rely (Db ι) (Rec ι) (Call ι) (Reply ι) (Backend ι)}
    {G : Guarantee (Db ι) (Rec ι) (Call ι) (Reply ι) (Backend ι)} {tx : Tx (Rec ι)}
    {tr : Trace (Rec ι) (Call ι) (Reply ι)} {w : World (Db ι) (Backend ι)}
    {Q : Post (Db ι) (Rec ι) (Call ι) (Reply ι) (Backend ι) ConnectError String}
    {ctx : RequestContext} :
    Ensures (kanban ι) R G Q (tenantClientFor ctx) tx tr w ↔
      Ensures (kanban ι) R G (fun r tx tr w => match r with
        | .ok tenant => ∀ w₁, R tr w w₁ → ∀ ok : Bool,
            G tr w₁ (.called (.tenantClient tenant) ok :: tr) w₁ ∧
            (if ok then Q (.ok tenant) tx (.called (.tenantClient tenant) ok :: tr) w₁
              else Q (.error (internal "failed to build tenant permission client")) tx
                (.called (.tenantClient tenant) ok :: tr) w₁)
        | .error e => Q (.error e) tx tr w) (tenantIdFromRequest ctx) tx tr w := by
  rw [tenantClientFor, ensures_bind]
  unfold tenantIdFromRequest
  cases htenant : ctx.auth.bind AuthContext.tenantId with
  | none => exact Iff.rfl
  | some tenant =>
      simp only [orError, Ensures, kanban]
      refine forall_congr' fun w₁ => forall_congr' fun _ => ?_
      constructor
      · intro h ok
        cases ok with
        | true => exact h .done _ rfl
        | false => exact h (.refuse true) _ rfl
      · intro h m r hr
        cases m with
        | done =>
            cases hr
            exact h true
        | refuse t =>
            cases hr
            exact h false
        | lose t => cases hr
        | answer g => cases hr
        | page k => cases hr
        | resolved s => cases hr
        | fresh id => cases hr

section Sequence

variable [DecidableEq ι] {R : Rely (Db ι) (Rec ι) (Call ι) (Reply ι) (Backend ι)}
  {G : Guarantee (Db ι) (Rec ι) (Call ι) (Reply ι) (Backend ι)} {tx : Tx (Rec ι)}
  {tr : Trace (Rec ι) (Call ι) (Reply ι)} {w : World (Db ι) (Backend ι)}
  {Q : Post (Db ι) (Rec ι) (Call ι) (Reply ι) (Backend ι) ConnectError β}

/-- The rest may use the condition that was checked. -/
theorem ensures_ensure_bind {p : Prop} [Decidable p] {e : ConnectError} {f : Unit → Handler ι β}
    (h : p → Ensures (kanban ι) R G Q (f ()) tx tr w) (herror : ¬ p → Q (.error e) tx tr w) :
    Ensures (kanban ι) R G Q ((ensure p e).bind f) tx tr w := by
  rw [ensures_bind, ensures_ensure]
  exact ⟨h, herror⟩

/-- The rest may use the value that was there. -/
theorem ensures_orError_bind {o : Option α} {e : ConnectError} {f : α → Handler ι β}
    (h : ∀ a, o = some a → Ensures (kanban ι) R G Q (f a) tx tr w)
    (herror : o = none → Q (.error e) tx tr w) :
    Ensures (kanban ι) R G Q ((orError e o).bind f) tx tr w := by
  rw [ensures_bind, ensures_orError]
  exact ⟨h, herror⟩

/-- The rest has the client of the caller's tenant. -/
theorem ensures_tenantClient_bind {ctx : RequestContext} {f : String → Handler ι β}
    (h : ∀ tenant, ctx.auth.bind AuthContext.tenantId = some tenant → ∀ w₁, R tr w w₁ →
      G tr w₁ (.called (.tenantClient tenant) true :: tr) w₁ ∧
      Ensures (kanban ι) R G Q (f tenant) tx (.called (.tenantClient tenant) true :: tr) w₁)
    (hfail : ∀ tenant, ctx.auth.bind AuthContext.tenantId = some tenant → ∀ w₁, R tr w w₁ →
      G tr w₁ (.called (.tenantClient tenant) false :: tr) w₁ ∧
      Q (.error (internal "failed to build tenant permission client")) tx
        (.called (.tenantClient tenant) false :: tr) w₁)
    (herror : ctx.auth.bind AuthContext.tenantId = none →
      Q (.error (unauthenticated "missing tenant context")) tx tr w) :
    Ensures (kanban ι) R G Q ((tenantClientFor ctx).bind f) tx tr w := by
  rw [ensures_bind, ensures_tenantClientFor, tenantIdFromRequest, ensures_orError]
  refine ⟨fun tenant htenant w₁ hw ok => ?_, herror⟩
  cases ok with
  | true => exact h tenant htenant w₁ hw
  | false => exact hfail tenant htenant w₁ hw

/-- The rest has the first row of a `SELECT` outside of a transaction. -/
theorem ensures_fetchOptional_bind {msg : String} {T : Table (Db ι) (Rec ι) τ} {p : τ → Bool}
    {f : Option τ → Handler ι β}
    (h : ∀ w₁, R tr w w₁ → G tr w₁
        (.committed [] :: .ran (((T.rows w₁.store).filter p).map T.record) :: tr) w₁ ∧
      Ensures (kanban ι) R G Q (f ((T.rows w₁.store).filter p).head?) .idle
        (.committed [] :: .ran (((T.rows w₁.store).filter p).map T.record) :: tr) w₁)
    (herror : ∀ w₁, R tr w w₁ → Q (.error (internal msg)) .idle (.failed :: tr) w₁) :
    Ensures (kanban ι) R G Q ((fetchOptional msg (T.select p)).bind f) .idle tr w := by
  rw [ensures_bind, fetchOptional, ensures_bind, ensures_query]
  intro w₁ hw
  refine ⟨?_, herror w₁ hw⟩
  rintro e ⟨⟩
  exact h w₁ hw

end Sequence

theorem ReadsOnly.tenantClientFor [DecidableEq ι] {ctx : RequestContext} :
    ReadsOnly (tenantClientFor ctx : Handler ι String) fun _ tenant =>
      ctx.auth.bind AuthContext.tenantId = some tenant := by
  intro tr w
  have hr : ∀ tenant ok, Reads tr (.called (.tenantClient tenant) ok :: tr) := fun tenant ok =>
    ⟨[.called (.tenantClient tenant) ok], rfl, by simp [Inert]⟩
  cases htenant : ctx.auth.bind AuthContext.tenantId with
  | none => simp [tenantIdFromRequest, htenant, Reads.refl]
  | some tenant =>
      simp only [ensures_tenantClientFor, tenantIdFromRequest, htenant, ensures_orError,
        Option.some.injEq, forall_eq', reduceCtorEq, false_implies, and_true]
      rintro ok
      refine ⟨hr tenant ok, ?_⟩
      cases ok <;> simp [hr tenant]

/-- `s.parse::<Id>()`. -/
def parseId (codec : IdCodec ι) (msg : String) (s : String) : Handler ι ι :=
  orError (invalidArgument msg) (codec.parse s)

/-- The ids of the examples are their own texts. -/
def textIds : IdCodec String where
  parse := some
  toString := id
  parse_toString s := Eq.refl (some s)

/-! ## `event_log` -/

section EventLog

variable [DecidableEq ι]

/-- A statement that reads and writes no table. -/
def pgNotify : Stmt (Db ι) (Rec ι) Unit := fun _ => some ⟨(), [], []⟩

/-- Insert the raw `event_log` row and notify the dispatcher. -/
def insertRow (tenantId : String) (boardId aggregatedBoardId projectId : Option ι)
    (eventType : String) (payload : Payload) : Handler ι Unit := do
  let id ← newId
  query "failed to insert event_log row" (Db.eventLogT.insert
    ⟨id, tenantId, boardId, aggregatedBoardId, projectId, eventType, payload⟩)
  query "failed to pg_notify event_log insert" pgNotify

/-- `with_board_revision`. -/
def withBoardRevision (payload : Payload) (revision : ℤ) : Payload :=
  payload ++ [("board_revision", .num revision)]

/-- Insert a board-scoped event; bumps `boards.revision`. -/
def insertBoardEvent (tenantId : String) (boardId : ι) (eventType : String)
    (payload : Payload) : Handler ι Unit := do
  let board ← fetchOne "failed to bump board revision"
    (Db.boardsT.update (fun b => b.id = boardId) fun b => { b with revision := b.revision + 1 })
  insertRow tenantId (some boardId) none none eventType
    (withBoardRevision payload board.revision)

/-- Insert an aggregated-board-scoped event; bumps `aggregated_boards.revision`. -/
def insertAggregatedEvent (tenantId : String) (aggregatedBoardId : ι) (eventType : String)
    (payload : Payload) : Handler ι Unit := do
  let board ← fetchOne "failed to bump aggregated board revision"
    (Db.aggregatedBoardsT.update (fun b => b.id = aggregatedBoardId)
      fun b => { b with revision := b.revision + 1 })
  insertRow tenantId none (some aggregatedBoardId) none eventType
    (withBoardRevision payload board.revision)

/-- Insert a project-scoped event. -/
def insertProjectEvent (tenantId : String) (projectId : ι) (eventType : String)
    (payload : Payload) : Handler ι Unit :=
  insertRow tenantId none none (some projectId) eventType payload

end EventLog

end Kanban.Rpc
