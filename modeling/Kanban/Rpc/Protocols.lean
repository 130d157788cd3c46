import Kanban.Lib.Protocol
import Kanban.Rpc.Cards

/-!
# Protocols of the handlers

The rules of `Protocol.Keeps` for what the handlers are made of: statements with their errors,
transactions, and the calls of the permission client.

## Main definitions

* `Anything`, `NoTx` — nothing is known, and no transaction is open.
* `Protocol.Keeps.query`, `Protocol.Keeps.newId`, … — the rules.
-/

namespace Program.Protocol

open Kanban.Rpc Kanban.Store Kanban.Auth
open Kanban.Services (AuthContext ConnectError IdCodec)

/-- Nothing is known. -/
def Anything {ρ Call : Type} {Reply : Call → Type} : Known ρ Call Reply := fun _ _ => True

/-- No transaction is open. -/
def NoTx {ρ Call : Type} {Reply : Call → Type} : Known ρ Call Reply := fun tx _ => tx = .idle

variable {ι α β τ : Type} [DecidableEq ι] {K : Protocol (kanban ι)}
  {F : Known (Rec ι) (Call ι) (Reply ι)}

namespace Keeps

/-- What is known of the answer is forgotten. -/
theorem forget {p : Handler ι α} {B : α → Known (Rec ι) (Call ι) (Reply ι)} (h : K.Keeps F p B) :
    K.Keeps F p fun _ => Anything := h.mono (fun _ _ h => h) fun _ _ _ _ => trivial

section Values

variable {B : β → Known (Rec ι) (Call ι) (Reply ι)}

/-- The rest may use the condition that was checked. -/
theorem ensure_bind {p : Prop} [Decidable p] {e : ConnectError} {f : Unit → Handler ι β}
    (hf : p → K.Keeps F (f ()) B) : K.Keeps F ((ensure p e).bind f) B := by
  by_cases hp : p
  · simpa [ensure, hp, Prog.bind] using hf hp
  · simpa [ensure, hp, Prog.bind] using fail

/-- The rest may use the value that was there. -/
theorem orError_bind {o : Option α} {e : ConnectError} {f : α → Handler ι β}
    (hf : ∀ a, o = some a → K.Keeps F (f a) B) : K.Keeps F ((orError e o).bind f) B := by
  cases o with
  | none => exact fail
  | some a => exact hf a rfl

end Values

section Statements

variable {F₁ : β → Known (Rec ι) (Call ι) (Reply ι)} {msg : String} {s : Stmt (Db ι) (Rec ι) β}

theorem query (hs : K.Step F s F₁) : K.Keeps F (query msg s) F₁ :=
  stmt hs (fun _ => pure fun _ _ h => h) fail

/-- After a failure the transaction is aborted, and only what holds of a failure is known. -/
theorem attempt {F₂ : Known (Rec ι) (Call ι) (Reply ι)} (hs : K.Step F s F₁)
    (hok : ∀ b tx tr, F₁ b tx tr → F₂ tx tr)
    (hfail : ∀ tx tr, F tx tr → F₂ tx.abort (.failed :: tr)) :
    K.Keeps F (attempt s) fun _ => F₂ := by
  refine stmt hs (fun b => pure fun tx tr => hok b tx tr) (pure ?_)
  rintro tx tr ⟨tx', tr', hF, rfl, rfl⟩
  exact hfail tx' tr' hF

theorem fetchOptional {s : Stmt (Db ι) (Rec ι) (List τ)}
    {F₁ : List τ → Known (Rec ι) (Call ι) (Reply ι)} (hs : K.Step F s F₁) :
    K.Keeps F (fetchOptional msg s) fun o tx tr => ∃ rows, o = rows.head? ∧ F₁ rows tx tr :=
  (query hs).bind fun rows => pure fun _ _ h => ⟨rows, rfl, h⟩

/-- The first row of an answer, if it has one. -/
theorem fetchOr {e : ConnectError} {s : Stmt (Db ι) (Rec ι) (List τ)}
    {F₁ : List τ → Known (Rec ι) (Call ι) (Reply ι)} (hs : K.Step F s F₁) :
    K.Keeps F (fetchOr msg e s) fun row tx tr => ∃ rows, rows.head? = some row ∧ F₁ rows tx tr := by
  refine (fetchOptional hs).bind fun o => ?_
  cases o with
  | none => exact fail
  | some row => exact pure fun _ _ ⟨rows, hrow, h⟩ => ⟨rows, hrow.symm, h⟩

theorem fetchOne {s : Stmt (Db ι) (Rec ι) (List τ)}
    {F₁ : List τ → Known (Rec ι) (Call ι) (Reply ι)} (hs : K.Step F s F₁) :
    K.Keeps F (fetchOne msg s) fun row tx tr => ∃ rows, rows.head? = some row ∧ F₁ rows tx tr := by
  refine (query hs).bind fun rows => ?_
  cases hrow : rows.head? with
  | none => exact fail
  | some row => exact pure fun _ _ h => ⟨rows, hrow, h⟩

end Statements

section Transactions

variable {msg : String}

theorem beginTx (hF : ∀ tx tr, F tx tr → tx = .idle) :
    K.Keeps F (beginTx msg) fun _ tx tr => tx = .active [] ∧ F .idle tr :=
  begin hF (pure fun _ _ h => h) fail

theorem commitTx {F₁ : Known (Rec ι) (Call ι) (Reply ι)}
    (hactive : ∀ ws tr, F (.active ws) tr → F₁ .idle (.committed ws :: tr))
    (hother : ∀ tr, F .idle tr ∨ F .aborted tr → F₁ .idle tr) :
    K.Keeps F (commitTx msg) fun _ => F₁ :=
  commit hactive hother (pure fun _ _ h => h) fail

end Transactions

section Calls

/-- `Id::new()`: the id was issued to this call. -/
theorem newId (h : K.Asks F .newId) :
    K.Keeps F newId fun id tx tr => F tx tr ∧ ∃ tr', tr = .called .newId id :: tr' := by
  refine call ?_ fun id => pure fun _ _ h => h
  intro tx tr w m r hF hI hr
  obtain ⟨hg, hI', hF'⟩ := h tx tr w m r hF hI hr
  exact ⟨hg, hI', hF', tr, rfl⟩

/-- The rest has the client of the caller's tenant. -/
theorem tenantClientFor_bind {B : β → Known (Rec ι) (Call ι) (Reply ι)} {ctx : RequestContext}
    {f : String → Handler ι β} (h : ∀ tenant, K.Asks F (.tenantClient tenant))
    (hf : ∀ tenant, ctx.auth.bind AuthContext.tenantId = some tenant → K.Keeps F (f tenant) B) :
    K.Keeps F ((tenantClientFor ctx).bind f) B := by
  unfold tenantClientFor tenantIdFromRequest
  rw [Prog.bind_assoc]
  refine orError_bind fun tenant htenant => ask (h tenant) fun ok => ?_
  cases ok with
  | true => exact hf tenant htenant
  | false => exact fail

theorem grantWithRetry {tenant ns object relation subject : String}
    (h : K.Asks F (.createRelationTuple tenant ns object relation subject)) :
    K.Keeps F (grantWithRetry tenant ns object relation subject) fun _ => F := by
  unfold Kanban.Auth.grantWithRetry
  generalize maxRetries = n
  induction n with
  | zero => exact pure fun _ _ h => h
  | succ n ih =>
      refine ask h fun r => ?_
      cases r with
      | ok u => exact pure fun _ _ h => h
      | error e =>
          obtain ⟨transient⟩ := e
          cases transient with
          | true => exact ih
          | false => exact pure fun _ _ h => h

theorem checkPermissionWithRetry {tenant : String} {query : Kanban.Services.PermissionQuery}
    (h : K.Asks F (.checkPermission tenant query)) :
    K.Keeps F (checkPermissionWithRetry tenant query) fun _ => F := by
  unfold Kanban.Auth.checkPermissionWithRetry
  generalize maxRetries = n
  induction n with
  | zero => exact pure fun _ _ h => h
  | succ n ih =>
      refine ask h fun r => ?_
      cases r with
      | ok granted => exact pure fun _ _ h => h
      | error e =>
          obtain ⟨transient⟩ := e
          cases transient with
          | true => exact ih
          | false => exact pure fun _ _ h => h

end Calls

/-! ## Renamed errors -/

theorem mapError {ε ε' : Type} {f : ε → ε'}
    {p : Prog (Db ι) (Rec ι) (Call ι) (Reply ι) ε α}
    {B : α → Known (Rec ι) (Call ι) (Reply ι)} (h : K.Keeps F p B) :
    K.Keeps F (p.mapError f) B := by
  intro tx tr w hF hI
  rw [ensures_mapError]
  refine (h tx tr w hF hI).post_mono ?_
  rintro r tx tr w ⟨hI, hr⟩
  refine ⟨hI, fun a ha => hr a ?_⟩
  cases r with
  | ok b =>
      cases ha
      rfl
  | error e => cases ha

end Keeps

end Program.Protocol
