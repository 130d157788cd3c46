import Kanban.Lib.Pool
import Kanban.Rpc.Deletion

/-!
# The frame rule

A fact that every write of a handler leaves alone holds throughout, whatever the other calls do
that leave it alone too.

## Main definitions

* `Frame` — a fact about the world, and the writes that leave it alone.
* `Frame.Keeps` — a handler that makes only such writes.
* `Frame.holds_of_run` — the fact in a run of calls.
-/

namespace Kanban.Rpc

open Program Kanban.Store Kanban.Auth
open Kanban.Services (AuthContext ConnectError IdCodec)

/-- A fact about the world that survives the writes `ok`, new tuples and new ids. -/
structure Frame (ι : Type) [DecidableEq ι] where
  Holds : World (Db ι) (Backend ι) → Prop
  ok : Write (Rec ι) → Prop
  write : ∀ w a, ok a → Holds w → Holds { w with store := w.store.apply a }
  create : ∀ w tenant ns object relation subject, Holds w →
    Holds { w with ext := w.ext.create tenant ns object relation subject }
  issue : ∀ w id, Holds w → Holds { w with ext := { w.ext with issued := id :: w.ext.issued } }

namespace Frame

variable {ι α β : Type} [DecidableEq ι] (F : Frame ι)

/-- The other calls leave the fact alone. -/
def rely : Rely (Db ι) (Rec ι) (Call ι) (Reply ι) (Backend ι) := fun _ w w' => F.Holds w → F.Holds w'

/-- A step leaves the fact alone. -/
def guarantee : Guarantee (Db ι) (Rec ι) (Call ι) (Reply ι) (Backend ι) := fun _ w _ w' =>
  F.Holds w → F.Holds w'

/-- The writes that wait for a commit leave the fact alone. -/
def Pending : Tx (Rec ι) → Prop
  | .active ws => ∀ a ∈ ws, F.ok a
  | _ => True

/-- The fact holds, and goes on to hold after a commit. -/
def post : Post (Db ι) (Rec ι) (Call ι) (Reply ι) (Backend ι) ConnectError α := fun _ tx _ w =>
  F.Holds w ∧ F.Pending tx

/-- A handler that leaves the fact alone, inside of a transaction or outside. -/
def Keeps (p : Handler ι α) : Prop :=
  ∀ tx tr w, F.Pending tx → F.Holds w →
    Ensures (kanban ι) F.rely F.guarantee F.post p tx tr w

variable {F}

/-- Writes that leave the fact alone one by one leave it alone together. -/
theorem holds_applyAll {ws : List (Write (Rec ι))} {w : World (Db ι) (Backend ι)}
    (hws : ∀ a ∈ ws, F.ok a) (h : F.Holds w) :
    F.Holds { w with store := (kanban ι).applyAll w.store ws } := by
  induction ws generalizing w with
  | nil => exact h
  | cons a ws ih =>
      have ha := F.write w a (hws a List.mem_cons_self) h
      exact ih (fun b hb => hws b (List.mem_cons_of_mem _ hb)) ha

namespace Keeps

theorem pure {a : α} : F.Keeps (.pure a) := fun _ _ _ htx h => ⟨h, htx⟩

theorem fail {e : ConnectError} : F.Keeps (.fail e : Handler ι α) := fun _ _ _ htx h => ⟨h, htx⟩

theorem bind {p : Handler ι α} {f : α → Handler ι β} (hp : F.Keeps p) (hf : ∀ a, F.Keeps (f a)) :
    F.Keeps (p.bind f) := by
  intro tx tr w htx h
  rw [ensures_bind]
  refine (hp tx tr w htx h).post_mono ?_
  intro r tx' tr' w' ⟨h', htx'⟩
  cases r with
  | ok a => exact hf a tx' tr' w' htx' h'
  | error e => exact ⟨h', htx'⟩

/-- The rest may use the condition that was checked. -/
theorem ensure_bind {p : Prop} [Decidable p] {e : ConnectError} {f : Unit → Handler ι β}
    (hf : p → F.Keeps (f ())) : F.Keeps ((ensure p e).bind f) := by
  by_cases hp : p
  · simpa [ensure, hp, Prog.bind] using hf hp
  · simpa [ensure, hp, Prog.bind] using fail

/-- The rest may use the value that was there. -/
theorem orError_bind {o : Option α} {e : ConnectError} {f : α → Handler ι β}
    (hf : ∀ a, o = some a → F.Keeps (f a)) : F.Keeps ((orError e o).bind f) := by
  cases o with
  | none => exact fail
  | some a => exact hf a rfl

/-- A statement whose writes leave the fact alone where the fact holds. -/
theorem stmt_of_holds {s : Stmt (Db ι) (Rec ι) β} {k : Option β → Handler ι α}
    (hs : ∀ w e, F.Holds w → s w.store = some e → ∀ a ∈ e.writes, F.ok a)
    (hk : ∀ o, F.Keeps (k o)) : F.Keeps (.stmt s k) := by
  intro tx tr w htx h w₁ hw
  have h₁ := hw h
  cases tx with
  | idle =>
      refine ⟨fun e he => ?_, hk _ _ _ _ trivial h₁⟩
      have hland := holds_applyAll (hs _ e h₁ he) h₁
      exact ⟨fun _ => hland, hk _ _ _ _ trivial hland⟩
  | active ws =>
      refine ⟨fun e he => ⟨id, hk _ _ _ _ (fun a ha => ?_) h₁⟩, hk _ _ _ _ trivial h₁⟩
      rcases List.mem_append.mp ha with ha | ha
      · exact htx a ha
      · exact hs _ e (holds_applyAll htx h₁) he a ha
  | aborted => exact ⟨fun _ he => absurd he (by simp), hk _ _ _ _ trivial h₁⟩

/-- A statement whose writes leave the fact alone. -/
theorem stmt {s : Stmt (Db ι) (Rec ι) β} {k : Option β → Handler ι α}
    (hs : ∀ db e, s db = some e → ∀ a ∈ e.writes, F.ok a) (hk : ∀ o, F.Keeps (k o)) :
    F.Keeps (.stmt s k) := stmt_of_holds (fun _ e _ => hs _ e) hk

theorem query_of_holds {msg : String} {s : Stmt (Db ι) (Rec ι) β}
    (hs : ∀ w e, F.Holds w → s w.store = some e → ∀ a ∈ e.writes, F.ok a) :
    F.Keeps (query msg s) := by
  refine stmt_of_holds hs fun o => ?_
  cases o with
  | none => exact fail
  | some b => exact pure

theorem query {msg : String} {s : Stmt (Db ι) (Rec ι) β}
    (hs : ∀ db e, s db = some e → ∀ a ∈ e.writes, F.ok a) : F.Keeps (query msg s) :=
  query_of_holds fun _ e _ => hs _ e

theorem attempt {s : Stmt (Db ι) (Rec ι) β}
    (hs : ∀ db e, s db = some e → ∀ a ∈ e.writes, F.ok a) : F.Keeps (attempt s) :=
  stmt hs fun _ => pure

/-- `fetch_optional` of a `SELECT`. -/
theorem fetchOptional {τ : Type} {msg : String} {T : Table (Db ι) (Rec ι) τ} {p : τ → Bool} :
    F.Keeps (fetchOptional msg (T.select p)) :=
  bind (query fun db e he => by cases he; simp) fun _ => pure

theorem beginTx {msg : String} : F.Keeps (beginTx msg : Handler ι Unit) := by
  intro tx tr w _ h w₁ hw
  exact ⟨⟨hw h, fun _ ha => by cases ha⟩, hw h, trivial⟩

theorem commitTx {msg : String} : F.Keeps (commitTx msg : Handler ι Unit) := by
  intro tx tr w htx h w₁ hw
  have h₁ := hw h
  refine ⟨?_, h₁, trivial⟩
  cases tx with
  | active ws => exact ⟨holds_applyAll htx, holds_applyAll htx h₁, trivial⟩
  | idle => exact ⟨h₁, trivial⟩
  | aborted => exact ⟨h₁, trivial⟩

theorem newId : F.Keeps (newId : Handler ι ι) := by
  intro tx tr w htx h
  rw [ensures_newId]
  intro w₁ hw id _
  have h₁ := F.issue w₁ id (hw h)
  exact ⟨fun _ => h₁, h₁, htx⟩

/-- The client is the caller's tenant. -/
theorem tenantClientFor_bind {ctx : RequestContext} {f : String → Handler ι β}
    (hf : ∀ tenant, ctx.auth.bind AuthContext.tenantId = some tenant → F.Keeps (f tenant)) :
    F.Keeps ((tenantClientFor ctx).bind f) := by
  intro tx tr w htx h
  rw [ensures_bind, ensures_tenantClientFor, tenantIdFromRequest, ensures_orError]
  refine ⟨fun tenant htenant w₁ hw ok => ⟨id, ?_⟩, fun _ => ⟨h, htx⟩⟩
  cases ok with
  | true => exact hf tenant htenant tx _ w₁ htx (hw h)
  | false => exact ⟨hw h, htx⟩

theorem grantWithRetry {tenant ns object relation subject : String} :
    F.Keeps (grantWithRetry tenant ns object relation subject) := by
  intro tx tr w htx h
  refine ensures_grantWithRetry (fun _ w => F.Holds w) h ?_ ?_ ?_ ?_ ?_
  · exact fun _ _ _ h hw => hw h
  · exact fun _ _ _ h => ⟨id, h⟩
  · exact fun _ w _ h => ⟨fun _ => F.create w _ _ _ _ _ h, F.create w _ _ _ _ _ h⟩
  · exact fun _ w h => ⟨fun _ => F.create w _ _ _ _ _ h, F.create w _ _ _ _ _ h, htx⟩
  · exact fun _ _ _ h => ⟨h, htx⟩

/-- A deletion keeps the fact when every tuple it can list is safe to delete. -/
theorem deleteRelationTuples {pages : ℕ} {filter : TupleFilter} {subject : Option String}
    (safe : RelationTuple → Prop)
    (hsafe : ∀ w t, F.Holds w → t ∈ w.ext.tuples → targeted filter subject t → safe t)
    (hdelete : ∀ w t, safe t → F.Holds w → F.Holds (dropTuple w t.id)) :
    F.Keeps (deleteRelationTuples pages filter subject) := by
  intro tx tr w htx h
  refine ensures_deleteRelationTuples (fun _ w => F.Holds w) safe h ?_ ?_ ?_ ?_ ?_
  · exact fun _ _ _ h hw => hw h
  · exact fun _ w t h => hsafe w t h
  · exact fun _ _ _ _ h => ⟨id, h⟩
  · rintro tr w t ok w' ht h (rfl | rfl)
    · exact ⟨id, h⟩
    · exact ⟨fun _ => hdelete w t ht h, hdelete w t ht h⟩
  · exact fun _ _ _ h => ⟨h, htx⟩

theorem orError {o : Option α} {e : ConnectError} : F.Keeps (orError e o : Handler ι α) := by
  cases o with
  | none => exact fail
  | some a => exact pure

theorem ensure {p : Prop} [Decidable p] {e : ConnectError} :
    F.Keeps (ensure p e : Handler ι Unit) := by
  unfold Rpc.ensure
  split
  · exact pure
  · exact fail

/-- A `SELECT` writes nothing. -/
theorem select {τ : Type} {msg : String} {T : Table (Db ι) (Rec ι) τ} {p : τ → Bool} :
    F.Keeps (Rpc.query msg (T.select p)) :=
  query fun db e he => by cases he; simp

theorem checkPermissionWithRetry {tenant : String} {q : Services.PermissionQuery} :
    F.Keeps (checkPermissionWithRetry tenant q : Handler ι (Option Bool)) := by
  have key : ∀ n, F.Keeps
      (Auth.checkPermissionWithRetry.attempt tenant q n : Handler ι (Option Bool)) := by
    intro n
    induction n with
    | zero => exact pure
    | succ n ih =>
        intro tx tr w htx h w₁ hw m r hr
        have h₁ := hw h
        have hext : r.2 = w₁.ext := by
          cases m <;> cases hr <;> rfl
        rw [hext]
        refine ⟨id, ?_⟩
        cases r.1 with
        | ok granted => exact pure tx _ _ htx h₁
        | error e =>
            dsimp only
            split
            · exact ih tx _ _ htx h₁
            · exact pure tx _ _ htx h₁
  exact key maxRetries

/-- An event of a project is one row of `event_log`. -/
theorem insertProjectEvent {tenantId : String} {projectId : ι} {eventType : String}
    {payload : Payload} (hok : ∀ r, F.ok (.put (.event r))) :
    F.Keeps (insertProjectEvent tenantId projectId eventType payload) := by
  refine bind newId fun id => bind (query fun db e he a ha => ?_) fun _ =>
    query fun db e he a ha => ?_
  · unfold Table.insert at he
    split at he
    · cases he
    · cases he
      rw [List.mem_singleton.mp ha]
      exact hok _
  · cases he
    cases ha

end Keeps

/-- **The frame rule of a pool.**  The fact holds throughout if the calls of a kind leave it alone,
and so does each step of another call that the condition lets through. -/
theorem holds_of_run {κ : Type} {handler : κ → Handler ι α} {Mild : κ → Prop}
    {C : Pool κ (Db ι) (Rec ι) (Call ι) (Reply ι) (Backend ι) ConnectError α → Turn κ (Move ι) → Prop}
    {P₀ P : Pool κ (Db ι) (Rec ι) (Call ι) (Reply ι) (Backend ι) ConnectError α}
    {turns : List (Turn κ (Move ι))} (hspec : ∀ q, Mild q → F.Keeps (handler q))
    (hwild : ∀ P i b q t t' w', F.Holds P.world → C P (.act i b) → P.calls[i]? = some (q, t) →
      ¬ Mild q → Thread.step (kanban ι) (t, P.world) b = some (t', w') → F.Holds w')
    (hrun : Machine.ExecWhile (Pool.step (kanban ι) handler) C P₀ turns P) (h₀ : P₀.calls = [])
    (hF : F.Holds P₀.world) : F.Holds P.world := by
  refine (hrun.invariant (fun P => F.Holds P.world ∧ ∀ c ∈ P.calls, Mild c.1 → ∃ w,
    c.2.Meets (kanban ι) F.rely F.guarantee F.post w) ⟨hF, fun c hc => ?_⟩ ?_).1
  · rw [h₀] at hc
    cases hc
  rintro P a P' ⟨hF, hcalls⟩ hC hs
  rcases Pool.step_cases hs with ⟨q, rfl, rfl⟩ | ⟨i, b, q, t, t', w', rfl, hi, hst, rfl⟩ |
    ⟨i, c, rfl, -, -, rfl⟩
  · refine ⟨hF, fun c hc hmild => ?_⟩
    rcases List.mem_append.mp hc with hc | hc
    · exact hcalls c hc hmild
    · rw [List.mem_singleton.mp hc] at hmild ⊢
      exact ⟨P.world, hspec q hmild .idle [] P.world trivial hF⟩
  · have hacts : F.Holds w' ∧ (Mild q → ∃ w, t'.Meets (kanban ι) F.rely F.guarantee F.post w) := by
      by_cases hmild : Mild q
      · obtain ⟨w, hm⟩ := hcalls _ (List.mem_of_getElem? hi) hmild
        obtain ⟨hm', hstep⟩ := hm.step (fun _ => hF) hst
        refine ⟨?_, fun _ => ⟨w', hm'⟩⟩
        rcases hstep with ⟨-, rfl⟩ | hg
        · exact hF
        · exact hg hF
      · exact ⟨hwild P i b q t t' w' hF hC hi hmild hst, fun h => absurd h hmild⟩
    refine ⟨hacts.1, fun c hc hmild => ?_⟩
    rcases List.mem_or_eq_of_mem_set hc with hc | rfl
    · exact hcalls c hc hmild
    · exact hacts.2 hmild
  · exact ⟨hF, fun c hc hmild => hcalls c (List.mem_of_mem_eraseIdx hc) hmild⟩

end Frame

end Kanban.Rpc
