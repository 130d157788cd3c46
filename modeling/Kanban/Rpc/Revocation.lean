import Kanban.Rpc.MemberSync

/-!
# Revocation

RemoveMember and AddMember only log a deletion of tuples that failed, and go on.

## Main results

* `memberCall_revokes` — when a call that returned `Ok` has taken the roles away that it should.
-/

namespace Kanban.Rpc

open Program Kanban.Store Kanban.Auth
open Kanban.Services (AuthContext ConnectError IdCodec)

variable {ι : Type} [DecidableEq ι]

/-- A deletion of tuples has failed. -/
def Interrupted (tr : Trace (Rec ι) (Call ι) (Reply ι)) : Prop := ∃ e ∈ tr, DeletionFailed e

/-- If the step is a failure of the deletion, `gone` holds after it. -/
def Harmless {α : Type} (gone : World (Db ι) (Backend ι) → Prop)
    (c : Thread (Db ι) (Rec ι) (Call ι) (Reply ι) ConnectError α × World (Db ι) (Backend ι))
    (a : Act (Move ι)) : Prop :=
  ∀ t' w', Thread.step (kanban ι) c a = some (t', w') → ∀ e, t'.trace = e :: c.1.trace →
    DeletionFailed e → gone w'

/-- After a failed deletion nothing changes what is gone, and no deletion is tried again. -/
def Frozen (gone : World (Db ι) (Backend ι) → Prop) :
    Guarantee (Db ι) (Rec ι) (Call ι) (Reply ι) (Backend ι) := fun tr w tr' w' =>
  Interrupted tr → (gone w ↔ gone w') ∧ ∀ e, tr' = e :: tr → ¬ DeletionFailed e

variable {α : Type} {gone : World (Db ι) (Backend ι) → Prop} {tx : Tx (Rec ι)}
  {tr tr' : Trace (Rec ι) (Call ι) (Reply ι)} {w w' : World (Db ι) (Backend ι)}

omit [DecidableEq ι] in
theorem interrupted_cons {e : Event (Rec ι) (Call ι) (Reply ι)} :
    Interrupted (e :: tr) ↔ DeletionFailed e ∨ Interrupted tr := by
  simp [Interrupted]

/-- In a run that is frozen by its first failed deletion, what should be gone is gone after a
failure exactly when the failure was harmless. -/
theorem interrupted_iff {p : Handler ι α}
    {Q : Post (Db ι) (Rec ι) (Call ι) (Reply ι) (Backend ι) ConnectError α}
    (h : Ensures (kanban ι) Alone (Frozen gone) Q p .idle [] w)
    {t : Thread (Db ι) (Rec ι) (Call ι) (Reply ι) ConnectError α} {acts : List (Act (Move ι))}
    (hrun : Machine.Exec (Thread.step (kanban ι)) (Thread.start p, w) acts (t, w')) :
    (Interrupted t.trace → gone w') ↔
      Machine.ExecWhile (Thread.step (kanban ι)) (Harmless gone) (Thread.start p, w) acts
        (t, w') := by
  refine hrun.iff_execWhile (I := fun c => c.1.Meets (kanban ι) Alone (Frozen gone) Q c.2)
    (P := fun c => Interrupted c.1.trace → gone c.2) h (fun c a c' hm hs => (hm.step rfl hs).1)
    (fun ⟨_, hmem, _⟩ => absurd hmem List.not_mem_nil) ?_
  rintro ⟨t, w⟩ a ⟨t', w'⟩ hm hs
  have hlonger : ∀ e l, (e :: l : Trace (Rec ι) (Call ι) (Reply ι)) ≠ l := fun e l h =>
    absurd (congrArg List.length h) (by simp)
  rcases (hm.step rfl hs).2 with ⟨htr | htr, rfl⟩ | hg
  · dsimp only at htr ⊢
    rw [htr]
    refine ⟨fun h => ⟨h, ?_⟩, fun h => h.1⟩
    rintro t₂ w₂ hs₂ e he
    rw [hs] at hs₂
    cases hs₂
    exact absurd (he.symm.trans htr) (hlonger _ _)
  · dsimp only at htr ⊢
    rw [htr, interrupted_cons]
    refine ⟨fun h => ⟨fun hi => h (.inr hi), ?_⟩, fun h hi => h.1 (hi.resolve_left id)⟩
    rintro t₂ w₂ hs₂ e he hd
    rw [hs] at hs₂
    cases hs₂
    obtain rfl := (List.cons.inj (htr.symm.trans he)).1
    exact hd.elim
  · by_cases hi : Interrupted t.trace
    · obtain ⟨hiff, hno⟩ := hg hi
      have hi' : Interrupted t'.trace := by
        obtain ⟨e, he, hd⟩ := hi
        exact ⟨e, (Thread.trace_of_step hs).subset he, hd⟩
      refine ⟨fun h => ⟨fun _ => hiff.mpr (h hi'), ?_⟩, fun h _ => hiff.mp (h.1 hi)⟩
      rintro t₂ w₂ hs₂ e he hd
      rw [hs] at hs₂
      cases hs₂
      exact absurd hd (hno e he)
    · refine ⟨fun h => ⟨fun hi' => absurd hi' hi, ?_⟩, fun h hi' => ?_⟩
      · rintro t₂ w₂ hs₂ e he hd
        rw [hs] at hs₂
        cases hs₂
        refine h ?_
        dsimp only
        rw [he, interrupted_cons]
        exact .inl hd
      · dsimp only at hi'
        rcases Thread.trace_cases hs with htr | ⟨e, htr⟩ | ⟨writes, read, htr⟩
        · rw [htr] at hi'
          exact absurd hi' hi
        · rw [htr, interrupted_cons] at hi'
          exact h.2 t' w' hs e htr (hi'.resolve_right hi)
        · rw [htr, interrupted_cons, interrupted_cons] at hi'
          exact absurd ((hi'.resolve_left id).resolve_left id) hi

/-! ## Programs that leave the tuples alone -/

/-- A program that asks the services for nothing but ids. -/
def Local : Handler ι α → Prop
  | .pure _ => True
  | .fail _ => True
  | .stmt _ k => ∀ b, Local (k b)
  | .begin k => ∀ ok, Local (k ok)
  | .commit k => ∀ ok, Local (k ok)
  | .call .newId k => ∀ id, Local (k id)
  | .call _ _ => False

omit [DecidableEq ι] in
theorem Local.bind {β : Type} {p : Handler ι α} {f : α → Handler ι β} (hp : Local p)
    (hf : ∀ a, Local (f a)) : Local (p.bind f) := by
  induction p with
  | pure a => exact hf a
  | fail e => trivial
  | stmt s k ih => exact fun b => ih b (hp b)
  | begin k ih => exact fun ok => ih ok (hp ok)
  | commit k ih => exact fun ok => ih ok (hp ok)
  | call c k ih =>
      cases c with
      | newId => exact fun id => ih id (hp id)
      | _ => exact hp.elim

omit [DecidableEq ι] in
theorem Local.ensure {p : Prop} [Decidable p] {e : ConnectError} :
    Local (ensure p e : Handler ι Unit) := by
  unfold Kanban.Rpc.ensure
  split
  · trivial
  · trivial

omit [DecidableEq ι] in
theorem Local.query {β : Type} {msg : String} {s : Stmt (Db ι) (Rec ι) β} :
    Local (query msg s) := by
  intro b
  cases b with
  | none => trivial
  | some b => trivial

omit [DecidableEq ι] in
theorem Local.attempt {β : Type} {s : Stmt (Db ι) (Rec ι) β} : Local (attempt s) := fun _ => trivial

omit [DecidableEq ι] in
theorem Local.beginTx {msg : String} : Local (beginTx msg : Handler ι Unit) := by
  intro ok
  cases ok with
  | true => trivial
  | false => trivial

omit [DecidableEq ι] in
theorem Local.commitTx {msg : String} : Local (commitTx msg : Handler ι Unit) := by
  intro ok
  cases ok with
  | true => trivial
  | false => trivial

theorem Local.insertProjectEvent {tenantId eventType : String} {projectId : ι}
    {payload : Payload} : Local (insertProjectEvent tenantId projectId eventType payload) :=
  Local.bind (fun _ => trivial) fun _ => Local.query.bind fun _ => Local.query

/-- What depends on the tuples and the failed deletions only survives a local program. -/
theorem Local.ensures {p : Handler ι α} (hp : Local p)
    (K : Trace (Rec ι) (Call ι) (Reply ι) → World (Db ι) (Backend ι) → Prop)
    (hK : ∀ tr w e w', K tr w → ¬ DeletionFailed e → w'.ext.tuples = w.ext.tuples →
      K (e :: tr) w')
    (hgone : ∀ w w', w'.ext.tuples = w.ext.tuples → (gone w ↔ gone w')) (h : K tr w) :
    Ensures (kanban ι) Alone (Frozen gone) (fun _ _ tr w => K tr w) p tx tr w := by
  have hstep : ∀ (e : Event (Rec ι) (Call ι) (Reply ι)) {tr : Trace (Rec ι) (Call ι) (Reply ι)} {w}
      (w' : World (Db ι) (Backend ι)), K tr w → ¬ DeletionFailed e →
      w'.ext.tuples = w.ext.tuples → Frozen gone tr w (e :: tr) w' ∧ K (e :: tr) w' := by
    intro e tr w w' h he htuples
    refine ⟨fun _ => ⟨hgone w w' htuples, ?_⟩, hK tr w e w' h he htuples⟩
    intro e' he'
    rwa [← (List.cons.inj he').1]
  induction p generalizing tx tr w with
  | pure a => exact h
  | fail e => exact h
  | stmt s k ih =>
      rintro w₁ rfl
      refine ⟨fun e _ => ?_, ih _ (hp _) (hK _ _ _ _ h id rfl)⟩
      obtain ⟨hg, hran⟩ := hstep (.ran e.read) w h id rfl
      cases tx with
      | idle =>
          obtain ⟨-, hcommitted⟩ := hstep (.committed e.writes)
            { w with store := (kanban ι).applyAll w.store e.writes } hran id rfl
          refine ⟨fun hi => ?_, ih _ (hp _) hcommitted⟩
          refine ⟨hgone _ _ rfl, fun e' he' => ?_⟩
          exact absurd (congrArg List.length he') (by simp)
      | active ws => exact ⟨hg, ih _ (hp _) hran⟩
      | aborted => exact ⟨hg, ih _ (hp _) hran⟩
  | begin k ih =>
      rintro w₁ rfl
      exact ⟨ih _ (hp _) h, ih _ (hp _) (hK _ _ _ _ h id rfl)⟩
  | commit k ih =>
      rintro w₁ rfl
      refine ⟨?_, ih _ (hp _) (hK _ _ _ _ h id rfl)⟩
      cases tx with
      | active ws =>
          obtain ⟨hg, hcommitted⟩ := hstep (.committed ws)
            { w with store := (kanban ι).applyAll w.store ws } h id rfl
          exact ⟨hg, ih _ (hp _) hcommitted⟩
      | idle => exact ih _ (hp _) h
      | aborted => exact ih _ (hp _) h
  | call c k ih =>
      cases c with
      | newId =>
          rintro w₁ rfl m r hr
          have htuples : r.2.tuples = w.ext.tuples := by
            cases m with
            | fresh id =>
                simp only [kanban, react] at hr
                split at hr
                · cases hr
                · cases hr
                  rfl
            | _ => cases hr
          obtain ⟨hg, hk⟩ := hstep (.called .newId r.1) { w with ext := r.2 } h id htuples
          exact ⟨hg, ih _ (hp _) hk⟩
      | _ => exact hp.elim

/-! ## The calls -/

section Calls

variable {codec : IdCodec ι} {M : Membership ι} {ctx : RequestContext} {pages : ℕ}

/-- What a call that returned `Ok` should have achieved: RemoveMember leaves no role, AddMember
leaves the new role alone. -/
def Revoked (codec : IdCodec ι) (M : Membership ι) (w' : World (Db ι) (Backend ι)) :
    MemberCall → Prop
  | .add req => req.relation ∈ M.roles codec w'.ext ∧
      ∀ r ∈ M.roles codec w'.ext, r = req.relation
  | .remove _ => M.roles codec w'.ext = []

/-- The call changes the role of a member, or removes one. -/
def ChangesRole (M : Membership ι) (w : World (Db ι) (Backend ι)) : MemberCall → Prop
  | .add req => ∃ old, M.rows w.store = [M.row old] ∧ old ≠ req.relation
  | .remove _ => True

/-- Before the call the subject holds no role but the mirrored one and the new one. -/
def NoDrift (codec : IdCodec ι) (M : Membership ι) (w : World (Db ι) (Backend ι)) :
    MemberCall → Prop
  | .add req => ∀ r ∈ M.roles codec w.ext, M.row r ∈ M.rows w.store ∨ r = req.relation
  | .remove _ => True

/-- The roles that the call takes away are gone: the mirrored one, or all. -/
def Gone (codec : IdCodec ι) (M : Membership ι) (w : World (Db ι) (Backend ι))
    (w' : World (Db ι) (Backend ι)) : MemberCall → Prop
  | .add _ => ∀ r, M.row r ∈ M.rows w.store → r ∉ M.roles codec w'.ext
  | .remove _ => M.roles codec w'.ext = []

/-- What every call on the membership begins with, when it runs alone. -/
theorem ensures_memberCall_alone {body : String → ι → String → Handler ι Unit}
    {Q : Post (Db ι) (Rec ι) (Call ι) (Reply ι) (Backend ι) ConnectError Unit}
    (htenant : ctx.auth.bind AuthContext.tenantId = some M.tenantId)
    (hproject : ctx.checked.bind codec.parse = some M.projectId)
    (herror : ∀ e tr, Q (.error e) .idle tr w)
    (hbody : ∀ tr, ¬ Interrupted tr → Ensures (kanban ι) Alone (Frozen gone) Q
      (body M.tenantId M.projectId M.tenantId) .idle tr w) :
    Ensures (kanban ι) Alone (Frozen gone) Q
      (do
        let objectId ← checkedObjectId ctx
        let tenantId ← tenantIdFromRequest ctx
        let projectId ← parseId codec "invalid project_id" objectId
        let permission ← tenantClientFor ctx
        body tenantId projectId permission) .idle [] w := by
  have hnil : ¬ Interrupted ([] : Trace (Rec ι) (Call ι) (Reply ι)) := fun ⟨_, h, _⟩ =>
    List.not_mem_nil h
  refine ensures_orError_bind (fun objectId hobjectId => ?_) fun _ => herror _ _
  refine ensures_orError_bind (fun tenantId htenantId => ?_) fun _ => herror _ _
  refine ensures_orError_bind (fun projectId hprojectId => ?_) fun _ => herror _ _
  obtain rfl : M.tenantId = tenantId := Option.some.inj (htenant.symm.trans htenantId)
  obtain rfl : M.projectId = projectId := by
    rw [hobjectId, Option.bind_some, hprojectId] at hproject
    exact (Option.some.inj hproject).symm
  refine ensures_tenantClient_bind (fun tenant htenant' w₁ hw => ?_) (fun tenant _ w₁ hw => ?_)
    fun _ => herror _ _
  · obtain rfl : M.tenantId = tenant := Option.some.inj (htenant.symm.trans htenant')
    cases hw
    refine ⟨fun hi => absurd hi hnil, hbody _ fun hi => ?_⟩
    exact hnil ((interrupted_cons.mp hi).resolve_left id)
  · cases hw
    exact ⟨fun hi => absurd hi hnil, herror _ _⟩

/-- The deletion of the subject's tuples, of one role or of all, when the call runs alone. -/
theorem ensures_deleteRoles_alone {relation : Option String}
    {Q : Post (Db ι) (Rec ι) (Call ι) (Reply ι) (Backend ι) ConnectError Bool}
    (h : ¬ Interrupted tr)
    (hdone : ∀ tr w', ¬ Interrupted tr → w'.store = w.store →
      M.roles codec w'.ext = (M.roles codec w.ext).filter (fun r => !relation.all (r = ·)) →
      Q (.ok true) tx tr w')
    (hfail : ∀ tr w', Interrupted tr → w'.store = w.store →
      (∀ r, ¬ relation.all (r = ·) → (r ∈ M.roles codec w'.ext ↔ r ∈ M.roles codec w.ext)) →
      Q (.ok false) tx tr w') :
    Ensures (kanban ι) Alone (Frozen gone) Q
      (deleteRelationTuples pages (projectTuples codec M.tenantId M.projectId relation)
        (some M.subject)) tx tr w := by
  refine ensures_deleteRelationTuples_exact (fun tr w' => ¬ Interrupted tr ∧ w'.store = w.store)
    ⟨h, rfl⟩ ?_ ?_ ?_ ?_ ?_
  · rintro tr w₁ w₂ hI rfl
    exact ⟨hI, rfl⟩
  · rintro tr w₁ after r ⟨hI, hstore⟩
    refine ⟨fun hi => absurd hi hI, fun hr => ⟨fun hi => ?_, hstore⟩⟩
    rcases interrupted_cons.mp hi with hd | hi
    · rw [show r = none from hd] at hr
      cases hr
    · exact hI hi
  · rintro tr w₁ id ok w₂ ⟨hI, hstore⟩ hw₂
    refine ⟨fun hi => absurd hi hI, fun hok => ⟨fun hi => ?_, ?_⟩⟩
    · rcases interrupted_cons.mp hi with hd | hi
      · exact Bool.false_ne_true (hd.symm.trans hok)
      · exact hI hi
    · rcases hw₂ with rfl | rfl
      · exact hstore
      · exact hstore
  · rintro tr w' ⟨hI, hstore⟩ htuples
    exact hdone tr w' hI hstore (roles_delete htuples)
  · rintro tr e w₁ w' ⟨-, hstore⟩ hstore' he ⟨hsub, hkeep⟩
    refine hfail _ w' (interrupted_cons.mpr (.inl he)) (hstore'.trans hstore) fun r hr => ?_
    simp only [Membership.roles, List.mem_map, List.mem_filter]
    constructor
    · rintro ⟨t, ⟨ht, hrole⟩, rfl⟩
      exact ⟨t, ⟨hsub t ht, hrole⟩, rfl⟩
    · rintro ⟨t, ⟨ht, hrole⟩, rfl⟩
      refine ⟨t, ⟨hkeep t ht ?_, hrole⟩, rfl⟩
      rw [targeted_eq, hrole, Bool.true_and]
      exact hr

omit [DecidableEq ι] in
theorem roles_congr {w w' : World (Db ι) (Backend ι)} (h : w'.ext.tuples = w.ext.tuples) :
    M.roles codec w'.ext = M.roles codec w.ext := by
  simp only [Membership.roles, h]

theorem ensures_removeMember_alone {req : RemoveMemberRequest}
    (htenant : ctx.auth.bind AuthContext.tenantId = some M.tenantId)
    (hproject : ctx.checked.bind codec.parse = some M.projectId)
    (hsubject : req.subject = M.subject) :
    Ensures (kanban ι) Alone (Frozen fun w' => M.roles codec w'.ext = [])
      (fun r _ tr w' => r = .ok () → ¬ Interrupted tr → M.roles codec w'.ext = [])
      (removeMember codec pages ctx req) .idle [] w := by
  refine ensures_memberCall_alone htenant hproject (fun _ _ h => by cases h) fun tr htr => ?_
  refine ensures_ensure_bind (fun _ => ?_) fun _ h => by cases h
  rw [hsubject]
  dsimp only [Prog.bind_eq]
  rw [ensures_bind]
  have hrest : ∀ {p : Handler ι Unit} {tr : Trace (Rec ι) (Call ι) (Reply ι)} {w}, Local p →
      (¬ Interrupted tr → M.roles codec w.ext = []) →
      Ensures (kanban ι) Alone (Frozen fun w' => M.roles codec w'.ext = [])
        (fun r _ tr w' => r = .ok () → ¬ Interrupted tr → M.roles codec w'.ext = []) p .idle tr
        w := by
    intro p tr w hp h
    refine (hp.ensures (fun tr w => ¬ Interrupted tr → M.roles codec w.ext = []) ?_ ?_ h).post_mono
      fun _ _ _ _ h _ => h
    · intro tr w e w' hK he htuples hi
      rw [roles_congr htuples]
      exact hK fun h => hi (interrupted_cons.mpr (.inr h))
    · intro w w' htuples
      rw [roles_congr htuples]
  have hlocal : ∀ {s : Stmt (Db ι) (Rec ι) (List (MemberRow ι))} {payload : Payload},
      Local ((query "failed to delete member row" s).bind fun deleted =>
        (ensure (deleted ≠ []) (notFound "member not found")).bind fun _ =>
          (beginTx "begin tx failed").bind fun _ =>
          (insertProjectEvent M.tenantId M.projectId "MemberRemoved" payload).bind fun _ =>
            commitTx "commit failed") := fun {_ _} =>
    .bind .query fun _ => .bind .ensure fun _ => .bind .beginTx fun _ =>
      .bind .insertProjectEvent fun _ => .commitTx
  refine ensures_deleteRoles_alone htr (fun tr w' _ _ hroles => hrest hlocal fun _ => ?_)
    fun tr w' hi _ _ => hrest hlocal fun hni => absurd hi hni
  rw [hroles]
  simp

omit [DecidableEq ι] in
/-- The grant of a role changes no other role. -/
theorem mem_roles_create {b : Backend ι} {r role : String} (h : r ≠ role) :
    r ∈ M.roles codec (b.create M.tenantId permissionTypeProject (codec.toString M.projectId)
      role M.subject) ↔ r ∈ M.roles codec b := by
  rw [roles_create]
  split
  · rfl
  · simp [h]

/-- What AddMember has done to the roles: those of neither the old nor the new role are as
before, and the old one is gone unless its deletion failed. -/
structure Swapping (codec : IdCodec ι) (M : Membership ι) (old role : String)
    (w : World (Db ι) (Backend ι)) (tr : Trace (Rec ι) (Call ι) (Reply ι))
    (w' : World (Db ι) (Backend ι)) : Prop where
  gone : ¬ Interrupted tr → old ∉ M.roles codec w'.ext
  others : ∀ r, r ≠ old → r ≠ role → (r ∈ M.roles codec w'.ext ↔ r ∈ M.roles codec w.ext)

omit [DecidableEq ι] in
theorem Swapping.cons {old role : String} {w₁ w₂ : World (Db ι) (Backend ι)}
    {e : Event (Rec ι) (Call ι) (Reply ι)} (h : Swapping codec M old role w tr w₁)
    (htuples : w₂.ext.tuples = w₁.ext.tuples) : Swapping codec M old role w (e :: tr) w₂ where
  gone hi := by
    rw [roles_congr htuples]
    exact h.gone fun h => hi (interrupted_cons.mpr (.inr h))
  others := by
    rw [roles_congr htuples]
    exact h.others

omit [DecidableEq ι] in
/-- The grant of the new role, whether its answer arrives or not. -/
theorem Swapping.create {old role : String} {w₁ : World (Db ι) (Backend ι)}
    {e : Event (Rec ι) (Call ι) (Reply ι)} (h : Swapping codec M old role w tr w₁)
    (hne : old ≠ role) :
    Swapping codec M old role w (e :: tr)
      { w₁ with
        ext := w₁.ext.create M.tenantId permissionTypeProject (codec.toString M.projectId) role
          M.subject } where
  gone hi := by
    rw [mem_roles_create hne]
    exact h.gone fun h => hi (interrupted_cons.mpr (.inr h))
  others r hold hrole := by
    rw [mem_roles_create hrole]
    exact h.others r hold hrole

theorem ensures_addMember_alone {req : AddMemberRequest} {old : String}
    (htenant : ctx.auth.bind AuthContext.tenantId = some M.tenantId)
    (hproject : ctx.checked.bind codec.parse = some M.projectId)
    (hsubject : req.subject = M.subject) (hrows : M.rows w.store = [M.row old])
    (hne : old ≠ req.relation) :
    Ensures (kanban ι) Alone (Frozen fun w' => old ∉ M.roles codec w'.ext)
      (fun r _ tr w' => r = .ok () → Swapping codec M old req.relation w tr w' ∧
        req.relation ∈ M.roles codec w'.ext)
      (addMember codec pages ctx req) .idle [] w := by
  refine ensures_memberCall_alone htenant hproject (fun _ _ h => by cases h) fun tr htr => ?_
  refine ensures_ensure_bind (fun _ => ?_) fun _ h => by cases h
  refine ensures_ensure_bind (fun _ => ?_) fun _ h => by cases h
  refine ensures_ensure_bind (fun _ => ?_) fun _ h => by cases h
  refine ensures_ensure_bind (fun _ => ?_) fun _ h => by cases h
  refine ensures_ensure_bind (fun _ => ?_) fun _ h => by cases h
  refine ensures_fetchOptional_bind (fun w₁ hw₁ => ?_) fun _ _ h => by cases h
  cases hw₁
  refine ⟨fun hi => absurd hi htr, ?_⟩
  have hselected : (Db.membersT.rows w.store).filter (fun m => m.tenantId = M.tenantId ∧
      m.projectId = M.projectId ∧ m.userId = req.subject) = [M.row old] := by
    rw [hsubject]
    exact selected_rows [old] hrows
  rw [hselected]
  dsimp only [Prog.bind_eq, List.head?_cons, Option.map_some, clearStaleRole,
    Membership.row_role]
  rw [if_pos hne, hsubject, ensures_bind]
  -- after the old role was cleared, or its deletion was cut short
  have hgrant : ∀ {tr : Trace (Rec ι) (Call ι) (Reply ι)} {w₁} {p : Handler ι Unit}, Local p →
      Swapping codec M old req.relation w tr w₁ →
      Ensures (kanban ι) Alone (Frozen fun w' => old ∉ M.roles codec w'.ext)
        (fun r _ tr w' => r = .ok () → Swapping codec M old req.relation w tr w' ∧
          req.relation ∈ M.roles codec w'.ext)
        ((grantWithRetry M.tenantId permissionTypeProject (codec.toString M.projectId) req.relation
          M.subject).bind fun granted => (ensure (granted = true)
            (internal "failed to write member tuple to the permission backend")).bind fun _ => p)
        .idle tr w₁ := by
    intro tr w₁ p hp h
    rw [ensures_bind]
    apply ensures_grantWithRetry (Swapping codec M old req.relation w) h
    · rintro tr w₁ w₂ h rfl
      exact h
    · refine fun tr w₁ e h => ⟨fun _ => ⟨Iff.rfl, fun e' he' => ?_⟩, h.cons rfl⟩
      rw [← (List.cons.inj he').1]
      exact id
    · refine fun tr w₁ e h => ⟨fun _ => ⟨?_, fun e' he' => ?_⟩, h.create hne⟩
      · exact (mem_roles_create hne).not.symm
      · rw [← (List.cons.inj he').1]
        exact id
    · refine fun tr w₁ h => ⟨fun _ => ⟨?_, fun e' he' => ?_⟩,
        ensures_ensure_bind (fun _ => ?_) fun hf => absurd rfl hf⟩
      · exact (mem_roles_create hne).not.symm
      · rw [← (List.cons.inj he').1]
        exact id
      · refine (hp.ensures (fun tr w' => Swapping codec M old req.relation w tr w' ∧
          req.relation ∈ M.roles codec w'.ext) ?_ ?_ ⟨h.create hne, ?_⟩).post_mono
          fun _ _ _ _ h _ => h
        · intro tr w₁ e w₂ hK _ htuples
          refine ⟨hK.1.cons htuples, ?_⟩
          rw [roles_congr htuples]
          exact hK.2
        · intro w₁ w₂ htuples
          rw [roles_congr htuples]
        · rw [roles_create]
          split
          · assumption
          · simp
    · exact fun tr w₁ e _ => ensures_ensure_bind (fun hf => absurd hf Bool.false_ne_true)
        fun _ h => by cases h
  have hlocal : ∀ {event : String × Payload},
      Local ((attempt (Db.membersT.upsert ⟨M.projectId, M.tenantId, M.subject, req.relation⟩
        fun m => { m with role := req.relation })).bind fun _ =>
          (beginTx "begin tx failed").bind fun _ =>
          (insertProjectEvent M.tenantId M.projectId event.1 event.2).bind fun _ =>
            commitTx "commit failed" : Handler ι Unit) := fun {_} =>
    .bind .attempt fun _ => .bind .beginTx fun _ => .bind .insertProjectEvent fun _ => .commitTx
  have htr' : ∀ read : List (Rec ι), ¬ Interrupted (.committed [] :: .ran read :: tr) := by
    intro read hi
    rw [interrupted_cons, interrupted_cons] at hi
    exact htr ((hi.resolve_left id).resolve_left id)
  refine ensures_deleteRoles_alone (htr' _) (fun tr w' hi _ hroles => hgrant hlocal ⟨fun _ => ?_, ?_⟩)
    fun tr w' hi _ hroles => hgrant hlocal ⟨fun hni => absurd hi hni, ?_⟩
  · rw [hroles]
    simp
  · intro r hr _
    rw [hroles]
    simp [hr]
  · exact fun r hr _ => hroles r (by simpa using hr)

/-- **Revocation is reported only when it happened**, for every run of a call that returned `Ok`,
exactly when the subject held no other role before and each failed call of the deletion left
nothing of what it was to delete. -/
theorem memberCall_revokes {q : MemberRequest} (hq : Concerns codec M q)
    (hchanges : ChangesRole M w q.call)
    {t : Thread (Db ι) (Rec ι) (Call ι) (Reply ι) ConnectError Unit} {acts : List (Act (Move ι))}
    (hrun : Machine.Exec (Thread.step (kanban ι)) (Thread.start (memberHandler codec pages q), w)
      acts (t, w'))
    (hr : t.prog.result = some (.ok ())) :
    Revoked codec M w' q.call ↔ NoDrift codec M w q.call ∧
      Machine.ExecWhile (Thread.step (kanban ι)) (Harmless fun w' => Gone codec M w w' q.call)
        (Thread.start (memberHandler codec pages q), w) acts (t, w') := by
  obtain ⟨ctx, call⟩ := q
  obtain ⟨htenant, hproject, hsubject⟩ := hq
  cases call with
  | remove req =>
      have hspec := @ensures_removeMember_alone _ _ w _ _ _ pages _ htenant hproject hsubject
      have hiff := interrupted_iff hspec hrun
      have hpost := hspec.post_of_exec hrun hr rfl
      refine ⟨fun h => ⟨trivial, hiff.mp fun _ => h⟩, fun h => ?_⟩
      by_cases hi : Interrupted t.trace
      · exact hiff.mpr h.2 hi
      · exact hpost hi
  | add req =>
      obtain ⟨old, hrows, hne⟩ := hchanges
      have hspec := @ensures_addMember_alone _ _ w _ _ _ pages _ _ htenant hproject hsubject hrows hne
      have hgone : (fun w' => Gone codec M w w' (.add req)) =
          fun w' => old ∉ M.roles codec w'.ext := by
        funext w'
        simp [Gone, hrows]
      have hdrift : NoDrift codec M w (.add req) ↔
          ∀ r ∈ M.roles codec w.ext, r = old ∨ r = req.relation := by
        simp [NoDrift, hrows]
      have hiff := interrupted_iff hspec hrun
      obtain ⟨hswap, hmem⟩ := hspec.post_of_exec hrun hr rfl
      rw [hgone, hdrift]
      refine ⟨fun ⟨_, hall⟩ => ⟨fun r hr => ?_, hiff.mp fun _ hold => ?_⟩, fun ⟨hdrift, hexec⟩ =>
        ⟨hmem, fun r hr => ?_⟩⟩
      · by_cases hold : r = old
        · exact .inl hold
        · refine .inr (Classical.by_contradiction fun hrole => hrole ?_)
          exact hall r ((hswap.others r hold hrole).mpr hr)
      · exact hne (hall old hold)
      · have hold : old ∉ M.roles codec w'.ext := by
          by_cases hi : Interrupted t.trace
          · exact hiff.mpr hexec hi
          · exact hswap.gone hi
        have hr' : r ≠ old := fun h => hold (h ▸ hr)
        by_contra hrole
        rcases hdrift r ((hswap.others r hr' hrole).mp hr) with h | h
        · exact hr' h
        · exact hrole h

end Calls

/-- A member with the role of an editor, in the mirror and in its tuples. -/
def calIsEditor : World (Db String) (Backend String) where
  store := { Db.empty with projectMembers := [⟨"p", "t", "user:cal", "editor"⟩] }
  ext := (Backend.empty : Backend String).create "t" permissionTypeProject "p" "editor" "user:cal"

/-- The client, one page, its deletion, the mirror row, the event. -/
def deletionDone : List (Act (Move String)) :=
  [.move .done, .move (.page 200), .move .done, .ok, .ok, .move (.fresh "e"), .ok, .ok, .ok]

/-- The listing fails; the mirror row is deleted and the event written all the same. -/
def listingRefused : List (Act (Move String)) :=
  [.move .done, .move (.refuse true), .ok, .ok, .move (.fresh "e"), .ok, .ok, .ok]

theorem memberCall_revokes_deletionDone :
    ∃ t w', Machine.Exec (Thread.step (kanban String))
        (Thread.start (memberHandler textIds 1 removeCal.1), calIsEditor) deletionDone (t, w') ∧
      t.prog.result = some (.ok ()) ∧ Revoked textIds membershipOfCal w' removeCal.1.call ∧
      Machine.ExecWhile (Thread.step (kanban String))
        (Harmless fun w' => Gone textIds membershipOfCal calIsEditor w' removeCal.1.call)
        (Thread.start (memberHandler textIds 1 removeCal.1), calIsEditor) deletionDone (t, w') := by
  obtain ⟨⟨r, tr, w'⟩, hx, hr, hroles⟩ : ∃ x, (memberHandler textIds 1 removeCal.1).returns
      (kanban String) calIsEditor deletionDone = some x ∧ x.1 = .ok () ∧
      membershipOfCal.roles textIds x.2.2.ext = [] := ⟨_, rfl, rfl, rfl⟩
  obtain ⟨t, hrun, hr', -⟩ := Prog.exec_of_returns hx
  have hok : t.prog.result = some (.ok ()) := hr'.trans (congrArg some hr)
  exact ⟨t, w', hrun, hok, hroles,
    ((memberCall_revokes removeCal.2 trivial hrun hok).mp hroles).2⟩

/-- RemoveMember returns `Ok`, and the subject still has its role. -/
theorem memberCall_not_revokes :
    ∃ t w', Machine.Exec (Thread.step (kanban String))
        (Thread.start (memberHandler textIds 1 removeCal.1), calIsEditor) listingRefused (t, w') ∧
      t.prog.result = some (.ok ()) ∧
      ¬ Revoked textIds membershipOfCal w' removeCal.1.call := by
  obtain ⟨⟨r, tr, w'⟩, hx, hr, hroles⟩ : ∃ x, (memberHandler textIds 1 removeCal.1).returns
      (kanban String) calIsEditor listingRefused = some x ∧ x.1 = .ok () ∧
      membershipOfCal.roles textIds x.2.2.ext = ["editor"] := ⟨_, rfl, rfl, rfl⟩
  obtain ⟨t, hrun, hr', -⟩ := Prog.exec_of_returns hx
  refine ⟨t, w', hrun, hr'.trans (congrArg some hr), fun h => ?_⟩
  have hnil : membershipOfCal.roles textIds w'.ext = [] := h
  rw [hroles] at hnil
  cases hnil

end Kanban.Rpc
