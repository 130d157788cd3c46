import Kanban.Lib.Lossy
import Kanban.Rpc.Commits

/-!
# CreateProject: all or nothing

The handler inserts the project, then writes the owner's tuples, and has no compensation: a
grant that the backend refuses leaves the row behind, and so does an `INSERT` of which the answer is
lost.

## Main results

* `createProject_allOrNothing` — when the call is all-or-nothing, whatever fails or is lost.
-/

namespace Kanban.Rpc

open Program Kanban.Store Kanban.Auth
open Kanban.Services (AuthContext ConnectError ErrorCode IdCodec)

variable {ι α β : Type} [DecidableEq ι] {codec : IdCodec ι} {unicode : Unicode}
  {ctx : RequestContext} {req : CreateProjectRequest} {w w' : World (Db ι) (Backend ι)}

/-- After an error the projects, the members and the tuples of every id that the call was given
are as before; after a success the project exists and its creator holds the owner tuple. -/
def AllOrNothing (codec : IdCodec ι) (w w' : World (Db ι) (Backend ι)) :
    Except ConnectError Project → Prop
  | .error _ =>
      w'.store.projects = w.store.projects ∧ w'.store.projectMembers = w.store.projectMembers ∧
      ∀ id ∈ w'.ext.issued, id ∉ w.ext.issued → ∀ t ∈ w'.ext.tuples,
        ¬ (t.namespaceName = permissionTypeProject ∧ t.object = codec.toString id)
  | .ok project => ∃ row ∈ w'.store.projects, project.id = codec.toString row.id ∧
      w'.ext.Holds row.tenantId permissionTypeProject project.id "owner" row.ownerId

/-- The last thing the handler heard was the refusal of a grant. -/
def GrantRefused (tr : Trace (Rec ι) (Call ι) (Reply ι)) : Prop :=
  ∃ tenant ns object relation subject e rest,
    tr = refused tenant ns object relation subject e :: rest

/-- The last thing that happened is that the project was inserted and the answer was lost. -/
def InsertLost (tr : Trace (Rec ι) (Call ι) (Reply ι)) : Prop :=
  ∃ row rest, tr = .failed :: .committed [.put (.project row)] :: rest

/-- The call was left with the row of its project inserted. -/
def Stranded (tr : Trace (Rec ι) (Call ι) (Reply ι)) : Prop := GrantRefused tr ∨ InsertLost tr

/-- The project recorded for an idempotency key. -/
def recordedProject (db : Db ι) (tenantId key : String) : Option (ProjectRow ι) :=
  if key = "" then none
  else ((db.idempotencyKeys.filter fun r => r.tenantId = tenantId ∧ r.key = key).head?.bind
      IdempotencyRow.responseCardId).bind fun id =>
    (db.projects.filter fun p => p.tenantId = tenantId ∧ p.id = id).head?

/-- When the call keeps its promise: an error is not the refusal of a grant nor the lost answer of the
`INSERT`, and a project that a success replays still has its owner. -/
def Compensated (codec : IdCodec ι) (ctx : RequestContext) (req : CreateProjectRequest)
    (w : World (Db ι) (Backend ι)) (tr : Trace (Rec ι) (Call ι) (Reply ι)) :
    Except ConnectError Project → Prop
  | .error _ => ¬ Stranded tr
  | .ok _ => ∀ tenantId row, ctx.auth.bind AuthContext.tenantId = some tenantId →
      recordedProject w.store tenantId req.idempotencyKey = some row →
      w.ext.Holds row.tenantId permissionTypeProject (codec.toString row.id) "owner" row.ownerId

/-- Every project id that a tuple names was issued. -/
def IdsKnown (codec : IdCodec ι) (b : Backend ι) : Prop :=
  ∀ t ∈ b.tuples, ∀ id, t.namespaceName = permissionTypeProject → t.object = codec.toString id →
    id ∈ b.issued

/-! ## Traces -/

section Traces

variable {tr : Trace (Rec ι) (Call ι) (Reply ι)} {ws : List (Write (Rec ι))}

omit [DecidableEq ι]

/-- The call is not stranded, and is not if the next step fails. -/
def Clear (tr : Trace (Rec ι) (Call ι) (Reply ι)) : Prop := ¬ Stranded tr ∧ ¬ Stranded (.failed :: tr)

theorem not_insertLost_of_head {e : Event (Rec ι) (Call ι) (Reply ι)} (he : e ≠ .failed) :
    ¬ InsertLost (e :: tr) := by
  rintro ⟨row, rest, heq⟩
  exact he (List.cons.inj heq).1

theorem not_grantRefused_failed : ¬ GrantRefused (.failed :: tr) := by
  rintro ⟨_, _, _, _, _, _, _, h⟩
  cases h

theorem stranded_refused {tenant ns object relation subject : String} {e : BackendError} :
    Stranded (refused tenant ns object relation subject e :: tr) :=
  .inl ⟨_, _, _, _, _, _, _, rfl⟩

theorem stranded_lost {row : ProjectRow ι} :
    Stranded (.failed :: .committed [.put (.project row)] :: tr) := .inr ⟨row, tr, rfl⟩

theorem Clear.failed (h : Clear tr) : Clear (.failed :: tr) := by
  refine ⟨h.2, ?_⟩
  rintro (hrefused | ⟨row, rest, heq⟩)
  · exact not_grantRefused_failed hrefused
  · cases heq

/-- After a set of writes other than the row of a project. -/
theorem clear_committed (h : ∀ row, ws ≠ [.put (.project row)]) : Clear (.committed ws :: tr) := by
  refine ⟨?_, ?_⟩
  · rintro (⟨_, _, _, _, _, _, _, heq⟩ | hlost)
    · cases heq
    · exact not_insertLost_of_head (by nofun) hlost
  · rintro (hrefused | ⟨row, rest, heq⟩)
    · exact not_grantRefused_failed hrefused
    · obtain ⟨-, heq⟩ := List.cons.inj heq
      exact h row (Event.committed.inj (List.cons.inj heq).1)

theorem clear_granted {tenant ns object relation subject : String} :
    Clear (granted tenant ns object relation subject :: tr) := by
  refine ⟨?_, ?_⟩
  · rintro (⟨_, _, _, _, _, _, _, heq⟩ | hlost)
    · cases heq
    · exact not_insertLost_of_head (by nofun) hlost
  · rintro (hrefused | ⟨row, rest, heq⟩)
    · exact not_grantRefused_failed hrefused
    · cases heq

/-- Reading strands nothing. -/
theorem clear_of_reads (h : Reads [] tr) : Clear tr := by
  obtain ⟨l, rfl, hl⟩ := h
  rw [List.append_nil]
  have hinsert : ∀ row rest, l ≠ .committed [.put (.project row)] :: rest := by
    rintro row rest rfl
    exact absurd (hl _ List.mem_cons_self) (by simp [Inert])
  refine ⟨?_, ?_⟩
  · rintro (⟨tenant, ns, object, relation, subject, e, rest, rfl⟩ | ⟨row, rest, rfl⟩)
    · exact hl _ List.mem_cons_self
    · exact absurd (hl _ (List.mem_cons_of_mem _ List.mem_cons_self)) (by simp [Inert])
  · rintro (hrefused | ⟨row, rest, heq⟩)
    · exact not_grantRefused_failed hrefused
    · exact hinsert row rest (List.cons.inj heq).2

end Traces

/-! ## Reading -/

omit [DecidableEq ι] in
theorem reads_cons {tr : Trace (Rec ι) (Call ι) (Reply ι)} {e : Event (Rec ι) (Call ι) (Reply ι)} :
    Reads tr (e :: tr) ↔ Inert e := by
  constructor
  · rintro ⟨l, heq, hl⟩
    have hsplit : [e] ++ tr = l ++ tr := heq
    obtain rfl : [e] = l := List.append_cancel_right hsplit
    exact hl e List.mem_cons_self
  · exact fun he => ⟨[e], rfl, by simpa using he⟩

/-- A program that only reads finds out the same if an answer can be lost. -/
theorem ReadsOnly.lossy {p : Handler ι α} {S : Db ι → α → Prop} (h : ReadsOnly p S) (hp : Mute p) :
    ReadsOnly p.lossy S := by
  intro tr w
  have key : ∀ tr₁ tr₂, Reads tr tr₂ →
      Ensures (kanban ι) Alone (fun tr w tr' w' => Reads tr tr' ∧ w' = w)
        (fun r _ _ _ => ∀ a, r = .ok a → S w.store a) p .idle tr₁ w →
      Ensures (kanban ι) Alone (fun tr w tr' w' => Reads tr tr' ∧ w' = w)
        (fun r tx tr' w' => tx = .idle ∧ Reads tr tr' ∧ w' = w ∧ ∀ a, r = .ok a → S w.store a)
        p.lossy .idle tr₂ w := by
    clear h
    induction p with
    | pure a => exact fun _ _ hr h => ⟨rfl, hr, rfl, h⟩
    | fail e => exact fun _ _ hr h => ⟨rfl, hr, rfl, h⟩
    | stmt s k ih =>
        rintro tr₁ tr₂ hr h w₁ rfl
        obtain ⟨hok, hfail⟩ := h w rfl
        have hbad := fun tr₃ (hr₃ : Reads tr tr₃) => ih none (hp.2 none) _ tr₃ hr₃ hfail
        refine ⟨fun e he => ?_, hbad _ (hr.trans .failed)⟩
        have hnext := (hok e he).2
        have hran : ∀ (tr : Trace (Rec ι) (Call ι) (Reply ι)) read,
            Reads tr (.committed [] :: .ran read :: tr) := fun tr read =>
          ⟨[.committed [], .ran read], rfl, by simp [Inert]⟩
        simp only [Tx.note_idle, Tx.land_idle, Tx.record_idle, hp.1 _ _ he, Semantics.applyAll_nil]
          at hnext ⊢
        refine ⟨⟨hran _ _, trivial⟩, ?_⟩
        rintro w₂ rfl
        refine ⟨?_, hbad _ ((hr.trans (hran _ _)).trans .failed)⟩
        rintro e' ⟨⟩
        exact ⟨⟨hran _ _, rfl⟩,
          ih (some e.answer) (hp.2 _) _ _ ((hr.trans (hran _ _)).trans (hran _ _)) hnext⟩
    | begin k => exact hp.elim
    | commit k => exact hp.elim
    | call c k ih =>
        rintro tr₁ tr₂ hr h w₁ rfl m r hm
        obtain ⟨⟨hstep, hw⟩, hnext⟩ := h w rfl m r hm
        have hstep' : Reads tr₂ (.called c r.1 :: tr₂) := reads_cons.mpr (reads_cons.mp hstep)
        refine ⟨⟨hstep', hw⟩, ?_⟩
        rw [hw] at hnext ⊢
        exact ih r.1 (hp r.1) _ _ (hr.trans hstep') hnext
  exact key tr tr .refl ((h tr w).post_mono fun _ _ _ _ hq => hq.2.2.2)

theorem ReadsOnly.cachedProject {tenantId key : String} :
    ReadsOnly (cachedProject tenantId key : Handler ι (Option (ProjectRow ι))) fun db o =>
      o = recordedProject db tenantId key := by
  unfold Kanban.Rpc.cachedProject
  by_cases hkey : key = ""
  · rw [if_pos hkey]
    refine (ReadsOnly.pure none).mono ?_
    rintro db o rfl
    simp [recordedProject, hkey]
  · rw [if_neg hkey]
    refine ReadsOnly.fetchOptional.bind fun cached => ?_
    simp only [recordedProject, if_neg hkey, Db.idempotencyKeysT_rows]
    cases hid : cached.bind IdempotencyRow.responseCardId with
    | none =>
        refine (ReadsOnly.pure none).mono ?_
        rintro db o rfl rfl
        rw [hid]
        rfl
    | some id =>
        refine ReadsOnly.fetchOptional.mono ?_
        rintro db o rfl rfl
        rw [hid]
        rfl

theorem ReadsOnly.fetchMemberCount {tenantId : String} {projectId : ι} :
    ReadsOnly (fetchMemberCount tenantId projectId) fun _ _ => True := by
  refine ReadsOnly.bind (.attempt fun db e he => ?_) fun rows =>
    (ReadsOnly.pure _).mono fun _ _ _ _ => trivial
  cases he
  rfl

theorem Mute.fetchMemberCount {tenantId : String} {projectId : ι} :
    Mute (fetchMemberCount tenantId projectId) := by
  have hselect : Mute (attempt (Db.membersT.select fun m => m.tenantId = tenantId ∧
      m.projectId = projectId) : Handler ι _) := ⟨silent_select, fun _ => trivial⟩
  exact hselect.bind fun _ => .pure _

theorem Mute.cachedProject {tenantId key : String} :
    Mute (cachedProject tenantId key : Handler ι (Option (ProjectRow ι))) := by
  refine .ite (.pure _) (.bind (.fetchOptional silent_select) fun cached => ?_)
  cases cached.bind IdempotencyRow.responseCardId with
  | none => exact .pure _
  | some projectId => exact .fetchOptional silent_select

/-- An inserted project is a new row. -/
theorem insertProject_some {row : ProjectRow ι} {db : Db ι} {e : Effect (Rec ι) Unit}
    (h : insertProject row db = some e) :
    e = ⟨(), [], [.put (.project row)]⟩ ∧ db.projects.any (Db.projectsT.same row) = false := by
  unfold insertProject at h
  split at h
  · cases h
  · rw [Table.insert] at h
    split at h
    · cases h
    · rename_i hnone
      exact ⟨(Option.some.inj h).symm, by simpa using hnone⟩

/-- The store after the project was inserted. -/
theorem apply_insertProject {row : ProjectRow ι} {db : Db ι}
    (h : db.projects.any (Db.projectsT.same row) = false) :
    (kanban ι).applyAll db [.put (.project row)] =
      { db with projects := db.projects ++ [row] } := by
  simp only [Semantics.applyAll_cons, Semantics.applyAll_nil, kanban_apply, Db.apply_put,
    Db.modify, Table.put, h, Bool.false_eq_true, if_false]

/-! ## After the grants -/

/-- The handler returned the project, whose row is there, and no tuple has changed.  If the owner had
no row and nothing failed, the owner's row is there too. -/
def Recorded (codec : IdCodec ι) (row : ProjectRow ι) (owner : MemberRow ι) (free : Prop)
    (b : Backend ι) : Post (Db ι) (Rec ι) (Call ι) (Reply ι) (Backend ι) ConnectError Project :=
  fun r _ tr w => (∃ project, r = .ok project ∧ project.id = codec.toString row.id) ∧
    Clear tr ∧ row ∈ w.store.projects ∧ w.ext = b ∧
    (free → .failed ∉ tr → owner ∈ w.store.projectMembers)

section Recorded

variable {tr : Trace (Rec ι) (Call ι) (Reply ι)}

/-- A statement of which a failure is only logged, and that writes no project. -/
theorem ensures_lossy_attempt_bind {Q : Post (Db ι) (Rec ι) (Call ι) (Reply ι) (Backend ι) ConnectError α}
    {s : Stmt (Db ι) (Rec ι) β} {f : Option β → Handler ι α} (htr : Clear tr)
    (hs : ∀ e, s w.store = some e → ∀ row, e.writes ≠ [.put (.project row)])
    (h : ∀ b tr' w', Clear tr' → (.failed ∈ tr → .failed ∈ tr') → w'.ext = w.ext →
      ((∃ e, s w.store = some e ∧ w'.store = (kanban ι).applyAll w.store e.writes) ∨
        .failed ∈ tr' ∧ w'.store = w.store) →
      Ensures (kanban ι) Alone (fun _ _ _ _ => True) Q (f b).lossy .idle tr' w') :
    Ensures (kanban ι) Alone (fun _ _ _ _ => True) Q ((attempt s).bind f).lossy .idle tr w := by
  rw [lossy_bind, ensures_bind]
  rintro w₁ rfl
  refine ⟨fun e he => ⟨trivial, ?_⟩,
    h none _ _ htr.failed (by simp) rfl (.inr ⟨List.mem_cons_self, rfl⟩)⟩
  have hclear : Clear (.committed e.writes :: .ran e.read :: tr) := clear_committed (hs e he)
  rintro w₂ rfl
  refine ⟨?_, h none _ _ hclear.failed (by simp) rfl (.inl ⟨e, he, rfl⟩)⟩
  rintro e' ⟨⟩
  exact ⟨trivial, h (some e.answer) _ _ (clear_committed nofun) (by simp) rfl (.inl ⟨e, he, rfl⟩)⟩

/-- What comes after the grants goes through, and leaves the project and its tuples. -/
theorem ensures_recordProject {tenantId subject key : String} {row : ProjectRow ι} {free : Prop}
    {project : ℤ → Project} (hproject : ∀ count, (project count).id = codec.toString row.id)
    (htr : Clear tr) (hrow : row ∈ w.store.projects)
    (hfree : free → ∀ m ∈ w.store.projectMembers, m.projectId ≠ row.id) :
    Ensures (kanban ι) Alone (fun _ _ _ _ => True)
      (Recorded codec row ⟨row.id, tenantId, subject, "owner"⟩ free w.ext)
      ((attempt (Db.membersT.insertIgnore ⟨row.id, tenantId, subject, "owner"⟩)).bind fun _ =>
        (fetchMemberCount tenantId row.id).bind fun memberCount =>
          (storeIdempotencyId tenantId key row.id).bind fun _ =>
            .pure (project memberCount)).lossy .idle tr w := by
  refine ensures_lossy_attempt_bind htr ?_ fun _ tr₁ w₁ htr₁ _ hext₁ hdone₁ => ?_
  · rintro e ⟨⟩
    dsimp only
    split <;> rintro row ⟨⟩
  have hrow₁ : row ∈ w₁.store.projects := by
    rcases hdone₁ with ⟨e, ⟨⟩, hw₁⟩ | ⟨-, hw₁⟩
    · rw [hw₁]
      dsimp only
      split <;> exact hrow
    · rwa [hw₁]
  have howner₁ : free → .failed ∉ tr₁ →
      ⟨row.id, tenantId, subject, "owner"⟩ ∈ w₁.store.projectMembers := by
    intro h hok
    rcases hdone₁ with ⟨e, ⟨⟩, hw₁⟩ | ⟨hfailed, -⟩
    · -- no member of the new project is in the way
      have hany : (Db.membersT.rows w.store).any
          (Db.membersT.same ⟨row.id, tenantId, subject, "owner"⟩) = false :=
        List.any_eq_false.mpr fun m hm hsame => hfree h m hm (of_decide_eq_true hsame).1.symm
      rw [hw₁]
      dsimp only
      rw [hany]
      exact Table.mem_put_self
    · exact absurd hfailed hok
  rw [fetchMemberCount, Prog.bind_assoc]
  refine ensures_lossy_attempt_bind htr₁ ?_ fun rows tr₂ w₂ htr₂ hmono₂ hext₂ hdone₂ => ?_
  · rintro e ⟨⟩ row ⟨⟩
  have hw₂ : w₂.store = w₁.store := by
    rcases hdone₂ with ⟨e, ⟨⟩, hw₂⟩ | ⟨-, hw₂⟩
    · exact hw₂
    · exact hw₂
  by_cases hkey : key = ""
  · simp only [storeIdempotencyId, if_pos hkey, Prog.bind]
    exact ⟨⟨_, rfl, hproject _⟩, htr₂, hw₂ ▸ hrow₁, hext₂.trans hext₁,
      fun h hok => hw₂ ▸ howner₁ h fun hf => hok (hmono₂ hf)⟩
  · simp only [storeIdempotencyId, if_neg hkey, Prog.bind, Prog.bind_assoc]
    refine ensures_lossy_attempt_bind htr₂ ?_ fun _ tr₃ w₃ htr₃ hmono₃ hext₃ hdone₃ => ?_
    · rintro e ⟨⟩
      dsimp only
      split <;> rintro row ⟨⟩
    have hw₃ : w₃.store.projects = w₂.store.projects ∧
        w₃.store.projectMembers = w₂.store.projectMembers := by
      rcases hdone₃ with ⟨e, ⟨⟩, hw₃⟩ | ⟨-, hw₃⟩
      · rw [hw₃]
        dsimp only
        split <;> exact ⟨rfl, rfl⟩
      · rw [hw₃]
        exact ⟨rfl, rfl⟩
    refine ⟨⟨_, rfl, hproject _⟩, htr₃, ?_, hext₃.trans (hext₂.trans hext₁), fun h hok => ?_⟩
    · rw [hw₃.1, hw₂]
      exact hrow₁
    · rw [hw₃.2, hw₂]
      exact howner₁ h fun hf => hok (hmono₃ (hmono₂ hf))

end Recorded

/-! ## The call -/

/-- How a call for a new project ends: the project has its owner, also among its members if nothing
failed; or nothing has changed; or the row has stayed. -/
def Created (codec : IdCodec ι) (w : World (Db ι) (Backend ι)) :
    Post (Db ι) (Rec ι) (Call ι) (Reply ι) (Backend ι) ConnectError Project :=
  fun r _ tr w' => match r with
    | .ok project => ∃ row ∈ w'.store.projects,
        project.id = codec.toString row.id ∧
        w'.ext.Holds row.tenantId permissionTypeProject project.id "owner" row.ownerId ∧
        ((∀ m ∈ w.store.projectMembers, m.projectId ∈ w.ext.issued) → .failed ∉ tr →
          ⟨row.id, row.tenantId, row.ownerId, "owner"⟩ ∈ w'.store.projectMembers)
    | .error _ =>
        ¬ Stranded tr ∧ w'.store = w.store ∧ w'.ext.tuples = w.ext.tuples ∨
        Stranded tr ∧ ∃ row, w'.store.projects = w.store.projects ++ [row]

omit [DecidableEq ι] in
theorem lossy_orError {o : Option α} {e : ConnectError} :
    (orError e o : Handler ι α).lossy = orError e o := by
  cases o <;> rfl

omit [DecidableEq ι] in
/-- The calls of a grant ask nothing of the store. -/
theorem lossy_grantWithRetry {tenant ns object relation subject : String} :
    (grantWithRetry tenant ns object relation subject : Handler ι Bool).lossy =
      grantWithRetry tenant ns object relation subject := by
  have key : ∀ n, (grantWithRetry.attempt tenant ns object relation subject n : Handler ι Bool).lossy =
      grantWithRetry.attempt tenant ns object relation subject n := by
    intro n
    induction n with
    | zero => rfl
    | succ n ih =>
        rw [grantWithRetry.attempt, Prog.lossy]
        congr 1
        funext r
        cases r with
        | ok u => rfl
        | error e =>
            dsimp only
            split
            · exact ih
            · rfl
  exact key maxRetries

/-- A grant and what depends on it. -/
theorem ensures_grant_bind {tenant ns object relation subject msg : String}
    {Q : Post (Db ι) (Rec ι) (Call ι) (Reply ι) (Backend ι) ConnectError α} {f : Unit → Handler ι α}
    {tr : Trace (Rec ι) (Call ι) (Reply ι)} (J : Backend ι → Prop) (hJ : J w.ext)
    (hcreate : ∀ b, J b → J (b.create tenant ns object relation subject))
    (hok : ∀ tr' w', Clear tr' → w'.store = w.store → J w'.ext →
      w'.ext.Holds tenant ns object relation subject →
      Ensures (kanban ι) Alone (fun _ _ _ _ => True) Q (f ()).lossy .idle tr' w')
    (herror : ∀ tr' w', Stranded tr' → w'.store = w.store → Q (.error (internal msg)) .idle tr' w') :
    Ensures (kanban ι) Alone (fun _ _ _ _ => True) Q
      ((grantWithRetry tenant ns object relation subject).bind fun done =>
        (ensure (done = true) (internal msg)).bind f).lossy .idle tr w := by
  rw [lossy_bind, lossy_grantWithRetry, ensures_bind]
  apply ensures_grantWithRetry fun _ w' => w'.store = w.store ∧ J w'.ext
  · exact ⟨rfl, hJ⟩
  · rintro _ w' w'' h rfl
    exact h
  · exact fun _ _ _ h => ⟨trivial, h⟩
  · exact fun _ _ _ h => ⟨trivial, h.1, hcreate _ h.2⟩
  · exact fun tr' w' h => ⟨trivial, hok _ _ clear_granted h.1 (hcreate _ h.2) Backend.holds_create_self⟩
  · exact fun tr' w' e h => herror _ _ stranded_refused h.1

/-- The grants of a new project, and what comes after them. -/
theorem ensures_grants {tenantId subject key : String} (row : ProjectRow ι) {project : ℤ → Project}
    (hproject : ∀ count, (project count).id = codec.toString row.id)
    {tr : Trace (Rec ι) (Call ι) (Reply ι)} {w₁ : World (Db ι) (Backend ι)}
    (htenant : row.tenantId = tenantId) (howner : row.ownerId = subject)
    (hstore : w₁.store.projects = w.store.projects ++ [row])
    (hmembers : w₁.store.projectMembers = w.store.projectMembers) (hnew : row.id ∉ w.ext.issued) :
    Ensures (kanban ι) Alone (fun _ _ _ _ => True) (Created codec w)
      (Prog.lossy do
        let owner ← grantWithRetry tenantId permissionTypeProject (codec.toString row.id) "owner"
          subject
        ensure (owner = true) (internal "failed to write owner tuple to the permission backend")
        let viewer ← grantWithRetry tenantId permissionTypeProject (codec.toString row.id) "viewer"
          subject
        ensure (viewer = true) (internal "failed to write viewer tuple to the permission backend")
        let _ ← attempt (Db.membersT.insertIgnore ⟨row.id, tenantId, subject, "owner"⟩)
        let memberCount ← fetchMemberCount tenantId row.id
        storeIdempotencyId tenantId key row.id
        .pure (project memberCount)) .idle tr w₁ := by
  subst htenant howner
  have hrow : row ∈ w₁.store.projects := by
    rw [hstore]
    exact List.mem_append_right _ (List.mem_singleton_self row)
  have hstranded : ∀ tr' (w' : World (Db ι) (Backend ι)), Stranded tr' → w'.store = w₁.store → ∀ e,
      Created codec w (.error e) .idle tr' w' := fun tr' w' htr hw' e =>
    .inr ⟨htr, row, by rw [hw', hstore]⟩
  refine ensures_grant_bind (fun _ => True) trivial (fun _ _ => trivial)
    (fun tr₁ w₂ _ hw₂ _ howner => ?_) fun tr' w' htr hw' => hstranded tr' w' htr hw' _
  refine ensures_grant_bind
    (fun b => b.Holds row.tenantId permissionTypeProject (codec.toString row.id) "owner" row.ownerId)
    howner (fun _ h => h.create) (fun tr₂ w₃ htr₂ hw₃ howner _ => ?_)
    fun tr' w' htr hw' => hstranded tr' w' htr (hw'.trans hw₂) _
  have hfree : (∀ m ∈ w.store.projectMembers, m.projectId ∈ w.ext.issued) →
      ∀ m ∈ w₃.store.projectMembers, m.projectId ≠ row.id := by
    intro hissued m hm heq
    rw [hw₃, hw₂, hmembers] at hm
    exact hnew (heq ▸ hissued m hm)
  refine (ensures_recordProject hproject htr₂ (by rwa [hw₃, hw₂]) hfree).post_mono ?_
  rintro r tx tr' w' ⟨⟨project', rfl, hid⟩, -, hrow', hext, hmirror⟩
  refine ⟨row, hrow', hid, ?_, hmirror⟩
  rw [hext, hid]
  exact howner

theorem ensures_createFresh {tenantId subject : String} {tr : Trace (Rec ι) (Call ι) (Reply ι)}
    (htr : Reads [] tr) :
    Ensures (kanban ι) Alone (fun _ _ _ _ => True) (Created codec w)
      (createFresh codec unicode tenantId tenantId subject req).lossy .idle tr w := by
  have hclear := clear_of_reads htr
  unfold createFresh
  simp only [Prog.bind_eq]
  by_cases hname : req.name ≠ ""
  · rw [ensure, if_pos hname]
    rw [Prog.bind, lossy_bind]
    change Ensures _ _ _ _ (newId.bind _) _ _ _
    rw [ensures_bind, ensures_newId]
    rintro w₁ rfl id hid
    refine ⟨trivial, ?_⟩
    rintro w₁ rfl
    refine ⟨fun e he => ⟨trivial, ?_⟩, .inl ⟨?_, rfl, rfl⟩⟩
    · obtain ⟨rfl, hnone⟩ := insertProject_some he
      have hprojects := congrArg Db.projects (apply_insertProject hnone)
      have hmembers := congrArg Db.projectMembers (apply_insertProject hnone)
      rintro w₂ rfl
      refine ⟨?_, .inr ⟨stranded_lost, _, hprojects⟩⟩
      rintro e' ⟨⟩
      exact ⟨trivial, ensures_grants ⟨id, tenantId, req.name, projectSlug unicode req,
        projectPrefix unicode req, req.description, subject⟩ (fun _ => rfl) rfl rfl hprojects hmembers
        hid⟩
    · rintro (hrefused | ⟨row, rest, heq⟩)
      · exact not_grantRefused_failed hrefused
      · cases heq
  · rw [ensure, if_neg hname]
    exact .inl ⟨hclear.1, rfl, rfl⟩

/-- How a call ends: it replays the project recorded for its key and changes nothing, or it
ends like a call for a new project. -/
def Ended (codec : IdCodec ι) (ctx : RequestContext) (req : CreateProjectRequest)
    (w : World (Db ι) (Backend ι)) :
    Post (Db ι) (Rec ι) (Call ι) (Reply ι) (Backend ι) ConnectError Project :=
  fun r tx tr w' =>
    (∃ tenantId row project, ctx.auth.bind AuthContext.tenantId = some tenantId ∧
      recordedProject w.store tenantId req.idempotencyKey = some row ∧ r = .ok project ∧
      project.id = codec.toString row.id ∧ w' = w) ∨
    Created codec w r tx tr w' ∧ ∀ tenantId project, r = .ok project →
      ctx.auth.bind AuthContext.tenantId = some tenantId →
      recordedProject w.store tenantId req.idempotencyKey = none

/-- **What CreateProject does**, whatever fails or is lost. -/
theorem ensures_createProject :
    Ensures (kanban ι) Alone (fun _ _ _ _ => True) (Ended codec ctx req w)
      (createProject codec unicode ctx req).lossy .idle [] w := by
  have hend : ∀ tr : Trace (Rec ι) (Call ι) (Reply ι), Reads [] tr → ∀ e,
      Ended codec ctx req w (.error e) .idle tr w := fun tr htr e =>
    .inr ⟨.inl ⟨(clear_of_reads htr).1, rfl, rfl⟩, fun _ _ h => by cases h⟩
  unfold createProject subjectFromRequest tenantIdFromRequest
  simp only [Prog.bind_eq, lossy_bind (p := orError _ _), lossy_orError, ensures_bind (m := orError _ _),
    ensures_orError]
  refine ⟨fun subject _ => ⟨fun tenantId htenant => ?_, fun _ => hend _ .refl _⟩,
    fun _ => hend _ .refl _⟩
  rw [lossy_bind]
  apply (ReadsOnly.tenantClientFor.lossy .tenantClientFor).bind_ensures
  · exact fun _ _ _ _ => trivial
  · intro permission tr hr hpermission
    obtain rfl : tenantId = permission := Option.some.inj (htenant.symm.trans hpermission)
    rw [lossy_bind]
    apply (ReadsOnly.cachedProject.lossy .cachedProject).bind_ensures
    · exact fun _ _ _ _ => trivial
    · rintro o tr' hr' rfl
      cases hrow : recordedProject w.store tenantId req.idempotencyKey with
      | some row =>
          dsimp only [Prog.bind_eq]
          rw [lossy_bind]
          apply (ReadsOnly.fetchMemberCount.lossy .fetchMemberCount).bind_ensures
          · exact fun _ _ _ _ => trivial
          · exact fun count _ _ _ => .inl ⟨tenantId, row, _, htenant, hrow, rfl, rfl, rfl⟩
          · exact fun e tr'' hr'' => hend _ (hr.trans (hr'.trans hr'')) e
      | none =>
          refine (ensures_createFresh (hr.trans hr')).post_mono ?_
          intro r tx tr'' w' h
          refine .inr ⟨h, fun tenantId' project _ htenant' => ?_⟩
          rw [← Option.some.inj (htenant.symm.trans htenant')]
          exact hrow
    · exact fun e tr' hr' => hend _ (hr.trans hr') e
  · exact fun e tr hr => hend _ hr e

/-- A recorded project is a row of the table. -/
theorem mem_of_recordedProject {db : Db ι} {tenantId key : String} {row : ProjectRow ι}
    (h : recordedProject db tenantId key = some row) : row ∈ db.projects := by
  unfold recordedProject at h
  split at h
  · cases h
  · obtain ⟨id, -, hid⟩ := Option.bind_eq_some_iff.mp h
    exact (List.mem_filter.mp (List.mem_of_mem_head? hid)).1

theorem allOrNothing_replay {row : ProjectRow ι} {project : Project} {tenantId : String}
    (hkeys : (w.store.projects.map ProjectRow.id).Nodup)
    (htenant : ctx.auth.bind AuthContext.tenantId = some tenantId)
    (hrow : recordedProject w.store tenantId req.idempotencyKey = some row)
    (hid : project.id = codec.toString row.id) (tr : Trace (Rec ι) (Call ι) (Reply ι)) :
    AllOrNothing codec w w (.ok project) ↔ Compensated codec ctx req w tr (.ok project) := by
  constructor
  · rintro ⟨row', hrow', hid', howner⟩ tenantId' row'' htenant' hrow''
    obtain rfl := Option.some.inj (htenant.symm.trans htenant')
    obtain rfl := Option.some.inj (hrow.symm.trans hrow'')
    have hsame : row'.id = row.id := codec.toString_injective (hid'.symm.trans hid)
    obtain rfl := List.inj_on_of_nodup_map hkeys hrow' (mem_of_recordedProject hrow) hsame
    rwa [hid] at howner
  · intro h
    refine ⟨row, mem_of_recordedProject hrow, hid, ?_⟩
    rw [hid]
    exact h tenantId row htenant hrow

theorem allOrNothing_error {e : ConnectError} {tr : Trace (Rec ι) (Call ι) (Reply ι)}
    (hids : IdsKnown codec w.ext) {tx : Tx (Rec ι)}
    (h : Created codec w (.error e) tx tr w') :
    AllOrNothing codec w w' (.error e) ↔ Compensated codec ctx req w tr (.error e) := by
  rcases h with ⟨htr, hstore, htuples⟩ | ⟨htr, row, hprojects⟩
  · refine iff_of_true ⟨by rw [hstore], by rw [hstore], ?_⟩ htr
    intro id _ hnew t ht ⟨hns, hobject⟩
    rw [htuples] at ht
    exact hnew (hids t ht id hns hobject)
  · refine iff_of_false (fun h => ?_) fun h => h htr
    have hlength := congrArg List.length (hprojects.symm.trans h.1)
    simp at hlength

/-- **CreateProject is all-or-nothing** exactly when the backend does not refuse a grant for good,
and a project that is replayed still has its owner. -/
theorem createProject_allOrNothing {acts : List (Act (Move ι))}
    {t : Thread (Db ι) (Rec ι) (Call ι) (Reply ι) ConnectError Project}
    {r : Except ConnectError Project} (hids : IdsKnown codec w.ext)
    (hkeys : (w.store.projects.map ProjectRow.id).Nodup)
    (hrun : Machine.Exec (Thread.step (kanban ι))
      (Thread.start (createProject codec unicode ctx req).lossy, w) acts (t, w'))
    (hr : t.prog.result = some r) :
    AllOrNothing codec w w' r ↔ Compensated codec ctx req w t.trace r := by
  have hend := ensures_createProject.post_of_exec hrun hr
  rcases hend with ⟨tenantId, row, project, htenant, hrow, rfl, hid, rfl⟩ | ⟨hcreated, hfresh⟩
  · exact allOrNothing_replay hkeys htenant hrow hid t.trace
  · cases r with
    | error e => exact allOrNothing_error hids hcreated
    | ok project =>
        obtain ⟨row, hrow, hid, howner, -⟩ := hcreated
        refine iff_of_true ⟨row, hrow, hid, howner⟩ fun tenantId row htenant hrow => ?_
        rw [hfresh tenantId project rfl htenant] at hrow
        cases hrow

/-- A caller, and the Unicode tables of a project with an upper-case ASCII prefix. -/
def creator : RequestContext := ⟨some ⟨some "t", some "user:ann"⟩, none, 0⟩

def asciiUpper : Unicode := ⟨fun _ => true, id⟩

/-- The first project of a tenant. -/
def createRoadmap : Handler String Project :=
  createProject textIds asciiUpper creator ⟨"Roadmap", "ROAD", "", ""⟩

/-- The client, the project's id, the row and its answer, the two grants, the mirror row, of which the
answer is lost, and the count. -/
def mirrorAnswerLost : List (Act (Move String)) :=
  [.move .done, .move (.fresh "p"), .ok, .ok, .move .done, .move .done, .ok, .fail, .ok, .ok]

/-- The owner's grant is refused for good after the row was inserted. -/
def grantRefused : List (Act (Move String)) :=
  [.move .done, .move (.fresh "p"), .ok, .ok, .move (.refuse false)]

/-- The row is inserted, and the answer is lost. -/
def insertAnswerLost : List (Act (Move String)) := [.move .done, .move (.fresh "p"), .ok, .fail]

theorem createProject_allOrNothing_mirrorAnswerLost :
    ∃ t w', Machine.Exec (Thread.step (kanban String))
        (Thread.start createRoadmap.lossy, ⟨Db.empty, Backend.empty⟩) mirrorAnswerLost (t, w') ∧
      t.prog.result = some (.ok ⟨"p", "Roadmap", "ROAD", "", 1⟩) ∧
      AllOrNothing textIds ⟨Db.empty, Backend.empty⟩ w'
        (.ok ⟨"p", "Roadmap", "ROAD", "", 1⟩) := by
  obtain ⟨⟨r, tr, w'⟩, hx, rfl⟩ : ∃ x, createRoadmap.lossy.returns (kanban String)
      ⟨Db.empty, Backend.empty⟩ mirrorAnswerLost = some x ∧
      x.1 = .ok ⟨"p", "Roadmap", "ROAD", "", 1⟩ := ⟨_, rfl, rfl⟩
  obtain ⟨t, hrun, hr, -⟩ := Prog.exec_of_returns hx
  refine ⟨t, w', hrun, hr, ?_⟩
  refine (createProject_allOrNothing ?_ ?_ hrun hr).mpr ?_
  · exact fun t ht => absurd ht List.not_mem_nil
  · exact List.nodup_nil
  · intro tenantId row _ hrow
    cases hrow

/-- A call that returns an error and has left a row. -/
theorem not_allOrNothing_of_left {acts : List (Act (Move String))} {e : ConnectError}
    {x : Except ConnectError Project × Trace (Rec String) (Call String) (Reply String) ×
      World (Db String) (Backend String)}
    (hx : createRoadmap.lossy.returns (kanban String) ⟨Db.empty, Backend.empty⟩ acts = some x)
    (he : x.1 = .error e) (hleft : x.2.2.store.projects.length = 1) :
    ∃ t w' e, Machine.Exec (Thread.step (kanban String))
        (Thread.start createRoadmap.lossy, ⟨Db.empty, Backend.empty⟩) acts (t, w') ∧
      t.prog.result = some (.error e) ∧
      ¬ AllOrNothing textIds ⟨Db.empty, Backend.empty⟩ w' (.error e) := by
  obtain ⟨r, tr, w'⟩ := x
  obtain ⟨t, hrun, hr, -⟩ := Prog.exec_of_returns hx
  refine ⟨t, w', e, hrun, hr.trans (congrArg some he), fun h => ?_⟩
  rw [h.1] at hleft
  cases hleft

/-- A refused grant and a lost answer leave the row of the project behind. -/
theorem createProject_not_allOrNothing :
    (∃ t w' e, Machine.Exec (Thread.step (kanban String))
        (Thread.start createRoadmap.lossy, ⟨Db.empty, Backend.empty⟩) grantRefused (t, w') ∧
      t.prog.result = some (.error e) ∧
      ¬ AllOrNothing textIds ⟨Db.empty, Backend.empty⟩ w' (.error e)) ∧
    ∃ t w' e, Machine.Exec (Thread.step (kanban String))
        (Thread.start createRoadmap.lossy, ⟨Db.empty, Backend.empty⟩) insertAnswerLost (t, w') ∧
      t.prog.result = some (.error e) ∧
      ¬ AllOrNothing textIds ⟨Db.empty, Backend.empty⟩ w' (.error e) :=
  ⟨not_allOrNothing_of_left rfl rfl rfl, not_allOrNothing_of_left rfl rfl rfl⟩

end Kanban.Rpc
