import Kanban.Rpc.Membership

/-!
# The mirror of a membership

AddMember reads the mirrored role, swaps the tuples and then writes the mirror row; RemoveMember
deletes the tuples and then the row.  Nothing keeps two calls apart, so the steps of one can
fall between the steps of another.

The section of a call runs from its permission client to its mirror write.

## Main results

* `members_inSync` — tuples and mirror agree in every run whose sections do not overlap.
-/

namespace Kanban.Rpc

open Program Kanban.Store Kanban.Auth
open Kanban.Services (AuthContext ConnectError IdCodec)

variable {ι : Type} [DecidableEq ι]

/-- A project of a tenant and a subject. -/
structure Membership (ι : Type) where
  tenantId : String
  projectId : ι
  subject : String

/-- The call is one on this project and this subject. -/
def Concerns (codec : IdCodec ι) (M : Membership ι) (q : MemberRequest) : Prop :=
  q.ctx.auth.bind AuthContext.tenantId = some M.tenantId ∧
  q.ctx.checked.bind codec.parse = some M.projectId ∧ q.call.subject = M.subject

/-- True if the tuple gives the subject a role on the project. -/
def Membership.roleTuple (codec : IdCodec ι) (M : Membership ι) (t : RelationTuple) : Bool :=
  t.tenant = M.tenantId ∧ t.namespaceName = permissionTypeProject ∧
    t.object = codec.toString M.projectId ∧ t.subjectId = M.subject

/-- The roles that the subject's tuples give it. -/
def Membership.roles (codec : IdCodec ι) (M : Membership ι) (b : Backend ι) : List String :=
  (b.tuples.filter (M.roleTuple codec)).map RelationTuple.relation

/-- The mirror row of a role. -/
def Membership.row (M : Membership ι) (role : String) : MemberRow ι :=
  ⟨M.projectId, M.tenantId, M.subject, role⟩

omit [DecidableEq ι] in
@[simp] theorem Membership.row_role (M : Membership ι) (role : String) : (M.row role).role = role :=
  rfl

omit [DecidableEq ι] in
@[simp] theorem Membership.row_inj (M : Membership ι) {role role' : String} :
    M.row role = M.row role' ↔ role = role' := by
  simp [Membership.row]

/-- The subject's mirror rows. -/
def Membership.rows (M : Membership ι) (db : Db ι) : List (MemberRow ι) :=
  db.projectMembers.filter (Db.membersT.same (M.row ""))

/-- The tuples give the subject the roles of the list, and the mirror has their rows. -/
def Membership.Has (codec : IdCodec ι) (M : Membership ι) (roles : List String)
    (w : World (Db ι) (Backend ι)) : Prop :=
  M.roles codec w.ext = roles ∧ M.rows w.store = roles.map M.row

/-- Tuples and mirror agree: the one role of the row, or no row and no role. -/
def Membership.InSync (codec : IdCodec ι) (M : Membership ι) (w : World (Db ι) (Backend ι)) :
    Prop :=
  ∃ role : Option String, M.Has codec role.toList w

section Roles

variable {codec : IdCodec ι} {M : Membership ι} {b b' : Backend ι} {db : Db ι}
  {w : World (Db ι) (Backend ι)} {roles : List String}

omit [DecidableEq ι] in
/-- A deletion targets the tuples of the subject with the role. -/
theorem targeted_eq {relation : Option String} {t : RelationTuple} :
    targeted (projectTuples codec M.tenantId M.projectId relation) (some M.subject) t =
      (M.roleTuple codec t && relation.all (t.relation = ·)) := by
  rw [Bool.eq_iff_iff]
  simp only [targeted, TupleFilter.admits, projectTuples, Membership.roleTuple]
  cases relation with
  | none => simp [and_assoc]
  | some r =>
      simp
      tauto

omit [DecidableEq ι] in
theorem roles_delete {relation : Option String}
    (h : b'.tuples = b.tuples.filter fun t =>
      !targeted (projectTuples codec M.tenantId M.projectId relation) (some M.subject) t) :
    M.roles codec b' = (M.roles codec b).filter fun r => !relation.all (r = ·) := by
  simp only [Membership.roles, h, targeted_eq, List.filter_filter, List.filter_map]
  congr 1
  refine List.filter_congr fun t _ => ?_
  cases M.roleTuple codec t <;> simp

omit [DecidableEq ι] in
theorem roles_create {role : String} :
    M.roles codec (b.create M.tenantId permissionTypeProject (codec.toString M.projectId) role
      M.subject) =
      if role ∈ M.roles codec b then M.roles codec b else M.roles codec b ++ [role] := by
  have hholds : b.Holds M.tenantId permissionTypeProject (codec.toString M.projectId) role
      M.subject ↔ role ∈ M.roles codec b := by
    simp only [Backend.Holds, Membership.roles, Membership.roleTuple, List.mem_map,
      List.mem_filter, decide_eq_true_eq]
    constructor
    · rintro ⟨t, ht, htenant, hns, hobject, hrelation, hsubject⟩
      exact ⟨t, ⟨ht, htenant, hns, hobject, hsubject⟩, hrelation⟩
    · rintro ⟨t, ⟨ht, htenant, hns, hobject, hsubject⟩, hrelation⟩
      exact ⟨t, ht, htenant, hns, hobject, hrelation, hsubject⟩
  unfold Backend.create
  by_cases h : role ∈ M.roles codec b
  · rw [if_pos (hholds.mpr h), if_pos h]
  · rw [if_neg (hholds.not.mpr h), if_neg h]
    simp [Membership.roles, Membership.roleTuple]

/-- The rows that AddMember and RemoveMember select. -/
theorem selected_rows (roles : List String) (h : M.rows db = roles.map M.row) :
    (db.projectMembers.filter fun m => m.tenantId = M.tenantId ∧ m.projectId = M.projectId ∧
      m.userId = M.subject) = roles.map M.row := by
  have hsplit : (db.projectMembers.filter fun m => m.tenantId = M.tenantId ∧
      m.projectId = M.projectId ∧ m.userId = M.subject) =
      (M.rows db).filter fun m => m.tenantId = M.tenantId := by
    rw [Membership.rows, List.filter_filter]
    refine List.filter_congr fun m _ => ?_
    rw [Bool.eq_iff_iff]
    simp only [Db.membersT_same, Membership.row, decide_eq_true_eq, Bool.and_eq_true]
    constructor
    · rintro ⟨htenant, hproject, huser⟩
      exact ⟨htenant, hproject.symm, huser.symm⟩
    · rintro ⟨htenant, hproject, huser⟩
      exact ⟨htenant, hproject.symm, huser.symm⟩
  rw [hsplit, h, List.filter_eq_self]
  intro m hm
  obtain ⟨role, -, rfl⟩ := List.mem_map.mp hm
  simp [Membership.row]

/-- The mirror after a role was put. -/
theorem rows_put {role : String} {old : Option String} (h : M.rows db = old.toList.map M.row) :
    M.rows (db.apply (.put (.member (M.row role)))) = [M.row role] := by
  have hput := Table.filter_put db.projectMembers
    (show Db.membersT.same (M.row role) (M.row role) by simp [Membership.row])
  have hrows : db.projectMembers.filter (Db.membersT.same (M.row role)) = old.toList.map M.row := h
  rw [hrows] at hput
  refine hput.trans ?_
  cases old with
  | none => rfl
  | some old => rfl

/-- What the upsert of a role writes. -/
theorem upsert_writes {role : String} {old : Option String}
    (h : M.rows db = old.toList.map M.row) {e : Effect (Rec ι) (MemberRow ι)}
    (he : Db.membersT.upsert (M.row role) (fun m => { m with role := role }) db = some e) :
    e.writes = [.put (.member (M.row role))] := by
  have hrows : db.projectMembers.filter (Db.membersT.same (M.row role)) = old.toList.map M.row := h
  unfold Table.upsert at he
  rw [Db.membersT_rows, ← List.head?_filter, hrows] at he
  cases old with
  | none =>
      cases he
      rfl
  | some old =>
      cases he
      rfl

/-- The mirror after its rows were deleted. -/
theorem rows_delete {old : Option String} (h : M.rows db = old.toList.map M.row) :
    M.rows ((kanban ι).applyAll db (old.toList.map fun r => .del (.member (M.row r)))) = [] := by
  cases old with
  | none => exact h
  | some old =>
      refine List.filter_eq_nil_iff.mpr fun m hm hs => ?_
      have hnot : Db.membersT.same (M.row old) m = false := (Table.mem_del.mp hm).2
      have hsame : Db.membersT.same (M.row old) m = true := hs
      rw [hnot] at hsame
      cases hsame

end Roles

/-! ## The section of a call -/

/-- The call has asked for its permission client. -/
def Begun (tr : Trace (Rec ι) (Call ι) (Reply ι)) : Prop :=
  ∃ tenant ok, .called (.tenantClient tenant) ok ∈ tr

/-- The call has written the mirror. -/
def Mirrored (tr : Trace (Rec ι) (Call ι) (Reply ι)) : Prop :=
  ∃ ws, .committed ws ∈ tr ∧ ws ≠ []

/-- Not a failure of the database or of the permission backend. -/
def Succeeded : Event (Rec ι) (Call ι) (Reply ι) → Prop
  | .failed => False
  | .called (.tenantClient _) ok => ok = true
  | .called (.createRelationTuple _ _ _ _ _) r => r.isOk = true
  | .called (.listRelationTuples _ _) r => r.isSome = true
  | .called (.deleteRelationTuple _) ok => ok = true
  | _ => True

instance : DecidablePred (Succeeded : Event (Rec ι) (Call ι) (Reply ι) → Prop)
  | .failed => isFalse id
  | .called (.tenantClient _) ok => inferInstanceAs (Decidable (ok = true))
  | .called (.createRelationTuple _ _ _ _ _) r => inferInstanceAs (Decidable (r.isOk = true))
  | .called (.listRelationTuples _ _) r => inferInstanceAs (Decidable (r.isSome = true))
  | .called (.deleteRelationTuple _) ok => inferInstanceAs (Decidable (ok = true))
  | .called (.checkPermission _ _) _ => isTrue trivial
  | .called (.resolveSubject _ _) _ => isTrue trivial
  | .called .newId _ => isTrue trivial
  | .called .diverge _ => isTrue trivial
  | .ran _ => isTrue trivial
  | .committed _ => isTrue trivial

/-- The section of a membership: the protected part are the tuples and the mirror. -/
def memberSection (codec : IdCodec ι) (M : Membership ι) :
    Section (Db ι) (Rec ι) (Call ι) (Reply ι) (Backend ι) where
  inside tr := Begun tr ∧ ¬ Mirrored tr
  dirty _ := True
  clean tr := ∀ e ∈ tr, Succeeded e
  Same w w' := w'.ext.tuples = w.ext.tuples ∧ w'.store.projectMembers = w.store.projectMembers
  Sync := M.InSync codec
  Grows _ _ := True
  not_inside_nil h := by
    obtain ⟨_, _, hmem⟩ := h.1
    cases hmem
  clean_nil _ h := absurd h List.not_mem_nil
  clean_of_cons _ _ h e he := h e (List.mem_cons_of_mem _ he)
  inside_failed tr := by simp [Begun, Mirrored]
  dirty_failed _ := Iff.rfl
  same_refl _ := ⟨rfl, rfl⟩
  same_trans _ _ _ h h' := ⟨h'.1.trans h.1, h'.2.trans h.2⟩
  sync_of_same w w' h hsync := by
    simpa only [Membership.InSync, Membership.Has, Membership.roles, Membership.rows, h.1, h.2]
      using hsync
  grows_refl _ := trivial
  grows_trans _ _ _ _ _ := trivial

variable {codec : IdCodec ι} {M : Membership ι} {α : Type} {tx : Tx (Rec ι)}
  {tr tr' : Trace (Rec ι) (Call ι) (Reply ι)} {w w' : World (Db ι) (Backend ι)}

/-- A call that has met a failure promises nothing. -/
theorem ensures_unclean {Q : Post (Db ι) (Rec ι) (Call ι) (Reply ι) (Backend ι) ConnectError α}
    {p : Handler ι α} (h : ¬ (memberSection codec M).clean tr)
    (hQ : ∀ r tx tr w, ¬ (memberSection codec M).clean tr → Q r tx tr w) :
    Ensures (kanban ι) (memberSection codec M).rely (memberSection codec M).guarantee Q p tx tr
      w := by
  have hcons : ∀ {tr : Trace (Rec ι) (Call ι) (Reply ι)} {e}, ¬ (memberSection codec M).clean tr →
      ¬ (memberSection codec M).clean (e :: tr) :=
    fun hn hc => hn fun e he => hc e (List.mem_cons_of_mem _ he)
  have hnote : ∀ {β : Type} {e : Effect (Rec ι) β} {tx : Tx (Rec ι)} {tr},
      ¬ (memberSection codec M).clean tr →
      ¬ (memberSection codec M).clean (tx.note e tr) := by
    intro β e tx tr hn
    cases tx with
    | idle => exact hcons (hcons hn)
    | active ws => exact hcons hn
    | aborted => exact hcons hn
  induction p generalizing tx tr w with
  | pure a => exact hQ _ _ _ _ h
  | fail e => exact hQ _ _ _ _ h
  | stmt s k ih =>
      intro w₁ _
      refine ⟨fun e _ => ⟨⟨trivial, fun hc => absurd hc (hnote h)⟩, ih _ (hnote h)⟩, ih _ (hcons h)⟩
  | begin k ih => exact fun w₁ _ => ⟨ih _ h, ih _ (hcons h)⟩
  | commit k ih =>
      intro w₁ _
      refine ⟨?_, ih _ (hcons h)⟩
      cases tx with
      | active ws => exact ⟨⟨trivial, fun hc => absurd hc (hcons h)⟩, ih _ (hcons h)⟩
      | idle => exact ih _ h
      | aborted => exact ih _ h
  | call c k ih =>
      intro w₁ _ m r _
      exact ⟨⟨trivial, fun hc => absurd hc (hcons h)⟩, ih _ (hcons h)⟩

/-- A step inside the section is free. -/
theorem guarantee_inside (h : (memberSection codec M).inside tr)
    (h' : (memberSection codec M).inside tr') :
    (memberSection codec M).guarantee tr w tr' w' :=
  ⟨trivial, fun _ => ⟨fun _ hout => absurd h hout, fun _ hnot => absurd ⟨h', trivial⟩ hnot⟩⟩

/-- The first step enters the section. -/
theorem guarantee_enter (h : (memberSection codec M).inside tr') :
    (memberSection codec M).guarantee [] w tr' w' :=
  ⟨trivial, fun _ => ⟨fun hne => absurd rfl hne, fun _ hnot => absurd ⟨h, trivial⟩ hnot⟩⟩

/-- The step that leaves the section leaves tuples and mirror in agreement. -/
theorem guarantee_leave (h : (memberSection codec M).inside tr)
    (hsync : (memberSection codec M).clean tr' → M.InSync codec w') :
    (memberSection codec M).guarantee tr w tr' w' :=
  ⟨trivial, fun hc => ⟨fun _ hout => absurd h hout, fun _ _ => hsync hc⟩⟩

/-- A step after the section touches neither. -/
theorem guarantee_outside (hne : tr ≠ []) (h : ¬ (memberSection codec M).inside tr)
    (hsame : (memberSection codec M).Same w w') (h' : ¬ (memberSection codec M).inside tr') :
    (memberSection codec M).guarantee tr w tr' w' :=
  ⟨trivial, fun _ => ⟨fun _ _ => ⟨hsame, h'⟩, fun ho _ => absurd ho (by simp [hne, h])⟩⟩

/-! ## After the section -/

omit [DecidableEq ι] in
theorem Mirrored.cons {e : Event (Rec ι) (Call ι) (Reply ι)} (h : Mirrored tr) :
    Mirrored (e :: tr) := by
  obtain ⟨ws, hmem, hne⟩ := h
  exact ⟨ws, List.mem_cons_of_mem _ hmem, hne⟩

/-- A step after the mirror write. -/
theorem guarantee_mirrored {e : Event (Rec ι) (Call ι) (Reply ι)} (h : Mirrored tr)
    (hsame : (memberSection codec M).Same w w') :
    (memberSection codec M).guarantee tr w (e :: tr) w' := by
  refine guarantee_outside ?_ (fun hin => hin.2 h) hsame fun hin => hin.2 h.cons
  rintro rfl
  obtain ⟨_, hmem, -⟩ := h
  cases hmem

/-- What a call promises once it has written the mirror, or has met a failure: nothing more. -/
theorem post_mirrored {r : Except ConnectError Unit} (h : Mirrored tr) :
    (memberSection codec M).post (fun _ _ _ _ => True) r tx tr w :=
  ⟨fun _ hin => absurd h hin.2, trivial⟩

theorem post_unclean {r : Except ConnectError Unit} (h : ¬ (memberSection codec M).clean tr) :
    (memberSection codec M).post (fun _ _ _ _ => True) r tx tr w :=
  ⟨fun hc => absurd hc h, trivial⟩

/-- The event of a membership touches neither tuples nor mirror. -/
theorem ensures_memberEvent {tenantId eventType : String} {projectId : ι} {payload : Payload}
    (h : Mirrored tr) :
    Ensures (kanban ι) (memberSection codec M).rely (memberSection codec M).guarantee
      ((memberSection codec M).post fun _ _ _ _ => True)
      (do
        beginTx "begin tx failed"
        insertProjectEvent tenantId projectId eventType payload
        commitTx "commit failed") tx tr w := by
  have hpost : ∀ {tr : Trace (Rec ι) (Call ι) (Reply ι)} {r tx w}, Mirrored tr →
      (memberSection codec M).post (fun _ _ _ _ => True) r tx tr w := fun h => post_mirrored h
  simp only [insertProjectEvent, insertRow, pgNotify, Table.insert, Prog.bind_eq, ensures_bind,
    ensures_beginTx, ensures_newId, ensures_query, ensures_commitTx, Tx.query_active,
    Tx.record_active, Tx.note_active, Tx.land_active]
  intro w₁ _
  refine ⟨fun w₂ _ id _ => ⟨guarantee_mirrored h ⟨rfl, rfl⟩, fun w₃ _ => ⟨fun e he => ?_, ?_⟩⟩, ?_⟩
  · split at he
    · cases he
    · cases he
      refine ⟨guarantee_mirrored h.cons ⟨rfl, rfl⟩, fun w₄ _ => ⟨?_, hpost h.cons.cons.cons⟩⟩
      rintro e ⟨⟩
      refine ⟨guarantee_mirrored h.cons.cons ⟨rfl, rfl⟩, fun w₅ _ => ⟨⟨?_, ?_⟩, ?_⟩⟩
      · exact guarantee_mirrored h.cons.cons.cons ⟨rfl, rfl⟩
      · exact hpost h.cons.cons.cons.cons
      · exact hpost h.cons.cons.cons.cons
  · exact hpost h.cons.cons
  · exact hpost h.cons

/-! ## Inside the section -/

/-- The call has begun and the mirror is not yet written, or the call met a failure; as long as
it met none, the subject has `roles` and the mirror `mirrored`. -/
def Inside (codec : IdCodec ι) (M : Membership ι) (roles mirrored : List String)
    (tr : Trace (Rec ι) (Call ι) (Reply ι)) (w : World (Db ι) (Backend ι)) : Prop :=
  (memberSection codec M).inside tr ∧ ((memberSection codec M).clean tr →
    M.roles codec w.ext = roles ∧ M.rows w.store = mirrored.map M.row)

variable {roles mirrored : List String}

theorem Inside.rely (h : Inside codec M roles mirrored tr w)
    (hw : (memberSection codec M).rely tr w w') :
    Inside codec M roles mirrored tr w' ∧ w'.ext.tuples = w.ext.tuples := by
  obtain ⟨htuples, hmembers⟩ := hw.2.1 h.1
  refine ⟨⟨h.1, fun hc => ?_⟩, htuples⟩
  simpa only [Membership.roles, Membership.rows, htuples, hmembers] using h.2 hc

omit [DecidableEq ι] in
theorem eq_nil_of_called {c : Call ι} {r : Reply ι c} (ws : List (Write (Rec ι)))
    (h : (.called c r : Event (Rec ι) (Call ι) (Reply ι)) = .committed ws) : ws = [] := by
  cases h

omit [DecidableEq ι] in
/-- An event that is no write keeps a call inside. -/
theorem inside_cons {e : Event (Rec ι) (Call ι) (Reply ι)}
    (h : Begun tr ∧ ¬ Mirrored tr) (he : ∀ ws, e = .committed ws → ws = []) :
    Begun (e :: tr) ∧ ¬ Mirrored (e :: tr) := by
  obtain ⟨⟨tenant, ok, hmem⟩, hnot⟩ := h
  refine ⟨⟨tenant, ok, List.mem_cons_of_mem _ hmem⟩, ?_⟩
  rintro ⟨ws, hws, hne⟩
  rcases List.mem_cons.mp hws with hws | hws
  · exact hne (he ws hws.symm)
  · exact hnot ⟨ws, hws, hne⟩

/-- A step that changes neither tuples nor mirror. -/
theorem Inside.cons {e : Event (Rec ι) (Call ι) (Reply ι)} (h : Inside codec M roles mirrored tr w)
    (he : ∀ ws, e = .committed ws → ws = []) : Inside codec M roles mirrored (e :: tr) w :=
  ⟨inside_cons h.1 he, fun hc => h.2 fun e he => hc e (List.mem_cons_of_mem _ he)⟩

/-- A statement that only reads. -/
theorem Inside.read {read : List (Rec ι)} (h : Inside codec M roles mirrored tr w) :
    Inside codec M roles mirrored (.committed [] :: .ran read :: tr) w := by
  have hran : Inside codec M roles mirrored (.ran read :: tr) w := h.cons (by rintro _ ⟨⟩)
  exact hran.cons (by rintro _ ⟨⟩; rfl)

/-- A failed step. -/
theorem Inside.failed {roles' mirrored' : List String} {e : Event (Rec ι) (Call ι) (Reply ι)}
    (h : Inside codec M roles mirrored tr w) (he : ∀ ws, e = .committed ws → ws = [])
    (hfail : ¬ Succeeded e) : Inside codec M roles' mirrored' (e :: tr) w' :=
  ⟨inside_cons h.1 he, fun hc => absurd (hc e List.mem_cons_self) hfail⟩

/-- The grant of a role. -/
theorem Inside.granted (role : String) (h : Inside codec M roles mirrored tr w) :
    Inside codec M (if role ∈ roles then roles else roles ++ [role]) mirrored
      (granted M.tenantId permissionTypeProject (codec.toString M.projectId) role M.subject :: tr)
      { w with
        ext := w.ext.create M.tenantId permissionTypeProject (codec.toString M.projectId) role
          M.subject } := by
  refine ⟨inside_cons h.1 eq_nil_of_called, fun hc => ?_⟩
  obtain ⟨hroles, hrows⟩ := h.2 fun e he => hc e (List.mem_cons_of_mem _ he)
  exact ⟨by rw [roles_create, hroles], hrows⟩

omit [DecidableEq ι] in
theorem DeletionFailed.not_committed {e : Event (Rec ι) (Call ι) (Reply ι)}
    (h : DeletionFailed e) (ws : List (Write (Rec ι))) (he : e = .committed ws) : ws = [] := by
  rw [he] at h
  exact h.elim

omit [DecidableEq ι] in
theorem DeletionFailed.not_succeeded {e : Event (Rec ι) (Call ι) (Reply ι)}
    (h : DeletionFailed e) : ¬ Succeeded e := by
  intro hs
  cases e with
  | called c r =>
      cases c with
      | listRelationTuples f after =>
          rw [show r = none from h] at hs
          cases hs
      | deleteRelationTuple id => exact Bool.false_ne_true (h.symm.trans hs)
      | _ => exact h
  | _ => exact h

/-- The deletion of the subject's tuples, of one role or of all. -/
theorem ensures_deleteRoles {relation : Option String} {pages : ℕ}
    {Q : Post (Db ι) (Rec ι) (Call ι) (Reply ι) (Backend ι) ConnectError Bool}
    (h : Inside codec M roles mirrored tr w)
    (hdone : ∀ tr w', Inside codec M (roles.filter fun r => !relation.all (r = ·)) mirrored tr w' →
      Q (.ok true) tx tr w')
    (hfail : ∀ tr w', (memberSection codec M).inside tr → ¬ (memberSection codec M).clean tr →
      Q (.ok false) tx tr w') :
    Ensures (kanban ι) (memberSection codec M).rely (memberSection codec M).guarantee Q
      (deleteRelationTuples pages (projectTuples codec M.tenantId M.projectId relation)
        (some M.subject)) tx tr w := by
  have hstep : ∀ {tr' : Trace (Rec ι) (Call ι) (Reply ι)} {w₁ w₂ : World (Db ι) (Backend ι)}
      {e : Event (Rec ι) (Call ι) (Reply ι)}, (∀ ws, e = .committed ws → ws = []) →
      w₂.store = w₁.store →
      (memberSection codec M).inside tr' ∧
        ((memberSection codec M).clean tr' → (memberSection codec M).clean tr) ∧
        M.rows w₁.store = M.rows w.store →
      (memberSection codec M).guarantee tr' w₁ (e :: tr') w₂ ∧
      (memberSection codec M).inside (e :: tr') ∧
        ((memberSection codec M).clean (e :: tr') → (memberSection codec M).clean tr) ∧
        M.rows w₂.store = M.rows w.store := by
    rintro tr' w₁ w₂ e he hstore ⟨hin, hclean, hrows⟩
    refine ⟨guarantee_inside hin (inside_cons hin he), inside_cons hin he, fun hc => ?_, ?_⟩
    · exact hclean fun e he => hc e (List.mem_cons_of_mem _ he)
    · rw [hstore, hrows]
  refine ensures_deleteRelationTuples_exact (fun tr' w' => (memberSection codec M).inside tr' ∧
    ((memberSection codec M).clean tr' → (memberSection codec M).clean tr) ∧
    M.rows w'.store = M.rows w.store) ⟨h.1, id, rfl⟩ ?_ ?_ ?_ ?_ ?_
  · rintro tr' w₁ w₂ ⟨hin, hclean, hrows⟩ hw
    obtain ⟨htuples, hmembers⟩ := hw.2.1 hin
    refine ⟨⟨hin, hclean, ?_⟩, htuples⟩
    rw [← hrows]
    simp only [Membership.rows, hmembers]
  · exact fun tr' w₁ after r hI => (hstep eq_nil_of_called rfl hI).imp_right fun h _ => h
  · rintro tr' w₁ id ok w₂ hI (rfl | rfl)
    · exact (hstep eq_nil_of_called rfl hI).imp_right fun h _ => h
    · have hI' := hstep (e := deletedTuple id ok) eq_nil_of_called
        (show (dropTuple w₁ id).store = w₁.store from rfl) hI
      exact hI'.imp_right fun h _ => h
  · rintro tr' w' ⟨hin, hclean, hrows⟩ htuples
    refine hdone tr' w' ⟨hin, fun hc => ?_⟩
    obtain ⟨hroles, hmirror⟩ := h.2 (hclean hc)
    rw [roles_delete htuples, hroles, hrows, hmirror]
    exact ⟨rfl, rfl⟩
  · rintro tr' e w₁ w' ⟨hin, -, -⟩ - he -
    refine hfail _ w' (inside_cons hin he.not_committed) fun hc => ?_
    exact he.not_succeeded (hc e List.mem_cons_self)

variable {role old : Option String}

/-- A call that has returned while tuples and mirror agree. -/
theorem Inside.post {r : Except ConnectError Unit}
    (h : Inside codec M role.toList role.toList tr w) :
    (memberSection codec M).post (fun _ _ _ _ => True) r tx tr w :=
  ⟨fun hc _ => ⟨role, h.2 hc⟩, trivial⟩

/-- The call asks for its client and so enters its section. -/
theorem Inside.enter {tenant : String} {ok : Bool} (hsync : M.InSync codec w) :
    ∃ role : Option String,
      Inside codec M role.toList role.toList [.called (.tenantClient tenant) ok] w := by
  obtain ⟨role, h⟩ := hsync
  refine ⟨role, ⟨⟨tenant, ok, List.mem_singleton_self _⟩, ?_⟩, fun _ => h⟩
  rintro ⟨ws, hws, -⟩
  cases List.mem_singleton.mp hws

/-- Grant the role and write the mirror, once the subject holds no other role. -/
theorem ensures_grantRole {role : String} {event : String × Payload}
    (hin : Inside codec M roles old.toList tr w) (hroles : roles = [] ∨ roles = [role]) :
    Ensures (kanban ι) (memberSection codec M).rely (memberSection codec M).guarantee
      ((memberSection codec M).post fun _ _ _ _ => True)
      (do
        let granted ← grantWithRetry M.tenantId permissionTypeProject
          (codec.toString M.projectId) role M.subject
        ensure (granted = true)
          (internal "failed to write member tuple to the permission backend")
        let _ ← attempt (Db.membersT.upsert (M.row role) fun m => { m with role := role })
        beginTx "begin tx failed"
        insertProjectEvent M.tenantId M.projectId event.1 event.2
        commitTx "commit failed") .idle tr w := by
  simp only [Prog.bind_eq]
  rw [ensures_bind]
  apply ensures_grantWithRetry fun tr w => Inside codec M roles old.toList tr w
  · exact hin
  · exact fun _ _ _ h hw => (h.rely hw).1
  · intro tr w e h
    exact ⟨guarantee_inside h.1 (inside_cons h.1 eq_nil_of_called), h.cons eq_nil_of_called⟩
  · intro tr w e h
    exact ⟨guarantee_inside h.1 (inside_cons h.1 eq_nil_of_called),
      h.failed eq_nil_of_called fun hs => by cases hs⟩
  · intro tr w h
    have h' := h.granted role
    have hheld : (if role ∈ roles then roles else roles ++ [role]) = [role] := by
      rcases hroles with rfl | rfl
      · rfl
      · simp
    rw [hheld] at h'
    refine ⟨guarantee_inside h.1 h'.1, ensures_ensure_bind (fun _ => ?_) fun hf => absurd rfl hf⟩
    rw [ensures_bind, ensures_attempt]
    intro w₁ hw₁
    obtain ⟨h₁, -⟩ := h'.rely hw₁
    refine ⟨fun e he => ?_, ensures_unclean (fun hc => hc _ List.mem_cons_self) fun _ _ _ _ hc =>
      post_unclean hc⟩
    refine ⟨guarantee_leave h₁.1 fun hc => ?_, ensures_memberEvent ?_⟩
    · obtain ⟨hroles₁, hrows₁⟩ := h₁.2 fun e he =>
        hc e (List.mem_cons_of_mem _ (List.mem_cons_of_mem _ he))
      refine ⟨some role, hroles₁, ?_⟩
      rw [Tx.land_idle, upsert_writes hrows₁ he]
      exact rows_put hrows₁
    · exact ⟨e.writes, List.mem_cons_self, Table.writes_upsert_ne_nil he⟩
  · intro tr w e h
    refine ensures_ensure_bind (fun hf => absurd hf Bool.false_ne_true) fun _ => ?_
    exact post_unclean fun hc => by cases hc _ List.mem_cons_self

/-- The section of AddMember: read the mirrored role, clear its stale tuple, grant the new role,
write the mirror. -/
theorem ensures_addRole {pages : ℕ} {req : AddMemberRequest} (hsubject : req.subject = M.subject)
    (hin : Inside codec M old.toList old.toList tr w) :
    Ensures (kanban ι) (memberSection codec M).rely (memberSection codec M).guarantee
      ((memberSection codec M).post fun _ _ _ _ => True)
      (do
        let existing ← fetchOptional "failed to look up existing member role"
          (selectMember M.tenantId M.projectId req.subject)
        let existingRole := existing.map MemberRow.role
        let _ ← clearStaleRole codec pages M.tenantId M.projectId req existingRole
        let granted ← grantWithRetry M.tenantId permissionTypeProject
          (codec.toString M.projectId) req.relation req.subject
        ensure (granted = true)
          (internal "failed to write member tuple to the permission backend")
        let _ ← attempt (Db.membersT.upsert ⟨M.projectId, M.tenantId, req.subject, req.relation⟩
          fun m => { m with role := req.relation })
        let event := memberEvent codec M.projectId req existingRole
        beginTx "begin tx failed"
        insertProjectEvent M.tenantId M.projectId event.1 event.2
        commitTx "commit failed") .idle tr w := by
  rw [hsubject]
  have hfailed : ∀ {p : Handler ι Unit} {tx tr w}, ¬ (memberSection codec M).clean tr →
      Ensures (kanban ι) (memberSection codec M).rely (memberSection codec M).guarantee
        ((memberSection codec M).post fun _ _ _ _ => True) p tx tr w :=
    fun hc => ensures_unclean hc fun _ _ _ _ hc => post_unclean hc
  refine ensures_fetchOptional_bind (fun w₁ hw₁ => ?_) fun w₁ _ =>
    post_unclean fun hc => hc _ List.mem_cons_self
  obtain ⟨hin₁, -⟩ := hin.rely hw₁
  refine ⟨guarantee_inside hin₁.1 hin₁.read.1, ?_⟩
  by_cases hc : (memberSection codec M).clean tr
  · have hselected : (Db.membersT.rows w₁.store).filter (fun m => m.tenantId = M.tenantId ∧
        m.projectId = M.projectId ∧ m.userId = M.subject) = old.toList.map M.row :=
      selected_rows _ (hin₁.2 hc).2
    rw [hselected]
    dsimp only [Prog.bind_eq]
    rw [ensures_bind]
    cases old with
    | none => exact ensures_grantRole hin₁.read (.inl rfl)
    | some old =>
        simp only [Option.toList_some, List.map_cons, List.map_nil, List.head?_cons,
          Option.map_some, clearStaleRole]
        by_cases hold : old = req.relation
        · rw [if_neg (by simp [Membership.row, hold])]
          exact ensures_grantRole hin₁.read (.inr (by simp [hold]))
        · rw [if_pos (by simpa [Membership.row] using hold), hsubject]
          refine ensures_deleteRoles hin₁.read (fun tr w' h => ?_) fun _ _ _ hc => hfailed hc
          exact ensures_grantRole h (.inl (by simp [Membership.row]))
  · exact hfailed fun hc' => hc fun e he =>
      hc' e (List.mem_cons_of_mem _ (List.mem_cons_of_mem _ he))

/-- What every call on the membership begins with: its checks and its client. -/
theorem ensures_memberCall {ctx : RequestContext} {body : String → ι → String → Handler ι Unit}
    (htenant : ctx.auth.bind AuthContext.tenantId = some M.tenantId)
    (hproject : ctx.checked.bind codec.parse = some M.projectId)
    (hbody : ∀ (role : Option String) tr w, Inside codec M role.toList role.toList tr w →
      Ensures (kanban ι) (memberSection codec M).rely (memberSection codec M).guarantee
        ((memberSection codec M).post fun _ _ _ _ => True)
        (body M.tenantId M.projectId M.tenantId) .idle tr w) :
    Ensures (kanban ι) (memberSection codec M).rely (memberSection codec M).guarantee
      ((memberSection codec M).post fun _ _ _ _ => True)
      (do
        let objectId ← checkedObjectId ctx
        let tenantId ← tenantIdFromRequest ctx
        let projectId ← parseId codec "invalid project_id" objectId
        let permission ← tenantClientFor ctx
        body tenantId projectId permission) .idle [] w := by
  have hnil : ∀ r : Except ConnectError Unit,
      (memberSection codec M).post (fun _ _ _ _ => True) r .idle [] w :=
    fun _ => ⟨fun _ hin => absurd hin (memberSection codec M).not_inside_nil, trivial⟩
  refine ensures_orError_bind (fun objectId hobjectId => ?_) fun _ => hnil _
  refine ensures_orError_bind (fun tenantId htenantId => ?_) fun _ => hnil _
  refine ensures_orError_bind (fun projectId hprojectId => ?_) fun _ => hnil _
  obtain rfl : M.tenantId = tenantId := Option.some.inj (htenant.symm.trans htenantId)
  obtain rfl : M.projectId = projectId := by
    rw [hobjectId, Option.bind_some, hprojectId] at hproject
    exact (Option.some.inj hproject).symm
  refine ensures_tenantClient_bind (fun tenant htenant' w₁ hw => ?_)
    (fun tenant _ w₁ hw => ?_) fun _ => hnil _
  · obtain rfl : M.tenantId = tenant := Option.some.inj (htenant.symm.trans htenant')
    obtain ⟨role, hin⟩ : ∃ role : Option String, Inside codec M role.toList role.toList
      [.called (.tenantClient M.tenantId) true] w₁ := Inside.enter (hw.1 rfl)
    exact ⟨guarantee_enter hin.1, hbody role _ w₁ hin⟩
  · obtain ⟨role, hin⟩ : ∃ role : Option String, Inside codec M role.toList role.toList
      [.called (.tenantClient tenant) false] w₁ := Inside.enter (hw.1 rfl)
    exact ⟨guarantee_enter hin.1, hin.post⟩

theorem ensures_addMember {pages : ℕ} {ctx : RequestContext} {req : AddMemberRequest}
    (htenant : ctx.auth.bind AuthContext.tenantId = some M.tenantId)
    (hproject : ctx.checked.bind codec.parse = some M.projectId)
    (hsubject : req.subject = M.subject) :
    Ensures (kanban ι) (memberSection codec M).rely (memberSection codec M).guarantee
      ((memberSection codec M).post fun _ _ _ _ => True) (addMember codec pages ctx req) .idle []
      w := by
  refine ensures_memberCall htenant hproject fun role tr w hin => ?_
  refine ensures_ensure_bind (fun _ => ?_) fun _ => hin.post
  refine ensures_ensure_bind (fun _ => ?_) fun _ => hin.post
  refine ensures_ensure_bind (fun _ => ?_) fun _ => hin.post
  refine ensures_ensure_bind (fun _ => ?_) fun _ => hin.post
  refine ensures_ensure_bind (fun _ => ?_) fun _ => hin.post
  exact ensures_addRole hsubject hin

theorem ensures_removeMember {pages : ℕ} {ctx : RequestContext} {req : RemoveMemberRequest}
    (htenant : ctx.auth.bind AuthContext.tenantId = some M.tenantId)
    (hproject : ctx.checked.bind codec.parse = some M.projectId)
    (hsubject : req.subject = M.subject) :
    Ensures (kanban ι) (memberSection codec M).rely (memberSection codec M).guarantee
      ((memberSection codec M).post fun _ _ _ _ => True) (removeMember codec pages ctx req) .idle
      [] w := by
  refine ensures_memberCall htenant hproject fun role tr w hin => ?_
  refine ensures_ensure_bind (fun _ => ?_) fun _ => hin.post
  rw [hsubject]
  dsimp only [Prog.bind_eq]
  rw [ensures_bind]
  refine ensures_deleteRoles hin (fun tr w₁ h => ?_) fun _ _ _ hc =>
    ensures_unclean hc fun _ _ _ _ hc => post_unclean hc
  have hnone : role.toList.filter (fun r => !(none : Option String).all (r = ·)) = [] := by simp
  rw [hnone] at h
  dsimp only
  rw [ensures_bind, ensures_query]
  intro w₂ hw₂
  obtain ⟨h₂, -⟩ := h.rely hw₂
  refine ⟨?_, post_unclean fun hc => hc _ List.mem_cons_self⟩
  rintro e ⟨⟩
  by_cases hc : (memberSection codec M).clean tr
  · obtain ⟨hroles, hmirror⟩ := h₂.2 hc
    have hselected : (Db.membersT.rows w₂.store).filter (fun m => m.tenantId = M.tenantId ∧
        m.projectId = M.projectId ∧ m.userId = M.subject) = role.toList.map M.row :=
      selected_rows _ hmirror
    simp only [Tx.view, hselected]
    cases role with
    | none =>
        refine ⟨guarantee_inside h₂.1 h₂.read.1, ensures_ensure_bind (fun hne => absurd rfl hne) ?_⟩
        have h₃ : Inside codec M (none : Option String).toList (none : Option String).toList
          (.committed [] :: .ran [] :: tr) w₂ := h₂.read
        intro _
        exact h₃.post
    | some role =>
        have hmirrored : ∀ ws : List (Write (Rec ι)), ws ≠ [] → ∀ e, Mirrored
            ((.committed ws : Event (Rec ι) (Call ι) (Reply ι)) :: e :: tr) :=
          fun ws hne e => ⟨ws, List.mem_cons_self, hne⟩
        refine ⟨guarantee_leave h₂.1 fun _ => ⟨none, hroles, rows_delete hmirror⟩,
          ensures_ensure_bind (fun _ => ?_) fun hne => absurd (List.cons_ne_nil _ _) hne⟩
        exact ensures_memberEvent (hmirrored _ (List.cons_ne_nil _ _) _)
  · have hc' : ∀ e e' : Event (Rec ι) (Call ι) (Reply ι),
        ¬ (memberSection codec M).clean (e :: e' :: tr) := fun e e' h =>
      hc fun e he => h e (List.mem_cons_of_mem _ (List.mem_cons_of_mem _ he))
    exact ⟨⟨trivial, fun h => absurd h (hc' _ _)⟩,
      ensures_unclean (hc' _ _) fun _ _ _ _ hc => post_unclean hc⟩

/-! ## Every run -/

/-- The calls on a membership. -/
def MemberRequestOn (codec : IdCodec ι) (M : Membership ι) := {q // Concerns codec M q}

/-- The handler of a call on a membership. -/
def membershipHandler (pages : ℕ) (q : MemberRequestOn codec M) : Handler ι Unit :=
  memberHandler codec pages q.1

/-- **Tuples and mirror converge.**  In every run of calls on one membership whose sections do
not overlap and in which nothing fails, tuples and mirror agree as soon as no call is inside its
section, so also once all calls have returned. -/
theorem members_inSync {pages : ℕ} {turns : List (Turn (MemberRequestOn codec M) (Move ι))}
    {P : Pool (MemberRequestOn codec M) (Db ι) (Rec ι) (Call ι) (Reply ι) (Backend ι) ConnectError
      Unit}
    (hroles : M.roles codec w.ext = []) (hrows : M.rows w.store = [])
    (hrun : Machine.ExecWhile (Pool.step (kanban ι) (membershipHandler pages))
      ((memberSection codec M).Guarded (kanban ι)) (Pool.idle w) turns P)
    (hquiet : ∀ c ∈ P.calls, ¬ (memberSection codec M).Busy c) : M.InSync codec P.world := by
  have hspec : ∀ (q : MemberRequestOn codec M) w,
      Ensures (kanban ι) (memberSection codec M).rely (memberSection codec M).guarantee
        ((memberSection codec M).post fun _ _ _ _ => True) (membershipHandler pages q) .idle [] w := by
    rintro ⟨⟨ctx, call⟩, htenant, hproject, hsubject⟩ w
    cases call with
    | add req => exact ensures_addMember htenant hproject hsubject
    | remove req => exact ensures_removeMember htenant hproject hsubject
  have hordered := Section.ordered (Q := fun _ _ _ _ _ => True) hspec hrun rfl ⟨none, hroles, hrows⟩
  exact hordered.sync fun c hc hbusy => hquiet c hc hbusy.1

/-- The membership of the examples, without a row and without a role. -/
def membershipOfCal : Membership String := ⟨"t", "p", "user:cal"⟩

/-- An admin makes a member an editor. -/
def addCal : MemberRequestOn textIds membershipOfCal :=
  ⟨⟨⟨some ⟨some "t", some "user:bob"⟩, some "p", 0⟩, .add ⟨"user:cal", "editor"⟩⟩, rfl, rfl, rfl⟩

/-- An admin removes the member. -/
def removeCal : MemberRequestOn textIds membershipOfCal :=
  ⟨⟨⟨some ⟨some "t", some "user:bob"⟩, some "p", 0⟩, .remove ⟨"user:cal"⟩⟩, rfl, rfl, rfl⟩

/-- An admin makes the member a viewer. -/
def demoteCal : MemberRequestOn textIds membershipOfCal :=
  ⟨⟨⟨some ⟨some "t", some "user:bob"⟩, some "p", 0⟩, .add ⟨"user:cal", "viewer"⟩⟩, rfl, rfl, rfl⟩

/-- The client, the row that is there, the tuple, the row, and the event. -/
def addsCal : List (Act (Move String)) :=
  [.move .done, .ok, .move .done, .ok, .ok, .move (.fresh "e"), .ok, .ok, .ok]

/-- The same, with the old tuple deleted before. -/
def demotesCal : List (Act (Move String)) :=
  [.move .done, .ok, .move (.page 10), .move .done, .move .done, .ok, .ok, .move (.fresh "f"), .ok, .ok,
    .ok]

theorem members_inSync_demoteCal :
    ∃ P : Pool _ _ _ _ _ _ _ _, Machine.ExecWhile (Pool.step (kanban String) (membershipHandler 1))
        ((memberSection textIds membershipOfCal).Guarded (kanban String))
        (Pool.idle ⟨Db.empty, Backend.empty⟩)
        ((.arrive addCal :: addsCal.map (.act 0)) ++ .arrive demoteCal :: demotesCal.map (.act 1)) P ∧
      membershipOfCal.roles textIds P.world.ext = ["viewer"] ∧
      membershipOfCal.InSync textIds P.world := by
  obtain ⟨x, hx, hr, hclean, y, hy, hr', hclean', hroles⟩ : ∃ x, Machine.run
      (Thread.step (kanban String)) (Thread.start (membershipHandler 1 addCal),
        ⟨Db.empty, Backend.empty⟩) addsCal = some x ∧
      x.1.prog.result = some (.ok ()) ∧ (∀ e ∈ x.1.trace, Succeeded e) ∧
      ∃ y, Machine.run (Thread.step (kanban String)) (Thread.start (membershipHandler 1 demoteCal),
        x.2) demotesCal = some y ∧
      y.1.prog.result = some (.ok ()) ∧ (∀ e ∈ y.1.trace, Succeeded e) ∧
      membershipOfCal.roles textIds y.2.ext = ["viewer"] :=
    ⟨_, rfl, rfl, by decide, _, rfl, rfl, by decide, rfl⟩
  obtain ⟨t, w⟩ := x
  obtain ⟨t', w'⟩ := y
  have hdone : ∀ d ∈ [(addCal, t)], ¬ (memberSection textIds membershipOfCal).Busy d := by
    intro d hd hbusy
    rw [List.mem_singleton.mp hd] at hbusy
    exact absurd (hr.symm.trans hbusy.1) (by simp)
  have hadd := Section.guarded_call (S := memberSection textIds membershipOfCal)
    (P := Pool.idle ⟨Db.empty, Backend.empty⟩) (by simp [Pool.idle]) hx hclean
  have hdemote := Section.guarded_call (P := ⟨[(addCal, t)], w⟩) hdone hy hclean'
  have hrun := hadd.trans hdemote
  refine ⟨_, hrun, hroles, members_inSync rfl rfl hrun fun c hc hbusy => ?_⟩
  rcases List.mem_append.mp hc with hc | hc
  · exact hdone c hc hbusy
  · rw [List.mem_singleton.mp hc] at hbusy
    exact absurd (hr'.symm.trans hbusy.1) (by simp)

/-- RemoveMember lists and finds no tuple; AddMember then runs to its mirror write; RemoveMember
deletes the row, and both write their events. -/
def removeAroundAdd : List (Turn (MemberRequestOn textIds membershipOfCal) (Move String)) :=
  [.arrive addCal, .arrive removeCal] ++
    [.move .done, .move (.page 200)].map (.act 1) ++
    [.move .done, .ok, .move .done, .ok].map (.act 0) ++
    [.ok, .ok, .move (.fresh "e₁"), .ok, .ok, .ok].map (.act 1) ++
    [.ok, .move (.fresh "e₂"), .ok, .ok, .ok].map (.act 0)

/-- Two overlapping calls leave a role without a row, though nothing failed. -/
theorem members_not_inSync :
    ∃ P : Pool _ _ _ _ _ _ _ _, Machine.Exec (Pool.step (kanban String) (membershipHandler 1))
        (Pool.idle ⟨Db.empty, Backend.empty⟩) removeAroundAdd P ∧
      (∀ c ∈ P.calls, c.2.prog.result = some (.ok ()) ∧ ∀ e ∈ c.2.trace, Succeeded e) ∧
      ¬ membershipOfCal.InSync textIds P.world := by
  obtain ⟨P, hP, hresult, hclean, hroles, hrows⟩ : ∃ P, Machine.run (Pool.step (kanban String)
      (membershipHandler 1)) (Pool.idle ⟨Db.empty, Backend.empty⟩) removeAroundAdd = some P ∧
      P.calls.map (fun c => c.2.prog.result) = [some (.ok ()), some (.ok ())] ∧
      (∀ tr ∈ P.calls.map fun c => c.2.trace, ∀ e ∈ tr, Succeeded e) ∧
      membershipOfCal.roles textIds P.world.ext = ["editor"] ∧
      membershipOfCal.rows P.world.store = [] := ⟨_, rfl, rfl, by decide, rfl, rfl⟩
  refine ⟨P, Machine.exec_of_run hP, fun c hc => ⟨?_, ?_⟩, ?_⟩
  · have hmem := List.mem_map_of_mem (f := fun c => c.2.prog.result) hc
    rw [hresult] at hmem
    simpa using hmem
  · exact hclean _ (List.mem_map_of_mem hc)
  · rintro ⟨role, hroles', hrows'⟩
    rw [hroles] at hroles'
    rw [hrows, ← hroles'] at hrows'
    cases hrows'

end Kanban.Rpc
