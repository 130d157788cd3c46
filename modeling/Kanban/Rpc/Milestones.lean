import Kanban.Rpc.Catalog
import Kanban.Rpc.EventStream
import Kanban.Rpc.Writes

/-!
# The milestones of cards

`cards.milestone_id` has no foreign key.  The handlers check a milestone before the write that
stores it, and `delete_milestone` clears the cards of a milestone before it deletes the row.  A
card keeps to the milestones of its project if what a call has checked is still so when it
commits, and if no card gets a milestone between the two statements of its deletion.

## Main definitions

* `MilestoneCall`, `milestoneHandler` — the calls that set or clear the milestone of a card.
* `MilestonesKept` — the milestone of a card is a milestone of its project.
* `UpToDate` — what a commit rests on is still so.
* `milestones_kept` — the property in every run whose commits are up to date.
-/

namespace Kanban.Rpc

open Program Kanban.Store Kanban.Auth
open Kanban.Services (AuthContext ConnectError IdCodec)

variable {ι : Type} [DecidableEq ι]

/-- A call that sets or clears the milestone of a card. -/
inductive MilestoneCall
  | createCard (req : CreateCardRequest)
  | updateCard (req : UpdateCardRequest)
  | transferCard (req : TransferCardRequest)
  | deleteMilestone (req : DeleteMilestoneRequest)
  deriving DecidableEq, Repr

/-- The handler of a call, without its response. -/
def milestoneHandler (codec : IdCodec ι) (pages : ℕ) (q : RequestContext × MilestoneCall) :
    Handler ι Unit :=
  match q.2 with
  | .createCard req => (createCard codec q.1 req).bind fun _ => .pure ()
  | .updateCard req => (updateCard codec q.1 req).bind fun _ => .pure ()
  | .transferCard req => (transferCard codec pages q.1 req).bind fun _ => .pure ()
  | .deleteMilestone req => deleteMilestone codec q.1 req

/-- The milestone of a card is null, or a milestone of the project of the card. -/
def MilestonesKept (db : Db ι) : Prop :=
  ∀ c ∈ db.cards, ∀ mid ∈ c.milestoneId, ∃ m ∈ db.milestones, m.id = mid ∧ m.projectId = c.projectId

/-! ## What a commit rests on -/

/-- What a commit rests on is still so: a milestone that the call has checked for a card is there,
in its project; the card is in the project that the call has read it in; a card that is written
back has kept its milestone; and a call that deletes a milestone has read every card that has
it. -/
structure UpToDate (past : Trace (Rec ι) (Call ι) (Reply ι)) (ws : List (Write (Rec ι)))
    (db : Db ι) : Prop where
  checked : ∀ m ∈ Trace.seenBy Rec.toMilestone past, ∀ c' ∈ putsBy Rec.toCard ws,
    c'.milestoneId = some m.id → ∃ m' ∈ db.milestones, m'.id = m.id ∧ m'.projectId = m.projectId
  project : ∀ c ∈ Trace.seenBy Rec.toCard past, ∀ c' ∈ putsBy Rec.toCard ws, c.id = c'.id →
    c'.milestoneId ≠ none → c.projectId = c'.projectId
  kept : ∀ c ∈ Trace.seenBy Rec.toCard past, ∀ c' ∈ putsBy Rec.toCard ws, c.id = c'.id →
    c.milestoneId = c'.milestoneId → c'.milestoneId ≠ none →
    (∃ m ∈ Trace.seenBy Rec.toMilestone past, some m.id = c'.milestoneId ∧
      m.projectId = c'.projectId) ∨
    ∃ c₀ ∈ db.cards, c₀.id = c'.id ∧ c₀.projectId = c'.projectId ∧ c₀.milestoneId = c'.milestoneId
  cleared : ∀ m ∈ delsBy Rec.toMilestone ws, ∀ c ∈ db.cards, c.milestoneId = some m.id →
    ∃ c₁ ∈ Trace.seenBy Rec.toCard past, c₁.id = c.id

set_option synthInstance.maxSize 1000 in
instance {past : Trace (Rec ι) (Call ι) (Reply ι)} {ws : List (Write (Rec ι))} {db : Db ι} :
    Decidable (UpToDate past ws db) :=
  decidable_of_iff (_ ∧ _ ∧ _ ∧ _)
    ⟨fun ⟨h₁, h₂, h₃, h₄⟩ => UpToDate.mk h₁ h₂ h₃ h₄,
      fun h => ⟨h.checked, h.project, h.kept, h.cleared⟩⟩

/-- The calls under way. -/
abbrev MilestonePool (ι : Type) := Pool (RequestContext × MilestoneCall) (Db ι) (Rec ι) (Call ι)
  (Reply ι) (Backend ι) ConnectError Unit

/-- A commit is up to date. -/
def CommitsUpToDate (P : MilestonePool ι) (a : Turn (RequestContext × MilestoneCall) (Move ι)) :
    Prop := ∀ c ∈ P.commitOf (kanban ι) a, UpToDate c.2.1 c.2.2 P.world.store

instance {P : MilestonePool ι} {a : Turn (RequestContext × MilestoneCall) (Move ι)} :
    Decidable (CommitsUpToDate P a) :=
  inferInstanceAs (Decidable (∀ c ∈ P.commitOf (kanban ι) a, _))

/-! ## What the handlers write -/

/-- A milestone that a card may be given: the call has found it in the project of the card. -/
def FoundFor (tr : Trace (Rec ι) (Call ι) (Reply ι)) (c' : CardRow ι) : Prop :=
  ∃ m, Saw tr (.milestone m) ∧ c'.milestoneId = some m.id ∧
    (m.projectId = c'.projectId ∨
      ∃ c, Saw tr (.card c) ∧ c.id = c'.id ∧ c.projectId = m.projectId)

/-- The row of a card that the call has read, in its project and with its milestone. -/
def WrittenBack (tr : Trace (Rec ι) (Call ι) (Reply ι)) (c' : CardRow ι) : Prop :=
  ∃ c, Saw tr (.card c) ∧ c.id = c'.id ∧ c.projectId = c'.projectId ∧ c.milestoneId = c'.milestoneId

/-- Milestones are left alone, and a card has none, the one it had, or one that was found. -/
def milestoneSpec (ι : Type) : WriteSpec ι where
  ok tr
    | .put (.card c') => c'.milestoneId = none ∨ WrittenBack tr c' ∨ FoundFor tr c'
    | .put (.milestone _) => False
    | .del (.milestone _) => False
    | _ => True
  grow tr tr' a htr h := by
    rcases a with (r | r)
    · cases r with
      | card c' =>
          rcases h with h | ⟨c, hc, hrest⟩ | ⟨m, hm, hmid, hproject⟩
          · exact .inl h
          · exact .inr (.inl ⟨c, hc.of_suffix htr, hrest⟩)
          · refine .inr (.inr ⟨m, hm.of_suffix htr, hmid, hproject.imp id ?_⟩)
            rintro ⟨c, hc, hrest⟩
            exact ⟨c, hc.of_suffix htr, hrest⟩
      | milestone m => exact h
      | _ => trivial
    · cases r with
      | milestone m => exact h
      | _ => trivial
  key _ _ := trivial

/-- A deletion of milestones: every card that the call has read loses its milestone. -/
structure ClearsMilestones (past : Trace (Rec ι) (Call ι) (Reply ι)) (ws : List (Write (Rec ι))) :
    Prop where
  none : ∀ c', .put (.card c') ∈ ws → c'.milestoneId = none
  seen : ∀ c, Saw past (.card c) → ∃ c', .put (.card c') ∈ ws ∧ c'.id = c.id
  keeps : ∀ m, .put (.milestone m) ∉ ws

/-- What a call may commit. -/
def milestoneCommits (ι : Type) : Commitment (Rec ι) (Call ι) (Reply ι) := fun past ws =>
  (milestoneSpec ι).Good past ws ∨ ClearsMilestones past ws

/-- **One commit.**  A commit that is up to date keeps the milestones of the cards. -/
theorem MilestonesKept.applyAll {db : Db ι} {past : Trace (Rec ι) (Call ι) (Reply ι)}
    {ws : List (Write (Rec ι))} (h : MilestonesKept db) (hgood : milestoneCommits ι past ws)
    (hdate : UpToDate past ws db) : MilestonesKept ((kanban ι).applyAll db ws) := by
  have hcards : ∀ {c}, Saw past (.card c) → c ∈ Trace.seenBy Rec.toCard past :=
    (Trace.mem_seenBy Rec.toCard_iff).mpr
  intro c' hc' mid hmid
  rcases hgood with hgood | hclear
  · -- the milestones are as they were
    have hsame : ((kanban ι).applyAll db ws).milestones = db.milestones := by
      refine stored_milestones.rows_applyAll fun a ha m hm => ?_
      have hok := hgood a ha
      rcases a with (r | r)
      · cases (hm : r = .milestone m)
        exact hok
      · cases (hm : r = .milestone m)
        exact hok
    rw [hsame]
    rcases stored_cards.mem_applyAll hc' with hput | ⟨hold, -⟩
    · have hmem := (mem_putsBy Rec.toCard_iff).mpr hput
      have hsome : c'.milestoneId ≠ none := by
        rw [hmid]
        exact Option.some_ne_none _
      have hfound : ∀ m ∈ Trace.seenBy Rec.toMilestone past, c'.milestoneId = some m.id →
          m.projectId = c'.projectId →
          ∃ m ∈ db.milestones, m.id = mid ∧ m.projectId = c'.projectId := by
        intro m hm hset hproject
        obtain ⟨m', hm', hid, hproject'⟩ := hdate.checked m hm c' hmem hset
        refine ⟨m', hm', ?_, hproject'.trans hproject⟩
        exact hid.trans (Option.some.inj (hset.symm.trans hmid))
      rcases hgood _ hput with hnone | ⟨c, hc, hid, -, hkept⟩ | ⟨m, hm, hset, hproject⟩
      · exact absurd hnone hsome
      · rcases hdate.kept c (hcards hc) c' hmem hid hkept hsome with
          ⟨m, hm, hset, hproject⟩ | ⟨c₀, hc₀, -, hproject, hmilestone⟩
        · exact hfound m hm hset.symm hproject
        · rw [← hproject]
          exact h c₀ hc₀ mid (hmilestone.trans hmid)
      · refine hfound m ((Trace.mem_seenBy Rec.toMilestone_iff).mpr hm) hset ?_
        rcases hproject with hproject | ⟨c, hc, hid, hproject⟩
        · exact hproject
        · exact hproject.symm.trans (hdate.project c (hcards hc) c' hmem hid hsome)
    · exact h c' hold mid hmid
  · rcases stored_cards.mem_applyAll hc' with hput | ⟨hold, hother⟩
    · rw [hclear.none c' hput] at hmid
      cases hmid
    · obtain ⟨m, hm, hid, hproject⟩ := h c' hold mid hmid
      refine ⟨m, stored_milestones.mem_applyAll_of_mem hm fun a ha m' hm' => ?_, hid, hproject⟩
      rcases a with (r | r)
      · cases (hm' : r = .milestone m')
        exact absurd ha (hclear.keeps m')
      · cases (hm' : r = .milestone m')
        refine decide_eq_false fun hsame => ?_
        -- the card has the milestone that goes, so the call has read it
        have hset : c'.milestoneId = some m'.id := hmid.trans (congrArg some (hsame.trans hid).symm)
        obtain ⟨c₁, hc₁, hcard⟩ := hdate.cleared m' ((mem_delsBy Rec.toMilestone_iff).mpr ha) c' hold
          hset
        obtain ⟨c₂, hc₂, hcard₂⟩ := hclear.seen c₁ ((Trace.mem_seenBy Rec.toCard_iff).mp hc₁)
        exact of_decide_eq_false (hother _ hc₂ c₂ rfl) (hcard₂.trans hcard)

/-! ## Handlers -/

section Handlers

open WriteSpec (Writes)

variable {codec : IdCodec ι} {ctx : RequestContext} {pages : ℕ} {tenantId : String} {α : Type}
  {tr₀ : Trace (Rec ι) (Call ι) (Reply ι)}

/-- The call has found the milestone in the project. -/
def Found (tr : Trace (Rec ι) (Call ι) (Reply ι)) (projectId mid : ι) : Prop :=
  ∃ m, Saw tr (.milestone m) ∧ m.id = mid ∧ m.projectId = projectId

/-- A milestone that passes its check is found in the project. -/
theorem writes_checkMilestone {projectId : ι} {milestoneId : String} {f : Option ι → Handler ι α}
    (hf : ∀ milestone tr, tr₀ <:+ tr → (∀ mid ∈ milestone, Found tr projectId mid) →
      (milestoneSpec ι).Writes tr (f milestone)) :
    (milestoneSpec ι).Writes tr₀ ((checkMilestone codec tenantId projectId milestoneId).bind f) := by
  unfold checkMilestone
  split
  · exact hf none tr₀ List.suffix_rfl (by simp)
  · simp only [Prog.bind_eq, Prog.bind_assoc]
    refine .orError_bind fun mid _ => .fetchOptional_bind (fun _ _ => .fail)
      fun m tr htr hp hm => .ensure_bind fun _ => hf _ tr htr ?_
    obtain ⟨hid, -, hproject⟩ : m.id = mid ∧ m.tenantId = tenantId ∧ m.projectId = projectId := by
      simpa using hp
    rintro mid ⟨⟩
    exact ⟨m, hm, hid, hproject⟩

theorem writes_milestonePatch {projectId : ι} {req : UpdateCardRequest}
    {f : Option (Option ι) → Handler ι α}
    (hf : ∀ milestone tr, tr₀ <:+ tr → (∀ mid, milestone = some (some mid) → Found tr projectId mid) →
      (milestoneSpec ι).Writes tr (f milestone)) :
    (milestoneSpec ι).Writes tr₀ ((milestonePatch codec tenantId projectId req).bind f) := by
  unfold milestonePatch
  split
  · refine hf _ tr₀ List.suffix_rfl fun mid h => ?_
    split at h <;> cases h
  · rw [Prog.bind_assoc]
    refine writes_checkMilestone fun milestone tr htr hm => hf _ tr htr ?_
    rintro mid ⟨⟩
    exact hm mid rfl

theorem writes_createCard {req : CreateCardRequest} :
    (milestoneSpec ι).Writes tr₀ (createCard codec ctx req) := by
  refine .orError_bind fun objectId _ => .orError_bind fun boardId _ => .orError_bind
    fun subject _ => .orError_bind fun tenantId _ => .ensure_bind fun _ =>
    .bind (.of_tame .checkIdempotencyCard) fun found tr _ => ?_
  cases found with
  | some existingId => exact .of_tame .fetchFullCard
  | none =>
      refine .fetchOr_bind fun board tr _ _ _ => .orError_bind fun colId _ =>
        .fetchOr_bind fun column tr _ _ _ => .bind ?_ fun cardId tr _ => .of_tame
        (.bind .tenantClientFor fun _ => .bind .grantWithRetry fun _ =>
          .bind .storeIdempotencyId fun _ => .fetchFullCard)
      refine .bind .beginTx fun _ _ _ => .bind (.allocateCardRef fun _ _ => trivial)
        fun cardRef tr _ => .bind (.of_tame .newId) fun cardId tr _ =>
        .bind (.insertPosition fun tr c n _ hc => ?_) fun position tr _ => ?_
      · exact .inr (.inl ⟨c, hc, rfl, rfl, rfl⟩)
      · refine writes_checkMilestone fun milestone tr _ hm => .bind (.query fun tr' db e htr he a ha => ?_)
          fun _ _ _ => .bind (.insertBoardEvent (fun _ _ _ => trivial) fun _ _ => trivial)
          fun _ _ _ => .bind .commitTx fun _ _ _ => .pure
        rw [writes_insertCard he] at ha
        rw [List.mem_singleton.mp ha]
        cases milestone with
        | none => exact .inl rfl
        | some mid =>
            obtain ⟨m, hsaw, rfl, hproject⟩ := hm mid rfl
            exact .inr (.inr ⟨m, (hsaw.of_suffix htr).cons, rfl, .inl hproject⟩)

theorem writes_updateCard {req : UpdateCardRequest} :
    (milestoneSpec ι).Writes tr₀ (updateCard codec ctx req) := by
  refine .orError_bind fun objectId _ => .orError_bind fun cardId _ => .orError_bind
    fun tenantId _ => .bind (.of_tame .checkIdempotencyCard) fun found tr _ => ?_
  cases found with
  | some existingId => exact .of_tame .fetchFullCard
  | none =>
      refine .fetchOr_bind fun cur tr _ hp hcur => ?_
      obtain ⟨rfl, -⟩ : cur.id = cardId ∧ cur.tenantId = tenantId := by simpa using hp
      refine writes_milestonePatch fun milestone tr htr hm => .bind (.fetchOr
        fun tr' db e htr' he a ha => ?_) fun row tr _ => .bind .beginTx fun _ _ _ =>
        .bind (.insertBoardEvent (fun _ _ _ => trivial) fun _ _ => trivial) fun _ _ _ =>
        .bind .commitTx fun _ _ _ => .of_tame (.bind .storeIdempotencyId fun _ => .fetchFullCard)
      obtain ⟨c, hc, hread, rfl⟩ := Table.mem_writes_update he ha
      obtain ⟨hid, -⟩ : c.id = cur.id ∧ c.tenantId = tenantId := by simpa using hc
      rcases milestone with _ | _ | mid
      · exact .inr (.inl ⟨c, saw_ran hread, rfl, rfl, rfl⟩)
      · exact .inl rfl
      · -- the milestone was found in the project that the card was read in
        obtain ⟨m, hsaw, rfl, hproject⟩ := hm mid rfl
        exact .inr (.inr ⟨m, (hsaw.of_suffix htr').cons, rfl,
          .inr ⟨cur, (hcur.of_suffix (htr.trans htr')).cons, hid.symm, hproject.symm⟩⟩)

theorem writes_transferCard {req : TransferCardRequest} :
    (milestoneSpec ι).Writes tr₀ (transferCard codec pages ctx req) := by
  refine .orError_bind fun objectId _ => .orError_bind fun cardId _ => .orError_bind
    fun tenantId _ => .orError_bind fun targetBoardId _ => .orError_bind fun targetColId _ =>
    .bind (.of_tame .checkIdempotencyCard) fun found tr _ => ?_
  cases found with
  | some existingId => exact .of_tame .replayTransfer
  | none =>
      refine .bind (.of_tame (.fetchOr silent_select)) fun card tr _ =>
        .bind (.of_tame (.fetchOr silent_select)) fun targetBoard tr _ => .ensure_bind fun _ =>
        .bind (.of_tame .checkTargetBoard) fun permission tr _ =>
        .bind (.of_tame (.fetchOr silent_select)) fun target tr _ => .ensure_bind fun _ =>
        .bind (.of_tame .sourceIsDone) fun fromIsDone tr _ => .bind ?_ fun _ _ _ =>
        .of_tame (.bind .rehomeParent fun _ => .bind .storeIdempotencyId fun _ =>
          .bind .fetchFullCard fun _ => .pure _)
      refine .bind .beginTx fun _ _ _ => .bind (.allocateCardRef fun _ _ => trivial)
        fun newRef tr _ =>
        .bind (.of_tame (.query silent_nextPosition)) fun toPos tr _ =>
        .bind (.fetchOne fun tr db e _ he a ha => ?_) fun row tr _ =>
        .bind (.query fun tr db e _ he a ha => ?_) fun _ _ _ =>
        .bind (.insertBoardEvent (fun _ _ _ => trivial) fun _ _ => trivial) fun _ _ _ =>
        .bind (.insertBoardEvent (fun _ _ _ => trivial) fun _ _ => trivial) fun _ _ _ => .commitTx
      · obtain ⟨c, -, -, rfl⟩ := Table.mem_writes_update he ha
        exact .inl rfl
      · rcases Table.within_delete db e he a ha with ⟨r, rfl | rfl⟩ <;> trivial

/-- **The deletion of a milestone.**  Its transaction clears every card that it reads, and it has
read no other. -/
theorem runs_deleteMilestone {req : DeleteMilestoneRequest} :
    Runs (kanban ι) (milestoneCommits ι) (deleteMilestone codec ctx req) .idle [] fun _ _ _ => True := by
  have hnil : ∀ tr, milestoneCommits ι tr [] := fun tr => .inl fun a ha => by cases ha
  refine runs_bind (runs_orError fun subject _ => runs_bind (runs_orError fun tenantId _ =>
    runs_bind (runs_tenantClientFor fun permission _ => runs_bind (runs_orError fun milestoneId _ =>
    runs_bind (runs_bind (runs_bind (runs_stmt_idle (fun db e he => ⟨?_, ?_⟩) runs_fail)))))))
  · cases he
    exact hnil _
  · refine runs_pure (runs_pure (runs_orError fun existing _ => ?_))
    refine runs_bind (runs_bind (runs_bind (runs_checkPermissionWithRetry
      fun answer tr' _ hseen _ => runs_orError fun allowed _ => runs_ensure fun _ => ?_)))
    refine runs_bind (runs_beginTx (runs_bind (runs_query_active fun db₁ e₁ he₁ => ?_)))
    refine runs_bind (runs_query_active fun db₂ e₂ he₂ => runs_bind (runs_ensure fun _ => ?_))
    cases he₁
    cases he₂
    refine runs_commitTx (.inr ⟨fun c' hc' => ?_, fun c hc => ?_, fun m hm => ?_⟩) trivial
    · rcases List.mem_append.mp hc' with hput | hdel
      · obtain ⟨c, -, heq⟩ := List.mem_map.mp hput
        cases heq
        rfl
      · obtain ⟨m, -, heq⟩ := List.mem_map.mp hdel
        cases heq
    · -- the rows that the call has read are milestones, but for those of the first statement
      have hno : ∀ {rows : List (MilestoneRow ι)}, .card c ∉ rows.map Rec.milestone := by
        intro rows hmem
        obtain ⟨m, -, heq⟩ := List.mem_map.mp hmem
        cases heq
      cases he
      rcases List.mem_append.mp (Trace.mem_seen.mpr hc) with hmem | hmem
      · exact absurd hmem hno
      · rcases List.mem_append.mp hmem with hmem | hmem
        · obtain ⟨c₁, hc₁, heq⟩ := List.mem_map.mp hmem
          cases heq
          exact ⟨{ c with milestoneId := none }, List.mem_append_left _ (List.mem_map_of_mem hc₁), rfl⟩
        · have hmem : .card c ∈ Trace.seen tr' := hmem
          rw [hseen] at hmem
          rcases List.mem_append.mp hmem with hmem | hmem
          · cases hmem
          · rcases List.mem_append.mp hmem with hmem | hmem
            · exact absurd hmem hno
            · cases hmem
    · rcases List.mem_append.mp hm with hput | hdel
      · obtain ⟨c, -, heq⟩ := List.mem_map.mp hput
        cases heq
      · obtain ⟨m, -, heq⟩ := List.mem_map.mp hdel
        cases heq

/-- **What a call commits.** -/
theorem runs_milestoneHandler {q : RequestContext × MilestoneCall} :
    Runs (kanban ι) (milestoneCommits ι) (milestoneHandler codec pages q) .idle [] fun _ _ _ => True := by
  have hwrites : ∀ {β : Type} {p : Handler ι β}, (milestoneSpec ι).Writes [] p →
      Runs (kanban ι) (milestoneCommits ι) (p.bind fun _ => .pure ()) .idle [] fun _ _ _ => True := by
    intro β p hp
    refine runs_bind (((hp .idle [] List.suffix_rfl trivial).imp fun _ _ h => .inl h).mono ?_)
    exact fun _ _ _ _ => runs_pure trivial
  obtain ⟨ctx, call⟩ := q
  cases call with
  | createCard req => exact hwrites writes_createCard
  | updateCard req => exact hwrites writes_updateCard
  | transferCard req => exact hwrites writes_transferCard
  | deleteMilestone req => exact runs_deleteMilestone

/-- **The milestones of cards.**  Whatever calls run together, and whatever fails or crashes, the
milestone of every card is a milestone of its project as long as every commit is up to date. -/
theorem milestones_kept {w : World (Db ι) (Backend ι)}
    {turns : List (Turn (RequestContext × MilestoneCall) (Move ι))} {P : MilestonePool ι}
    (hkept : MilestonesKept w.store)
    (hrun : Machine.ExecWhile (Pool.step (kanban ι) (milestoneHandler codec pages)) CommitsUpToDate
      (Pool.idle w) turns P) : MilestonesKept P.world.store :=
  Pool.store_invariant (fun _ => runs_milestoneHandler) hrun rfl hkept
    fun _ _ _ _ _ hC hcommit hgood h => h.applyAll hgood (hC _ hcommit)

end Handlers

/-- A card without a milestone, in a project with one milestone. -/
def oneMilestone : World (Db String) (Backend String) where
  store := { Db.empty with
    projects := [⟨"p", "t", "Roadmap", "ROAD", "ROAD", "", "user:ann"⟩]
    boards := [⟨"a", "t", "p", "A", "a", "", none, "private", 0⟩]
    columns := [⟨"a1", "t", "a", "Todo", none, none, 0, false⟩]
    milestones := [⟨"m", "t", "p", "Beta", none⟩]
    cards := [⟨"c", "t", "p", "a", "a1", "ROAD-001", "Ship", none, 0, "medium", "medium", none,
      none, false, none, none, "user:ann", 0⟩] }
  ext := Backend.empty

/-- A member gives the card the milestone. -/
def setMilestone : RequestContext × MilestoneCall :=
  ⟨⟨some ⟨some "t", some "user:cal"⟩, some "c", 0⟩,
    .updateCard ⟨⟨"", "", 0, 0, none, false, "", "m"⟩, [], ""⟩⟩

/-- A manager deletes the milestone. -/
def dropMilestone : RequestContext × MilestoneCall :=
  ⟨⟨some ⟨some "t", some "user:ann"⟩, none, 0⟩, .deleteMilestone ⟨"m"⟩⟩

/-- The card, the check of the milestone, the update. -/
def milestoneSet : List (Turn (RequestContext × MilestoneCall) (Move String)) :=
  .arrive setMilestone :: [.ok, .ok, .ok].map (.act 0)

/-- The milestone is deleted between its check and the update. -/
def milestoneGone : List (Turn (RequestContext × MilestoneCall) (Move String)) :=
  .arrive setMilestone :: [.ok, .ok].map (.act 0) ++ .arrive dropMilestone ::
    [.move .done, .ok, .move (.answer true), .ok, .ok, .ok, .ok].map (.act 1) ++ [.act 0 .ok]

theorem milestonesKept_oneMilestone : MilestonesKept oneMilestone.store := by
  intro c hc mid hmid
  rw [List.mem_singleton.mp hc] at hmid
  cases hmid

theorem milestones_kept_milestoneSet :
    ∃ P, Machine.ExecWhile (Pool.step (kanban String) (milestoneHandler textIds 1)) CommitsUpToDate
        (Pool.idle oneMilestone) milestoneSet P ∧
      MilestonesKept P.world.store ∧ P.world.store.cards.map CardRow.milestoneId = [some "m"] := by
  obtain ⟨P, hP, hcards⟩ : ∃ P, Machine.run
      (Machine.guarded (Pool.step (kanban String) (milestoneHandler textIds 1)) CommitsUpToDate)
      (Pool.idle oneMilestone) milestoneSet = some P ∧
      P.world.store.cards.map CardRow.milestoneId = [some "m"] := ⟨_, rfl, rfl⟩
  have hrun := Machine.execWhile_of_run hP
  exact ⟨P, hrun, milestones_kept milestonesKept_oneMilestone hrun, hcards⟩

theorem milestones_not_kept :
    ∃ P, Machine.Exec (Pool.step (kanban String) (milestoneHandler textIds 1)) (Pool.idle oneMilestone)
        milestoneGone P ∧ MilestonesKept oneMilestone.store ∧
      (P.calls.map fun c => c.2.tx) = [.idle, .idle] ∧ ¬ MilestonesKept P.world.store := by
  obtain ⟨P, hP, hidle, hcards, hnone⟩ : ∃ P, Machine.run
      (Pool.step (kanban String) (milestoneHandler textIds 1)) (Pool.idle oneMilestone)
      milestoneGone = some P ∧ (P.calls.map fun c => c.2.tx) = [.idle, .idle] ∧
      (∃ c ∈ P.world.store.cards, c.milestoneId = some "m") ∧ P.world.store.milestones = [] :=
    ⟨_, rfl, rfl, by decide, rfl⟩
  refine ⟨P, Machine.exec_of_run hP, milestonesKept_oneMilestone, hidle, fun h => ?_⟩
  obtain ⟨c, hc, hmid⟩ := hcards
  obtain ⟨m, hm, -⟩ := h c hc "m" hmid
  rw [hnone] at hm
  cases hm

end Kanban.Rpc
