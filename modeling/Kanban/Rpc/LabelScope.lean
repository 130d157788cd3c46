import Kanban.Rpc.Milestones

/-!
# The labels of cards

A label is global or belongs to a project.  `card_labels` joins cards and labels by their ids
alone: BulkUpdateCardLabels attaches whatever labels the request names, TransferCard takes off
the labels of other projects, and the other handlers leave the scope of a label and the project
of a card as they are.  The labels of a card stay in its scope as long as a bulk update names
only labels in scope, and a transfer has seen the labels that are on the card when it commits.

## Main definitions

* `LabelCall`, `labelHandler` — the calls that write labels, attach them or move their cards.
* `InScope`, `LabelScope` — a label that a card may have, and the property of the store.
* `InStep` — what a commit rests on is still so.
* `label_scope` — the property in every run whose commits are in step.
-/

namespace Kanban.Rpc

open Program Kanban.Store Kanban.Auth
open Kanban.Services (AuthContext ConnectError IdCodec)

variable {ι : Type} [DecidableEq ι]

/-- A call that writes labels, attaches them to cards, or moves cards. -/
inductive LabelCall
  | createLabel (req : CreateLabelRequest)
  | updateLabel (req : UpdateLabelRequest)
  | deleteLabel (req : DeleteLabelRequest)
  | bulkUpdateCardLabels (req : BulkUpdateCardLabelsRequest)
  | createCard (req : CreateCardRequest)
  | moveCard (req : MoveCardRequest)
  | transferCard (req : TransferCardRequest)
  deriving DecidableEq, Repr

/-- The handler of a call, without its response. -/
def labelHandler (codec : IdCodec ι) (pages : ℕ) (q : RequestContext × LabelCall) :
    Handler ι Unit :=
  match q.2 with
  | .createLabel req => (createLabel codec q.1 req).bind fun _ => .pure ()
  | .updateLabel req => (updateLabel codec q.1 req).bind fun _ => .pure ()
  | .deleteLabel req => deleteLabel codec q.1 req
  | .bulkUpdateCardLabels req => (bulkUpdateCardLabels codec q.1 req).bind fun _ => .pure ()
  | .createCard req => (createCard codec q.1 req).bind fun _ => .pure ()
  | .moveCard req => (moveCard codec pages q.1 req).bind fun _ => .pure ()
  | .transferCard req => (transferCard codec pages q.1 req).bind fun _ => .pure ()

/-- The label is of the tenant of the card, and global or of its project. -/
def InScope (l : LabelRow ι) (c : CardRow ι) : Prop :=
  l.tenantId = c.tenantId ∧ (l.projectId = none ∨ l.projectId = some c.projectId)

instance {l : LabelRow ι} {c : CardRow ι} : Decidable (InScope l c) :=
  inferInstanceAs (Decidable (_ ∧ _))

/-- Every label that is attached to a card is in the scope of the card. -/
def LabelScope (db : Db ι) : Prop :=
  ∀ cl ∈ db.cardLabels, ∀ c ∈ db.cards, c.id = cl.cardId → ∀ l ∈ db.labels, l.id = cl.labelId →
    InScope l c

instance {db : Db ι} : Decidable (LabelScope db) :=
  inferInstanceAs (Decidable (∀ cl ∈ db.cardLabels, _))

/-! ## What a commit rests on -/

/-- What a commit rests on is still so. A card that is written is there, and in the project that
the call has read it in unless it leaves that project; a label that is written has kept its
scope; no label is attached to, or is, something that the call has just created. A label that is
attached is in the scope of its card. A call that takes a card to another project has read every
label on it that is of a third. -/
structure InStep (past : Trace (Rec ι) (Call ι) (Reply ι)) (ws : List (Write (Rec ι)))
    (db : Db ι) : Prop where
  cards : ∀ c ∈ Trace.seenBy Rec.toCard past, ∀ c' ∈ putsBy Rec.toCard ws, c.id = c'.id →
    ∃ c₀ ∈ db.cards, c₀.id = c.id ∧ c₀.tenantId = c.tenantId ∧
      (c.projectId = c'.projectId → c₀.projectId = c.projectId)
  labels : ∀ l ∈ Trace.seenBy Rec.toLabel past, ∀ l' ∈ putsBy Rec.toLabel ws, l.id = l'.id →
    ∃ l₀ ∈ db.labels, l₀.id = l.id ∧ l₀.tenantId = l.tenantId ∧ l₀.projectId = l.projectId
  fresh : ∀ id ∈ newIds past, ∀ cl ∈ db.cardLabels ++ putsBy Rec.toCardLabel ws,
    cl.cardId ≠ id ∧ cl.labelId ≠ id
  attached : ∀ cl ∈ putsBy Rec.toCardLabel ws, ∀ c ∈ db.cards, c.id = cl.cardId →
    ∀ l ∈ db.labels, l.id = cl.labelId → InScope l c
  scrubbed : ∀ c ∈ Trace.seenBy Rec.toCard past, ∀ c' ∈ putsBy Rec.toCard ws, c.id = c'.id →
    c.projectId ≠ c'.projectId → ∀ cl ∈ db.cardLabels, cl.cardId = c'.id →
    (∃ l ∈ db.labels, l.id = cl.labelId ∧ l.projectId ≠ none ∧
      l.projectId ≠ some c'.projectId) → cl ∈ Trace.seenBy Rec.toCardLabel past

set_option synthInstance.maxSize 1000 in
instance {past : Trace (Rec ι) (Call ι) (Reply ι)} {ws : List (Write (Rec ι))} {db : Db ι} :
    Decidable (InStep past ws db) :=
  decidable_of_iff (_ ∧ _ ∧ _ ∧ _ ∧ _)
    ⟨fun ⟨h₁, h₂, h₃, h₄, h₅⟩ => InStep.mk h₁ h₂ h₃ h₄ h₅,
      fun h => ⟨h.cards, h.labels, h.fresh, h.attached, h.scrubbed⟩⟩

/-- The calls under way. -/
abbrev LabelPool (ι : Type) := Pool (RequestContext × LabelCall) (Db ι) (Rec ι) (Call ι) (Reply ι)
  (Backend ι) ConnectError Unit

/-- A commit is in step. -/
def CommitsInStep (P : LabelPool ι) (a : Turn (RequestContext × LabelCall) (Move ι)) : Prop :=
  ∀ c ∈ P.commitOf (kanban ι) a, InStep c.2.1 c.2.2 P.world.store

instance {P : LabelPool ι} {a : Turn (RequestContext × LabelCall) (Move ι)} :
    Decidable (CommitsInStep P a) :=
  inferInstanceAs (Decidable (∀ c ∈ P.commitOf (kanban ι) a, _))

/-! ## What the handlers write -/

/-- Cards stay in their projects and labels in their scopes, or they are new. -/
def labelSpec (ι : Type) : WriteSpec ι where
  ok tr
    | .put (.card c') => (∃ c, Saw tr (.card c) ∧ c.id = c'.id ∧ c.tenantId = c'.tenantId ∧
        c.projectId = c'.projectId) ∨ c'.id ∈ newIds tr
    | .put (.label l') => (∃ l, Saw tr (.label l) ∧ l.id = l'.id ∧ l.tenantId = l'.tenantId ∧
        l.projectId = l'.projectId) ∨ l'.id ∈ newIds tr
    | _ => True
  grow tr tr' a htr h := by
    rcases a with (r | r)
    · cases r with
      | card c' =>
          refine h.imp ?_ fun h => (newIds_sublist htr).subset h
          rintro ⟨c, hc, hrest⟩
          exact ⟨c, hc.of_suffix htr, hrest⟩
      | label l' =>
          refine h.imp ?_ fun h => (newIds_sublist htr).subset h
          rintro ⟨l, hl, hrest⟩
          exact ⟨l, hl.of_suffix htr, hrest⟩
      | _ => trivial
    · trivial
  key _ _ := trivial

/-- A transfer: it writes a card that it has read, and takes off every label that it has read to
be on it. -/
structure Relocates (past : Trace (Rec ι) (Call ι) (Reply ι)) (ws : List (Write (Rec ι))) :
    Prop where
  card : ∀ c', .put (.card c') ∈ ws →
    ∃ c, Saw past (.card c) ∧ c.id = c'.id ∧ c.tenantId = c'.tenantId
  scrubs : ∀ cl, Saw past (.cardLabel cl) → .del (.cardLabel cl) ∈ ws
  keeps : (∀ l, .put (.label l) ∉ ws) ∧ ∀ cl, .put (.cardLabel cl) ∉ ws

/-- What a call may commit. -/
def labelCommits (ι : Type) : Commitment (Rec ι) (Call ι) (Reply ι) := fun past ws =>
  (labelSpec ι).Good past ws ∨ Relocates past ws

/-- **One commit.**  A commit that is in step keeps the labels in scope. -/
theorem LabelScope.applyAll {db : Db ι} {past : Trace (Rec ι) (Call ι) (Reply ι)}
    {ws : List (Write (Rec ι))} (h : LabelScope db) (hgood : labelCommits ι past ws)
    (hstep : InStep past ws db) : LabelScope ((kanban ι).applyAll db ws) := by
  intro cl hcl c' hc' hcard l' hl' hlabel
  rcases hgood with hgood | hmove
  · have hold : cl ∈ db.cardLabels ++ putsBy Rec.toCardLabel ws := by
      rcases stored_cardLabels.mem_applyAll hcl with hput | ⟨hmem, -⟩
      · exact List.mem_append_right _ ((mem_putsBy Rec.toCardLabel_iff).mpr hput)
      · exact List.mem_append_left _ hmem
    -- the card and the label were there, and a label that is attached finds them
    obtain ⟨c₀, hc₀, hid, htenant, hproject⟩ : ∃ c₀ ∈ db.cards, c₀.id = c'.id ∧
        c₀.tenantId = c'.tenantId ∧ c₀.projectId = c'.projectId := by
      rcases stored_cards.mem_applyAll hc' with hput | ⟨hmem, -⟩
      · rcases hgood _ hput with ⟨c, hc, hid, htenant, hproject⟩ | hnew
        · obtain ⟨c₀, hc₀, hid₀, htenant₀, hproject₀⟩ := hstep.cards c
            ((Trace.mem_seenBy Rec.toCard_iff).mpr hc) c' ((mem_putsBy Rec.toCard_iff).mpr hput) hid
          exact ⟨c₀, hc₀, hid₀.trans hid, htenant₀.trans htenant, (hproject₀ hproject).trans hproject⟩
        · exact absurd hcard.symm (hstep.fresh _ hnew cl hold).1
      · exact ⟨c', hmem, rfl, rfl, rfl⟩
    obtain ⟨l₀, hl₀, hid₁, htenant₁, hproject₁⟩ : ∃ l₀ ∈ db.labels, l₀.id = l'.id ∧
        l₀.tenantId = l'.tenantId ∧ l₀.projectId = l'.projectId := by
      rcases stored_labels.mem_applyAll hl' with hput | ⟨hmem, -⟩
      · rcases hgood _ hput with ⟨l, hl, hid, htenant, hproject⟩ | hnew
        · obtain ⟨l₀, hl₀, hid₀, htenant₀, hproject₀⟩ := hstep.labels l
            ((Trace.mem_seenBy Rec.toLabel_iff).mpr hl) l' ((mem_putsBy Rec.toLabel_iff).mpr hput) hid
          exact ⟨l₀, hl₀, hid₀.trans hid, htenant₀.trans htenant, hproject₀.trans hproject⟩
        · exact absurd hlabel.symm (hstep.fresh _ hnew cl hold).2
      · exact ⟨l', hmem, rfl, rfl, rfl⟩
    have hscope : InScope l₀ c₀ := by
      rcases List.mem_append.mp hold with hmem | hput
      · exact h cl hmem c₀ hc₀ (hid.trans hcard) l₀ hl₀ (hid₁.trans hlabel)
      · exact hstep.attached cl hput c₀ hc₀ (hid.trans hcard) l₀ hl₀ (hid₁.trans hlabel)
    unfold InScope at hscope ⊢
    rwa [← htenant, ← htenant₁, ← hproject, ← hproject₁]
  · obtain ⟨hl', -⟩ := (stored_labels.mem_applyAll hl').resolve_left (hmove.keeps.1 l')
    obtain ⟨hcl, hother⟩ := (stored_cardLabels.mem_applyAll hcl).resolve_left (hmove.keeps.2 cl)
    rcases stored_cards.mem_applyAll hc' with hput | ⟨hmem, -⟩
    · obtain ⟨c, hc, hid, htenant⟩ := hmove.card c' hput
      have hc := (Trace.mem_seenBy Rec.toCard_iff).mpr hc
      have hput := (mem_putsBy Rec.toCard_iff).mpr hput
      obtain ⟨c₀, hc₀, hid₀, htenant₀, hproject₀⟩ := hstep.cards c hc c' hput hid
      obtain ⟨htenant', hproject⟩ := h cl hcl c₀ hc₀ ((hid₀.trans hid).trans hcard) l' hl' hlabel
      refine ⟨(htenant'.trans htenant₀).trans htenant, ?_⟩
      by_cases hsame : c.projectId = c'.projectId
      · rwa [hproject₀ hsame, hsame] at hproject
      · -- a label of a third project was taken off
        by_contra hforeign
        rw [not_or] at hforeign
        have hseen := hstep.scrubbed c hc c' hput hid hsame cl hcl hcard.symm
          ⟨l', hl', hlabel, hforeign⟩
        have hdel := hmove.scrubs cl ((Trace.mem_seenBy Rec.toCardLabel_iff).mp hseen)
        exact of_decide_eq_false (hother _ hdel cl rfl) ⟨rfl, rfl⟩
    · exact h cl hcl c' hmem hcard l' hl' hlabel

/-! ## Handlers -/

section Handlers

open WriteSpec (Writes)

variable {codec : IdCodec ι} {ctx : RequestContext} {pages : ℕ} {tenantId subject permission : String}
  {tr₀ : Trace (Rec ι) (Call ι) (Reply ι)}

omit [DecidableEq ι] in
theorem tame_projectAllows {relation : String} {projectId : ι} :
    Tame (projectAllows codec permission projectId relation subject) :=
  .bind .checkPermissionWithRetry fun _ => .orError

omit [DecidableEq ι] in
theorem tame_checkProjectPermission {relation : String} {projectId : ι} :
    Tame (checkProjectPermission codec permission projectId relation subject) :=
  .bind tame_projectAllows fun _ => .ensure

theorem tame_checkGlobalLabelPermission :
    Tame (checkGlobalLabelPermission codec permission tenantId subject) := by
  refine .bind (.query silent_select) fun rows => ?_
  induction rows with
  | nil => exact .fail _
  | cons row rest ih => exact .bind tame_projectAllows fun _ => .ite (.pure _) ih

theorem tame_checkLabelScopePermission {projectId : Option ι} :
    Tame (checkLabelScopePermission codec permission projectId tenantId subject) := by
  cases projectId with
  | some pid => exact tame_checkProjectPermission
  | none => exact tame_checkGlobalLabelPermission

theorem scoped_createLabel {req : CreateLabelRequest} :
    (labelSpec ι).Writes tr₀ (createLabel codec ctx req) := by
  refine .orError_bind fun subject _ => .orError_bind fun tenantId _ =>
    .bind (.of_tame .tenantClientFor) fun permission tr _ => .ensure_bind fun _ =>
    .ensure_bind fun _ => ?_
  have hrest : ∀ projectId tr, (labelSpec ι).Writes tr (newId.bind fun labelId =>
      (query "failed to create label" (insertLabel
        ⟨labelId, tenantId, projectId, req.name, req.style⟩)).bind fun _ =>
      .pure (labelFromRow codec ⟨labelId, tenantId, projectId, req.name, req.style⟩)) := by
    refine fun projectId tr => .newId_bind fun labelId tr _ hid =>
      .bind (.query fun tr' db e htr he a ha => ?_) fun _ _ _ => .pure
    unfold insertLabel at he
    split at he
    · cases he
    · rw [Table.writes_insert he] at ha
      rw [List.mem_singleton.mp ha]
      exact .inr (mem_newIds.mpr (List.mem_cons_of_mem _ (htr.subset hid)))
  exact .ite (.bind (.of_tame (.bind tame_checkGlobalLabelPermission fun _ => .pure _))
    fun projectId tr _ => hrest _ tr) (.orError_bind fun pid _ =>
    .bind (.of_tame tame_checkProjectPermission) fun _ tr _ => hrest _ tr)

theorem scoped_updateLabel {req : UpdateLabelRequest} :
    (labelSpec ι).Writes tr₀ (updateLabel codec ctx req) := by
  refine .orError_bind fun subject _ => .orError_bind fun tenantId _ =>
    .bind (.of_tame .tenantClientFor) fun permission tr _ => .orError_bind fun labelId _ =>
    .bind (.of_tame (.fetchOr silent_select)) fun existing tr _ =>
    .bind (.of_tame tame_checkLabelScopePermission) fun _ tr _ =>
    .bind (.fetchOne fun tr' db e _ he a ha => ?_) fun _ _ _ => .pure
  obtain ⟨l, l', -, hread, hf, rfl⟩ := Table.mem_writes_updateChecked he ha
  split at hf
  · cases hf
  · cases hf
    exact .inl ⟨l, saw_ran hread, rfl, rfl, rfl⟩

theorem scoped_deleteLabel {req : DeleteLabelRequest} :
    (labelSpec ι).Writes tr₀ (deleteLabel codec ctx req) := by
  refine .orError_bind fun subject _ => .orError_bind fun tenantId _ =>
    .bind (.of_tame .tenantClientFor) fun permission tr _ => .orError_bind fun labelId _ =>
    .bind (.of_tame (.fetchOr silent_select)) fun existing tr _ =>
    .bind (.of_tame tame_checkLabelScopePermission) fun _ tr _ =>
    .bind (.query fun tr' db e _ he a ha => ?_) fun _ _ _ => .of_tame .ensure
  cases he
  rcases List.mem_append.mp ha with ha | ha
  · obtain ⟨l, -, rfl⟩ := List.mem_map.mp ha
    trivial
  · obtain ⟨cl, -, rfl⟩ := List.mem_map.mp ha
    trivial

omit [DecidableEq ι] in
/-- A card that is shifted stays in its project. -/
theorem scoped_shift (tr : Trace (Rec ι) (Call ι) (Reply ι)) (c : CardRow ι) (n : ℤ)
    (hc : Saw tr (.card c)) : (labelSpec ι).ok tr (.put (.card { c with position := n })) :=
  .inl ⟨c, hc, rfl, rfl, rfl⟩

theorem scoped_relabelCard {boardId cardId : ι} {labelIds : List ι} {key : String} :
    (labelSpec ι).Writes tr₀ (relabelCard codec tenantId boardId labelIds key cardId) := by
  have hinsert : ∀ (labelIds : List ι) tr, (labelSpec ι).Writes tr (insertCardLabels cardId labelIds) := by
    intro labelIds
    induction labelIds with
    | nil => exact fun _ => .pure
    | cons labelId rest ih =>
        refine fun tr => .bind (.query fun tr' db e _ he a ha => ?_) fun _ tr _ => ih tr
        unfold insertCardLabel at he
        split at he
        · rcases Table.within_insertIgnore db e he a ha with ⟨r, rfl | rfl⟩ <;> trivial
        · cases he
  refine .bind (.of_tame (.query silent_select)) fun rows tr _ => .ensure_bind fun _ =>
    .bind (.query fun tr db e _ he a ha => ?_) fun _ tr _ => .bind (hinsert _ _) fun _ tr _ =>
    .bind (.bind (.fetchOne fun tr db e _ he a ha => ?_) fun _ _ _ => .pure) fun _ tr _ =>
    .insertBoardEvent (fun _ _ _ => trivial) fun _ _ => trivial
  · rcases Table.within_delete db e he a ha with ⟨r, rfl | rfl⟩ <;> trivial
  · obtain ⟨c, -, hread, rfl⟩ := Table.mem_writes_update he ha
    exact .inl ⟨c, saw_ran hread, rfl, rfl, rfl⟩

theorem scoped_bulkUpdateCardLabels {req : BulkUpdateCardLabelsRequest} :
    (labelSpec ι).Writes tr₀ (bulkUpdateCardLabels codec ctx req) := by
  have hcards : ∀ tenantId boardId labelIds key (cardIds : List ι) tr,
      (labelSpec ι).Writes tr (relabelCards codec tenantId boardId labelIds key cardIds) := by
    intro tenantId boardId labelIds key cardIds
    induction cardIds with
    | nil => exact fun _ => .pure
    | cons cardId rest ih => exact fun tr => .bind scoped_relabelCard fun _ tr _ => ih tr
  refine .orError_bind fun objectId _ => .orError_bind fun boardId _ => .orError_bind
    fun tenantId _ => .ite .pure (.bind (.of_tame .checkIdempotencyCard) fun found tr _ => ?_)
  cases found with
  | some existingId => exact .of_tame .refetchCards
  | none =>
      refine .bind .beginTx fun _ _ _ => .bind (hcards _ _ _ _ _ _) fun _ _ _ =>
        .bind .commitTx fun _ tr _ => ?_
      dsimp only
      split
      · exact .of_tame (.bind .storeIdempotencyId fun _ => .fetchCards)
      · exact .of_tame (.bind (.pure _) fun _ => .fetchCards)

theorem scoped_createCard {req : CreateCardRequest} :
    (labelSpec ι).Writes tr₀ (createCard codec ctx req) := by
  refine .orError_bind fun objectId _ => .orError_bind fun boardId _ => .orError_bind
    fun subject _ => .orError_bind fun tenantId _ => .ensure_bind fun _ =>
    .bind (.of_tame .checkIdempotencyCard) fun found tr _ => ?_
  cases found with
  | some existingId => exact .of_tame .fetchFullCard
  | none =>
      refine .bind (.of_tame (.fetchOr silent_select)) fun board tr _ => .orError_bind fun colId _ =>
        .bind (.of_tame (.fetchOr silent_select)) fun column tr _ => .bind ?_ fun cardId tr _ =>
        .of_tame (.bind .tenantClientFor fun _ => .bind .grantWithRetry fun _ =>
          .bind .storeIdempotencyId fun _ => .fetchFullCard)
      refine .bind .beginTx fun _ _ _ => .bind (.allocateCardRef fun _ _ => trivial)
        fun cardRef tr _ => .newId_bind fun cardId tr _ hid =>
        .bind (.insertPosition fun tr c n _ => scoped_shift tr c n) fun position tr htr =>
        .bind (.of_tame .checkMilestone) fun milestone tr htr' =>
        .bind (.query fun tr' db e htr'' he a ha => ?_) fun _ _ _ =>
        .bind (.insertBoardEvent (fun _ _ _ => trivial) fun _ _ => trivial) fun _ _ _ =>
        .bind .commitTx fun _ _ _ => .pure
      rw [writes_insertCard he] at ha
      rw [List.mem_singleton.mp ha]
      exact .inr (mem_newIds.mpr (List.mem_cons_of_mem _ ((htr.trans (htr'.trans htr'')).subset hid)))

theorem scoped_moveCard {req : MoveCardRequest} :
    (labelSpec ι).Writes tr₀ (moveCard codec pages ctx req) := by
  refine .orError_bind fun objectId _ => .orError_bind fun cardId _ => .orError_bind
    fun tenantId _ => .orError_bind fun toColId _ => .bind (.of_tame .checkIdempotencyCard)
    fun found tr _ => ?_
  cases found with
  | some existingId => exact .of_tame .fetchFullCard
  | none =>
      refine .bind (.of_tame (.fetchOr silent_select)) fun card tr _ =>
        .bind (.of_tame (.fetchOr silent_select)) fun target tr _ =>
        .fork .pure (.of_tame .sourceIsDone) fun fromIsDone tr _ =>
        .bind (.of_tame (.fetchOr silent_select)) fun targetBoard tr _ => .ensure_bind fun _ =>
        .bind ?_ fun _ tr _ => ?_
      · have hshift : ∀ {msg columnId delta} {p : ℤ → Bool} {tr}, (labelSpec ι).Writes tr
            (query msg (shiftCards tenantId columnId p delta)) :=
          .shiftCards fun tr c n _ => scoped_shift tr c n
        have hroom : ∀ toPos tr, (labelSpec ι).Writes tr (shiftForMove tenantId card target.id toPos) :=
          fun toPos tr => .ite (.ite .pure (.ite (.bind hshift fun _ _ _ => .pure)
            (.bind hshift fun _ _ _ => .pure))) (.bind hshift fun _ _ _ => .bind hshift fun _ _ _ => .pure)
        refine .bind .beginTx fun _ _ _ => .bind (hroom _ _) fun _ _ _ =>
          .bind (.fetchOne fun tr db e _ he a ha => ?_) fun row tr _ =>
          .bind (.insertBoardEvent (fun _ _ _ => trivial) fun _ _ => trivial) fun _ _ _ => .commitTx
        obtain ⟨c, -, hread, rfl⟩ := Table.mem_writes_update he ha
        exact .inl ⟨c, saw_ran hread, rfl, rfl, rfl⟩
      · have hrest : Tame (do
            storeIdempotencyCard tenantId req.idempotencyKey cardId
            fetchFullCard codec tenantId cardId) := .bind .storeIdempotencyId fun _ => .fetchFullCard
        exact .of_tame (.ite (.bind .tenantClientFor fun _ => .bind .rehomeParent fun _ => hrest) hrest)

/-! ### The transaction of a transfer -/

/-- Not a label on a card. -/
def NotAttached (r : Rec ι) : Prop := ∀ cl, r ≠ .cardLabel cl

/-- A row of another table than those of the cards and their labels. -/
def Aside : Rec ι → Prop
  | .card _ => False
  | .label _ => False
  | .cardLabel _ => False
  | _ => True

/-- A statement of a transfer: it writes cards that it has read, and takes off the labels that it
has read. -/
structure Scrubs {β : Type} (e : Effect (Rec ι) β) : Prop where
  card : ∀ c', .put (.card c') ∈ e.writes →
    ∃ c, .card c ∈ e.read ∧ c.id = c'.id ∧ c.tenantId = c'.tenantId
  scrubs : ∀ cl, .cardLabel cl ∈ e.read → .del (.cardLabel cl) ∈ e.writes
  keeps : (∀ l, .put (.label l) ∉ e.writes) ∧ ∀ cl, .put (.cardLabel cl) ∉ e.writes

omit [DecidableEq ι] in
/-- A statement that writes other tables. -/
theorem scrubs_of_aside {β : Type} {e : Effect (Rec ι) β} (hread : ∀ r ∈ e.read, NotAttached r)
    (hws : ∀ a ∈ e.writes, Aside a.record) : Scrubs e where
  card _ hc' := (hws _ hc').elim
  scrubs cl hcl := absurd rfl (hread _ hcl cl)
  keeps := ⟨fun _ hl => (hws _ hl).elim, fun _ hcl => (hws _ hcl).elim⟩

namespace Relocates

variable {β : Type} {tr : Trace (Rec ι) (Call ι) (Reply ι)} {ws : List (Write (Rec ι))}
  {Good : Commitment (Rec ι) (Call ι) (Reply ι)}

omit [DecidableEq ι] in
theorem start (h : ∀ r, Saw tr r → NotAttached r) : Relocates tr ([] : List (Write (Rec ι))) where
  card _ h := by cases h
  scrubs cl hcl := absurd rfl (h _ hcl cl)
  keeps := ⟨nofun, nofun⟩

omit [DecidableEq ι] in
theorem stmt {e : Effect (Rec ι) β} (h : Relocates tr ws) (he : Scrubs e) :
    Relocates (.ran e.read :: tr) (ws ++ e.writes) where
  card c' hc' := by
    rcases List.mem_append.mp hc' with hc' | hc'
    · obtain ⟨c, hc, hrest⟩ := h.card c' hc'
      exact ⟨c, hc.cons, hrest⟩
    · obtain ⟨c, hc, hrest⟩ := he.card c' hc'
      exact ⟨c, saw_ran hc, hrest⟩
  scrubs cl hcl := by
    rcases saw_ran_cons.mp hcl with hcl | hcl
    · exact List.mem_append_right _ (he.scrubs cl hcl)
    · exact List.mem_append_left _ (h.scrubs cl hcl)
  keeps := by
    refine ⟨fun l hl => ?_, fun cl hcl => ?_⟩
    · exact (List.mem_append.mp hl).elim (h.keeps.1 l) (he.keeps.1 l)
    · exact (List.mem_append.mp hcl).elim (h.keeps.2 cl) (he.keeps.2 cl)

omit [DecidableEq ι] in
theorem called (h : Relocates tr ws) {c : Call ι} {r : Reply ι c} :
    Relocates (.called c r :: tr) ws where
  card c' hc' := by
    obtain ⟨c, hc, hrest⟩ := h.card c' hc'
    exact ⟨c, hc.cons, hrest⟩
  scrubs cl hcl := h.scrubs cl (saw_called_cons.mp hcl)
  keeps := h.keeps

theorem query {msg : String} {s : Stmt (Db ι) (Rec ι) β}
    {B : β → Tx (Rec ι) → Trace (Rec ι) (Call ι) (Reply ι) → Prop} (h : Relocates tr ws)
    (hs : ∀ db e, s db = some e → Scrubs e)
    (hB : ∀ b ws' tr', Relocates tr' ws' → B b (.active ws') tr') :
    Runs (kanban ι) Good (query msg s) (.active ws) tr B :=
  runs_query_active fun db e he => hB _ _ _ (h.stmt (hs db e he))

theorem fetchOne {msg : String} {s : Stmt (Db ι) (Rec ι) (List β)}
    {B : β → Tx (Rec ι) → Trace (Rec ι) (Call ι) (Reply ι) → Prop} (h : Relocates tr ws)
    (hs : ∀ db e, s db = some e → Scrubs e)
    (hB : ∀ b ws' tr', Relocates tr' ws' → B b (.active ws') tr') :
    Runs (kanban ι) Good (fetchOne msg s) (.active ws) tr B :=
  runs_bind (h.query hs fun _ ws' tr' h' => runs_orError fun b _ => hB b ws' tr' h')

theorem insertBoardEvent {boardId : ι} {eventType : String} {payload : Payload}
    {B : Unit → Tx (Rec ι) → Trace (Rec ι) (Call ι) (Reply ι) → Prop} (h : Relocates tr ws)
    (hB : ∀ ws' tr', Relocates tr' ws' → B () (.active ws') tr') :
    Runs (kanban ι) Good (insertBoardEvent tenantId boardId eventType payload) (.active ws) tr B := by
  refine runs_bind (h.fetchOne (fun db e he => scrubs_of_aside (fun r hr cl => ?_) fun a ha => ?_)
    fun board ws₁ tr₁ h₁ => runs_bind (runs_newId fun id => runs_bind (h₁.called.query
      (fun db e he => scrubs_of_aside ?_ ?_) fun _ ws₂ tr₂ h₂ => h₂.query (fun db e he =>
      scrubs_of_aside ?_ ?_) fun _ ws₃ tr₃ h₃ => hB ws₃ tr₃ h₃)))
  · cases he
    obtain ⟨b, -, rfl⟩ := List.mem_map.mp hr
    exact nofun
  · cases he
    obtain ⟨b, -, rfl⟩ := List.mem_map.mp ha
    trivial
  · unfold Table.insert at he
    split at he <;> cases he
    simp
  · rw [Table.writes_insert he]
    simp [Aside, Write.record]
  · cases he
    simp
  · cases he
    simp

end Relocates

omit [DecidableEq ι] in
theorem scrubs_advisoryLock {db : Db ι} {e : Effect (Rec ι) Unit} (he : advisoryLock db = some e) :
    Scrubs e := by
  cases he
  exact scrubs_of_aside (by simp) (by simp)

theorem scrubs_nextCardRef {projectId : ι} {db : Db ι} {e : Effect (Rec ι) (List (String × ℤ))}
    (he : nextCardRef tenantId projectId db = some e) : Scrubs e := by
  unfold nextCardRef at he
  split at he
  · cases he
    exact scrubs_of_aside (by simp) (by simp)
  · obtain ⟨e', he', rfl⟩ := Option.map_eq_some_iff.mp he
    unfold Table.upsert at he'
    split at he' <;> cases he'
    · exact scrubs_of_aside (by simp [NotAttached]) (by simp [Aside, Write.record])
    · exact scrubs_of_aside (by simp [NotAttached]) (by simp [Aside, Write.record])

theorem scrubs_nextPosition {columnId : ι} {db : Db ι} {e : Effect (Rec ι) ℤ}
    (he : nextPosition tenantId columnId db = some e) : Scrubs e := by
  obtain ⟨n, -, rfl⟩ := Option.map_eq_some_iff.mp he
  refine scrubs_of_aside (fun r hr cl => ?_) (by simp)
  obtain ⟨c, -, rfl⟩ := List.mem_map.mp hr
  exact nofun

theorem scrubs_updateCardRow {cardId : ι} {f : CardRow ι → CardRow ι} {db : Db ι}
    {e : Effect (Rec ι) (List (CardRow ι))} (he : updateCardRow tenantId cardId f db = some e)
    (hf : ∀ c, (f c).id = c.id ∧ (f c).tenantId = c.tenantId) : Scrubs e := by
  cases he
  refine ⟨fun c' hc' => ?_, by simp, by simp⟩
  obtain ⟨c, hc, heq⟩ := List.mem_map.mp hc'
  cases heq
  exact ⟨c, List.mem_map_of_mem hc, (hf c).1.symm, (hf c).2.symm⟩

theorem scrubs_scrubLabels {cardId projectId : ι} {db : Db ι}
    {e : Effect (Rec ι) (List (CardLabelRow ι))} (he : scrubLabels cardId projectId db = some e) :
    Scrubs e := by
  cases he
  refine ⟨by simp, fun cl hcl => ?_, by simp, by simp⟩
  obtain ⟨cl', hcl', heq⟩ := List.mem_map.mp hcl
  cases heq
  exact List.mem_map_of_mem hcl'

/-- **The transaction of a transfer.**  It takes off the labels that it has read. -/
theorem runs_relocateCard_scrubs {card : CardRow ι} {target : ColumnRow ι} {targetProjectId : ι}
    {fromIsDone : Bool} {key : String} (htr : ∀ r, Saw tr₀ r → NotAttached r) :
    Runs (kanban ι) (labelCommits ι) (relocateCard codec ctx tenantId card targetProjectId target
      fromIsDone key) .idle tr₀ fun _ tx _ => tx = .idle := by
  refine runs_bind (runs_beginTx (runs_bind (runs_bind ((Relocates.start htr).query
    (fun _ _ => scrubs_advisoryLock) fun _ ws₁ tr₁ h₁ => ?_))))
  refine runs_bind (h₁.fetchOne (fun _ _ => scrubs_nextCardRef) fun ref ws₂ tr₂ h₂ => runs_pure ?_)
  refine runs_bind (h₂.query (fun _ _ => scrubs_nextPosition) fun toPos ws₃ tr₃ h₃ => ?_)
  refine runs_bind (h₃.fetchOne (fun _ _ he => scrubs_updateCardRow he fun c => ⟨rfl, rfl⟩)
    fun row ws₄ tr₄ h₄ => ?_)
  refine runs_bind (h₄.query (fun _ _ => scrubs_scrubLabels) fun _ ws₅ tr₅ h₅ => ?_)
  refine runs_bind (h₅.insertBoardEvent fun ws₆ tr₆ h₆ => ?_)
  refine runs_bind (h₆.insertBoardEvent fun ws₇ tr₇ h₇ => ?_)
  exact runs_commitTx (.inr h₇) rfl

/-! What a handler reads before its transaction is no label on a card. -/

section Reads

omit [DecidableEq ι]

theorem reads_orError {α : Type} {o : Option α} {e : ConnectError} :
    Prog.Reads NotAttached (orError e o : Handler ι α) := by
  cases o <;> trivial

theorem reads_checkTargetBoard {boardId : ι} :
    Prog.Reads NotAttached (checkTargetBoard codec ctx boardId) := by
  have hcheck : ∀ tenant q n, Prog.Reads NotAttached
      (checkPermissionWithRetry.attempt tenant q n : Handler ι (Option Bool)) := by
    intro tenant q n
    induction n with
    | zero => trivial
    | succ n ih =>
        intro r
        cases r with
        | ok granted => trivial
        | error e =>
            dsimp only
            split
            · exact ih
            · trivial
  have hclient : Prog.Reads NotAttached (tenantClientFor ctx : Handler ι String) := by
    refine reads_orError.bind fun tenant => ?_
    intro ok
    cases ok <;> trivial
  refine reads_orError.bind fun subject => hclient.bind fun permission =>
    (hcheck _ _ _).bind fun answer => reads_orError.bind fun allowed => ?_
  unfold ensure
  cases allowed <;> trivial

theorem reads_fetchOptional {τ : Type} {msg : String} {T : Table (Db ι) (Rec ι) τ} {p : τ → Bool}
    (hT : ∀ r, NotAttached (T.record r)) :
    Prog.Reads NotAttached (fetchOptional msg (T.select p)) := by
  refine ⟨fun db e he r hr => ?_, fun rows => ?_⟩
  · cases he
    obtain ⟨x, -, rfl⟩ := List.mem_map.mp hr
    exact hT x
  · cases rows <;> trivial

theorem reads_fetchOr {τ : Type} {msg : String} {err : ConnectError} {T : Table (Db ι) (Rec ι) τ}
    {p : τ → Bool} (hT : ∀ r, NotAttached (T.record r)) :
    Prog.Reads NotAttached (fetchOr msg err (T.select p)) :=
  (reads_fetchOptional hT).bind fun _ => reads_orError

end Reads

theorem runs_transferCard_labels {req : TransferCardRequest} :
    Runs (kanban ι) (labelCommits ι) (transferCard codec pages ctx req) .idle [] fun _ _ _ => True := by
  have hquiet : ∀ tr ws, Quiet ws → labelCommits ι tr ws := by
    intro tr ws h
    refine .inl fun a ha => ?_
    obtain ⟨r, rfl⟩ := h a ha
    trivial
  have hread : ∀ {α β : Type} {p : Handler ι α} {f : α → Handler ι β}
      {tr : Trace (Rec ι) (Call ι) (Reply ι)}, Tame p → p.Reads NotAttached →
      (∀ r, Saw tr r → NotAttached r) → (∀ a tr', (∀ r, Saw tr' r → NotAttached r) →
        Runs (kanban ι) (labelCommits ι) (f a) .idle tr' fun _ _ _ => True) →
      Runs (kanban ι) (labelCommits ι) (p.bind f) .idle tr fun _ _ _ => True := by
    intro α β p f tr hp hreads htr hf
    refine runs_bind (((Runs.of_only hp hquiet).reads hreads htr).mono ?_)
    rintro a tx tr' ⟨⟨rfl, -⟩, htr'⟩
    exact hf a tr' htr'
  refine runs_bind (runs_orError fun objectId _ => runs_bind (runs_orError fun cardId _ =>
    runs_bind (runs_orError fun tenantId _ => runs_bind (runs_orError fun targetBoardId _ =>
    runs_bind (runs_orError fun targetColId _ => hread .checkIdempotencyCard ?_ ?_
    fun found tr₁ h₁ => ?_)))))
  · unfold checkIdempotencyCard
    split
    · trivial
    · exact (reads_fetchOptional (T := Db.idempotencyKeysT) fun _ => nofun).bind fun _ => trivial
  · rintro r ⟨rows, hrows, -⟩
    cases hrows
  · cases found with
    | some existingId => exact (Settles.of_tame hquiet .replayTransfer).runs
    | none =>
        refine hread (.fetchOr silent_select) (reads_fetchOr fun _ => nofun) h₁
          fun card tr₂ h₂ => hread (.fetchOr silent_select) (reads_fetchOr fun _ => nofun) h₂
          fun targetBoard tr₃ h₃ => runs_bind (runs_ensure fun _ =>
          hread .checkTargetBoard reads_checkTargetBoard h₃ fun permission tr₄ h₄ =>
          hread (.fetchOr silent_select) (reads_fetchOr fun _ => nofun) h₄ fun target tr₅ h₅ =>
          runs_bind (runs_ensure fun _ => hread .sourceIsDone
            ((reads_fetchOptional (T := Db.columnsT) fun _ => nofun).bind fun _ => trivial) h₅
          fun fromIsDone tr₆ h₆ => ?_))
        refine runs_bind ((runs_relocateCard_scrubs h₆).mono ?_)
        rintro _ tx tr₇ rfl
        exact (Settles.of_tame hquiet (.bind .rehomeParent fun _ => .bind .storeIdempotencyId
          fun _ => .bind .fetchFullCard fun _ => .pure _)).runs

/-- **What a call commits.** -/
theorem runs_labelHandler {q : RequestContext × LabelCall} :
    Runs (kanban ι) (labelCommits ι) (labelHandler codec pages q) .idle [] fun _ _ _ => True := by
  have hdone : ∀ {β : Type} {p : Handler ι β}, Runs (kanban ι) (labelCommits ι) p .idle []
      (fun _ _ _ => True) →
      Runs (kanban ι) (labelCommits ι) (p.bind fun _ => .pure ()) .idle [] fun _ _ _ => True :=
    fun hp => runs_bind (hp.mono fun _ _ _ _ => runs_pure trivial)
  have hwrites : ∀ {β : Type} {p : Handler ι β}, (labelSpec ι).Writes [] p →
      Runs (kanban ι) (labelCommits ι) p .idle [] fun _ _ _ => True := fun hp =>
    ((hp .idle [] List.suffix_rfl trivial).imp fun _ _ h => .inl h).mono fun _ _ _ _ => trivial
  obtain ⟨ctx, call⟩ := q
  cases call with
  | createLabel req => exact hdone (hwrites scoped_createLabel)
  | updateLabel req => exact hdone (hwrites scoped_updateLabel)
  | deleteLabel req => exact hwrites scoped_deleteLabel
  | bulkUpdateCardLabels req => exact hdone (hwrites scoped_bulkUpdateCardLabels)
  | createCard req => exact hdone (hwrites scoped_createCard)
  | moveCard req => exact hdone (hwrites scoped_moveCard)
  | transferCard req => exact hdone runs_transferCard_labels

/-- **The labels of cards.**  Whatever calls run together, and whatever fails or crashes, every
label on a card is in the scope of the card as long as every commit is in step. -/
theorem label_scope {w : World (Db ι) (Backend ι)}
    {turns : List (Turn (RequestContext × LabelCall) (Move ι))} {P : LabelPool ι}
    (hscope : LabelScope w.store)
    (hrun : Machine.ExecWhile (Pool.step (kanban ι) (labelHandler codec pages)) CommitsInStep
      (Pool.idle w) turns P) : LabelScope P.world.store :=
  Pool.store_invariant (fun _ => runs_labelHandler) hrun rfl hscope
    fun _ _ _ _ _ hC hcommit hgood h => h.applyAll hgood (hC _ hcommit)

end Handlers

/-- A card of one project, with a label of its project and a label of another. -/
def twoLabels : World (Db String) (Backend String) where
  store := { Db.empty with
    projects := [⟨"p", "t", "Roadmap", "ROAD", "ROAD", "", "user:ann"⟩,
      ⟨"q", "t", "Hiring", "HIRE", "HIRE", "", "user:bob"⟩]
    boards := [⟨"a", "t", "p", "A", "a", "", none, "private", 0⟩]
    columns := [⟨"a1", "t", "a", "Todo", none, none, 0, false⟩]
    labels := [⟨"k", "t", some "p", "bug", "red"⟩, ⟨"l", "t", some "q", "salary", "red"⟩]
    cards := [⟨"c", "t", "p", "a", "a1", "ROAD-001", "Ship", none, 0, "medium", "medium", none,
      none, false, none, none, "user:ann", 0⟩] }
  ext := Backend.empty

/-- A member of the board sets the labels of the card to one label. -/
def setLabel (label : String) : RequestContext × LabelCall :=
  ⟨⟨some ⟨some "t", some "user:cal"⟩, some "a", 0⟩, .bulkUpdateCardLabels ⟨["c"], [label], ""⟩⟩

/-- The transaction: the check of the card, its labels, its revision and the event. -/
def labelSet (label : String) : List (Turn (RequestContext × LabelCall) (Move String)) :=
  .arrive (setLabel label) :: [.ok, .ok, .ok, .ok, .ok, .ok, .move (.fresh "e"), .ok, .ok, .ok].map
    (.act 0)

theorem label_scope_labelSet :
    ∃ P, Machine.ExecWhile (Pool.step (kanban String) (labelHandler textIds 1)) CommitsInStep
        (Pool.idle twoLabels) (labelSet "k") P ∧
      LabelScope P.world.store ∧ P.world.store.cardLabels = [⟨"c", "k"⟩] := by
  obtain ⟨P, hP, hlabels⟩ : ∃ P, Machine.run
      (Machine.guarded (Pool.step (kanban String) (labelHandler textIds 1)) CommitsInStep)
      (Pool.idle twoLabels) (labelSet "k") = some P ∧
      P.world.store.cardLabels = [⟨"c", "k"⟩] := ⟨_, rfl, rfl⟩
  have hrun := Machine.execWhile_of_run hP
  exact ⟨P, hrun, label_scope (by decide) hrun, hlabels⟩

theorem label_not_scope :
    ∃ P, Machine.Exec (Pool.step (kanban String) (labelHandler textIds 1)) (Pool.idle twoLabels)
        (labelSet "l") P ∧ LabelScope twoLabels.store ∧ ¬ LabelScope P.world.store := by
  obtain ⟨P, hP, hscope⟩ : ∃ P, Machine.run (Pool.step (kanban String) (labelHandler textIds 1))
      (Pool.idle twoLabels) (labelSet "l") = some P ∧ ¬ LabelScope P.world.store :=
    ⟨_, rfl, by decide⟩
  exact ⟨P, Machine.exec_of_run hP, by decide, hscope⟩

end Kanban.Rpc
