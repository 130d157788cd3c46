import Kanban.Rpc.CardDetailRuns

/-!
# The calls of CardService

All mutations of the service as one type of calls, and what a call may commit: one change of
the placement, admitted by what the call was asked and has checked.

## Main definitions

* `CardCall`, `CardReply`, `cardHandler` — the mutations of the service.
* `CardCall.Admits` — the changes a call may make.
* `runs_cardHandler` — every commit of a call makes a change that the call admits.
-/

namespace Kanban.Rpc

open Program Kanban.Store Kanban.Auth
open Kanban.Services (AuthContext ConnectError IdCodec)

variable {ι : Type} [DecidableEq ι]

/-- A mutation of the service, with its request. -/
inductive CardCall
  | createCard (req : CreateCardRequest)
  | updateCard (req : UpdateCardRequest)
  | moveCard (req : MoveCardRequest)
  | transferCard (req : TransferCardRequest)
  | deleteCard
  | addCardDependency (req : CardDependencyRequest)
  | removeCardDependency (req : CardDependencyRequest)
  | bulkUpdateCardLabels (req : BulkUpdateCardLabelsRequest)
  | assignCard (req : AssignCardRequest)
  | unassignCard (req : AssignCardRequest)
  | addChecklistItem (req : AddChecklistItemRequest)
  | updateChecklistItem (req : UpdateChecklistItemRequest)
  | removeChecklistItem (req : RemoveChecklistItemRequest)
  | addComment (req : AddCommentRequest)
  | editComment (req : EditCommentRequest)
  | deleteComment (req : DeleteCommentRequest)
  deriving DecidableEq, Repr

/-- What the service answers. -/
inductive CardReply
  | card (card : Card)
  | transferred (response : TransferCardResponse)
  | cards (cards : List Card)
  | comment (comment : Comment)
  | done
  deriving DecidableEq, Repr

/-- The handler of a call. -/
def cardHandler (codec : IdCodec ι) (pages : ℕ) (ctx : RequestContext) :
    CardCall → Handler ι CardReply
  | .createCard req => (createCard codec ctx req).bind fun c => .pure (.card c)
  | .updateCard req => (updateCard codec ctx req).bind fun c => .pure (.card c)
  | .moveCard req => (moveCard codec pages ctx req).bind fun c => .pure (.card c)
  | .transferCard req => (transferCard codec pages ctx req).bind fun r => .pure (.transferred r)
  | .deleteCard => (deleteCard codec pages ctx).bind fun _ => .pure .done
  | .addCardDependency req => (addCardDependency codec ctx req).bind fun c => .pure (.card c)
  | .removeCardDependency req => (removeCardDependency codec ctx req).bind fun c => .pure (.card c)
  | .bulkUpdateCardLabels req => (bulkUpdateCardLabels codec ctx req).bind fun l => .pure (.cards l)
  | .assignCard req => (assignCard codec ctx req).bind fun c => .pure (.card c)
  | .unassignCard req => (unassignCard codec ctx req).bind fun c => .pure (.card c)
  | .addChecklistItem req => (addChecklistItem codec ctx req).bind fun c => .pure (.card c)
  | .updateChecklistItem req => (updateChecklistItem codec ctx req).bind fun c => .pure (.card c)
  | .removeChecklistItem req => (removeChecklistItem codec ctx req).bind fun _ => .pure .done
  | .addComment req => (addComment codec ctx req).bind fun c => .pure (.comment c)
  | .editComment req => (editComment codec ctx req).bind fun c => .pure (.comment c)
  | .deleteComment req => (deleteComment codec ctx req).bind fun _ => .pure .done

/-- The checks that were granted in a trace, each with its tenant. -/
def grantedChecks (tr : Trace (Rec ι) (Call ι) (Reply ι)) :
    List (String × Services.PermissionQuery) :=
  tr.filterMap fun
    | .called (.checkPermission tenant query) (.ok true) => some (tenant, query)
    | _ => none

omit [DecidableEq ι] in
theorem mem_grantedChecks {tr : Trace (Rec ι) (Call ι) (Reply ι)} {tenant : String}
    {query : Services.PermissionQuery} (h : .called (.checkPermission tenant query) (.ok true) ∈ tr) :
    (tenant, query) ∈ grantedChecks tr := List.mem_filterMap.mpr ⟨_, h, rfl⟩

/-- The subject was granted `edit` on the board. -/
def EditGranted (codec : IdCodec ι) (tenant subject : String)
    (tr : Trace (Rec ι) (Call ι) (Reply ι)) (board : ι) : Prop :=
  (tenant, ⟨permissionTypeBoard, codec.toString board, "edit", subject⟩) ∈ grantedChecks tr

/-- The changes a call may make after `tr`: it creates cards on the board that was checked for
it, moves the card that was checked for it to the column of its request, and transfers a card
only to a board that it has checked itself. -/
def CardCall.Admits (codec : IdCodec ι) (ctx : RequestContext) (call : CardCall)
    (tr : Trace (Rec ι) (Call ι) (Reply ι)) : Change ι → Prop
  | .stay => True
  | .create _ board _ =>
      (∃ req, call = .createCard req) ∧ ctx.checked.bind codec.parse = some board
  | .move card _ _ column => ∃ req, call = .moveCard req ∧
      ctx.checked.bind codec.parse = some card ∧ codec.parse req.toColumnId = some column
  | .transfer _ _ board _ =>
      (∃ req, call = .transferCard req) ∧ ∃ tenant subject,
        ctx.auth.bind AuthContext.tenantId = some tenant ∧
        ctx.auth.bind AuthContext.subject = some subject ∧
        EditGranted codec tenant subject tr board
  | .delete _ _ => True

/-- What a call may commit. -/
def CardCall.Commits (codec : IdCodec ι) (ctx : RequestContext) (call : CardCall) :
    Commitment (Rec ι) (Call ι) (Reply ι) := fun tr ws =>
  ∃ change, Makes codec tr ws change ∧ call.Admits codec ctx tr change

section Runs

variable {codec : IdCodec ι} {pages : ℕ} {ctx : RequestContext}
  {tr : Trace (Rec ι) (Call ι) (Reply ι)} {ws : List (Write (Rec ι))}

omit [DecidableEq ι] in
/-- Writes of keys leave every card in its place. -/
theorem makes_of_quiet (h : Quiet ws) : Makes codec tr ws .stay := by
  have hplain : ∀ a ∈ ws, PlainWrite a := by
    intro a ha
    obtain ⟨r, rfl⟩ := h a ha
    trivial
  have hw : Builds tr tr ws .stay [] := (Builds.start List.suffix_rfl).plain hplain
  exact hw.makes_stay (by simp)

/-- The calls that commit more than changes with their events. -/
def CardCall.Loose : CardCall → Prop
  | .updateCard _ => True
  | .removeCardDependency _ => True
  | _ => False

/-- The commits of the handlers, by what a condition on them has to admit. -/
theorem runs_cardHandler_of {Good : Commitment (Rec ι) (Call ι) (Reply ι)} (call : CardCall)
    (hquiet : ∀ tr ws, Quiet ws → Good tr ws)
    (hmoves : ∀ tr ws change, change ≠ .stay → Makes codec tr ws change →
      call.Admits codec ctx tr change → Good tr ws)
    (hdelivers : ∀ tr ws, Delivers codec tr ws → Good tr ws)
    (hloose : call.Loose → ∀ tr ws, Makes codec tr ws .stay → Good tr ws) :
    Runs (kanban ι) Good (cardHandler codec pages ctx call) .idle tr fun _ _ _ => True := by
  have hreply : ∀ {α : Type} {p : Handler ι α} {f : α → CardReply},
      Runs (kanban ι) Good p .idle tr (fun _ _ _ => True) →
      Runs (kanban ι) Good (p.bind fun a => .pure (f a)) .idle tr fun _ _ _ => True :=
    fun hp => runs_bind (hp.mono fun _ _ _ _ => runs_pure trivial)
  cases call with
  | createCard req =>
      exact hreply (runs_createCard hquiet fun tr ws card board column hboard h =>
        hmoves _ _ (.create card board column) nofun h ⟨⟨req, rfl⟩, hboard⟩)
  | updateCard req => exact hreply (runs_updateCard hquiet (hloose trivial))
  | moveCard req =>
      exact hreply (runs_moveCard hquiet fun tr ws card source board column hcard hcolumn h =>
        hmoves _ _ (.move card source board column) nofun h ⟨req, rfl, hcard, hcolumn⟩)
  | transferCard req =>
      exact hreply (runs_transferCard hquiet
        fun tr ws card source board column tenant subject htenant hsubject hchecked h =>
          hmoves _ _ (.transfer card source board column) nofun h
            ⟨⟨req, rfl⟩, tenant, subject, htenant, hsubject, mem_grantedChecks hchecked⟩)
  | deleteCard =>
      exact hreply (runs_deleteCard hquiet fun tr ws card source h =>
        hmoves _ _ (.delete card source) nofun h trivial)
  | addCardDependency req => exact hreply (Settles.addCardDependency hquiet hdelivers).runs
  | removeCardDependency req =>
      exact hreply (Settles.removeCardDependency hquiet (hloose trivial)).runs
  | bulkUpdateCardLabels req => exact hreply (Settles.bulkUpdateCardLabels hquiet hdelivers).runs
  | assignCard req => exact hreply (Settles.assignCard hquiet hdelivers).runs
  | unassignCard req => exact hreply (Settles.unassignCard hquiet hdelivers).runs
  | addChecklistItem req => exact hreply (Settles.addChecklistItem hquiet hdelivers).runs
  | updateChecklistItem req => exact hreply (Settles.updateChecklistItem hquiet hdelivers).runs
  | removeChecklistItem req => exact hreply (Settles.removeChecklistItem hquiet hdelivers).runs
  | addComment req => exact hreply (Settles.addComment hquiet hdelivers).runs
  | editComment req => exact hreply (Settles.editComment hquiet hdelivers).runs
  | deleteComment req => exact hreply (Settles.deleteComment hquiet hdelivers).runs

/-- **What a call commits.**  Whatever the other calls do in between, every commit of a call
makes a change that the call admits. -/
theorem runs_cardHandler (call : CardCall) :
    Runs (kanban ι) (call.Commits codec ctx) (cardHandler codec pages ctx call) .idle tr
      fun _ _ _ => True := by
  refine runs_cardHandler_of call (fun tr ws h => ?_) (fun tr ws change _ h hadmits => ?_)
    (fun tr ws h => ?_) fun _ tr ws h => ?_
  · exact ⟨.stay, makes_of_quiet h, trivial⟩
  · exact ⟨change, h, hadmits⟩
  · exact ⟨.stay, h.toMakes, trivial⟩
  · exact ⟨.stay, h, trivial⟩

end Runs

end Kanban.Rpc
