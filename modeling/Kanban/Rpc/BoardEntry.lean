import Kanban.Auth.Dispatch
import Kanban.Rpc.EventStream

/-!
# How a card enters a board

A call reaches its handler through the dispatcher, which checks one object: the board for a
CreateCard, the card for a MoveCard and for a TransferCard.  The board of a CreateCard is checked as
the header spells it.  TransferCard checks its target board itself; MoveCard reaches another board
through a column and does not.

## Main definitions

* `CardRequest`, `serveCard` — a request, dispatched and handled.
* `CallerGranted` — the caller was granted `edit` on a board during the call.
* `boardEntry_granted` — a card enters a board only with `edit` on it.
-/

namespace Kanban.Rpc

open Program Kanban.Store Kanban.Auth
open Kanban.Services (AuthContext ConnectError IdCodec)

variable {ι : Type} [DecidableEq ι]

/-- The name of the method. -/
def CardCall.name : CardCall → String
  | .createCard _ => "CreateCard"
  | .updateCard _ => "UpdateCard"
  | .moveCard _ => "MoveCard"
  | .transferCard _ => "TransferCard"
  | .deleteCard => "DeleteCard"
  | .addCardDependency _ => "AddCardDependency"
  | .removeCardDependency _ => "RemoveCardDependency"
  | .bulkUpdateCardLabels _ => "BulkUpdateCardLabels"
  | .assignCard _ => "AssignCard"
  | .unassignCard _ => "UnassignCard"
  | .addChecklistItem _ => "AddChecklistItem"
  | .updateChecklistItem _ => "UpdateChecklistItem"
  | .removeChecklistItem _ => "RemoveChecklistItem"
  | .addComment _ => "AddComment"
  | .editComment _ => "EditComment"
  | .deleteComment _ => "DeleteComment"

/-- A request of CardService after `auth_middleware`. -/
structure CardRequest where
  auth : AuthContext
  tenantId : String
  objectId : Option String
  now : ℤ
  call : CardCall
  deriving DecidableEq, Repr

/-- What the dispatcher sees of the request. -/
def CardRequest.dispatch (q : CardRequest) : DispatchRequest :=
  ⟨q.auth, q.tenantId, methodPath "CardService" q.call.name, q.objectId⟩

/-- What the handler sees of the request, with the id that was checked. -/
def CardRequest.context (q : CardRequest) (checked : Option String) : RequestContext :=
  ⟨some q.auth, checked, q.now⟩

/-- The dispatcher, then the handler. -/
def serveCard (isAuthenticated : AuthContext → Bool) (codec : IdCodec ι) (pages : ℕ)
    (q : CardRequest) :
    Prog (Db ι) (Rec ι) (Call ι) (Reply ι) (StatusError ⊕ ConnectError) CardReply :=
  ((dispatchCheck isAuthenticated q.dispatch).mapError .inl).bind fun checked =>
    (cardHandler codec pages (q.context checked) q.call).mapError .inr

/-- The caller was granted `edit` on the board. -/
def CallerGranted (codec : IdCodec ι) (q : CardRequest) (tr : Trace (Rec ι) (Call ι) (Reply ι))
    (board : ι) : Prop :=
  ∃ tenant, (tenant = q.tenantId ∨ q.auth.tenantId = some tenant) ∧
    EditGranted codec tenant (q.auth.subject.getD "") tr board

/-- The changes that a served call may make. -/
def CardRequest.Entitled (codec : IdCodec ι) (q : CardRequest)
    (tr : Trace (Rec ι) (Call ι) (Reply ι)) : Change ι → Prop
  | .stay => True
  | .create _ board _ => (∃ req, q.call = .createCard req) ∧ ∃ objectId, q.objectId = some objectId ∧
      codec.parse objectId = some board ∧ (q.tenantId, ⟨permissionTypeBoard, objectId, "edit",
        q.auth.subject.getD ""⟩) ∈ grantedChecks tr
  | .move card _ _ column => ∃ req, q.call = .moveCard req ∧
      q.objectId.bind codec.parse = some card ∧ codec.parse req.toColumnId = some column
  | .transfer _ _ board _ => CallerGranted codec q tr board
  | .delete _ _ => True

section Dispatch

variable {Good : Commitment (Rec ι) (Call ι) (Reply ι)} {isAuthenticated : AuthContext → Bool}
  {req : DispatchRequest} {tx : Tx (Rec ι)} {tr : Trace (Rec ι) (Call ι) (Reply ι)}

/-- What the dispatcher hands on was checked: its id is the one of the header. -/
theorem runs_dispatchCheck
    {B : Option String → Tx (Rec ι) → Trace (Rec ι) (Call ι) (Reply ι) → Prop}
    (h : ∀ checked tr', (∀ objectId, checked = some objectId → req.objectId = some objectId ∧
      ∃ entry, matrix.find? (fun e => e.method = req.method) = some entry ∧
        .called (.checkPermission req.tenantId ⟨entry.namespaceName, objectId, entry.relation,
          req.auth.subject.getD ""⟩) (.ok true) ∈ tr') → B checked tx tr') :
    Runs (kanban ι) Good (dispatchCheck isAuthenticated req) tx tr B := by
  unfold dispatchCheck
  split
  · split
    · exact runs_fail
    · rename_i entry hentry
      split
      · exact runs_pure (h none tr fun _ => nofun)
      · unfold checkHeader
        split
        · exact runs_fail
        · rename_i objectId hobject
          have hobject := (Option.filter_eq_some_iff.mp hobject).1
          refine runs_call fun ok => ?_
          split
          · refine runs_call fun r => ?_
            split
            · exact runs_fail
            · rename_i allowed
              split
              · rename_i hallowed
                refine runs_pure (h (some objectId) _ ?_)
                rintro _ ⟨⟩
                exact ⟨hobject, entry, hentry, by rw [hallowed]; exact List.mem_cons_self⟩
              · exact runs_fail
          · exact runs_fail
  · exact runs_fail

end Dispatch

/-- CreateCard is checked for `edit` on the board. -/
theorem matrix_createCard :
    matrix.find? (fun e => e.method = methodPath "CardService" "CreateCard") =
      some (.checked "CardService" "CreateCard" permissionTypeBoard "edit") := by rfl

section Entry

variable {isAuthenticated : AuthContext → Bool} {codec : IdCodec ι} {pages : ℕ}

/-- **What a served call commits.**  A card is put on a board only with `edit` on it, or by a
MoveCard. -/
theorem runs_serveCard (q : CardRequest) :
    Runs (kanban ι) (fun tr ws => ∃ change, Makes codec tr ws change ∧ q.Entitled codec tr change)
      (serveCard isAuthenticated codec pages q) .idle [] fun _ _ _ => True := by
  refine runs_bind (runs_mapError (runs_dispatchCheck fun checked tr hchecked => runs_mapError ?_))
  refine ((@runs_cardHandler _ _ _ _ _ tr q.call).since.imp ?_).mono fun _ _ _ _ => trivial
  rintro past ws ⟨hpast, change, hmakes, hadmits⟩
  refine ⟨change, hmakes, ?_⟩
  cases change with
  | stay => trivial
  | create card board column =>
      obtain ⟨⟨req, hreq⟩, hboard⟩ := hadmits
      obtain ⟨objectId, hobject, hparse⟩ := Option.bind_eq_some_iff.mp hboard
      obtain ⟨hheader, entry, hentry, hgranted⟩ := hchecked objectId hobject
      have hmethod : q.dispatch.method = methodPath "CardService" "CreateCard" := by
        rw [CardRequest.dispatch, hreq]
        rfl
      rw [hmethod, matrix_createCard] at hentry
      cases hentry
      exact ⟨⟨req, hreq⟩, objectId, hheader, hparse, mem_grantedChecks (hpast.subset hgranted)⟩
  | move card source board column =>
      obtain ⟨req, hreq, hcard, hcolumn⟩ := hadmits
      obtain ⟨objectId, hobject, hparse⟩ := Option.bind_eq_some_iff.mp hcard
      exact ⟨req, hreq, Option.bind_eq_some_iff.mpr ⟨objectId, (hchecked objectId hobject).1, hparse⟩,
        hcolumn⟩
  | transfer card source board column =>
      obtain ⟨-, tenant, subject, htenant, hsubject, hgranted⟩ := hadmits
      have hsubject : q.auth.subject = some subject := hsubject
      refine ⟨tenant, .inr htenant, ?_⟩
      rw [hsubject]
      exact hgranted
  | delete card source => trivial

variable {P₀ P P' : Pool CardRequest (Db ι) (Rec ι) (Call ι) (Reply ι) (Backend ι)
    (StatusError ⊕ ConnectError) CardReply} {turns : List (Turn CardRequest (Move ι))}
  {a : Turn CardRequest (Move ι)}
  {C : Pool CardRequest (Db ι) (Rec ι) (Call ι) (Reply ι) (Backend ι)
    (StatusError ⊕ ConnectError) CardReply → Turn CardRequest (Move ι) → Prop}

/-- The board a card is on. -/
def boardOf (db : Db ι) (card : ι) : Option ι := (placeOf db card).map Prod.fst

/-- A CreateCard spells its board as the board is written. -/
def CardRequest.Canonical (codec : IdCodec ι) (q : CardRequest) : Prop :=
  match q.call with
  | .createCard _ => ∀ board ∈ q.objectId.bind codec.parse, q.objectId = some (codec.toString board)
  | _ => True

instance {codec : IdCodec ι} {q : CardRequest} : Decidable (q.Canonical codec) := by
  unfold CardRequest.Canonical
  split <;> infer_instance

/-- What a served call commits is up to date, it leaves no board by a MoveCard, and it spells its
board as it is written. -/
def Authorized (codec : IdCodec ι) (P : Pool CardRequest (Db ι) (Rec ι) (Call ι) (Reply ι) (Backend ι)
    (StatusError ⊕ ConnectError) CardReply) (a : Turn CardRequest (Move ι)) : Prop :=
  ∀ c ∈ P.commitOf (kanban ι) a, Undisturbed c.2.1 c.2.2 P.world.store ∧
    KeepsBoard codec P.world.store c.1.objectId c.1.call ∧ c.1.Canonical codec

/-- A change that puts a card on another board puts its own card there. -/
theorem target_of_boardOf_ne {db : Db ι} {change : Change ι} {card board : ι}
    (hnew : ((change.apply (placeOf db)) card).map Prod.fst = some board)
    (hold : boardOf db card ≠ some board) :
    ∃ column, change.target = some (card, some (board, column)) := by
  unfold Change.apply at hnew
  cases htarget : change.target with
  | none =>
      rw [htarget] at hnew
      exact absurd hnew hold
  | some target =>
      obtain ⟨c, place⟩ := target
      rw [htarget] at hnew
      dsimp only at hnew
      by_cases hc : card = c
      · rw [hc, Function.update_self] at hnew
        obtain ⟨⟨b, column⟩, rfl, rfl⟩ := Option.map_eq_some_iff.mp hnew
        exact ⟨column, by rw [hc]⟩
      · rw [Function.update_of_ne hc] at hnew
        exact absurd hnew hold

/-- **No card enters a board without `edit` on it.**  In every run, a turn that commits what is up
to date, leaves no board by a MoveCard, and spells the board of a CreateCard as it is written, puts a
card on a board only if the caller was granted `edit` on that board during the call. -/
theorem boardEntry_granted (h₀ : P₀.calls = [])
    (hrun : Machine.ExecWhile (Pool.step (kanban ι) (serveCard isAuthenticated codec pages)) C P₀
      turns P)
    (hs : P.step (kanban ι) (serveCard isAuthenticated codec pages) a = some P')
    (ha : Authorized codec P a) {card board : ι}
    (hnew : boardOf P'.world.store card = some board)
    (hold : boardOf P.world.store card ≠ some board) :
    ∃ q past ws, P.commitOf (kanban ι) a = some (q, past, ws) ∧ CallerGranted codec q past board := by
  rcases Pool.committed (B := fun _ _ _ _ => True) runs_serveCard hrun h₀ hs with hsame | ⟨q, past,
    ws, hcommit, ⟨change, hmakes, hentitled⟩, happly⟩
  · rw [hsame] at hnew
    exact absurd hnew hold
  · obtain ⟨hu, hkeeps, hcanonical⟩ := ha _ hcommit
    refine ⟨q, past, ws, hcommit, ?_⟩
    rw [boardOf, happly, (hmakes.refines hu).1] at hnew
    obtain ⟨column, htarget⟩ := target_of_boardOf_ne hnew hold
    cases change with
    | stay => cases htarget
    | create c b k =>
        cases htarget
        obtain ⟨⟨req, hreq⟩, objectId, hobject, hparse, hgranted⟩ := hentitled
        unfold CardRequest.Canonical at hcanonical
        rw [hreq] at hcanonical
        have hheader := hcanonical board (Option.bind_eq_some_iff.mpr ⟨objectId, hobject, hparse⟩)
        obtain rfl := Option.some.inj (hobject.symm.trans hheader)
        exact ⟨q.tenantId, .inl rfl, hgranted⟩
    | move c source b k =>
        cases htarget
        obtain ⟨req, hreq, hcard, hcolumn⟩ := hentitled
        dsimp only at hkeeps
        rw [hreq] at hkeeps
        obtain rfl := hkeeps.not_leavesBoard hmakes hu hcard hcolumn
        obtain ⟨old, hplace⟩ := hmakes.fits hu
        exact absurd (by rw [boardOf, hplace]; rfl) hold
    | transfer c source b k =>
        cases htarget
        exact hentitled
    | delete c source => cases htarget

end Entry

/-- The handlers of the examples; every caller with a subject is authenticated. -/
def serveText (q : CardRequest) :
    Prog (Db String) (Rec String) (Call String) (Reply String) (StatusError ⊕ ConnectError) CardReply :=
  serveCard (fun auth => auth.subject.isSome) textIds 1 q

/-- A new card for the second board. -/
def createOnB : CardRequest :=
  ⟨⟨some "t", some "user:cal"⟩, "t", some "b", 0, .createCard ⟨"b1", "Sail", "", 0, none, "", 0, "", 0⟩⟩

/-- The check of the board, two reads, and the transaction up to its commit. -/
def checkedAndCreated : List (Turn CardRequest (Move String)) :=
  .arrive createOnB :: [.move .done, .move (.answer true), .ok, .ok, .ok, .ok, .ok,
    .move (.fresh "d"), .ok, .ok, .ok, .move (.fresh "e"), .ok, .ok].map (.act 0)

theorem boardEntry_granted_createOnB :
    ∃ P P', Machine.Exec (Pool.step (kanban String) serveText) (Pool.idle twoBoards)
        checkedAndCreated P ∧
      P.step (kanban String) serveText (.act 0 .ok) = some P' ∧
      boardOf P'.world.store "d" = some "b" ∧
      ∃ q past ws, P.commitOf (kanban String) (.act 0 .ok) = some (q, past, ws) ∧
        CallerGranted textIds q past "b" := by
  obtain ⟨P, hP, P', hs, c, hc, hkept, hold, hnew⟩ : ∃ P, Machine.run
      (Pool.step (kanban String) serveText) (Pool.idle twoBoards) checkedAndCreated = some P ∧
      ∃ P', P.step (kanban String) serveText (.act 0 .ok) = some P' ∧
      ∃ c, P.commitOf (kanban String) (.act 0 .ok) = some c ∧
      decide (Undisturbed c.2.1 c.2.2 P.world.store ∧
        KeepsBoard textIds P.world.store c.1.objectId c.1.call ∧ c.1.Canonical textIds) = true ∧
      boardOf P.world.store "d" = none ∧ boardOf P'.world.store "d" = some "b" :=
    ⟨_, rfl, _, rfl, _, rfl, rfl, rfl, rfl⟩
  have hrun := Machine.exec_of_run hP
  have ha : Authorized textIds P (.act 0 .ok) := by
    intro c' hc'
    obtain rfl := Option.some.inj (hc.symm.trans hc')
    exact of_decide_eq_true hkept
  exact ⟨P, P', hrun, hs, hnew, boardEntry_granted rfl hrun hs ha hnew (by rw [hold]; decide)⟩

/-- A member who may edit the card moves it to the second board. -/
def moveCToB : CardRequest :=
  ⟨⟨some "t", some "user:cal"⟩, "t", some "c", 0, .moveCard ⟨"b1", 1, ""⟩⟩

/-- The check of the card, four reads, and the transaction up to its commit. -/
def checkedAndMoved : List (Turn CardRequest (Move String)) :=
  .arrive moveCToB :: [.move .done, .move (.answer true), .ok, .ok, .ok, .ok, .ok, .ok, .ok, .ok,
    .ok, .move (.fresh "e"), .ok, .ok].map (.act 0)

/-- MoveCard puts a card on a board for which nothing was checked. -/
theorem boardEntry_not_granted :
    ∃ P P', Machine.Exec (Pool.step (kanban String) serveText) (Pool.idle twoBoards)
        checkedAndMoved P ∧
      P.step (kanban String) serveText (.act 0 .ok) = some P' ∧
      boardOf P'.world.store "c" = some "b" ∧ boardOf P.world.store "c" ≠ some "b" ∧
      ¬ ∃ q past ws, P.commitOf (kanban String) (.act 0 .ok) = some (q, past, ws) ∧
        CallerGranted textIds q past "b" := by
  obtain ⟨P, hP, P', hs, c, hc, hchecks, hold, hnew⟩ : ∃ P, Machine.run
      (Pool.step (kanban String) serveText) (Pool.idle twoBoards) checkedAndMoved = some P ∧
      ∃ P', P.step (kanban String) serveText (.act 0 .ok) = some P' ∧
      ∃ c, P.commitOf (kanban String) (.act 0 .ok) = some c ∧
      grantedChecks c.2.1 = [("t", ⟨"KanbanCard", "c", "edit", "user:cal"⟩)] ∧
      boardOf P.world.store "c" = some "a" ∧ boardOf P'.world.store "c" = some "b" :=
    ⟨_, rfl, _, rfl, _, rfl, rfl, rfl, rfl⟩
  refine ⟨P, P', Machine.exec_of_run hP, hs, hnew, by rw [hold]; decide, ?_⟩
  rintro ⟨q, past, ws, hcommit, tenant, -, hgranted⟩
  obtain rfl := Option.some.inj (hc.symm.trans hcommit)
  dsimp only at hchecks
  unfold EditGranted at hgranted
  rw [hchecks] at hgranted
  simp [permissionTypeBoard] at hgranted

end Kanban.Rpc
