import Kanban.Rpc.CardMutations

/-!
# CardService: what is on a card

Dependencies, labels, assignees, the checklist and the comments.  Apart from the
dependencies and the labels the handlers share one transaction, `touchCard`: change a row
of the card, bump its revision, and write `CardUpdated` for its board.

## Main definitions

* `addCardDependency`, `removeCardDependency`, `bulkUpdateCardLabels`.
* `assignCard`, `unassignCard`.
* `addChecklistItem`, `updateChecklistItem`, `removeChecklistItem`.
* `addComment`, `editComment`, `deleteComment`.
-/

namespace Kanban.Rpc

open Program Kanban.Store Kanban.Auth
open Kanban.Services (AuthContext ConnectError ErrorCode IdCodec)

variable {ι α : Type} [DecidableEq ι]

/-- `UPDATE cards SET revision = revision + 1 … RETURNING revision`. -/
def bumpRevision (msg tenantId : String) (cardId : ι) : Handler ι ℤ := do
  let row ← fetchOne msg
    (updateCardRow tenantId cardId fun c => { c with revision := c.revision + 1 })
  .pure row.revision

/-! ## Dependencies -/

/-- The request of `AddCardDependency` and of `RemoveCardDependency`. -/
structure CardDependencyRequest where
  cardId : String
  dependsOnCardId : String
  idempotencyKey : String
  deriving DecidableEq, Repr

/-- The payload for the board of the card that depends. -/
def sourceUpdated (codec : IdCodec ι) (boardId cardId dependsOnId : ι)
    (prevRevision newRevision : ℤ) (key : String) : Payload :=
  [("card_id", .str (codec.toString cardId)), ("board_id", .str (codec.toString boardId)),
    ("depends_on_card_id", .str (codec.toString dependsOnId)),
    ("prev_revision", .num prevRevision), ("new_revision", .num newRevision),
    ("idempotency_key", .str key)]

/-- The payload for the board of the card it depends on. -/
def targetUpdated (codec : IdCodec ι) (target : CardRow ι) (cardId : ι) (newRevision : ℤ)
    (key : String) : Payload :=
  [("card_id", .str (codec.toString target.id)),
    ("board_id", .str (codec.toString target.boardId)),
    ("dependent_card_id", .str (codec.toString cardId)),
    ("prev_revision", .num target.revision), ("new_revision", .num newRevision),
    ("idempotency_key", .str key)]

/-- The card on the other end gains or loses a dependent: bump its revision and write an event
for its own board, so that that board's stream sees the change too. -/
def touchTarget (codec : IdCodec ι) (tenantId : String) (target : CardRow ι) (cardId : ι)
    (key : String) : Handler ι Unit := do
  let newRevision ← bumpRevision "failed to bump dependency card revision" tenantId target.id
  insertBoardEvent tenantId target.boardId "CardUpdated"
    (targetUpdated codec target cardId newRevision key)

/-- The transaction of `AddCardDependency`. Only the card itself must be on the board. -/
def linkCards (codec : IdCodec ι) (tenantId : String) (boardId cardId dependsOnId : ι)
    (key : String) : Handler ι Unit := do
  beginTx "begin tx failed"
  let rows ← query "failed to verify cards" (Db.cardsT.select fun c =>
    (c.id = cardId ∨ c.id = dependsOnId) ∧ c.tenantId = tenantId)
  let source := (rows.filter (·.id = cardId)).getLast?
  let target := (rows.filter (·.id ≠ cardId)).getLast?
  ensure (source.any (·.boardId = boardId))
    (invalidArgument "card does not belong to the authorized board")
  let target ← orError (invalidArgument "dependency card not found in tenant") target
  query "failed to add card dependency" (Db.dependenciesT.insertIgnore ⟨cardId, dependsOnId⟩)
  let newRevision ← bumpRevision "failed to bump card revision" tenantId cardId
  insertBoardEvent tenantId boardId "CardUpdated" (sourceUpdated codec boardId cardId dependsOnId
    ((source.map CardRow.revision).getD 0) newRevision key)
  touchTarget codec tenantId target cardId key
  commitTx "commit failed"

/-- The transaction of `RemoveCardDependency`. -/
def unlinkCards (codec : IdCodec ι) (tenantId : String) (boardId cardId dependsOnId : ι)
    (key : String) : Handler ι Unit := do
  beginTx "begin tx failed"
  let source ← fetchOr "failed to verify card"
    (invalidArgument "card does not belong to the authorized board")
    (Db.cardsT.select fun c => c.id = cardId ∧ c.boardId = boardId ∧ c.tenantId = tenantId)
  let target ← fetchOr "failed to verify dependency card"
    (invalidArgument "dependency card not found in tenant") (selectCard tenantId dependsOnId)
  let removed ← query "failed to remove card dependency" (Db.dependenciesT.delete fun d =>
    d.cardId = cardId ∧ d.dependsOnCardId = dependsOnId)
  let newRevision ← if removed ≠ [] then bumpRevision "failed to bump card revision" tenantId cardId
    else .pure source.revision
  -- written even if there was no edge
  insertBoardEvent tenantId boardId "CardUpdated"
    (sourceUpdated codec boardId cardId dependsOnId source.revision newRevision key)
  if removed ≠ [] then
    touchTarget codec tenantId target cardId key
  commitTx "commit failed"

/-- The board, the tenant and the two cards of a request about a dependency. -/
def dependencyRequest (codec : IdCodec ι) (ctx : RequestContext) (req : CardDependencyRequest) :
    Handler ι (ι × String × ι × ι) := do
  let objectId ← checkedObjectId ctx
  let boardId ← parseId codec "invalid board_id" objectId
  let tenantId ← tenantIdFromRequest ctx
  ensure (req.idempotencyKey ≠ "") (invalidArgument "idempotency_key is required")
  let cardId ← parseId codec "invalid card_id" req.cardId
  let dependsOnId ← parseId codec "invalid depends_on_card_id" req.dependsOnCardId
  .pure (boardId, tenantId, cardId, dependsOnId)

/-- The stored card of a replayed key, or the change, the key and the card. -/
def replayOr (codec : IdCodec ι) (tenantId key : String) (cardId : ι) (change : Handler ι Unit) :
    Handler ι Card := do
  match ← checkIdempotencyCard tenantId key with
  | some existingId => fetchFullCard codec tenantId existingId
  | none => do
      change
      storeIdempotencyCard tenantId key cardId
      fetchFullCard codec tenantId cardId

def addCardDependency (codec : IdCodec ι) (ctx : RequestContext) (req : CardDependencyRequest) :
    Handler ι Card := do
  let (boardId, tenantId, cardId, dependsOnId) ← dependencyRequest codec ctx req
  ensure (cardId ≠ dependsOnId) (invalidArgument "a card cannot depend on itself")
  replayOr codec tenantId req.idempotencyKey cardId
    (linkCards codec tenantId boardId cardId dependsOnId req.idempotencyKey)

/-- Unlike `addCardDependency`, it does not refuse one card named twice. -/
def removeCardDependency (codec : IdCodec ι) (ctx : RequestContext) (req : CardDependencyRequest) :
    Handler ι Card := do
  let (boardId, tenantId, cardId, dependsOnId) ← dependencyRequest codec ctx req
  replayOr codec tenantId req.idempotencyKey cardId
    (unlinkCards codec tenantId boardId cardId dependsOnId req.idempotencyKey)

/-! ## Labels -/

structure BulkUpdateCardLabelsRequest where
  cardIds : List String
  labelIds : List String
  idempotencyKey : String
  deriving DecidableEq, Repr

/-- `INSERT INTO card_labels … ON CONFLICT DO NOTHING`; the label must exist. -/
def insertCardLabel (cardId labelId : ι) : Stmt (Db ι) (Rec ι) Unit := fun db =>
  if db.labels.any (·.id = labelId) then Db.cardLabelsT.insertIgnore ⟨cardId, labelId⟩ db else none

def insertCardLabels (cardId : ι) : List ι → Handler ι Unit
  | [] => .pure ()
  | labelId :: rest => (query "failed to insert card label" (insertCardLabel cardId labelId)).bind
      fun _ => insertCardLabels cardId rest

/-- Replace the labels of one card. -/
def relabelCard (codec : IdCodec ι) (tenantId : String) (boardId : ι) (labelIds : List ι)
    (key : String) (cardId : ι) : Handler ι Unit := do
  let rows ← query "failed to verify card ownership" (Db.cardsT.select fun c =>
    c.id = cardId ∧ c.boardId = boardId ∧ c.tenantId = tenantId)
  ensure (rows ≠ []) (invalidArgument ("card " ++ codec.toString cardId ++
    " does not belong to board " ++ codec.toString boardId))
  let _ ← query "failed to clear card labels" (Db.cardLabelsT.delete fun cl => cl.cardId = cardId)
  insertCardLabels cardId labelIds
  let newRevision ← bumpRevision "failed to bump card revision" tenantId cardId
  insertBoardEvent tenantId boardId "CardUpdated"
    [("card_id", .str (codec.toString cardId)), ("board_id", .str (codec.toString boardId)),
      ("new_revision", .num newRevision), ("label_ids", .strs (labelIds.map codec.toString)),
      ("idempotency_key", .str key)]

def relabelCards (codec : IdCodec ι) (tenantId : String) (boardId : ι) (labelIds : List ι)
    (key : String) : List ι → Handler ι Unit
  | [] => .pure ()
  | cardId :: rest => (relabelCard codec tenantId boardId labelIds key cardId).bind
      fun _ => relabelCards codec tenantId boardId labelIds key rest

/-- Fetch the cards; the first that fails fails the request. -/
def fetchCards (codec : IdCodec ι) (tenantId : String) : List ι → Handler ι (List Card)
  | [] => .pure []
  | cardId :: rest => do
      let card ← fetchFullCard codec tenantId cardId
      let cards ← fetchCards codec tenantId rest
      .pure (card :: cards)

/-- `fetch_full_card(…).ok()`. -/
def fetchFullCardOk (codec : IdCodec ι) (tenantId : String) (cardId : ι) :
    Handler ι (Option Card) := do
  match (← attempt (selectCard tenantId cardId)).bind List.head? with
  | some row => (hydrateCard codec tenantId row).bind fun card => .pure (some card)
  | none => .pure none

/-- Fetch the cards; a card that fails is skipped. -/
def refetchCards (codec : IdCodec ι) (tenantId : String) : List ι → Handler ι (List Card)
  | [] => .pure []
  | cardId :: rest => do
      let card ← fetchFullCardOk codec tenantId cardId
      let cards ← refetchCards codec tenantId rest
      .pure (card.toList ++ cards)

def bulkUpdateCardLabels (codec : IdCodec ι) (ctx : RequestContext)
    (req : BulkUpdateCardLabelsRequest) : Handler ι (List Card) := do
  let objectId ← checkedObjectId ctx
  let boardId ← parseId codec "invalid board_id" objectId
  let tenantId ← tenantIdFromRequest ctx
  if req.cardIds = [] then .pure []
  else do
    let cardIds := req.cardIds.filterMap codec.parse
    let labelIds := req.labelIds.filterMap codec.parse
    match ← checkIdempotencyCard (ι := ι) tenantId req.idempotencyKey with
    -- the cards of the request, not those of the key
    | some _ => refetchCards codec tenantId cardIds
    | none => do
        beginTx "begin tx failed"
        relabelCards codec tenantId boardId labelIds req.idempotencyKey cardIds
        commitTx "commit failed"
        match cardIds.head? with
        | some first => storeIdempotencyCard tenantId req.idempotencyKey first
        | none => .pure ()
        fetchCards codec tenantId cardIds

/-! ## The shared transaction -/

/-- Change what is on a card: run `body` in a transaction, bump the card's revision and write
`CardUpdated` with the patch that `body` returns and the fields `more`. -/
def touchCard (codec : IdCodec ι) (tenantId : String) (cardId : ι) (more : Payload)
    (body : Handler ι (α × (String × Atom))) : Handler ι α := do
  let cur ← fetchOr "failed to fetch card" (notFound "card not found") (selectCard tenantId cardId)
  beginTx "begin tx failed"
  let (a, patch) ← body
  let newRevision ← bumpRevision "failed to bump revision" tenantId cardId
  insertBoardEvent tenantId cur.boardId "CardUpdated"
    ([("card_id", .str (codec.toString cardId)), ("prev_revision", .num cur.revision),
      ("new_revision", .num newRevision), ("patch", .obj [patch])] ++ more)
  commitTx "commit failed"
  .pure a

/-! ## Assignees -/

/-- The request of `AssignCard` and of `UnassignCard`. -/
structure AssignCardRequest where
  subject : String
  deriving DecidableEq, Repr

/-- `resolve_subject`: the canonical subject of a user reference. -/
def resolveSubject (tenantId input : String) : Handler ι String :=
  .call (.resolveSubject tenantId input) fun
    | .ok subject => .pure subject
    | .error e => .fail e

def assignCard (codec : IdCodec ι) (ctx : RequestContext) (req : AssignCardRequest) :
    Handler ι Card := do
  let objectId ← checkedObjectId ctx
  let cardId ← parseId codec "invalid card_id" objectId
  let tenantId ← tenantIdFromRequest ctx
  ensure (req.subject ≠ "") (invalidArgument "subject is required")
  let subject ← resolveSubject tenantId req.subject
  touchCard codec tenantId cardId [] do
    query "failed to assign card" (Db.assigneesT.insertIgnore ⟨tenantId, cardId, subject⟩)
    .pure ((), "assignees", .strs [subject])
  fetchFullCard codec tenantId cardId

def unassignCard (codec : IdCodec ι) (ctx : RequestContext) (req : AssignCardRequest) :
    Handler ι Card := do
  let objectId ← checkedObjectId ctx
  let cardId ← parseId codec "invalid card_id" objectId
  let tenantId ← tenantIdFromRequest ctx
  let subject ← resolveSubject tenantId req.subject
  touchCard codec tenantId cardId [] do
    let _ ← query "failed to unassign card" (Db.assigneesT.delete fun a =>
      a.cardId = cardId ∧ a.subject = subject ∧ a.tenantId = tenantId)
    .pure ((), "unassigned", .str subject)
  fetchFullCard codec tenantId cardId

/-! ## The checklist -/

structure AddChecklistItemRequest where
  text : String
  position : ℤ
  idempotencyKey : String
  deriving DecidableEq, Repr

/-- `INSERT INTO checklist_items … SELECT …, COALESCE(MAX(position), -1) + 1 FROM …`. -/
def appendChecklistItem (itemId : ι) (tenantId : String) (cardId : ι) (text : String) :
    Stmt (Db ι) (Rec ι) Unit := fun db =>
  let rows := db.checklistItems.filter fun i => i.cardId = cardId ∧ i.tenantId = tenantId
  (int4 (((rows.map ChecklistItemRow.position).max?).getD (-1) + 1)).bind fun n =>
    Db.checklistItemsT.insert ⟨itemId, tenantId, cardId, text, false, n⟩ db

/-- The key of the request is not used. -/
def addChecklistItem (codec : IdCodec ι) (ctx : RequestContext) (req : AddChecklistItemRequest) :
    Handler ι Card := do
  let objectId ← checkedObjectId ctx
  let cardId ← parseId codec "invalid card_id" objectId
  let tenantId ← tenantIdFromRequest ctx
  ensure (req.text ≠ "") (invalidArgument "text is required")
  touchCard codec tenantId cardId [] do
    let itemId ← newId
    if req.position = 0 then
      query "failed to insert checklist item"
        (appendChecklistItem itemId tenantId cardId req.text)
    else do
      let _ ← query "failed to shift checklist items" (Db.checklistItemsT.updateChecked
        (fun i => i.cardId = cardId ∧ i.tenantId = tenantId ∧ req.position ≤ i.position)
        fun i => (int4 (i.position + 1)).map fun n => { i with position := n })
      query "failed to insert checklist item at position"
        (Db.checklistItemsT.insert ⟨itemId, tenantId, cardId, req.text, false, req.position⟩)
    .pure ((), "checklist_item_added", .str (codec.toString itemId))
  fetchFullCard codec tenantId cardId

structure UpdateChecklistItemRequest where
  itemId : String
  text : String
  done : Bool
  deriving DecidableEq, Repr

def updateChecklistItem (codec : IdCodec ι) (ctx : RequestContext)
    (req : UpdateChecklistItemRequest) : Handler ι Card := do
  let objectId ← checkedObjectId ctx
  let cardId ← parseId codec "invalid card_id" objectId
  let tenantId ← tenantIdFromRequest ctx
  let itemId ← parseId codec "invalid item_id" req.itemId
  touchCard codec tenantId cardId [] do
    let rows ← query "failed to update checklist item" (Db.checklistItemsT.update
      (fun i => i.id = itemId ∧ i.cardId = cardId ∧ i.tenantId = tenantId)
      fun i => { i with text := sparse req.text i.text, done := req.done })
    ensure (rows ≠ []) (notFound "checklist item not found on this card")
    .pure ((), "checklist_item_updated", .str (codec.toString itemId))
  fetchFullCard codec tenantId cardId

structure RemoveChecklistItemRequest where
  itemId : String
  deriving DecidableEq, Repr

def removeChecklistItem (codec : IdCodec ι) (ctx : RequestContext)
    (req : RemoveChecklistItemRequest) : Handler ι Unit := do
  let objectId ← checkedObjectId ctx
  let cardId ← parseId codec "invalid card_id" objectId
  let tenantId ← tenantIdFromRequest ctx
  let itemId ← parseId codec "invalid item_id" req.itemId
  touchCard codec tenantId cardId [] do
    let rows ← query "failed to remove checklist item" (Db.checklistItemsT.delete
      fun i => i.id = itemId ∧ i.cardId = cardId ∧ i.tenantId = tenantId)
    ensure (rows ≠ []) (notFound "checklist item not found on this card")
    .pure ((), "checklist_item_removed", .str (codec.toString itemId))

/-! ## Comments -/

structure AddCommentRequest where
  body : String
  idempotencyKey : String
  deriving DecidableEq, Repr

/-- The comment recorded for the key, if the key was used for a comment that still exists. -/
def cachedComment (codec : IdCodec ι) (tenantId key : String) :
    Handler ι (Option (CommentRow ι)) :=
  if key = "" then .pure none
  else do
    let row ← fetchOptional "idempotency key lookup failed" (selectIdempotencyKey tenantId key)
    match (row.bind IdempotencyRow.responseComment).bind codec.parse with
    | none => .pure none
    | some commentId =>
        fetchOptional "failed to fetch cached comment"
          (Db.commentsT.select fun c => c.id = commentId ∧ c.tenantId = tenantId)

/-- Store the key with the id of the comment in its payload; a failure is logged. -/
def storeIdempotencyComment (tenantId key commentId : String) : Handler ι Unit :=
  if key = "" then .pure ()
  else (attempt (Db.idempotencyKeysT.insertIgnore ⟨tenantId, key, none, some commentId⟩)).bind
    fun _ => .pure ()

def addComment (codec : IdCodec ι) (ctx : RequestContext) (req : AddCommentRequest) :
    Handler ι Comment := do
  let objectId ← checkedObjectId ctx
  let cardId ← parseId codec "invalid card_id" objectId
  let subject ← subjectFromRequest ctx
  let tenantId ← tenantIdFromRequest ctx
  ensure (req.body ≠ "") (invalidArgument "body is required")
  match ← cachedComment codec tenantId req.idempotencyKey with
  | some row => .pure (commentFromRow codec row)
  | none => do
      let row ← touchCard codec tenantId cardId [("idempotency_key", .str req.idempotencyKey)] do
        let commentId ← newId
        let row : CommentRow ι := ⟨commentId, tenantId, cardId, subject, req.body, ctx.now⟩
        query "failed to insert comment" (Db.commentsT.insert row)
        .pure (row, "comments_count", .str "+1")
      storeIdempotencyComment tenantId req.idempotencyKey (codec.toString row.id)
      .pure (commentFromRow codec row)

structure EditCommentRequest where
  commentId : String
  body : String
  deriving DecidableEq, Repr

/-- Only the author may edit a comment. -/
def editComment (codec : IdCodec ι) (ctx : RequestContext) (req : EditCommentRequest) :
    Handler ι Comment := do
  let objectId ← checkedObjectId ctx
  let cardId ← parseId codec "invalid card_id" objectId
  let subject ← subjectFromRequest ctx
  let tenantId ← tenantIdFromRequest ctx
  let commentId ← parseId codec "invalid comment_id" req.commentId
  ensure (req.body ≠ "") (invalidArgument "body is required")
  let row ← touchCard codec tenantId cardId [] do
    let row ← fetchOr "failed to edit comment"
      (permissionDenied "comment not found or not authored by you")
      (Db.commentsT.update (fun c => c.id = commentId ∧ c.cardId = cardId ∧
        c.tenantId = tenantId ∧ c.authorSub = subject) fun c => { c with body := req.body })
    .pure (row, "comment_edited", .str (codec.toString commentId))
  .pure (commentFromRow codec row)

structure DeleteCommentRequest where
  commentId : String
  deriving DecidableEq, Repr

/-- `DELETE FROM comments`: first as the author, then as an editor of the card. -/
def deleteCommentRow (tenantId subject : String) (cardId commentId : ι) : Handler ι Unit := do
  let rows ← query "failed to delete comment (author path)" (Db.commentsT.delete fun c =>
    c.id = commentId ∧ c.cardId = cardId ∧ c.tenantId = tenantId ∧ c.authorSub = subject)
  if rows = [] then do
    let rows ← query "failed to delete comment (admin path)" (Db.commentsT.delete fun c =>
      c.id = commentId ∧ c.cardId = cardId ∧ c.tenantId = tenantId)
    ensure (rows ≠ []) (notFound "comment not found on this card")
  else .pure ()

def deleteComment (codec : IdCodec ι) (ctx : RequestContext) (req : DeleteCommentRequest) :
    Handler ι Unit := do
  let objectId ← checkedObjectId ctx
  let cardId ← parseId codec "invalid card_id" objectId
  let subject ← subjectFromRequest ctx
  let tenantId ← tenantIdFromRequest ctx
  let commentId ← parseId codec "invalid comment_id" req.commentId
  touchCard codec tenantId cardId [] do
    deleteCommentRow tenantId subject cardId commentId
    .pure ((), "comment_deleted", .str (codec.toString commentId))

end Kanban.Rpc
