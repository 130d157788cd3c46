import Kanban.Rpc.CardDetails

/-!
# CardService: reading cards

`BatchGetCards` and `ListCardsByBoard` read the cards of the checked board only.  The
database orders ids by `before`.

## Main definitions

* `getCard`, `batchGetCards`, `listCardsByBoard`, `listComments` — the handlers.
-/

namespace Kanban.Rpc

open Program Kanban.Store Kanban.Auth
open Kanban.Services (AuthContext ConnectError ErrorCode IdCodec)

variable {ι τ : Type} [DecidableEq ι]

def getCard (codec : IdCodec ι) (ctx : RequestContext) : Handler ι Card := do
  let objectId ← checkedObjectId ctx
  let cardId ← parseId codec "invalid card_id" objectId
  let tenantId ← tenantIdFromRequest ctx
  fetchFullCard codec tenantId cardId

/-- Load the relationships of each row. -/
def hydrateCards (codec : IdCodec ι) (tenantId : String) : List (CardRow ι) → Handler ι (List Card)
  | [] => .pure []
  | row :: rest => do
      let card ← hydrateCard codec tenantId row
      let cards ← hydrateCards codec tenantId rest
      .pure (card :: cards)

/-! ## BatchGetCards -/

structure BatchGetCardsRequest where
  cardIds : List String
  deriving DecidableEq, Repr

/-- `ORDER BY column_id, position`. -/
def columnOrder (before : ι → ι → Bool) (c c' : CardRow ι) : Prop :=
  before c.columnId c'.columnId ∨ c.columnId = c'.columnId ∧ c.position ≤ c'.position

instance (before : ι → ι → Bool) : DecidableRel (columnOrder before) := fun _ _ =>
  inferInstanceAs (Decidable (_ ∨ _))

/-- `SELECT … FROM cards WHERE board_id = $1 AND tenant_id = $2 AND id = ANY($3) ORDER BY …`. -/
def selectBatch (before : ι → ι → Bool) (tenantId : String) (boardId : ι) (ids : List ι) :
    Stmt (Db ι) (Rec ι) (List (CardRow ι)) := fun db =>
  let rows := db.cards.filter fun c => c.boardId = boardId ∧ c.tenantId = tenantId ∧ c.id ∈ ids
  some ⟨rows.insertionSort (columnOrder before), rows.map .card, []⟩

def batchGetCards (codec : IdCodec ι) (before : ι → ι → Bool) (ctx : RequestContext)
    (req : BatchGetCardsRequest) : Handler ι (List Card) := do
  let objectId ← checkedObjectId ctx
  let boardId ← parseId codec "invalid board_id" objectId
  let tenantId ← tenantIdFromRequest ctx
  if req.cardIds = [] then .pure []
  else do
    let rows ← query "failed to batch-get cards"
      (selectBatch before tenantId boardId (req.cardIds.filterMap codec.parse))
    hydrateCards codec tenantId rows

/-! ## Pages -/

/-- An optional id of a request; the empty text is none. -/
def parseOptional (codec : IdCodec ι) (msg s : String) : Handler ι (Option ι) :=
  if s = "" then .pure none else (parseId codec msg s).bind fun id => .pure (some id)

/-- The rows of a page, given one row more than fits, and the cursor of the next one. -/
def pageOf (codec : IdCodec ι) (id : τ → ι) (limit : ℕ) (rows : List τ) : List τ × String :=
  (rows.take limit,
    if limit < rows.length then ((rows.take limit).getLast?.map fun r => codec.toString (id r)).getD ""
    else "")

omit [DecidableEq ι] in
/-- A page holds only rows that were read. -/
theorem mem_of_mem_pageOf {codec : IdCodec ι} {id : τ → ι} {limit : ℕ} {rows : List τ} {r : τ}
    (h : r ∈ (pageOf codec id limit rows).1) : r ∈ rows := List.mem_of_mem_take h

/-! ## ListCardsByBoard -/

structure ListCardsByBoardRequest where
  columnId : String
  cursor : String
  limit : ℤ
  deriving DecidableEq, Repr

structure ListCardsByBoardResponse where
  cards : List Card
  nextCursor : String
  deriving DecidableEq, Repr

/-- `(column_id, position, id) < (column_id, position, id)`. -/
def keysetBefore (before : ι → ι → Bool) (c c' : CardRow ι) : Bool :=
  before c.columnId c'.columnId ||
    (c.columnId = c'.columnId ∧ (c.position < c'.position ∨
      c.position = c'.position ∧ before c.id c'.id))

/-- `ORDER BY column_id, position, id`. -/
def keysetOrder (before : ι → ι → Bool) (c c' : CardRow ι) : Prop :=
  keysetBefore before c' c = false

instance (before : ι → ι → Bool) : DecidableRel (keysetOrder before) := fun _ _ =>
  inferInstanceAs (Decidable (_ = _))

/-- `SELECT … FROM cards WHERE board_id = $1 AND tenant_id = $2 …`: the cards after the cursor,
wherever the card of the cursor is; no card when it is gone. -/
def selectCardPage (before : ι → ι → Bool) (tenantId : String) (boardId : ι)
    (column after : Option ι) (limit : ℕ) : Stmt (Db ι) (Rec ι) (List (CardRow ι)) := fun db =>
  let isAfter (c : CardRow ι) : Bool :=
    match after with
    | none => true
    | some id => (db.cards.find? fun c' => c'.id = id ∧ c'.tenantId = tenantId).any
        (keysetBefore before · c)
  let rows := db.cards.filter fun c => c.boardId = boardId ∧ c.tenantId = tenantId ∧
    (∀ col ∈ column, c.columnId = col) ∧ isAfter c
  some ⟨(rows.insertionSort (keysetOrder before)).take limit, rows.map .card, []⟩

def listCardsByBoard (codec : IdCodec ι) (before : ι → ι → Bool) (ctx : RequestContext)
    (req : ListCardsByBoardRequest) : Handler ι ListCardsByBoardResponse := do
  let objectId ← checkedObjectId ctx
  let boardId ← parseId codec "invalid board_id" objectId
  let tenantId ← tenantIdFromRequest ctx
  let column ← parseOptional codec "invalid column_id" req.columnId
  let cursor ← parseOptional codec "invalid cursor" req.cursor
  let rows ← query "failed to list cards"
    (selectCardPage before tenantId boardId column cursor (pageLimit req.limit + 1))
  let page := pageOf codec CardRow.id (pageLimit req.limit) rows
  let cards ← hydrateCards codec tenantId page.1
  .pure ⟨cards, page.2⟩

/-! ## ListComments -/

structure ListCommentsRequest where
  cursor : String
  limit : ℤ
  deriving DecidableEq, Repr

structure ListCommentsResponse where
  comments : List Comment
  nextCursor : String
  deriving DecidableEq, Repr

/-- `ORDER BY created_at`. -/
def createdOrder (c c' : CommentRow ι) : Prop := c.createdAt ≤ c'.createdAt

instance : DecidableRel (createdOrder (ι := ι)) := fun _ _ => inferInstanceAs (Decidable (_ ≤ _))

/-- `SELECT … FROM comments WHERE card_id = $1 AND tenant_id = $2 … ORDER BY created_at`.  Comments of
one time come in the order in which the statement scans the table, which is its own. -/
def selectCommentPage (before : ι → ι → Bool) (scan : Db ι → List (CommentRow ι)) (tenantId : String)
    (cardId : ι) (after : Option ι) (limit : ℕ) : Stmt (Db ι) (Rec ι) (List (CommentRow ι)) := fun db =>
  let rows := (scan db).filter fun c => c.cardId = cardId ∧ c.tenantId = tenantId ∧
    ∀ id ∈ after, before id c.id
  some ⟨(rows.insertionSort createdOrder).take limit, rows.map .comment, []⟩

def listComments (codec : IdCodec ι) (before : ι → ι → Bool) (scan : Db ι → List (CommentRow ι))
    (ctx : RequestContext) (req : ListCommentsRequest) : Handler ι ListCommentsResponse := do
  let objectId ← checkedObjectId ctx
  let cardId ← parseId codec "invalid card_id" objectId
  let tenantId ← tenantIdFromRequest ctx
  let cursor ← parseOptional codec "invalid cursor" req.cursor
  let rows ← query "failed to verify card" (selectCard tenantId cardId)
  ensure (rows ≠ []) (notFound "card not found")
  let rows ← query "failed to list comments"
    (selectCommentPage before scan tenantId cardId cursor (pageLimit req.limit + 1))
  let page := pageOf codec CommentRow.id (pageLimit req.limit) rows
  .pure ⟨page.1.map (commentFromRow codec), page.2⟩

end Kanban.Rpc
