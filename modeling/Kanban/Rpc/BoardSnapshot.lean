import Kanban.Rpc.CheckedIds
import Kanban.Rpc.Coherence
import Kanban.Rpc.Listings

/-!
# Reading the snapshot of a board

A fresh subscription of a board reads the columns of the board with one statement, the ids of the
cards of each column with one more, and every card with statements of its own.  The statements are in
no transaction, and between two of them anything may be committed.

A commit divides the snapshot if it takes a card of the board from a column that was listed to one
that was not, or back, or deletes a card that was listed and is not read yet.  In a run without such a
commit every column and every card that is on the board throughout is in the snapshot once.

## Main definitions

* `SnapshotRead`, `SnapshotRead.step` — `read_board_snapshot`, statement by statement, and what is
  committed in between.
* `SnapshotRead.replay` — what is replayed of the snapshot.
* `CardOn` — a card stands in a column of the board.
* `Undivided` — the steps that do not divide the snapshot.
-/

namespace Kanban.Rpc

open Program Machine Kanban.Store Kanban.Auth
open Kanban.Services (AuthContext ConnectError IdCodec)
open Kanban.Ids (crockfordIds)

variable {ι : Type} [DecidableEq ι]

/-! ## Statements

The statements on the board bind the text of the request; ids are stored as their own texts. -/

/-- `SELECT COALESCE(MAX(nats_seq), 0) FROM event_log WHERE board_id = $1 AND tenant_id = $2`; the
sequences of the rows are those that the dispatchers have recorded. -/
def selectLastReplay (codec : IdCodec ι) (natsSeq : EventRow ι → Option ℕ) (tenantId boardId : String) :
    Stmt (Db ι) (Rec ι) ℕ := fun db =>
  let rows := db.eventLog.filter fun e => e.boardId.map codec.toString = some boardId ∧
    e.tenantId = tenantId
  some ⟨(rows.map fun e => (natsSeq e).getD 0).foldl max 0, rows.map .event, []⟩

/-- The columns of the board, by position. -/
def snapshotColumns (codec : IdCodec ι) (db : Db ι) (tenantId boardId : String) : List (ColumnRow ι) :=
  (db.columns.filter fun k => codec.toString k.boardId = boardId ∧ k.tenantId = tenantId).insertionSort
    fun k k' => k.position ≤ k'.position

/-- `SELECT … FROM columns WHERE board_id = $1 AND tenant_id = $2 ORDER BY position ASC`. -/
def selectSnapshotColumns (codec : IdCodec ι) (tenantId boardId : String) :
    Stmt (Db ι) (Rec ι) (List (ColumnRow ι)) := fun db =>
  let rows := snapshotColumns codec db tenantId boardId
  some ⟨rows, rows.map .column, []⟩

/-- The cards of the column, by position. -/
def columnCards (db : Db ι) (tenantId : String) (columnId : ι) : List (CardRow ι) :=
  (db.cards.filter fun c => c.columnId = columnId ∧ c.tenantId = tenantId).insertionSort
    fun c c' => c.position ≤ c'.position

/-- `SELECT id FROM cards WHERE column_id = $1 AND tenant_id = $2 ORDER BY position ASC`. -/
def selectCardIds (tenantId : String) (columnId : ι) : Stmt (Db ι) (Rec ι) (List ι) := fun db =>
  let rows := columnCards db tenantId columnId
  some ⟨rows.map CardRow.id, rows.map .card, []⟩

/-! ## The reading -/

/-- The next statement of a reading. -/
inductive ReadPoint (ι : Type)
  | lastReplay
  | columns
  /-- The ids of the cards of the next column. -/
  | cardIds
  /-- The row of a card. -/
  | card (id : ι)
  /-- The relationships of a card. -/
  | relations (id : ι) (fetch : Thread (Db ι) (Rec ι) (Call ι) (Reply ι) ConnectError Card)
  | returned
  | failed (e : ConnectError)

/-- A reading on its way: what it has read, the columns whose cards are not listed yet, and the cards
of the last column that are not read yet. -/
structure SnapshotRead (ι : Type) where
  point : ReadPoint ι
  lastReplay : ℕ
  columns : List (ColumnRow ι)
  todo : List (ColumnRow ι)
  ids : List ι
  cards : List Card

/-- What is replayed of a snapshot, each item in an envelope with an id of its own. -/
inductive ReplayItem (ι : Type)
  | columnAdded (column : ColumnRow ι)
  | cardCreated (card : Card)

def ReplayItem.columnId : ReplayItem ι → Option ι
  | .columnAdded k => some k.id
  | .cardCreated _ => none

def ReplayItem.cardId : ReplayItem ι → Option String
  | .columnAdded _ => none
  | .cardCreated c => some c.id

/-- A statement of the reading, or a commit. -/
inductive SnapshotAction (ι : Type)
  | read (a : Act (Move ι))
  | commit (ws : List (Write (Rec ι)))

namespace SnapshotRead

/-- Before the first statement. -/
def start : SnapshotRead ι := ⟨.lastReplay, 0, [], [], [], []⟩

/-- A `ColumnAdded` for each column, then a `CardCreated` for each card. -/
def replay (r : SnapshotRead ι) : List (ReplayItem ι) :=
  r.columns.map .columnAdded ++ r.cards.map .cardCreated

/-- Go on with the next card, the next column or the return. -/
def next (r : SnapshotRead ι) : SnapshotRead ι :=
  match r.ids, r.todo with
  | id :: ids, _ => { r with point := .card id, ids := ids }
  | [], _ :: _ => { r with point := .cardIds }
  | [], [] => { r with point := .returned }

def fail (r : SnapshotRead ι) (e : ConnectError) : SnapshotRead ι := { r with point := .failed e }

/-- After a statement of `fetch_full_card`. -/
def absorb (r : SnapshotRead ι) (id : ι)
    (fetch : Thread (Db ι) (Rec ι) (Call ι) (Reply ι) ConnectError Card) : SnapshotRead ι :=
  match fetch.prog.result with
  | none => { r with point := .relations id fetch }
  | some (.ok card) => { r with cards := r.cards ++ [card] }.next
  | some (.error e) => r.fail e

variable (codec : IdCodec ι) (natsSeq : EventRow ι → Option ℕ) (t board : String)

/-- A statement of the reading of the board that the request names by the text `board`. -/
def readStep (r : SnapshotRead ι) (w : World (Db ι) (Backend ι)) (a : Act (Move ι)) :
    Option (SnapshotRead ι × World (Db ι) (Backend ι)) :=
  match r.point, a with
  | .lastReplay, .ok => (selectLastReplay codec natsSeq t board w.store).map fun e =>
      ({ r with lastReplay := e.answer, point := .columns }, w)
  | .lastReplay, .fail => some (r.fail (internal "failed to read last replayed nats_seq"), w)
  | .columns, .ok => (selectSnapshotColumns codec t board w.store).map fun e =>
      ({ r with columns := e.answer, todo := e.answer }.next, w)
  | .columns, .fail => some (r.fail (internal "failed to fetch columns for snapshot"), w)
  | .cardIds, a =>
      match r.todo with
      | [] => none
      | k :: todo =>
          -- the id is read back from the column of the response
          match codec.parse (codec.toString k.id), a with
          | none, _ => some (r.fail (internal "invalid column id in snapshot"), w)
          | some id, .ok => (selectCardIds t id w.store).map fun e =>
              ({ r with ids := e.answer, todo := todo }.next, w)
          | some _, .fail => some (r.fail (internal "failed to fetch cards for snapshot"), w)
          | some _, .move _ => none
  | .card id, a => (Thread.step (kanban ι) (Thread.start (fetchFullCard codec t id), w) a).map
      fun c => (r.absorb id c.1, c.2)
  | .relations id fetch, a => (Thread.step (kanban ι) (fetch, w) a).map
      fun c => (r.absorb id c.1, c.2)
  | _, _ => none

/-- One step: of the reading, or a commit of anyone. -/
def step (s : SnapshotRead ι × World (Db ι) (Backend ι)) :
    SnapshotAction ι → Option (SnapshotRead ι × World (Db ι) (Backend ι))
  | .read a => s.1.readStep codec natsSeq t board s.2 a
  | .commit ws => some (s.1, { s.2 with store := (kanban ι).applyAll s.2.store ws })

/-! ### Where a reading stands -/

section Standing

omit [DecidableEq ι]

/-- The card that is being read. -/
def current (r : SnapshotRead ι) : List ι :=
  match r.point with
  | .card id => [id]
  | .relations id _ => [id]
  | _ => []

/-- The cards that were listed and whose rows are not read yet. -/
def awaited (r : SnapshotRead ι) : List ι :=
  match r.point with
  | .card id => id :: r.ids
  | _ => r.ids

/-- The cards that were listed, in order. -/
def listed (r : SnapshotRead ι) : List String :=
  r.cards.map Card.id ++ (r.current ++ r.ids).map codec.toString

/-- The columns whose cards are not listed yet. -/
def ahead (r : SnapshotRead ι) : List ι := r.todo.map ColumnRow.id

/-- The columns have been read, and nothing has failed. -/
def Begun (r : SnapshotRead ι) : Prop :=
  match r.point with
  | .lastReplay => False
  | .columns => False
  | .failed _ => False
  | _ => True

variable {codec} {r : SnapshotRead ι}

@[simp] theorem todo_next : r.next.todo = r.todo := by
  unfold next
  split <;> rfl

@[simp] theorem ahead_next : r.next.ahead = r.ahead := by rw [ahead, todo_next, ahead]

@[simp] theorem columns_next : r.next.columns = r.columns := by
  unfold next
  split <;> rfl

@[simp] theorem awaited_next : r.next.awaited = r.ids := by
  unfold next
  split
  · rename_i id ids hids
    rw [hids]
    rfl
  · rfl
  · rfl

theorem mem_awaited_of_mem {x : ι} (h : x ∈ r.ids) : x ∈ r.awaited := by
  unfold awaited
  split
  · exact List.mem_cons_of_mem _ h
  · exact h

@[simp] theorem listed_next :
    r.next.listed codec = r.cards.map Card.id ++ r.ids.map codec.toString := by
  unfold next
  split
  · rename_i id ids hids
    rw [hids]
    rfl
  · rfl
  · rfl

theorem next_ne_failed {e : ConnectError} : r.next.point ≠ .failed e := by
  unfold next
  split <;> simp

end Standing

end SnapshotRead

/-! ## The reading of a card -/

section Fetching

variable {codec : IdCodec ι} {t : String} {id : ι} {r : SnapshotRead ι}
  {fetch : Thread (Db ι) (Rec ι) (Call ι) (Reply ι) ConnectError Card}

/-- The relationships of a card are being read: whatever is committed and whatever fails meanwhile,
nothing is written and the card is returned. -/
def Reading (codec : IdCodec ι) (id : ι)
    (fetch : Thread (Db ι) (Rec ι) (Call ι) (Reply ι) ConnectError Card) : Prop :=
  ∃ w, fetch.Meets (kanban ι) (fun _ _ _ => True) (fun _ w _ w' => w' = w)
    (fun r _ _ _ => ∃ card, r = .ok card ∧ card.id = codec.toString id) w

theorem ensures_fetched_bind {α β τ : Type} {st : Stmt (Db ι) (Rec ι) (List τ)} {g : List τ → α}
    {f : α → Handler ι β} {tr : Trace (Rec ι) (Call ι) (Reply ι)} {w : World (Db ι) (Backend ι)}
    {Q : Post (Db ι) (Rec ι) (Call ι) (Reply ι) (Backend ι) ConnectError β}
    (hst : ∀ db e, st db = some e → e.writes = [])
    (h : ∀ a tr w, Ensures (kanban ι) (fun _ _ _ => True) (fun _ w _ w' => w' = w) Q (f a) .idle tr w) :
    Ensures (kanban ι) (fun _ _ _ => True) (fun _ w _ w' => w' = w) Q
      (((fetchAll st).bind fun rows => .pure (g rows)).bind f) .idle tr w := by
  intro w₁ _
  refine ⟨fun e he => ?_, h _ _ _⟩
  rw [Tx.land_idle, hst _ e he]
  exact ⟨rfl, h _ _ _⟩

theorem reading_hydrateCard {row : CardRow ι} {tr : Trace (Rec ι) (Call ι) (Reply ι)}
    (w : World (Db ι) (Backend ι)) : Reading codec row.id ⟨hydrateCard codec t row, .idle, tr⟩ := by
  refine ⟨w, ?_⟩
  refine ensures_fetched_bind ?_ fun _ _ _ => ensures_fetched_bind ?_ fun _ _ _ =>
    ensures_fetched_bind ?_ fun _ _ _ => ensures_fetched_bind ?_ fun _ _ _ =>
    ensures_fetched_bind ?_ fun _ _ _ => ensures_fetched_bind ?_ fun _ _ _ =>
    ensures_fetched_bind ?_ fun _ _ _ => ⟨_, rfl, rfl⟩
  all_goals
    intro db e he
    cases he
    rfl

/-- A statement of `fetch_full_card` after the row was read. -/
theorem Reading.step {fetch' : Thread (Db ι) (Rec ι) (Call ι) (Reply ι) ConnectError Card}
    {w w' : World (Db ι) (Backend ι)} {a : Act (Move ι)} (h : Reading codec id fetch)
    (hs : Thread.step (kanban ι) (fetch, w) a = some (fetch', w')) :
    Reading codec id fetch' ∧ w' = w := by
  obtain ⟨w₀, hm⟩ := h
  obtain ⟨hm', hw⟩ := hm.step trivial hs
  refine ⟨⟨w', hm'⟩, ?_⟩
  rcases hw with ⟨-, hw⟩ | hw
  · exact hw
  · exact hw

/-- A card that is being read is read on, or it is one of the cards. -/
theorem absorb_cases (h : Reading codec id fetch) :
    r.absorb id fetch = { r with point := .relations id fetch } ∨
      ∃ card : Card, card.id = codec.toString id ∧
        r.absorb id fetch = { r with cards := r.cards ++ [card] }.next := by
  obtain ⟨w, hm⟩ := h
  unfold SnapshotRead.absorb
  cases hr : fetch.prog.result with
  | none => exact .inl rfl
  | some result =>
      obtain ⟨card, rfl, hid⟩ := hm.post hr
      exact .inr ⟨card, hid, rfl⟩

/-- The first statement of `fetch_full_card` finds the row, or it does not. -/
theorem step_fetchFullCard {w w' : World (Db ι) (Backend ι)} {a : Act (Move ι)}
    (hs : Thread.step (kanban ι) (Thread.start (fetchFullCard codec t id), w) a = some (fetch, w')) :
    w' = w ∧ ((∃ c ∈ w.store.cards, c.id = id ∧ c.tenantId = t ∧ Reading codec id fetch) ∨
      (∃ e, fetch.prog = .fail e) ∧
        (a = .fail ∨ ∀ c ∈ w.store.cards, c.id = id → c.tenantId ≠ t)) := by
  cases a with
  | move m => cases hs
  | fail =>
      cases hs
      exact ⟨rfl, .inr ⟨⟨_, rfl⟩, .inl rfl⟩⟩
  | ok =>
      have hstep : w' = w ∧ ∃ tr, fetch = ⟨(orError (notFound "card not found")
          (w.store.cards.filter fun c => c.id = id ∧ c.tenantId = t).head?).bind
            (hydrateCard codec t), .idle, tr⟩ := by
        cases hs
        exact ⟨rfl, _, rfl⟩
      obtain ⟨rfl, tr, rfl⟩ := hstep
      refine ⟨rfl, ?_⟩
      cases hrow : (w'.store.cards.filter fun c => c.id = id ∧ c.tenantId = t).head? with
      | none =>
          refine .inr ⟨⟨_, rfl⟩, .inr fun c hc hid ht => ?_⟩
          have hmem : c ∈ w'.store.cards.filter fun c => c.id = id ∧ c.tenantId = t := by
            simp [hc, hid, ht]
          rw [List.head?_eq_none_iff.mp hrow] at hmem
          cases hmem
      | some c =>
          obtain ⟨hmem, hp⟩ := List.mem_filter.mp (List.mem_of_head? hrow)
          obtain ⟨rfl, ht⟩ : c.id = id ∧ c.tenantId = t := by simpa using hp
          exact .inl ⟨c, hmem, rfl, ht, reading_hydrateCard w'⟩

end Fetching

/-! ## The statements of a reading -/

section Advances

variable {codec : IdCodec ι} {natsSeq : EventRow ι → Option ℕ} {t : String} {b : ι}
  {r r' : SnapshotRead ι} {a : Act (Move ι)}

/-- A reading is where it can be: no card is listed before the columns are read, a column is listed
when the cards of the last one are read, and nothing is left at the return. -/
def SnapshotRead.Shaped (codec : IdCodec ι) (r : SnapshotRead ι) : Prop :=
  match r.point with
  | .lastReplay => r.ids = [] ∧ r.cards = []
  | .columns => r.ids = [] ∧ r.cards = []
  | .cardIds => r.ids = []
  | .card _ => True
  | .relations id fetch => Reading codec id fetch
  | .returned => r.ids = [] ∧ r.todo = []
  | .failed _ => True

theorem SnapshotRead.shaped_next : r.next.Shaped codec := by
  unfold next
  split
  · trivial
  · exact ‹r.ids = []›
  · exact ⟨‹r.ids = []›, ‹r.todo = []›⟩

/-- What a statement of a reading does in a database. -/
inductive Advances (codec : IdCodec ι) (t : String) (b : ι) (db : Db ι) (r : SnapshotRead ι)
    (a : Act (Move ι)) : SnapshotRead ι → Prop
  | lastReplay (n : ℕ) (hpoint : r.point = .lastReplay) :
      Advances codec t b db r a { r with lastReplay := n, point := .columns }
  | columns (hpoint : r.point = .columns) : Advances codec t b db r a
      { r with columns := snapshotColumns codec db t (codec.toString b), todo := snapshotColumns codec db t (codec.toString b) }.next
  | cardIds {k : ColumnRow ι} {todo : List (ColumnRow ι)} (hpoint : r.point = .cardIds)
      (htodo : r.todo = k :: todo) : Advances codec t b db r a
      { r with ids := (columnCards db t k.id).map CardRow.id, todo := todo }.next
  | card {c : CardRow ι} {fetch : Thread (Db ι) (Rec ι) (Call ι) (Reply ι) ConnectError Card}
      (hpoint : r.point = .card c.id) (hc : c ∈ db.cards) (ht : c.tenantId = t)
      (hfetch : Reading codec c.id fetch) : Advances codec t b db r a (r.absorb c.id fetch)
  | relations {id : ι} {fetch fetch' : Thread (Db ι) (Rec ι) (Call ι) (Reply ι) ConnectError Card}
      (hpoint : r.point = .relations id fetch) (hfetch : Reading codec id fetch') :
      Advances codec t b db r a (r.absorb id fetch')
  | failed {e : ConnectError} (h : a = .fail ∨ ∃ id, r.point = .card id ∧
      ∀ c ∈ db.cards, c.id = id → c.tenantId ≠ t) : Advances codec t b db r a (r.fail e)

/-- A statement of a reading writes nothing. -/
theorem advances_of_step {w w' : World (Db ι) (Backend ι)} (hr : r.Shaped codec)
    (hs : r.readStep codec natsSeq t (codec.toString b) w a = some (r', w')) :
    w' = w ∧ Advances codec t b w.store r a r' := by
  obtain ⟨point, last, columns, todo, ids, cards⟩ := r
  cases point with
  | lastReplay =>
      cases a with
      | ok =>
          cases hs
          exact ⟨rfl, .lastReplay _ rfl⟩
      | fail =>
          cases hs
          exact ⟨rfl, .failed (.inl rfl)⟩
      | move m => cases hs
  | columns =>
      cases a with
      | ok =>
          cases hs
          exact ⟨rfl, .columns rfl⟩
      | fail =>
          cases hs
          exact ⟨rfl, .failed (.inl rfl)⟩
      | move m => cases hs
  | cardIds =>
      cases todo with
      | nil => cases hs
      | cons k todo =>
          simp only [SnapshotRead.readStep, codec.parse_toString] at hs
          cases a with
          | ok =>
              cases hs
              exact ⟨rfl, .cardIds rfl rfl⟩
          | fail =>
              cases hs
              exact ⟨rfl, .failed (.inl rfl)⟩
          | move m => cases hs
  | card id =>
      obtain ⟨⟨fetch, w''⟩, hfetch, heq⟩ := Option.map_eq_some_iff.mp hs
      cases heq
      obtain ⟨hw, ⟨c, hc, rfl, ht, hreading⟩ | ⟨⟨e, he⟩, hfail⟩⟩ := step_fetchFullCard hfetch
      · exact ⟨hw, .card rfl hc ht hreading⟩
      · refine ⟨hw, ?_⟩
        simp only [SnapshotRead.absorb, he, Prog.result]
        exact .failed (hfail.imp_right fun h => ⟨id, rfl, h⟩)
  | relations id fetch =>
      obtain ⟨⟨fetch', w''⟩, hfetch, heq⟩ := Option.map_eq_some_iff.mp hs
      cases heq
      obtain ⟨hreading, hw⟩ := Reading.step hr hfetch
      exact ⟨hw, .relations rfl hreading⟩
  | returned => cases hs
  | failed e => cases hs

end Advances

/-! ## The cards of a board -/

section OnBoard

variable {db db' : Db ι} {t : String} {b x : ι}

omit [DecidableEq ι]

/-- The card stands in the column, and the column is on the board. -/
def StandsIn (db : Db ι) (t : String) (b x k : ι) : Prop :=
  HasColumn db k b t ∧ ∃ c ∈ db.cards, c.id = x ∧ c.columnId = k ∧ c.tenantId = t

/-- The card stands in a column of the board. -/
def CardOn (db : Db ι) (t : String) (b x : ι) : Prop := ∃ k, StandsIn db t b x k

end OnBoard

/-- A step that does not divide the snapshot: a commit neither deletes a card that was listed and is
not read yet, nor does it take a card of the board from a column that was listed to one that was not,
or back. -/
def Undivided (t : String) (b : ι) (s : SnapshotRead ι × World (Db ι) (Backend ι)) :
    SnapshotAction ι → Prop
  | .read _ => True
  | .commit ws =>
      let db := (kanban ι).applyAll s.2.store ws
      (∀ c ∈ s.2.store.cards, c.id ∈ s.1.awaited → c.tenantId = t →
        ∃ c' ∈ db.cards, c'.id = c.id ∧ c'.tenantId = t) ∧
      ∀ x k k', StandsIn s.2.store t b x k → StandsIn db t b x k' → (k ∈ s.1.ahead ↔ k' ∈ s.1.ahead)

/-! ## What is kept while a snapshot is read -/

namespace SnapshotRead

variable {codec : IdCodec ι} {natsSeq : EventRow ι → Option ℕ} {t : String} {b x : ι}
  {r r' : SnapshotRead ι} {w w' : World (Db ι) (Backend ι)} {a : SnapshotAction ι}

/-- The keys of the database are keys, no column is listed twice, and the cards that were listed and
are not read yet are there. -/
structure Sound (codec : IdCodec ι) (t : String) (s : SnapshotRead ι × World (Db ι) (Backend ι)) :
    Prop where
  shaped : s.1.Shaped codec
  cardKeys : Keyed s.2.store
  columnKeys : (s.2.store.columns.map ColumnRow.id).Nodup
  aheadKeys : s.1.ahead.Nodup
  present : ∀ x ∈ s.1.awaited, ∃ c ∈ s.2.store.cards, c.id = x ∧ c.tenantId = t

theorem shaped_absorb {id : ι} {fetch : Thread (Db ι) (Rec ι) (Call ι) (Reply ι) ConnectError Card}
    (h : Reading codec id fetch) : (r.absorb id fetch).Shaped codec := by
  obtain heq | ⟨card, -, heq⟩ := absorb_cases (r := r) h
  · rw [heq]
    exact h
  · rw [heq]
    exact shaped_next

theorem ahead_absorb {id : ι} {fetch : Thread (Db ι) (Rec ι) (Call ι) (Reply ι) ConnectError Card}
    (h : Reading codec id fetch) : (r.absorb id fetch).ahead = r.ahead := by
  obtain heq | ⟨card, -, heq⟩ := absorb_cases (r := r) h
  · rw [heq]
    rfl
  · rw [heq, ahead_next]
    rfl

theorem awaited_absorb {id : ι} {fetch : Thread (Db ι) (Rec ι) (Call ι) (Reply ι) ConnectError Card}
    (h : Reading codec id fetch) : (r.absorb id fetch).awaited = r.ids := by
  obtain heq | ⟨card, -, heq⟩ := absorb_cases (r := r) h
  · rw [heq]
    rfl
  · rw [heq, awaited_next]

theorem columns_absorb {id : ι} {fetch : Thread (Db ι) (Rec ι) (Call ι) (Reply ι) ConnectError Card}
    (h : Reading codec id fetch) : (r.absorb id fetch).columns = r.columns := by
  obtain heq | ⟨card, -, heq⟩ := absorb_cases (r := r) h
  · rw [heq]
  · rw [heq, columns_next]

/-- The card that is being read is listed where it was. -/
theorem listed_absorb {id : ι} {fetch : Thread (Db ι) (Rec ι) (Call ι) (Reply ι) ConnectError Card}
    (h : Reading codec id fetch) : (r.absorb id fetch).listed codec =
      r.cards.map Card.id ++ (id :: r.ids).map codec.toString := by
  obtain heq | ⟨card, hid, heq⟩ := absorb_cases (r := r) h
  · rw [heq]
    rfl
  · rw [heq, listed_next, List.map_append, List.append_assoc, List.map_cons, List.map_cons, hid]
    rfl

omit [DecidableEq ι] in
theorem snapshotColumns_nodup {db : Db ι} (h : (db.columns.map ColumnRow.id).Nodup) :
    ((snapshotColumns codec db t (codec.toString b)).map ColumnRow.id).Nodup :=
  ((List.perm_insertionSort _ _).map ColumnRow.id).nodup_iff.mpr
    (h.sublist (List.filter_sublist.map ColumnRow.id))

theorem mem_columnCards {db : Db ι} {k : ι} {c : CardRow ι} :
    c ∈ columnCards db t k ↔ c ∈ db.cards ∧ c.columnId = k ∧ c.tenantId = t := by
  rw [columnCards, List.mem_insertionSort, List.mem_filter, decide_eq_true_iff]

theorem Sound.step {s s' : SnapshotRead ι × World (Db ι) (Backend ι)} (h : Sound codec t s)
    (hC : Undivided t b s a) (hs : SnapshotRead.step codec natsSeq t (codec.toString b) s a = some s') :
    Sound codec t s' := by
  obtain ⟨r, w⟩ := s
  obtain ⟨r', w'⟩ := s'
  cases a with
  | commit ws =>
      cases hs
      refine ⟨h.shaped, stored_cards.nodup_applyAll same_cards h.cardKeys,
        stored_columns.nodup_applyAll same_columns h.columnKeys, h.aheadKeys, fun x hx => ?_⟩
      obtain ⟨c, hc, rfl, ht⟩ := h.present x hx
      exact hC.1 c hc hx ht
  | read a =>
      obtain ⟨rfl, hadv⟩ := advances_of_step h.shaped hs
      obtain ⟨hshaped, hcards, hcolumns, hahead, hawaited⟩ := h
      cases hadv with
      | lastReplay n hpoint =>
          rw [Shaped, hpoint] at hshaped
          refine ⟨hshaped, hcards, hcolumns, hahead, fun x hx => ?_⟩
          rw [awaited, hpoint] at hawaited
          exact hawaited x hx
      | columns hpoint =>
          rw [Shaped, hpoint] at hshaped
          refine ⟨shaped_next, hcards, hcolumns, ?_, fun x hx => ?_⟩
          · rw [ahead_next]
            exact snapshotColumns_nodup hcolumns
          · rw [awaited_next] at hx
            change x ∈ r.ids at hx
            rw [hshaped.1] at hx
            cases hx
      | cardIds hpoint htodo =>
          rw [ahead, htodo, List.map_cons, List.nodup_cons] at hahead
          refine ⟨shaped_next, hcards, hcolumns, ?_, fun x hx => ?_⟩
          · rw [ahead_next]
            exact hahead.2
          · rw [awaited_next] at hx
            obtain ⟨c, hc, rfl⟩ := List.mem_map.mp hx
            exact ⟨c, (mem_columnCards.mp hc).1, rfl, (mem_columnCards.mp hc).2.2⟩
      | card hpoint hc ht hfetch =>
          refine ⟨shaped_absorb hfetch, hcards, hcolumns, (ahead_absorb hfetch).symm ▸ hahead, ?_⟩
          intro x hx
          rw [awaited_absorb hfetch] at hx
          rw [awaited, hpoint] at hawaited
          exact hawaited x (List.mem_cons_of_mem _ hx)
      | relations hpoint hfetch =>
          refine ⟨shaped_absorb hfetch, hcards, hcolumns, (ahead_absorb hfetch).symm ▸ hahead, ?_⟩
          intro x hx
          rw [awaited_absorb hfetch] at hx
          rw [awaited, hpoint] at hawaited
          exact hawaited x hx
      | failed =>
          exact ⟨trivial, hcards, hcolumns, hahead, fun x hx => hawaited x (mem_awaited_of_mem hx)⟩

/-- Without a failing statement a step of a reading does not fail. -/
theorem Sound.ne_failed {s s' : SnapshotRead ι × World (Db ι) (Backend ι)} (h : Sound codec t s)
    (hs : SnapshotRead.step codec natsSeq t (codec.toString b) s a = some s') (ha : a ≠ .read .fail)
    (hpoint : ∀ e, s.1.point ≠ .failed e) (e : ConnectError) : s'.1.point ≠ .failed e := by
  obtain ⟨r, w⟩ := s
  obtain ⟨r', w'⟩ := s'
  cases a with
  | commit ws =>
      cases hs
      exact hpoint e
  | read a =>
      obtain ⟨rfl, hadv⟩ := advances_of_step h.shaped hs
      have habsorb : ∀ {id : ι} {fetch}, Reading codec id fetch →
          (r.absorb id fetch).point ≠ .failed e := by
        intro id fetch hfetch
        obtain heq | ⟨card, -, heq⟩ := absorb_cases (r := r) hfetch
        · rw [heq]
          simp
        · rw [heq]
          exact next_ne_failed
      cases hadv with
      | lastReplay n hp => simp
      | columns hp => exact next_ne_failed
      | cardIds hp htodo => exact next_ne_failed
      | card hp hc ht hfetch => exact habsorb hfetch
      | relations hp hfetch => exact habsorb hfetch
      | failed hfail =>
          rcases hfail with rfl | ⟨id, hp, hgone⟩
          · exact absurd rfl ha
          · have hid : id ∈ r.awaited := by
              rw [awaited, hp]
              exact List.mem_cons_self
            obtain ⟨c, hc, hid, ht⟩ := h.present id hid
            exact absurd ht (hgone c hc hid)

/-! ### One card -/

/-- The card has been listed once if the cards of its column are listed, and not at all if they are
not; at the return it has been listed once. -/
def Told (codec : IdCodec ι) (t : String) (b x : ι) (s : SnapshotRead ι × World (Db ι) (Backend ι)) :
    Prop :=
  (s.1.point = .returned → (s.1.listed codec).count (codec.toString x) = 1) ∧
    (s.1.Begun → ∀ k, StandsIn s.2.store t b x k →
      (s.1.listed codec).count (codec.toString x) = if k ∈ s.1.ahead then 0 else 1)

theorem count_columnCards {db : Db ι} {k : ι} (hdb : Keyed db) (hx : StandsIn db t b x k) (k' : ι) :
    ((columnCards db t k').map CardRow.id).count x = if k = k' then 1 else 0 := by
  obtain ⟨-, c, hc, rfl, rfl, ht⟩ := hx
  by_cases hk : c.columnId = k'
  · have hmem : c.id ∈ (columnCards db t k').map CardRow.id :=
      List.mem_map_of_mem (mem_columnCards.mpr ⟨hc, hk, ht⟩)
    have hnodup : ((columnCards db t k').map CardRow.id).Nodup :=
      ((List.perm_insertionSort _ _).map CardRow.id).nodup_iff.mpr
        (hdb.sublist (List.filter_sublist.map CardRow.id))
    rw [if_pos hk, List.count_eq_one_of_mem hnodup hmem]
  · rw [if_neg hk, List.count_eq_zero]
    intro hmem
    obtain ⟨c', hc', hid⟩ := List.mem_map.mp hmem
    obtain ⟨hc', hk', -⟩ := mem_columnCards.mp hc'
    rw [hdb.eq_of_mem hc' hc hid] at hk'
    exact hk hk'

omit [DecidableEq ι] in
/-- While a card is read it is listed in front of those that are still to be read. -/
theorem listed_of_current {id : ι} (h : r.current = [id]) :
    r.listed codec = r.cards.map Card.id ++ (id :: r.ids).map codec.toString := by
  rw [listed, h]
  rfl

theorem Told.step {s s' : SnapshotRead ι × World (Db ι) (Backend ι)} (h : Told codec t b x s)
    (hsound : Sound codec t s) (hC : Undivided t b s a) (hon : CardOn s.2.store t b x)
    (hs : SnapshotRead.step codec natsSeq t (codec.toString b) s a = some s') : Told codec t b x s' := by
  have hsound' := hsound.step hC hs
  obtain ⟨r, w⟩ := s
  obtain ⟨r', w'⟩ := s'
  cases a with
  | commit ws =>
      cases hs
      obtain ⟨k, hk⟩ := hon
      refine ⟨h.1, fun hbegun k' hk' => ?_⟩
      rw [h.2 hbegun k hk]
      exact if_congr (hC.2 x k k' hk hk') rfl rfl
  | read a =>
      obtain ⟨rfl, hadv⟩ := advances_of_step hsound.shaped hs
      have hcount : r'.Begun → ∀ k, StandsIn w'.store t b x k →
          (r'.listed codec).count (codec.toString x) = if k ∈ r'.ahead then 0 else 1 := by
        intro hbegun k hk
        have hold := fun hbegun => h.2 hbegun k hk
        dsimp only at hold
        cases hadv with
        | lastReplay n hpoint => exact hbegun.elim
        | columns hpoint =>
            have hshaped : r.ids = [] ∧ r.cards = [] := by
              have hshaped := hsound.shaped
              rwa [Shaped, hpoint] at hshaped
            obtain ⟨c, hc, rfl, hb, ht⟩ := hk.1
            have hmem : c ∈ snapshotColumns codec w'.store t (codec.toString b) := by simp [snapshotColumns, hc, hb, ht]
            rw [listed_next, ahead_next]
            refine Eq.trans ?_ (if_pos (List.mem_map_of_mem hmem)).symm
            simp [hshaped]
        | cardIds hpoint htodo =>
            rename_i k₀ todo
            have hids : r.ids = [] := by
              have hshaped := hsound.shaped
              rwa [Shaped, hpoint] at hshaped
            have hlisted : r.listed codec = r.cards.map Card.id := by
              rw [listed, current, hpoint, hids]
              exact List.append_nil _
            have hkeys := hsound.aheadKeys
            dsimp only at hkeys
            have hahead : r.ahead = k₀.id :: todo.map ColumnRow.id := by
              rw [ahead, htodo, List.map_cons]
            rw [hahead, List.nodup_cons] at hkeys
            have hold := hold (by rw [Begun, hpoint]; trivial)
            rw [hlisted, hahead] at hold
            rw [listed_next, ahead_next, List.count_append, hold,
              List.count_map_of_injective _ _ codec.toString_injective,
              count_columnCards hsound.cardKeys hk]
            change _ = if k ∈ todo.map ColumnRow.id then 0 else 1
            by_cases hk₀ : k = k₀.id
            · rw [hk₀, if_pos List.mem_cons_self, if_pos rfl, if_neg hkeys.1]
            · rw [if_neg hk₀, Nat.add_zero]
              exact if_congr (List.mem_cons.trans (or_iff_right hk₀)) rfl rfl
        | card hpoint hc ht hfetch =>
            rw [listed_absorb hfetch, ahead_absorb hfetch,
              ← listed_of_current (by rw [current, hpoint])]
            exact hold (by rw [Begun, hpoint]; trivial)
        | relations hpoint hfetch =>
            rw [listed_absorb hfetch, ahead_absorb hfetch,
              ← listed_of_current (by rw [current, hpoint])]
            exact hold (by rw [Begun, hpoint]; trivial)
        | failed => exact hbegun.elim
      refine ⟨fun hpoint => ?_, hcount⟩
      obtain ⟨k, hk⟩ := hon
      have hshaped := hsound'.shaped
      dsimp only at hpoint hshaped
      rw [Shaped, hpoint] at hshaped
      rw [hcount (by rw [Begun, hpoint]; trivial) k hk, ahead, hshaped.2]
      simp

/-! ### One column -/

theorem count_columns_of_step {s s' : SnapshotRead ι × World (Db ι) (Backend ι)} {k : ι}
    (h : s.1.Begun → (s.1.columns.map ColumnRow.id).count k = 1) (hsound : Sound codec t s)
    (hon : HasColumn s.2.store k b t) (hs : SnapshotRead.step codec natsSeq t (codec.toString b) s a = some s') :
    s'.1.Begun → (s'.1.columns.map ColumnRow.id).count k = 1 := by
  intro hbegun
  obtain ⟨r, w⟩ := s
  obtain ⟨r', w'⟩ := s'
  cases a with
  | commit ws =>
      cases hs
      exact h hbegun
  | read a =>
      obtain ⟨rfl, hadv⟩ := advances_of_step hsound.shaped hs
      cases hadv with
      | lastReplay n hpoint => exact hbegun.elim
      | columns hpoint =>
          obtain ⟨c, hc, rfl, hb, ht⟩ := hon
          have hmem : c ∈ snapshotColumns codec w'.store t (codec.toString b) := by simp [snapshotColumns, hc, hb, ht]
          dsimp only
          rw [columns_next]
          exact List.count_eq_one_of_mem (snapshotColumns_nodup hsound.columnKeys)
            (List.mem_map_of_mem hmem)
      | cardIds hpoint htodo =>
          dsimp only
          rw [columns_next]
          exact h (by rw [Begun, hpoint]; trivial)
      | card hpoint hc ht hfetch =>
          dsimp only
          rw [columns_absorb hfetch]
          exact h (by rw [Begun, hpoint]; trivial)
      | relations hpoint hfetch =>
          dsimp only
          rw [columns_absorb hfetch]
          exact h (by rw [Begun, hpoint]; trivial)
      | failed => exact hbegun.elim

/-! ### What is replayed -/

omit [DecidableEq ι] in
theorem countP_replay_cardId {s : String} :
    (r.replay.countP fun i => i.cardId = some s) = (r.cards.map Card.id).count s := by
  rw [replay, List.countP_append, List.countP_map, List.countP_map, List.count, List.countP_map,
    List.countP_eq_zero.mpr (by simp [ReplayItem.cardId]), Nat.zero_add]
  exact List.countP_congr fun c _ => by simp [ReplayItem.cardId]

theorem countP_replay_columnId {k : ι} :
    (r.replay.countP fun i => i.columnId = some k) = (r.columns.map ColumnRow.id).count k := by
  rw [replay, List.countP_append, List.countP_map, List.countP_map, List.count, List.countP_map,
    List.countP_eq_zero (l := r.cards).mpr (by simp [ReplayItem.columnId]), Nat.add_zero]
  exact List.countP_congr fun c _ => by simp [ReplayItem.columnId]

end SnapshotRead

variable {codec : IdCodec ι} {natsSeq : EventRow ι → Option ℕ} {t board : String} {b : ι}
  {r : SnapshotRead ι} {w w' : World (Db ι) (Backend ι)} {actions : List (SnapshotAction ι)}

/-- **A snapshot that no commit divides is consistent**, if the request names the board by the text of
its id: unless a statement of its own fails it does not fail, and every column and every card that is on
the board throughout is replayed once. -/
theorem snapshot_undivided (hboard : board = codec.toString b) (hcards : Keyed w.store)
    (hcolumns : (w.store.columns.map ColumnRow.id).Nodup)
    (hrun : ExecWhile (SnapshotRead.step codec natsSeq t board) (Undivided t b) (SnapshotRead.start, w)
      actions (r, w')) :
    (∀ e, r.point = .failed e → .read .fail ∈ actions) ∧
      (r.point = .returned →
        (∀ k, ExecWhile (SnapshotRead.step codec natsSeq t board) (fun s _ => HasColumn s.2.store k b t)
          (SnapshotRead.start, w) actions (r, w') → (r.replay.countP fun i => i.columnId = some k) = 1) ∧
        ∀ x, ExecWhile (SnapshotRead.step codec natsSeq t board) (fun s _ => CardOn s.2.store t b x)
          (SnapshotRead.start, w) actions (r, w') →
            (r.replay.countP fun i => i.cardId = some (codec.toString x)) = 1) := by
  subst hboard
  have hstart : SnapshotRead.Sound codec t (SnapshotRead.start, w) :=
    ⟨⟨rfl, rfl⟩, hcards, hcolumns, List.nodup_nil, List.forall_mem_nil _⟩
  refine ⟨fun e hpoint => ?_, fun hpoint => ⟨fun k hon => ?_, fun x hon => ?_⟩⟩
  · by_contra hfail
    have hnever := (hrun.and_mem (D := (· ≠ .read .fail)) fun a ha h => hfail (h ▸ ha)).invariant
      (fun s => SnapshotRead.Sound codec t s ∧ ∀ e, s.1.point ≠ .failed e)
      ⟨hstart, by simp [SnapshotRead.start]⟩
      fun s a s' h hC hs => ⟨h.1.step hC.1 hs, h.1.ne_failed hs hC.2 h.2⟩
    exact hnever.2 e hpoint
  · have htold := (hrun.and hon).invariant
      (fun s => SnapshotRead.Sound codec t s ∧ (s.1.Begun → (s.1.columns.map ColumnRow.id).count k = 1))
      ⟨hstart, False.elim⟩
      fun s a s' h hC hs => ⟨h.1.step hC.1 hs, SnapshotRead.count_columns_of_step h.2 h.1 hC.2 hs⟩
    rw [SnapshotRead.countP_replay_columnId]
    exact htold.2 (by rw [SnapshotRead.Begun, hpoint]; trivial)
  · have htold := (hrun.and hon).invariant
      (fun s => SnapshotRead.Sound codec t s ∧ SnapshotRead.Told codec t b x s)
      ⟨hstart, by simp [SnapshotRead.start], False.elim⟩
      fun s a s' h hC hs => ⟨h.1.step hC.1 hs, h.2.step h.1 hC.1 hC.2 hs⟩
    have hshaped := htold.1.shaped
    have hlisted : (r.listed codec).count (codec.toString x) = 1 := htold.2.1 hpoint
    rw [SnapshotRead.Shaped, hpoint] at hshaped
    refine (SnapshotRead.countP_replay_cardId.trans ?_).trans hlisted
    rw [SnapshotRead.listed, SnapshotRead.current, hpoint, hshaped.1]
    exact congrArg (List.count _) (List.append_nil _).symm

/-! ## Reading while a card is moved -/

section Decidable

variable {db : Db ι} {x k : ι}

instance : Decidable (HasColumn db k b t) :=
  inferInstanceAs (Decidable (∃ k' ∈ db.columns, k'.id = k ∧ k'.boardId = b ∧ k'.tenantId = t))

instance : Decidable (StandsIn db t b x k) :=
  inferInstanceAs (Decidable (HasColumn db k b t ∧
    ∃ c ∈ db.cards, c.id = x ∧ c.columnId = k ∧ c.tenantId = t))

instance : Decidable (CardOn db t b x) :=
  decidable_of_iff (∃ c ∈ db.cards, StandsIn db t b x c.columnId)
    ⟨fun ⟨c, _, h⟩ => ⟨c.columnId, h⟩, fun ⟨_, hk, c, hc, hx, hck, ht⟩ =>
      ⟨c, hc, hck.symm ▸ hk, c, hc, hx, rfl, ht⟩⟩

instance (s : SnapshotRead ι × World (Db ι) (Backend ι)) :
    ∀ a : SnapshotAction ι, Decidable (Undivided t b s a)
  | .read _ => isTrue trivial
  | .commit ws => decidable_of_iff
      ((∀ c ∈ s.2.store.cards, c.id ∈ s.1.awaited → c.tenantId = t →
          ∃ c' ∈ ((kanban ι).applyAll s.2.store ws).cards, c'.id = c.id ∧ c'.tenantId = t) ∧
        ∀ c ∈ s.2.store.cards, ∀ c' ∈ ((kanban ι).applyAll s.2.store ws).cards,
          StandsIn s.2.store t b c.id c.columnId →
          StandsIn ((kanban ι).applyAll s.2.store ws) t b c.id c'.columnId →
          (c.columnId ∈ s.1.ahead ↔ c'.columnId ∈ s.1.ahead))
      ⟨fun ⟨hkept, hstay⟩ => ⟨hkept, by
          rintro _ _ _ ⟨hk, c, hc, rfl, rfl, ht⟩ ⟨hk', c', hc', hid, rfl, ht'⟩
          exact hstay c hc c' hc' ⟨hk, c, hc, rfl, rfl, ht⟩ ⟨hk', c', hc', hid, rfl, ht'⟩⟩,
        fun ⟨hkept, hstay⟩ => ⟨hkept, fun c _ c' _ => hstay c.id c.columnId c'.columnId⟩⟩

end Decidable

/-- The two columns, with a card in one of them. -/
def cardIn (columnId : String) : World (Db String) (Backend String) where
  store := { twoColumns.store with
    cards := [⟨"c", "t", "p", "b", columnId, "ROAD-001", "Ship", none, 0, "medium", "medium", none,
      none, false, none, none, "user:ann", 0⟩] }
  ext := Backend.empty

/-- The card is moved to the first column. -/
def movesFirst : Handler String Card := moveCard textIds 1 (annOn "c") ⟨"k", 1, ""⟩

/-- A `MoveCard` without a key, up to its commit. -/
def movesSteps : List (Act (Move String)) :=
  [.ok, .ok, .ok, .ok, .ok, .ok, .ok, .ok, .ok, .move (.fresh "e"), .ok, .ok, .ok]

/-- Both columns are still to be listed when the card moves. -/
theorem snapshot_undivided_move : ∃ th w₁ r w',
    Exec (Thread.step (kanban String)) (Thread.start movesFirst, cardIn "l") movesSteps (th, w₁) ∧
      ExecWhile (SnapshotRead.step textIds (fun _ => none) "t" "b") (Undivided "t" "b")
        (SnapshotRead.start, cardIn "l")
        ([.read .ok, .read .ok, .commit (Trace.writes th.trace)] ++ List.replicate 10 (.read .ok))
        (r, w') ∧ r.point = .returned ∧ StandsIn w'.store "t" "b" "c" "k" ∧
      (r.replay.countP fun i => i.columnId = some "k") = 1 ∧
      (r.replay.countP fun i => i.cardId = some "c") = 1 := by
  obtain ⟨⟨th, w₁⟩, hmove, r, w', hrun, hcolumn, hcard, hpoint, hk⟩ : ∃ c : _ × _,
      Machine.run (Thread.step (kanban String)) (Thread.start movesFirst, cardIn "l") movesSteps =
        some c ∧ ∃ r w',
      Machine.run (Machine.guarded (SnapshotRead.step textIds (fun _ => none) "t" "b")
        (Undivided "t" "b")) (SnapshotRead.start, cardIn "l")
        ([.read .ok, .read .ok, .commit (Trace.writes c.1.trace)] ++
          List.replicate 10 (.read .ok)) = some (r, w') ∧
      Machine.run (Machine.guarded (SnapshotRead.step textIds (fun _ => none) "t" "b")
        fun s _ => HasColumn s.2.store "k" "b" "t") (SnapshotRead.start, cardIn "l")
        ([.read .ok, .read .ok, .commit (Trace.writes c.1.trace)] ++ List.replicate 10 (.read .ok)) =
          some (r, w') ∧
      Machine.run (Machine.guarded (SnapshotRead.step textIds (fun _ => none) "t" "b")
        fun s _ => CardOn s.2.store "t" "b" "c") (SnapshotRead.start, cardIn "l")
        ([.read .ok, .read .ok, .commit (Trace.writes c.1.trace)] ++ List.replicate 10 (.read .ok)) =
          some (r, w') ∧
      r.point = .returned ∧ StandsIn w'.store "t" "b" "c" "k" :=
    ⟨_, rfl, _, _, rfl, rfl, rfl, rfl, by decide⟩
  have hundivided := Machine.execWhile_of_run hrun
  have hreplay := (snapshot_undivided rfl (by decide) (by decide) hundivided).2 hpoint
  exact ⟨th, w₁, r, w', Machine.exec_of_run hmove, hundivided, hpoint, hk,
    hreplay.1 "k" (Machine.execWhile_of_run hcolumn), hreplay.2 "c" (Machine.execWhile_of_run hcard)⟩

/-- A board with one column, under the canonical texts of their ids. -/
def oneColumn : World (Db Kanban.Ids.Id) (Backend Kanban.Ids.Id) where
  store := { Db.empty with
    boards := [⟨shipId, "t", shipId, "Board", "BOARD", "", none, "", 0⟩]
    columns := [⟨shipId, "t", shipId, "Todo", none, none, 0, false⟩] }
  ext := Backend.empty

/-- The card moves from the second column to the first after the first was listed, and is not in the
snapshot; or it was listed and is deleted, and the reading fails; or the request names the board by
another text of its id, and the snapshot is empty. -/
theorem snapshot_divided :
    (∃ th w₁ r w',
      Exec (Thread.step (kanban String)) (Thread.start movesFirst, cardIn "l") movesSteps (th, w₁) ∧
      ExecWhile (SnapshotRead.step textIds (fun _ => none) "t" "b")
        (fun s _ => CardOn s.2.store "t" "b" "c") (SnapshotRead.start, cardIn "l")
        [.read .ok, .read .ok, .read .ok, .commit (Trace.writes th.trace), .read .ok] (r, w') ∧
      r.point = .returned ∧ StandsIn w'.store "t" "b" "c" "k" ∧
      (r.replay.countP fun i => i.cardId = some "c") = 0) ∧
    (∃ th w₁ r w',
      Exec (Thread.step (kanban String)) (Thread.start (deleteCard textIds 1 (annOn "c")), cardIn "k")
        [.ok, .ok, .ok, .ok, .move (.fresh "e"), .ok, .ok, .ok] (th, w₁) ∧
      Exec (SnapshotRead.step textIds (fun _ => none) "t" "b") (SnapshotRead.start, cardIn "k")
        [.read .ok, .read .ok, .read .ok, .commit (Trace.writes th.trace), .read .ok] (r, w') ∧
      r.point = .failed (notFound "card not found")) ∧
    ∃ r w',
      ExecWhile (SnapshotRead.step crockfordIds (fun _ => none) "t" lowerCard)
        (fun s _ => HasColumn s.2.store shipId shipId "t") (SnapshotRead.start, oneColumn)
        [.read .ok, .read .ok] (r, w') ∧
      crockfordIds.parse lowerCard = some shipId ∧ r.point = .returned ∧ r.replay.length = 0 := by
  refine ⟨?_, ?_, ?_⟩
  · obtain ⟨⟨th, w₁⟩, hmove, r, w', hrun, hpoint, hk, hcount⟩ : ∃ c : _ × _,
        Machine.run (Thread.step (kanban String)) (Thread.start movesFirst, cardIn "l") movesSteps =
          some c ∧ ∃ r w',
        Machine.run (Machine.guarded (SnapshotRead.step textIds (fun _ => none) "t" "b")
          fun s _ => CardOn s.2.store "t" "b" "c") (SnapshotRead.start, cardIn "l")
          [.read .ok, .read .ok, .read .ok, .commit (Trace.writes c.1.trace), .read .ok] =
            some (r, w') ∧
        r.point = .returned ∧ StandsIn w'.store "t" "b" "c" "k" ∧
        (r.replay.countP fun i => i.cardId = some "c") = 0 :=
      ⟨_, rfl, _, _, rfl, rfl, by decide, by decide⟩
    exact ⟨th, w₁, r, w', Machine.exec_of_run hmove, Machine.execWhile_of_run hrun, hpoint, hk, hcount⟩
  · obtain ⟨⟨th, w₁⟩, hdelete, r, w', hrun, hpoint⟩ : ∃ c : _ × _,
        Machine.run (Thread.step (kanban String))
          (Thread.start (deleteCard textIds 1 (annOn "c")), cardIn "k")
          [.ok, .ok, .ok, .ok, .move (.fresh "e"), .ok, .ok, .ok] = some c ∧ ∃ r w',
        Machine.run (SnapshotRead.step textIds (fun _ => none) "t" "b") (SnapshotRead.start, cardIn "k")
          [.read .ok, .read .ok, .read .ok, .commit (Trace.writes c.1.trace), .read .ok] =
            some (r, w') ∧ r.point = .failed (notFound "card not found") :=
      ⟨_, rfl, _, _, rfl, rfl⟩
    exact ⟨th, w₁, r, w', Machine.exec_of_run hdelete, Machine.exec_of_run hrun, hpoint⟩
  · obtain ⟨r, w', hrun, hpoint, hreplay⟩ : ∃ r w',
        Machine.run (Machine.guarded (SnapshotRead.step crockfordIds (fun _ => none) "t" lowerCard)
          fun s _ => HasColumn s.2.store shipId shipId "t") (SnapshotRead.start, oneColumn)
          [.read .ok, .read .ok] = some (r, w') ∧ r.point = .returned ∧ r.replay.length = 0 :=
      ⟨_, _, rfl, rfl, rfl⟩
    exact ⟨r, w', Machine.execWhile_of_run hrun, by decide, hpoint, hreplay⟩

end Kanban.Rpc
