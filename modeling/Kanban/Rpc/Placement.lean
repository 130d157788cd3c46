import Kanban.Rpc.Commits

/-!
# Where the cards are

A placement gives each card its board and its column.  A commit of a handler makes one change
of the placement: it leaves every card where it is, or it creates, moves, transfers or deletes
one.  A client of a board sees none of this; it folds the events of its board.

`Change.tells_iff` is about the changes alone: the events of a change tell the clients of every
board what happened, unless the change is a move to another board.  `Makes.refines` is the
connection: a commit that makes a change changes the rows of the database in that way and
appends the events of the change.

## Main definitions

* `Placement`, `BoardView` — the places of all cards, and of the cards of one board.
* `Change`, `CardEvent`, `foldBoard` — a change, its events, and the client.
* `placeOf`, `readEvent` — the placement of a database, and how a client reads a row.
* `Makes` — the writes of a commit make a change.
* `Undisturbed` — what a commit writes is still where the call has read it.
-/

namespace Kanban.Rpc

open Program Kanban.Store Kanban.Auth
open Kanban.Services (AuthContext ConnectError IdCodec)

variable {ι : Type} [DecidableEq ι]

/-! ## Placements and their changes -/

/-- The board and the column of each card. -/
abbrev Placement (ι : Type) := ι → Option (ι × ι)

/-- What a client of one board knows: the column of each of its cards. -/
abbrev BoardView (ι : Type) := ι → Option ι

/-- The cards of one board. -/
def Placement.view (p : Placement ι) (board : ι) : BoardView ι := fun card =>
  (p card).bind fun place => if place.1 = board then some place.2 else none

/-- What one commit does to the places of the cards. `source` is the board a card comes from. -/
inductive Change (ι : Type)
  | stay
  | create (card board column : ι)
  | move (card source board column : ι)
  | transfer (card source board column : ι)
  | delete (card source : ι)
  deriving DecidableEq

namespace Change

/-- The card that changes its place, and where it is afterwards. -/
def target : Change ι → Option (ι × Option (ι × ι))
  | .stay => none
  | .create card board column => some (card, some (board, column))
  | .move card _ board column => some (card, some (board, column))
  | .transfer card _ board column => some (card, some (board, column))
  | .delete card _ => some (card, none)

/-- The board that the card leaves. -/
def source : Change ι → Option ι
  | .stay => none
  | .create _ _ _ => none
  | .move _ source _ _ => some source
  | .transfer _ source _ _ => some source
  | .delete _ source => some source

def apply (p : Placement ι) (change : Change ι) : Placement ι :=
  match change.target with
  | none => p
  | some (card, place) => Function.update p card place

/-- The card is where the change takes it from. -/
def Fits (p : Placement ι) : Change ι → Prop
  | .stay => True
  | .create card _ _ => p card = none
  | .move card source _ _ => ∃ column, p card = some (source, column)
  | .transfer card source _ _ => ∃ column, p card = some (source, column)
  | .delete card source => ∃ column, p card = some (source, column)

end Change

/-- An event about the place of a card, as a client of the board reads it. -/
inductive CardEvent (ι : Type)
  | created (card column : ι)
  | moved (card column : ι)
  | transferred (card board column : ι)
  | deleted (card : ι)
  deriving DecidableEq

/-- The card an event is about. -/
def CardEvent.card : CardEvent ι → ι
  | .created card _ => card
  | .moved card _ => card
  | .transferred card _ _ => card
  | .deleted card => card

/-- The events of a change, each with the board it is routed to. -/
def Change.events : Change ι → List (ι × CardEvent ι)
  | .stay => []
  | .create card board column => [(board, .created card column)]
  | .move card source _ column => [(source, .moved card column)]
  | .transfer card source board column =>
      [(source, .transferred card board column), (board, .transferred card board column)]
  | .delete card source => [(source, .deleted card)]

/-- The client of a board takes one event: a card that is created on the board, or transferred
or moved into one of its columns, is added; a card that goes elsewhere is removed. -/
def CardEvent.fold (hasColumn : ι → ι → Bool) (board : ι) (v : BoardView ι) :
    CardEvent ι → BoardView ι
  | .created card column => Function.update v card (some column)
  | .moved card column =>
      Function.update v card (if hasColumn board column then some column else none)
  | .transferred card target column =>
      Function.update v card (if target = board then some column else none)
  | .deleted card => Function.update v card none

/-- The client of a board takes the events of its board in order. -/
def foldBoard (hasColumn : ι → ι → Bool) (board : ι) (v : BoardView ι)
    (events : List (ι × CardEvent ι)) : BoardView ι :=
  (events.filter (·.1 = board)).foldl (fun v e => e.2.fold hasColumn board v) v

section Fold

variable {hasColumn : ι → ι → Bool} {board : ι} {v : BoardView ι} {p : Placement ι}

@[simp] theorem foldBoard_nil : foldBoard hasColumn board v [] = v := rfl

theorem foldBoard_append {l l' : List (ι × CardEvent ι)} :
    foldBoard hasColumn board v (l ++ l') =
      foldBoard hasColumn board (foldBoard hasColumn board v l) l' := by
  simp [foldBoard]

theorem foldBoard_cons {b : ι} {e : CardEvent ι} {l : List (ι × CardEvent ι)} :
    foldBoard hasColumn board v ((b, e) :: l) =
      foldBoard hasColumn board (if b = board then e.fold hasColumn board v else v) l := by
  unfold foldBoard
  by_cases hb : b = board
  · rw [List.filter_cons_of_pos (by simpa using hb), if_pos hb]
    rfl
  · rw [List.filter_cons_of_neg (by simpa using hb), if_neg hb]

/-- An event is about one card. -/
theorem fold_of_ne {e : CardEvent ι} {card : ι} (h : e.card ≠ card) :
    e.fold hasColumn board v card = v card := by
  cases e <;> exact Function.update_of_ne (Ne.symm h) _ _

/-- What the client learns of a card it learns from an event about it. -/
theorem exists_event_of_fold_ne {l : List (ι × CardEvent ι)} {card : ι}
    (h : foldBoard hasColumn board v l card ≠ v card) :
    ∃ e, (board, e) ∈ l ∧ e.card = card := by
  induction l generalizing v with
  | nil => exact absurd rfl h
  | cons e l ih =>
      obtain ⟨b, e⟩ := e
      rw [foldBoard_cons] at h
      by_cases htold : b = board ∧ e.card = card
      · obtain ⟨rfl, hcard⟩ := htold
        exact ⟨e, List.mem_cons_self, hcard⟩
      · have hsame : (if b = board then e.fold hasColumn board v else v) card = v card := by
          split
          · exact fold_of_ne fun hcard => htold ⟨‹_›, hcard⟩
          · rfl
        rw [← hsame] at h
        obtain ⟨e', he', hcard⟩ := ih h
        exact ⟨e', List.mem_cons_of_mem _ he', hcard⟩

/-- One card changes its place: the view of a board changes at that card only. -/
theorem view_update {card : ι} {place : Option (ι × ι)} :
    Placement.view (Function.update p card place) board =
      Function.update (p.view board) card
        (place.bind fun place => if place.1 = board then some place.2 else none) := by
  funext c
  by_cases hc : c = card
  · subst hc
    simp [Placement.view]
  · simp [Placement.view, hc]

/-- A card that is on another board is not in the view. -/
theorem view_eq_none {card source column : ι} (h : p card = some (source, column))
    (hne : source ≠ board) : p.view board card = none := by
  simp [Placement.view, h, hne]

/-- The columns of a change's target belong to its board, and to no other. -/
def Change.ColumnsOf (hasColumn : ι → ι → Bool) (change : Change ι) : Prop :=
  ∀ card b column, change.target = some (card, some (b, column)) →
    ∀ board, hasColumn board column = decide (b = board)

/-- A move that leaves its board. -/
def Change.LeavesBoard : Change ι → Prop
  | .move _ source board _ => source ≠ board
  | _ => False

/-- **What the events of a change tell.**  The clients of every board learn what happened
exactly if the change is not a move to another board. -/
theorem Change.tells_iff {change : Change ι} (hfit : change.Fits p)
    (hcol : change.ColumnsOf hasColumn) :
    (∀ board, foldBoard hasColumn board (p.view board) change.events = (change.apply p).view board) ↔
      ¬ change.LeavesBoard := by
  cases change with
  | stay => simp [Change.events, Change.apply, Change.target, Change.LeavesBoard]
  | create card b column =>
      refine iff_of_true (fun board => ?_) id
      simp only [Change.events, Change.apply, Change.target, foldBoard_cons, foldBoard_nil,
        view_update, Option.bind_some]
      by_cases hb : b = board
      · simp [hb, CardEvent.fold]
      · rw [if_neg hb, if_neg hb, eq_comm, Function.update_eq_self_iff]
        simp [Placement.view, show p card = none from hfit]
  | move card source b column =>
      obtain ⟨from', hfrom⟩ := hfit
      have hcol : ∀ board, hasColumn board column = decide (b = board) := hcol card b column rfl
      simp only [Change.events, Change.apply, Change.target, foldBoard_cons, foldBoard_nil,
        view_update, Option.bind_some, CardEvent.fold, hcol, decide_eq_true_eq, Change.LeavesBoard,
        ne_eq, not_not]
      constructor
      · intro h
        have hb := congrFun (h b) card
        by_contra hne
        rw [if_neg hne, Function.update_self, if_pos rfl, view_eq_none hfrom hne] at hb
        cases hb
      · rintro rfl board
        by_cases hb : source = board
        · simp [hb]
        · rw [if_neg hb, if_neg hb, eq_comm, Function.update_eq_self_iff]
          exact (view_eq_none hfrom hb).symm
  | transfer card source b column =>
      obtain ⟨from', hfrom⟩ := hfit
      refine iff_of_true (fun board => ?_) id
      simp only [Change.events, Change.apply, Change.target, foldBoard_cons, foldBoard_nil,
        view_update, Option.bind_some, CardEvent.fold]
      by_cases hs : source = board
      · rw [if_pos hs]
        by_cases hb : b = board
        · simp [hb]
        · simp [hb]
      · rw [if_neg hs]
        by_cases hb : b = board
        · simp [hb]
        · rw [if_neg hb, if_neg hb, eq_comm, Function.update_eq_self_iff]
          exact (view_eq_none hfrom hs).symm
  | delete card source =>
      obtain ⟨from', hfrom⟩ := hfit
      refine iff_of_true (fun board => ?_) id
      simp only [Change.events, Change.apply, Change.target, foldBoard_cons, foldBoard_nil,
        view_update, Option.bind_none, CardEvent.fold]
      by_cases hs : source = board
      · rw [if_pos hs]
      · rw [if_neg hs, eq_comm, Function.update_eq_self_iff]
        exact (view_eq_none hfrom hs).symm

end Fold

/-! ## The placement of a database -/

/-- Where the rows of `cards` say that the cards are. -/
def placeOf (db : Db ι) : Placement ι := fun card =>
  (db.cards.find? fun c => c.id = card).map fun c => (c.boardId, c.columnId)

/-- `cards.id` is a primary key. -/
def Keyed (db : Db ι) : Prop := (db.cards.map CardRow.id).Nodup

instance {db : Db ι} : Decidable (Keyed db) := inferInstanceAs (Decidable (List.Nodup _))

omit [DecidableEq ι] in
/-- The row of a card is determined by the key. -/
theorem Keyed.eq_of_mem {db : Db ι} (h : Keyed db) {c c' : CardRow ι} (hc : c ∈ db.cards)
    (hc' : c' ∈ db.cards) (hid : c.id = c'.id) : c = c' :=
  List.inj_on_of_nodup_map h hc hc' hid

/-- The view of a board is the set of its cards, each with its column. -/
theorem view_placeOf_eq_some {db : Db ι} (h : Keyed db) {board card column : ι} :
    (placeOf db).view board card = some column ↔
      ∃ c ∈ db.cards, c.id = card ∧ c.boardId = board ∧ c.columnId = column := by
  simp only [Placement.view, placeOf, Option.bind_eq_some_iff, Option.map_eq_some_iff,
    Option.ite_none_right_eq_some, Option.some.injEq]
  constructor
  · rintro ⟨-, ⟨c, hc, rfl⟩, hb, hcol⟩
    exact ⟨c, List.mem_of_find?_eq_some hc, by simpa using List.find?_some hc, hb, hcol⟩
  · rintro ⟨c, hc, hid, hb, hcol⟩
    refine ⟨_, ⟨c, ?_, rfl⟩, hb, hcol⟩
    cases hf : db.cards.find? fun c => c.id = card with
    | none => exact absurd hid (by simpa using List.find?_eq_none.mp hf c hc)
    | some c' =>
        have hid' : c'.id = card := by simpa using List.find?_some hf
        rw [h.eq_of_mem (List.mem_of_find?_eq_some hf) hc (hid'.trans hid.symm)]

/-- The write of a card, if it is one. -/
def cardWrite : Write (Rec ι) → Option (Write (CardRow ι))
  | .put (.card c) => some (.put c)
  | .del (.card c) => some (.del c)
  | _ => none

/-- The row of an event, if it is one. -/
def eventWrite : Write (Rec ι) → Option (EventRow ι)
  | .put (.event e) => some e
  | _ => none

def cardWrites (ws : List (Write (Rec ι))) : List (Write (CardRow ι)) := ws.filterMap cardWrite

def eventWrites (ws : List (Write (Rec ι))) : List (EventRow ι) := ws.filterMap eventWrite

section Writes

omit [DecidableEq ι]

@[simp] theorem cardWrites_nil : cardWrites ([] : List (Write (Rec ι))) = [] := rfl

@[simp] theorem eventWrites_nil : eventWrites ([] : List (Write (Rec ι))) = [] := rfl

@[simp] theorem cardWrites_append {ws ws' : List (Write (Rec ι))} :
    cardWrites (ws ++ ws') = cardWrites ws ++ cardWrites ws' := List.filterMap_append

@[simp] theorem eventWrites_append {ws ws' : List (Write (Rec ι))} :
    eventWrites (ws ++ ws') = eventWrites ws ++ eventWrites ws' := List.filterMap_append

/-- Writes of other tables log nothing. -/
theorem eventWrites_eq_nil {ws : List (Write (Rec ι))} (h : ∀ a ∈ ws, ∀ e, a.record ≠ .event e) :
    eventWrites ws = [] := by
  refine List.filterMap_eq_nil_iff.mpr fun a ha => ?_
  have hne := h a ha
  rcases a with (r | r)
  · cases r <;> first | rfl | exact absurd rfl (hne _)
  · rfl

end Writes

/-- The card a write is about, and its place afterwards. -/
def effectOf : Write (CardRow ι) → ι × Option (ι × ι)
  | .put c => (c.id, some (c.boardId, c.columnId))
  | .del c => (c.id, none)

/-- The placement after writes. -/
def Placement.write (p : Placement ι) (l : List (Write (CardRow ι))) : Placement ι :=
  l.foldl (fun p a => Function.update p (effectOf a).1 (effectOf a).2) p

/-- A write that is not about a card. -/
theorem cards_apply_of_cardWrite_eq_none {db : Db ι} {a : Write (Rec ι)} (h : cardWrite a = none) :
    (db.apply a).cards = db.cards := by
  rcases a with (r | r)
  · cases r <;> first | rfl | cases h
  · cases r <;> first | rfl | cases h

theorem placeOf_put {db : Db ι} {c : CardRow ι} :
    placeOf (db.apply (.put (.card c))) =
      Function.update (placeOf db) c.id (some (c.boardId, c.columnId)) := by
  funext card
  show ((Table.put Db.cardsT.same c db.cards).find? fun c => c.id = card).map _ = _
  by_cases hcard : card = c.id
  · rw [Table.find?_put_self (by simp [hcard, eq_comm]) (by simp)]
    simp [hcard]
  · rw [Table.find?_put_of_ne ?_ (by simpa using Ne.symm hcard), Function.update_of_ne hcard]
    · rfl
    · intro r hr
      have hid : c.id = r.id := by simpa using hr
      simpa [← hid] using Ne.symm hcard

theorem placeOf_del {db : Db ι} {c : CardRow ι} :
    placeOf (db.apply (.del (.card c))) = Function.update (placeOf db) c.id none := by
  funext card
  show ((Table.del Db.cardsT.same c db.cards).find? fun c => c.id = card).map _ = _
  by_cases hcard : card = c.id
  · rw [Table.find?_del_self (by simp [hcard, eq_comm])]
    simp [hcard]
  · rw [Table.find?_del_of_ne, Function.update_of_ne hcard]
    · rfl
    · intro r hr
      have hid : c.id = r.id := by simpa using hr
      simpa [← hid] using Ne.symm hcard

theorem placeOf_apply {db : Db ι} {a : Write (Rec ι)} :
    placeOf (db.apply a) = (placeOf db).write (cardWrite a).toList := by
  cases ha : cardWrite a with
  | none =>
      unfold placeOf
      rw [cards_apply_of_cardWrite_eq_none ha]
      rfl
  | some b =>
      rcases a with (r | r)
      · cases r with
        | card c =>
            cases ha
            exact placeOf_put
        | _ => cases ha
      · cases r with
        | card c =>
            cases ha
            exact placeOf_del
        | _ => cases ha

/-- The placement after a commit is the placement after its card writes. -/
theorem placeOf_applyAll {db : Db ι} {ws : List (Write (Rec ι))} :
    placeOf ((kanban ι).applyAll db ws) = (placeOf db).write (cardWrites ws) := by
  induction ws generalizing db with
  | nil => rfl
  | cons a ws ih =>
      rw [Semantics.applyAll_cons, kanban_apply, ih, placeOf_apply, cardWrites, cardWrites,
        List.filterMap_cons]
      cases cardWrite a with
      | none => rfl
      | some b => rfl

theorem Keyed.applyAll {db : Db ι} (h : Keyed db) (ws : List (Write (Rec ι))) :
    Keyed ((kanban ι).applyAll db ws) :=
  stored_cards.nodup_applyAll same_cards h

/-! ## The events of a database -/

/-- The id in a field of a payload. -/
def readId (codec : IdCodec ι) (payload : Payload) (field : String) : Option ι :=
  (payload.text field).bind codec.parse

/-- How a client reads a row of `event_log`: the board it is routed to, and the event. An event
that is not about the place of a card is not read. -/
def readEvent (codec : IdCodec ι) (e : EventRow ι) : Option (ι × CardEvent ι) := do
  let board ← e.boardId
  let card ← readId codec e.payload "card_id"
  if e.eventType = "CardCreated" then
    let column ← readId codec e.payload "column_id"
    some (board, .created card column)
  else if e.eventType = "CardMoved" then
    let column ← readId codec e.payload "to_column"
    some (board, .moved card column)
  else if e.eventType = "CardTransferred" then
    let target ← readId codec e.payload "to_board_id"
    let column ← readId codec e.payload "to_column_id"
    some (board, .transferred card target column)
  else if e.eventType = "CardDeleted" then some (board, .deleted card)
  else none

omit [DecidableEq ι] in
/-- The event of a row is routed to the board of the row. -/
theorem boardId_of_readEvent {codec : IdCodec ι} {e : EventRow ι} {board : ι} {event : CardEvent ι}
    (h : readEvent codec e = some (board, event)) : e.boardId = some board := by
  obtain ⟨b, hb, h⟩ := Option.bind_eq_some_iff.mp h
  obtain ⟨card, -, h⟩ := Option.bind_eq_some_iff.mp h
  rw [hb]
  split at h
  · obtain ⟨column, -, h⟩ := Option.bind_eq_some_iff.mp h
    cases h
    rfl
  · split at h
    · obtain ⟨column, -, h⟩ := Option.bind_eq_some_iff.mp h
      cases h
      rfl
    · split at h
      · obtain ⟨target, -, h⟩ := Option.bind_eq_some_iff.mp h
        obtain ⟨column, -, h⟩ := Option.bind_eq_some_iff.mp h
        cases h
        rfl
      · split at h
        · cases h
          rfl
        · cases h

def readEvents (codec : IdCodec ι) (rows : List (EventRow ι)) : List (ι × CardEvent ι) :=
  rows.filterMap (readEvent codec)

/-- The board of a column. -/
def columnBoard (db : Db ι) (column : ι) : Option ι :=
  (db.columns.find? fun k => k.id = column).map ColumnRow.boardId

/-- True if the column is a column of the board. -/
def hasColumn (db : Db ι) (board column : ι) : Bool := columnBoard db column = some board

/-- Event rows whose ids are not in use are appended. -/
theorem eventLog_applyAll {db : Db ι} {ws : List (Write (Rec ι))}
    (hdel : ∀ a ∈ ws, ∀ e, a ≠ .del (.event e)) (hids : ((eventWrites ws).map EventRow.id).Nodup)
    (hfresh : ∀ e ∈ eventWrites ws, ∀ e' ∈ db.eventLog, e'.id ≠ e.id) :
    ((kanban ι).applyAll db ws).eventLog = db.eventLog ++ eventWrites ws := by
  induction ws generalizing db with
  | nil => simp
  | cons a ws ih =>
      have hdel' : ∀ b ∈ ws, ∀ e, b ≠ .del (.event e) := fun b hb =>
        hdel b (List.mem_cons_of_mem _ hb)
      cases ha : eventWrite a with
      | none =>
          have hws : eventWrites (a :: ws) = eventWrites ws := List.filterMap_cons_none ha
          have hlog : (db.apply a).eventLog = db.eventLog := by
            rcases a with (r | r)
            · cases r <;> first | rfl | cases ha
            · cases r with
              | event e => exact absurd rfl (hdel _ List.mem_cons_self e)
              | _ => rfl
          rw [hws] at hids hfresh ⊢
          rw [Semantics.applyAll_cons, kanban_apply, ih hdel' hids (by rwa [hlog]), hlog]
      | some e =>
          have hws : eventWrites (a :: ws) = e :: eventWrites ws := List.filterMap_cons_some ha
          rw [hws] at hids hfresh ⊢
          obtain ⟨hnew, hids⟩ := List.nodup_cons.mp hids
          have hlog : (db.apply a).eventLog = db.eventLog ++ [e] := by
            rcases a with (r | r)
            · cases r with
              | event e' =>
                  cases ha
                  have hnone : ¬ db.eventLog.any (Db.eventLogT.same e) = true := by
                    intro hany
                    obtain ⟨e', he', hs⟩ := List.any_eq_true.mp hany
                    exact hfresh e List.mem_cons_self e' he' (by simpa [eq_comm] using hs)
                  exact if_neg hnone
              | _ => cases ha
            · cases r <;> cases ha
          rw [Semantics.applyAll_cons, kanban_apply, ih hdel' hids ?_, hlog, List.append_assoc,
            List.singleton_append]
          rw [hlog]
          intro e₁ he₁ e₂ he₂
          rcases List.mem_append.mp he₂ with he₂ | he₂
          · exact hfresh e₁ (List.mem_cons_of_mem _ he₁) e₂ he₂
          · rw [List.mem_singleton.mp he₂]
            intro heq
            exact hnew (List.mem_map.mpr ⟨e₁, he₁, heq.symm⟩)

theorem columns_applyAll {db : Db ι} {ws : List (Write (Rec ι))}
    (h : ∀ a ∈ ws, ∀ k, a.record ≠ .column k) :
    ((kanban ι).applyAll db ws).columns = db.columns := stored_columns.rows_applyAll h

/-! ## The change that a commit makes -/

/-- The ids that a call was issued, the latest first. -/
def newIds (tr : Trace (Rec ι) (Call ι) (Reply ι)) : List ι :=
  tr.filterMap fun
    | .called .newId id => some id
    | _ => none

omit [DecidableEq ι] in
theorem newIds_append {l tr : Trace (Rec ι) (Call ι) (Reply ι)} :
    newIds (l ++ tr) = newIds l ++ newIds tr := List.filterMap_append

omit [DecidableEq ι] in
theorem mem_newIds {tr : Trace (Rec ι) (Call ι) (Reply ι)} {id : ι} :
    id ∈ newIds tr ↔ .called .newId id ∈ tr := by
  unfold newIds
  rw [List.mem_filterMap]
  constructor
  · rintro ⟨e, he, heq⟩
    split at heq
    · cases heq
      exact he
    · cases heq
  · exact fun h => ⟨_, h, rfl⟩

/-- The write leaves a card that the call has read where it was. -/
def Reshuffles (tr : Trace (Rec ι) (Call ι) (Reply ι)) (a : Write (CardRow ι)) : Prop :=
  ∃ c, Saw tr (.card c) ∧ effectOf a = (c.id, some (c.boardId, c.columnId))

/-- The writes put the card of a change in its new place. -/
def Lands (change : Change ι) (l : List (Write (CardRow ι))) : Prop :=
  match change.target with
  | none => l = []
  | some target => l ≠ [] ∧ ∀ a ∈ l, effectOf a = target

/-- The call was issued the id of a card it creates, and has read any other card on the board it
comes from. -/
def Origin (tr : Trace (Rec ι) (Call ι) (Reply ι)) : Change ι → Prop
  | .stay => True
  | .create card _ _ => card ∈ newIds tr
  | .move card source _ _ => ∃ c, Saw tr (.card c) ∧ c.id = card ∧ c.boardId = source
  | .transfer card source _ _ => ∃ c, Saw tr (.card c) ∧ c.id = card ∧ c.boardId = source
  | .delete card source => ∃ c, Saw tr (.card c) ∧ c.id = card ∧ c.boardId = source

/-- The call has read the column that a card is put in, on the board it is put on. -/
def SawColumn (tr : Trace (Rec ι) (Call ι) (Reply ι)) (change : Change ι) : Prop :=
  ∀ card board column, change.target = some (card, some (board, column)) →
    ∃ k, Saw tr (.column k) ∧ k.id = column ∧ k.boardId = board

/-- The writes of a commit make the change: its events are written with it. -/
structure Makes (codec : IdCodec ι) (tr : Trace (Rec ι) (Call ι) (Reply ι))
    (ws : List (Write (Rec ι))) (change : Change ι) : Prop where
  cards : ∃ l l', cardWrites ws = l ++ l' ∧ (∀ a ∈ l, Reshuffles tr a) ∧ Lands change l'
  events : readEvents codec (eventWrites ws) = change.events
  ids : ((eventWrites ws).map EventRow.id).reverse.Sublist (newIds tr)
  keeps : ∀ a ∈ ws, (∀ k, a.record ≠ .column k) ∧ ∀ e, a ≠ .del (.event e)
  origin : Origin tr change
  column : SawColumn tr change

/-- A write of the commit is about the card. -/
def Touches (ws : List (Write (Rec ι))) (card : ι) : Prop :=
  ∃ a ∈ cardWrites ws, (effectOf a).1 = card

/-- What the call has read is still so when it commits: the cards it writes are on the boards it
has read them on, the cards it writes back are in their places, and the columns are there. The
ids it was issued are not in use. -/
structure Undisturbed (tr : Trace (Rec ι) (Call ι) (Reply ι)) (ws : List (Write (Rec ι)))
    (db : Db ι) : Prop where
  boards : ∀ c, Saw tr (.card c) → Touches ws c.id →
    (placeOf db c.id).map Prod.fst = some c.boardId
  places : ∀ c, Saw tr (.card c) →
    (∃ a ∈ cardWrites ws, effectOf a = (c.id, some (c.boardId, c.columnId))) →
    placeOf db c.id = some (c.boardId, c.columnId)
  columns : ∀ k, Saw tr (.column k) → columnBoard db k.id = some k.boardId
  ids : (newIds tr).Nodup
  newCard : ∀ id ∈ newIds tr, Touches ws id → placeOf db id = none
  newEvent : ∀ e ∈ eventWrites ws, e.id ∈ newIds tr → ∀ e' ∈ db.eventLog, e'.id ≠ e.id

section Decide

instance {ws : List (Write (Rec ι))} {card : ι} : Decidable (Touches ws card) :=
  inferInstanceAs (Decidable (∃ a ∈ cardWrites ws, (effectOf a).1 = card))

/-- What `Undisturbed` says of one row that was read. -/
def UndisturbedRow (ws : List (Write (Rec ι))) (db : Db ι) : Rec ι → Prop
  | .card c => (Touches ws c.id → (placeOf db c.id).map Prod.fst = some c.boardId) ∧
      ((∃ a ∈ cardWrites ws, effectOf a = (c.id, some (c.boardId, c.columnId))) →
        placeOf db c.id = some (c.boardId, c.columnId))
  | .column k => columnBoard db k.id = some k.boardId
  | _ => True

instance {ws : List (Write (Rec ι))} {db : Db ι} : DecidablePred (UndisturbedRow ws db)
  | .card _ => inferInstanceAs (Decidable (_ ∧ _))
  | .column _ => inferInstanceAs (Decidable (_ = _))
  | .project _ | .member _ | .refCounter _ | .board _ | .milestone _ | .label _ | .cardLabel _
  | .assignee _ | .checklistItem _ | .comment _ | .attachment _ | .dependency _
  | .githubLink _ | .idempotencyKey _ | .event _ | .aggregatedBoard _ | .source _ | .aggregatedMember _
  | .boardTemplate _ =>
      .isTrue trivial

theorem undisturbed_iff {tr : Trace (Rec ι) (Call ι) (Reply ι)} {ws : List (Write (Rec ι))}
    {db : Db ι} : Undisturbed tr ws db ↔ (∀ r ∈ tr.seen, UndisturbedRow ws db r) ∧
      (newIds tr).Nodup ∧ (∀ id ∈ newIds tr, Touches ws id → placeOf db id = none) ∧
      ∀ e ∈ eventWrites ws, e.id ∈ newIds tr → ∀ e' ∈ db.eventLog, e'.id ≠ e.id := by
  constructor
  · intro h
    refine ⟨fun r hr => ?_, h.ids, h.newCard, h.newEvent⟩
    rw [Trace.mem_seen] at hr
    cases r with
    | card c => exact ⟨h.boards c hr, h.places c hr⟩
    | column k => exact h.columns k hr
    | _ => trivial
  · rintro ⟨hrows, hids, hcard, hevent⟩
    exact ⟨fun c hc => (hrows _ (Trace.mem_seen.mpr hc)).1,
      fun c hc => (hrows _ (Trace.mem_seen.mpr hc)).2,
      fun k hk => hrows _ (Trace.mem_seen.mpr hk), hids, hcard, hevent⟩

instance {tr : Trace (Rec ι) (Call ι) (Reply ι)} {ws : List (Write (Rec ι))} {db : Db ι} :
    Decidable (Undisturbed tr ws db) := decidable_of_iff _ undisturbed_iff.symm

end Decide

section Refines

variable {codec : IdCodec ι} {tr : Trace (Rec ι) (Call ι) (Reply ι)} {db : Db ι}
  {ws : List (Write (Rec ι))} {change : Change ι} {p : Placement ι}

theorem write_append {l l' : List (Write (CardRow ι))} :
    p.write (l ++ l') = (p.write l).write l' := List.foldl_append

/-- Writes that leave the cards where they are. -/
theorem write_reshuffles {l : List (Write (CardRow ι))}
    (hl : ∀ a ∈ l, p (effectOf a).1 = (effectOf a).2) : p.write l = p := by
  induction l with
  | nil => rfl
  | cons a l ih =>
      have hsame : Function.update p (effectOf a).1 (effectOf a).2 = p := by
        rw [Function.update_eq_self_iff, hl a List.mem_cons_self]
      show Placement.write (Function.update p (effectOf a).1 (effectOf a).2) l = p
      rw [hsame]
      exact ih fun b hb => hl b (List.mem_cons_of_mem _ hb)

/-- Writes that put one card in its new place. -/
theorem write_lands {l : List (Write (CardRow ι))} (h : Lands change l) :
    p.write l = change.apply p := by
  unfold Lands at h
  unfold Change.apply
  cases htarget : change.target with
  | none =>
      rw [htarget] at h
      rw [show l = [] from h]
      rfl
  | some target =>
      rw [htarget] at h
      obtain ⟨hne, hall⟩ := h
      have key : ∀ l : List (Write (CardRow ι)), (∀ a ∈ l, effectOf a = target) →
          ∀ p : Placement ι, Placement.write (Function.update p target.1 target.2) l =
            Function.update p target.1 target.2 := by
        intro l
        induction l with
        | nil => exact fun _ _ => rfl
        | cons a l ih =>
            intro hl p
            show Placement.write (Function.update _ (effectOf a).1 (effectOf a).2) l = _
            rw [hl a List.mem_cons_self, Function.update_idem]
            exact ih (fun b hb => hl b (List.mem_cons_of_mem _ hb)) p
      cases l with
      | nil => exact absurd rfl hne
      | cons a l =>
          show Placement.write (Function.update p (effectOf a).1 (effectOf a).2) l = _
          rw [hall a List.mem_cons_self]
          exact key l (fun b hb => hall b (List.mem_cons_of_mem _ hb)) p

omit [DecidableEq ι] in
/-- The commit writes the card that changes its place. -/
theorem Makes.touches (h : Makes codec tr ws change) {card : ι} {place : Option (ι × ι)}
    (htarget : change.target = some (card, place)) : Touches ws card := by
  obtain ⟨l, l', hl, -, hland⟩ := h.cards
  unfold Lands at hland
  rw [htarget] at hland
  obtain ⟨hne, hall⟩ := hland
  obtain ⟨a, ha⟩ := List.exists_mem_of_ne_nil _ hne
  exact ⟨a, hl ▸ List.mem_append_right _ ha, by rw [hall a ha]⟩

/-- An undisturbed call finds the card where the change takes it from. -/
theorem Makes.fits (h : Makes codec tr ws change) (hu : Undisturbed tr ws db) :
    change.Fits (placeOf db) := by
  have horigin := h.origin
  have hsaw : ∀ card source place, change.target = some (card, place) →
      (∃ c, Saw tr (.card c) ∧ c.id = card ∧ c.boardId = source) →
      ∃ column, placeOf db card = some (source, column) := by
    rintro card source place htarget ⟨c, hc, rfl, rfl⟩
    obtain ⟨place, hplace, hboard⟩ := Option.map_eq_some_iff.mp (hu.boards c hc (h.touches htarget))
    exact ⟨place.2, hplace.trans (congrArg (fun b => some (b, place.2)) hboard)⟩
  cases change with
  | stay => trivial
  | create card board column => exact hu.newCard card horigin (h.touches rfl)
  | move card source board column => exact hsaw card source _ rfl horigin
  | transfer card source board column => exact hsaw card source _ rfl horigin
  | delete card source => exact hsaw card source _ rfl horigin

theorem Makes.columnsOf (h : Makes codec tr ws change) (hu : Undisturbed tr ws db) :
    change.ColumnsOf (hasColumn db) := by
  intro card b column htarget board
  obtain ⟨k, hk, rfl, rfl⟩ := h.column card b column htarget
  unfold hasColumn
  rw [hu.columns k hk]
  exact decide_eq_decide.mpr (by simp)

/-- **Refinement.**  The commit of an undisturbed call changes the rows of `cards` as its
change says, appends the events of the change to `event_log`, and leaves the columns alone. -/
theorem Makes.refines (h : Makes codec tr ws change) (hu : Undisturbed tr ws db) :
    placeOf ((kanban ι).applyAll db ws) = change.apply (placeOf db) ∧
      ((kanban ι).applyAll db ws).eventLog = db.eventLog ++ eventWrites ws ∧
      ((kanban ι).applyAll db ws).columns = db.columns := by
  refine ⟨?_, ?_, columns_applyAll fun a ha => (h.keeps a ha).1⟩
  · obtain ⟨l, l', hl, hsame, hland⟩ := h.cards
    have hkeep : (placeOf db).write l = placeOf db := by
      refine write_reshuffles fun a ha => ?_
      obtain ⟨c, hc, heff⟩ := hsame a ha
      rw [heff]
      exact hu.places c hc ⟨a, hl ▸ List.mem_append_left _ ha, heff⟩
    rw [placeOf_applyAll, hl, write_append, hkeep, write_lands hland]
  · refine eventLog_applyAll (fun a ha => (h.keeps a ha).2) ?_ fun e he e' he' => ?_
    · exact List.nodup_reverse.mp (hu.ids.sublist h.ids)
    · exact hu.newEvent e he (h.ids.subset (List.mem_reverse.mpr (List.mem_map_of_mem he))) e' he'

end Refines

end Kanban.Rpc
