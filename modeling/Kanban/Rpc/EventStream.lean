import Kanban.Rpc.CardService

/-!
# The event stream of a board

A client of a board has a snapshot of its cards and folds the events of the board.  In every run
of the calls of CardService the result is the set of rows that `cards` holds for the board, as
long as no call finds its card on another board than the one it has read it on, and no MoveCard
takes a card to a column of another board: such a move writes its only event for the board it
leaves, and the clients of the other board never learn of it.

## Main definitions

* `CardPool`, `cardStep` — the calls under way.
* `Faithful` — a turn that commits what is up to date, and leaves no board by a MoveCard.
* `eventStream_complete` — the snapshot and the events give the rows.
-/

namespace Kanban.Rpc

open Program Kanban.Store Kanban.Auth
open Kanban.Services (AuthContext ConnectError IdCodec)

variable {ι : Type} [DecidableEq ι]

/-- The calls of CardService that are under way. -/
abbrev CardPool (ι : Type) :=
  Pool (RequestContext × CardCall) (Db ι) (Rec ι) (Call ι) (Reply ι) (Backend ι) ConnectError
    CardReply

/-- One step of the calls. -/
def cardStep (codec : IdCodec ι) (pages : ℕ) :
    CardPool ι → Turn (RequestContext × CardCall) (Move ι) → Option (CardPool ι) :=
  Pool.step (kanban ι) fun q => cardHandler codec pages q.1 q.2

/-- The column of a MoveCard is on the board of its card. -/
def KeepsBoard (codec : IdCodec ι) (db : Db ι) (objectId : Option String) : CardCall → Prop
  | .moveCard req => ∀ card ∈ objectId.bind codec.parse, ∀ column ∈ codec.parse req.toColumnId,
      ∀ place ∈ placeOf db card, hasColumn db place.1 column
  | _ => True

/-- What a call commits is up to date, and leaves no board by a MoveCard. -/
def Faithful (codec : IdCodec ι) (P : CardPool ι)
    (a : Turn (RequestContext × CardCall) (Move ι)) : Prop :=
  ∀ c ∈ P.commitOf (kanban ι) a, Undisturbed c.2.1 c.2.2 P.world.store ∧
    KeepsBoard codec P.world.store c.1.1.checked c.1.2

instance {codec : IdCodec ι} {db : Db ι} {objectId : Option String} {call : CardCall} :
    Decidable (KeepsBoard codec db objectId call) := by
  unfold KeepsBoard
  split <;> infer_instance

instance {codec : IdCodec ι} {P : CardPool ι} {a : Turn (RequestContext × CardCall) (Move ι)} :
    Decidable (Faithful codec P a) :=
  inferInstanceAs (Decidable (∀ c ∈ P.commitOf (kanban ι) a, _ ∧ _))

/-- A MoveCard that keeps its board does not leave it. -/
theorem KeepsBoard.not_leavesBoard {codec : IdCodec ι} {db : Db ι} {objectId : Option String}
    {req : MoveCardRequest} {tr : Trace (Rec ι) (Call ι) (Reply ι)} {ws : List (Write (Rec ι))}
    {card source board column : ι} (h : KeepsBoard codec db objectId (.moveCard req))
    (hmakes : Makes codec tr ws (.move card source board column)) (hu : Undisturbed tr ws db)
    (hcard : objectId.bind codec.parse = some card)
    (hcolumn : codec.parse req.toColumnId = some column) : source = board := by
  obtain ⟨old, hplace⟩ := hmakes.fits hu
  have htarget : hasColumn db source column = true := h card hcard column hcolumn _ hplace
  rw [hmakes.columnsOf hu card board column rfl] at htarget
  exact (of_decide_eq_true htarget).symm

section Steps

variable {codec : IdCodec ι} {pages : ℕ} {P₀ P₁ P P' : CardPool ι}
  {turns turns₁ : List (Turn (RequestContext × CardCall) (Move ι))}
  {a : Turn (RequestContext × CardCall) (Move ι)}
  {C : CardPool ι → Turn (RequestContext × CardCall) (Move ι) → Prop}

/-- A faithful turn does nothing to the store, or it makes a change that leaves no board. -/
theorem faithful_cases (hrun : Machine.ExecWhile (cardStep codec pages) C P₀ turns P)
    (h₀ : P₀.calls = []) (hs : cardStep codec pages P a = some P') (hf : Faithful codec P a) :
    P'.world.store = P.world.store ∨
    ∃ past ws change, Makes codec past ws change ∧ Undisturbed past ws P.world.store ∧
      ¬ change.LeavesBoard ∧ P'.world.store = (kanban ι).applyAll P.world.store ws := by
  rcases Pool.committed
    (fun q : RequestContext × CardCall => @runs_cardHandler _ _ codec pages q.1 [] q.2) hrun h₀ hs with hsame | ⟨q, past, ws, hcommit, ⟨change, hmakes,
      hadmits⟩, happly⟩
  · exact .inl hsame
  · obtain ⟨hu, hkeeps⟩ := hf _ hcommit
    refine .inr ⟨past, ws, change, hmakes, hu, ?_, happly⟩
    cases change with
    | move card source board column =>
        obtain ⟨req, hcall, hcard, hcolumn⟩ := hadmits
        rw [hcall] at hkeeps
        exact fun hne => hne (hkeeps.not_leavesBoard hmakes hu hcard hcolumn)
    | stay => exact id
    | create card board column => exact id
    | transfer card source board column => exact id
    | delete card source => exact id

/-- **One step.**  The event rows that a faithful turn appends tell the clients of every board
what the turn does to the cards. -/
theorem faithful_tells (hrun : Machine.ExecWhile (cardStep codec pages) C P₀ turns P)
    (h₀ : P₀.calls = []) (hs : cardStep codec pages P a = some P') (hf : Faithful codec P a) :
    P'.world.store.columns = P.world.store.columns ∧
    ∃ rows, P'.world.store.eventLog = P.world.store.eventLog ++ rows ∧
      ∀ board, foldBoard (hasColumn P.world.store) board ((placeOf P.world.store).view board)
        (readEvents codec rows) = (placeOf P'.world.store).view board := by
  rcases faithful_cases hrun h₀ hs hf with hsame | ⟨past, ws, change, hmakes, hu, hstays, happly⟩
  · rw [hsame]
    exact ⟨rfl, [], (List.append_nil _).symm, fun _ => rfl⟩
  · obtain ⟨hplace, hlog, hcolumns⟩ := hmakes.refines hu
    rw [happly, hplace, hlog, hcolumns]
    refine ⟨rfl, _, rfl, fun board => ?_⟩
    rw [hmakes.events]
    exact (Change.tells_iff (hmakes.fits hu) (hmakes.columnsOf hu)).mpr hstays board

/-- Keys stay distinct. -/
theorem keyed_of_run (hrun : Machine.ExecWhile (cardStep codec pages) (Faithful codec) P₀ turns P)
    (h₀ : P₀.calls = []) (hkeys : Keyed P₀.world.store) : Keyed P.world.store := by
  induction hrun with
  | nil => exact hkeys
  | snoc hrun hf hs ih =>
      rcases faithful_cases hrun h₀ hs hf with hsame | ⟨past, ws, change, -, -, -, happly⟩
      · rw [hsame]
        exact ih
      · rw [happly]
        exact ih.applyAll ws

/-- A client that folds the events learns every change of its board. -/
theorem fold_of_run (hrun₁ : Machine.ExecWhile (cardStep codec pages) (Faithful codec) P₀ turns₁ P₁)
    (hrun : Machine.ExecWhile (cardStep codec pages) (Faithful codec) P₁ turns P)
    (h₀ : P₀.calls = []) :
    P.world.store.columns = P₁.world.store.columns ∧
    ∃ rows, P.world.store.eventLog = P₁.world.store.eventLog ++ rows ∧
      ∀ board, foldBoard (hasColumn P₁.world.store) board ((placeOf P₁.world.store).view board)
        (readEvents codec rows) = (placeOf P.world.store).view board := by
  induction hrun with
  | nil => exact ⟨rfl, [], (List.append_nil _).symm, fun _ => rfl⟩
  | @snoc tr P a P' hrun hf hs ih =>
      obtain ⟨hcolumns, rows, hlog, hfold⟩ := ih
      obtain ⟨hcolumns', rows', hlog', hfold'⟩ := faithful_tells (hrun₁.trans hrun) h₀ hs hf
      have hsame : hasColumn P.world.store = hasColumn P₁.world.store := by
        unfold hasColumn columnBoard
        rw [hcolumns]
      refine ⟨hcolumns'.trans hcolumns, rows ++ rows', by rw [hlog', hlog, List.append_assoc],
        fun board => ?_⟩
      have happend : readEvents codec (rows ++ rows') =
          readEvents codec rows ++ readEvents codec rows' := List.filterMap_append
      rw [happend, foldBoard_append, hfold board, ← hsame]
      exact hfold' board

/-- **The event stream of a board.**  Take a snapshot of a board at any point of a run whose
turns are faithful.  Folding the events of the board that were written since gives the rows that
`cards` holds for the board; and a turn that adds a card to a board or takes one off it appends a
row for this board that is about this card. -/
theorem eventStream_complete (h₀ : P₀.calls = []) (hkeys : Keyed P₀.world.store)
    (hrun₁ : Machine.ExecWhile (cardStep codec pages) (Faithful codec) P₀ turns₁ P₁)
    (hrun : Machine.ExecWhile (cardStep codec pages) (Faithful codec) P₁ turns P) :
    (∃ rows, P.world.store.eventLog = P₁.world.store.eventLog ++ rows ∧ ∀ board card column,
      foldBoard (hasColumn P₁.world.store) board ((placeOf P₁.world.store).view board)
        (readEvents codec rows) card = some column ↔
      ∃ c ∈ P.world.store.cards, c.id = card ∧ c.boardId = board ∧ c.columnId = column) ∧
    ∀ a P', Faithful codec P a → cardStep codec pages P a = some P' →
      ∃ rows, P'.world.store.eventLog = P.world.store.eventLog ++ rows ∧ ∀ board card,
        (placeOf P'.world.store).view board card ≠ (placeOf P.world.store).view board card →
        ∃ e ∈ rows, e.boardId = some board ∧
          ∃ event, readEvent codec e = some (board, event) ∧ event.card = card := by
  refine ⟨?_, fun a P' hf hs => ?_⟩
  · obtain ⟨-, rows, hlog, hfold⟩ := fold_of_run hrun₁ hrun h₀
    refine ⟨rows, hlog, fun board card column => ?_⟩
    rw [hfold board]
    exact view_placeOf_eq_some (keyed_of_run (hrun₁.trans hrun) h₀ hkeys)
  · obtain ⟨-, rows, hlog, hfold⟩ := faithful_tells (hrun₁.trans hrun) h₀ hs hf
    refine ⟨rows, hlog, fun board card hne => ?_⟩
    rw [← hfold board] at hne
    obtain ⟨event, hevent, hcard⟩ := exists_event_of_fold_ne hne
    obtain ⟨e, he, hread⟩ := List.mem_filterMap.mp hevent
    exact ⟨e, he, boardId_of_readEvent hread, event, hread, hcard⟩

end Steps

/-- Two boards of one project, with one card on the first. -/
def twoBoards : World (Db String) (Backend String) where
  store := { Db.empty with
    projects := [⟨"p", "t", "Roadmap", "ROAD", "ROAD", "", "user:ann"⟩]
    projectRefCounter := [⟨"p", "t", "ROAD", 2⟩]
    boards := [⟨"a", "t", "p", "A", "a", "", none, "private", 0⟩,
      ⟨"b", "t", "p", "B", "b", "", none, "private", 0⟩]
    columns := [⟨"a1", "t", "a", "Todo", none, none, 0, false⟩,
      ⟨"b1", "t", "b", "Todo", none, none, 0, false⟩]
    cards := [⟨"c", "t", "p", "a", "a1", "ROAD-001", "Ship", none, 0, "medium", "medium", none,
      none, false, none, none, "user:ann", 0⟩] }
  ext := Backend.empty

/-- A member of the project moves the card to a column. -/
def moveTo (column : String) : RequestContext × CardCall :=
  ⟨⟨some ⟨some "t", some "user:cal"⟩, some "c", 0⟩, .moveCard ⟨column, 1, ""⟩⟩

/-- The four reads, and the transaction. -/
def moveToB : List (Turn (RequestContext × CardCall) (Move String)) :=
  .arrive (moveTo "b1") :: [.ok, .ok, .ok, .ok, .ok, .ok, .ok, .ok, .ok, .move (.fresh "e"), .ok,
    .ok, .ok].map (.act 0)

/-- A card is created on the second board, and the card of the first one is deleted. -/
def createAndDelete : List (Turn (RequestContext × CardCall) (Move String)) :=
  .arrive (⟨some ⟨some "t", some "user:cal"⟩, some "b", 0⟩,
      .createCard ⟨"b1", "Sail", "", 0, none, "", 0, "", 0⟩) ::
    .arrive (⟨some ⟨some "t", some "user:cal"⟩, some "c", 0⟩, .deleteCard) ::
    ([.ok, .ok, .ok, .ok, .ok, .move (.fresh "d"), .ok, .ok].map (.act 0) ++
      [.ok, .ok, .ok, .ok, .move (.fresh "e"), .ok, .ok, .ok].map (.act 1) ++
      [.ok, .move (.fresh "f"), .ok, .ok, .ok].map (.act 0))

theorem eventStream_complete_createAndDelete :
    ∃ P, Machine.ExecWhile (cardStep textIds 1) (Faithful textIds) (Pool.idle twoBoards)
        createAndDelete P ∧
      (∃ rows, P.world.store.eventLog = rows ∧ ∀ board card column,
        foldBoard (hasColumn twoBoards.store) board ((placeOf twoBoards.store).view board)
          (readEvents textIds rows) card = some column ↔
        ∃ c ∈ P.world.store.cards, c.id = card ∧ c.boardId = board ∧ c.columnId = column) ∧
      P.world.store.eventLog.map (readEvent textIds) =
        [some ("a", .deleted "c"), some ("b", .created "d" "b1")] := by
  obtain ⟨P, hP, hlog⟩ : ∃ P, Machine.run (Machine.guarded (cardStep textIds 1) (Faithful textIds))
      (Pool.idle twoBoards) createAndDelete = some P ∧
      P.world.store.eventLog.map (readEvent textIds) =
        [some ("a", .deleted "c"), some ("b", .created "d" "b1")] := ⟨_, rfl, rfl⟩
  have hrun := Machine.execWhile_of_run hP
  obtain ⟨⟨rows, hrows, hall⟩, -⟩ := eventStream_complete rfl (by decide) .nil hrun
  exact ⟨P, hrun, ⟨rows, hrows, hall⟩, hlog⟩

theorem eventStream_not_complete :
    ∃ P, Machine.Exec (cardStep textIds 1) (Pool.idle twoBoards) moveToB P ∧
      Keyed twoBoards.store ∧
      ¬ ∃ rows, P.world.store.eventLog = twoBoards.store.eventLog ++ rows ∧
        ∀ board card column, foldBoard (hasColumn twoBoards.store) board
          ((placeOf twoBoards.store).view board) (readEvents textIds rows) card = some column ↔
        ∃ c ∈ P.world.store.cards, c.id = card ∧ c.boardId = board ∧ c.columnId = column := by
  obtain ⟨P, hP, row, hlog, hcards, hfold⟩ : ∃ P, Machine.run (cardStep textIds 1)
      (Pool.idle twoBoards) moveToB = some P ∧ ∃ row, P.world.store.eventLog = [row] ∧
      (∃ c ∈ P.world.store.cards, c.id = "c" ∧ c.boardId = "b" ∧ c.columnId = "b1") ∧
      foldBoard (hasColumn twoBoards.store) "b" ((placeOf twoBoards.store).view "b")
        (readEvents textIds [row]) "c" = none :=
    ⟨_, rfl, _, rfl, by decide, rfl⟩
  refine ⟨P, Machine.exec_of_run hP, by decide, ?_⟩
  rintro ⟨rows, hrows, hall⟩
  have hrow : rows = [row] := hrows.symm.trans hlog
  rw [hrow] at hall
  have hsome := (hall "b" "c" "b1").mpr hcards
  rw [hfold] at hsome
  cases hsome

end Kanban.Rpc
