import Kanban.Rpc.CardOrder

/-!
# What the calls on cards do to the columns

A call that creates, moves, transfers or deletes a card and runs alone leaves the cards as they
are, or it does to them what its request asks for: it is known which shifts it makes, where it puts
the card, and that no position overflows.

## Main definitions

* `OrderingCall`, `orderingHandler` — the calls.
* `Effects` — what a call does to the cards when it goes through.
* `Replayed` — the key of the call is stored, so that it does nothing.
* `solo_orderingHandler` — a call that runs alone.
-/

namespace Kanban.Rpc

open Program Kanban.Store Kanban.Auth
open Kanban.Services (AuthContext ConnectError IdCodec)

variable {ι α β : Type} [DecidableEq ι]

/-- A call that creates, moves or deletes a card. -/
inductive OrderingCall
  | createCard (req : CreateCardRequest)
  | moveCard (req : MoveCardRequest)
  | transferCard (req : TransferCardRequest)
  | deleteCard
  deriving DecidableEq, Repr

/-- The handler of a call, without its response. -/
def orderingHandler (codec : IdCodec ι) (pages : ℕ) (q : RequestContext × OrderingCall) :
    Handler ι Unit :=
  match q.2 with
  | .createCard req => (createCard codec q.1 req).bind fun _ => .pure ()
  | .moveCard req => (moveCard codec pages q.1 req).bind fun _ => .pure ()
  | .transferCard req => (transferCard codec pages q.1 req).bind fun _ => .pure ()
  | .deleteCard => deleteCard codec pages q.1

/-- The idempotency key of a call. -/
def OrderingCall.key : OrderingCall → String
  | .createCard req => req.idempotencyKey
  | .moveCard req => req.idempotencyKey
  | .transferCard req => req.idempotencyKey
  | .deleteCard => ""

/-- The position that a move asks for, counted from 0. -/
def MoveCardRequest.toPos (req : MoveCardRequest) : ℤ :=
  if req.toPosition < 1 then 0 else req.toPosition - 1

/-- The position of a new card. -/
def insertedPosition (tenantId : String) (columnId : ι) (position : ℤ) (cards : List (CardRow ι)) :
    ℤ :=
  if position = 0 then Shelf.top (columnShelf cards tenantId columnId) else position

/-- The key of the call is stored with a card. -/
def Replayed (db : Db ι) (q : RequestContext × OrderingCall) : Prop :=
  ∃ t, q.1.auth.bind AuthContext.tenantId = some t ∧ (keyCard db t q.2.key).isSome

/-- The call puts the card `row` among the others, after the shifts. -/
inductive PutsCard (codec : IdCodec ι) (q : RequestContext × OrderingCall) (tenantId : String)
    (cards : List (CardRow ι)) : List (Shift ι) → CardRow ι → Prop
  | create {row : CardRow ι} (req : CreateCardRequest) (hq : q.2 = .createCard req)
      (hcolumn : codec.parse req.columnId = some row.columnId)
      (hnew : ∀ c ∈ cards, c.id ≠ row.id)
      (hpos : row.position = insertedPosition tenantId row.columnId req.position cards)
      (hfits : req.position = 0 → (int4 row.position).isSome) :
      PutsCard codec q tenantId cards (insertShifts row.columnId req.position) row
  | move {row card : CardRow ι} (req : MoveCardRequest) (hq : q.2 = .moveCard req)
      (hobject : q.1.checked.bind codec.parse = some card.id)
      (hcolumn : codec.parse req.toColumnId = some row.columnId)
      (hcard : card ∈ cards) (htenant : card.tenantId = tenantId) (hid : row.id = card.id)
      (hpos : row.position = req.toPos) :
      PutsCard codec q tenantId cards (moveShifts card row.columnId req.toPos) row
  | transfer {row : CardRow ι} (req : TransferCardRequest) (hq : q.2 = .transferCard req)
      (hobject : q.1.checked.bind codec.parse = some row.id)
      (hcolumn : codec.parse req.targetColumnId = some row.columnId)
      (hcard : ∃ c ∈ cards, c.id = row.id ∧ c.tenantId = tenantId)
      (hpos : row.position = Shelf.top (columnShelf cards tenantId row.columnId))
      (hfits : (int4 row.position).isSome) :
      PutsCard codec q tenantId cards [] row

/-- What a call does to the cards when it goes through. -/
inductive Effects (codec : IdCodec ι) (q : RequestContext × OrderingCall)
    (cards cards' : List (CardRow ι)) : Prop
  | put {tenantId : String} {shifts : List (Shift ι)} {row : CardRow ι}
      (htenant : q.1.auth.bind AuthContext.tenantId = some tenantId)
      (hq : PutsCard codec q tenantId cards shifts row)
      (hputs : Puts tenantId shifts row cards cards')
  | delete {cardId : ι} (hq : q.2 = .deleteCard)
      (hobject : q.1.checked.bind codec.parse = some cardId)
      (hcards : cards' = otherCards cards cardId)

/-! ## Parts of transactions -/

section Parts

variable {t msg : String} {K x : ι} {v : Db ι}

/-- A statement on the cards leaves the columns alone. -/
theorem columns_of_within {st : Stmt (Db ι) (Rec ι) α} {e : Effect (Rec ι) α}
    (hs : Db.cardsT.Within st) (he : st v = some e) :
    ((kanban ι).applyAll v e.writes).columns = v.columns := by
  refine stored_columns.rows_applyAll fun a ha k heq => ?_
  obtain ⟨c, rfl | rfl⟩ := hs v e he a ha <;> cases heq

theorem soloTx_shiftCards {p : ℤ → Bool} {delta : ℤ} (hv : Keyed v) :
    SoloTx (kanban ι) (query msg (shiftCards t K p delta)) v fun _ v' =>
      v'.cards = Shift.apply ⟨K, p, delta⟩ t v.cards ∧ Shift.Fits ⟨K, p, delta⟩ t v.cards ∧
        Keyed v' ∧ v'.columns = v.columns :=
  soloTx_query fun _ he => ⟨(cards_shiftCards hv he).1, (cards_shiftCards hv he).2, hv.applyAll _,
    columns_of_within Table.within_updateChecked he⟩

/-- A shift of another column leaves a shift as it is. -/
theorem Shift.fits_apply {s s' : Shift ι} {cards : List (CardRow ι)}
    (hne : s.columnId ≠ s'.columnId) : s.Fits t (s'.apply t cards) ↔ s.Fits t cards := by
  unfold Shift.Fits Shift.apply
  rw [List.forall_mem_map]
  refine forall₂_congr fun c _ => ?_
  split
  · rename_i hc
    exact iff_of_true (fun h => absurd (h.1.symm.trans hc.1) hne)
      fun h => absurd (h.1.symm.trans hc.1) hne
  · exact Iff.rfl

theorem soloTx_shiftForMove {card : CardRow ι} {toPos : ℤ} (hv : Keyed v) :
    SoloTx (kanban ι) (shiftForMove t card K toPos) v fun _ v' =>
      v'.cards = shiftAll t (moveShifts card K toPos) v.cards ∧
        (∀ s ∈ moveShifts card K toPos, s.Fits t v.cards) ∧ Keyed v' ∧ v'.columns = v.columns := by
  have hone : ∀ {msg : String} (s : Shift ι), SoloTx (kanban ι) ((query msg (shiftCards t s.columnId
      s.range s.delta)).bind fun _ => (.pure () : Handler ι Unit)) v fun _ v' =>
        v'.cards = shiftAll t [s] v.cards ∧ (∀ s' ∈ [s], s'.Fits t v.cards) ∧ Keyed v' ∧
          v'.columns = v.columns := fun s =>
    soloTx_bind ((soloTx_shiftCards hv).mono fun _ v' ⟨hcards, hfits, hkeyed, hcolumns⟩ =>
      soloTx_pure ⟨hcards, by simpa using hfits, hkeyed, hcolumns⟩)
  unfold shiftForMove moveShifts
  split
  · split
    · exact soloTx_pure ⟨rfl, nofun, hv, rfl⟩
    · split
      · exact hone ⟨card.columnId, fun p => card.position < p ∧ p ≤ toPos, -1⟩
      · exact hone ⟨card.columnId, fun p => toPos ≤ p ∧ p < card.position, 1⟩
  · rename_i hK
    refine soloTx_bind ((soloTx_shiftCards hv).mono fun _ v₁ ⟨hcards₁, hfits₁, hkeyed₁, hcols₁⟩ => ?_)
    refine soloTx_bind ((soloTx_shiftCards hkeyed₁).mono
      fun _ v₂ ⟨hcards₂, hfits₂, hkeyed₂, hcols₂⟩ => ?_)
    refine soloTx_pure ⟨?_, ?_, hkeyed₂, hcols₂.trans hcols₁⟩
    · rw [hcards₂, hcards₁]
      rfl
    · rw [hcards₁] at hfits₂
      simp only [List.mem_cons, List.not_mem_nil, or_false, forall_eq_or_imp, forall_eq]
      exact ⟨hfits₁, (Shift.fits_apply fun heq => hK heq.symm).mp hfits₂⟩

/-- The row of a card is changed. -/
theorem soloTx_updateCardRow {f : CardRow ι → CardRow ι} (hv : Keyed v) (hf : ∀ c, (f c).id = c.id) :
    SoloTx (kanban ι) (fetchOne msg (updateCardRow t x f)) v fun row v' =>
      v'.columns = v.columns ∧ ∃ c ∈ v.cards, c.id = x ∧ c.tenantId = t ∧ row = f c ∧
        v'.cards.Perm (row :: otherCards v.cards x) :=
  soloTx_fetchOne fun _ _ he hrow =>
    ⟨columns_of_within Table.within_update he, cards_updateCardRow hv he hf hrow⟩

theorem soloTx_insertCard {row : CardRow ι} :
    SoloTx (kanban ι) (query msg (insertCard row)) v fun _ v' =>
      v'.columns = v.columns ∧ v'.cards.Perm (row :: otherCards v.cards row.id) ∧
        ∀ c ∈ v.cards, c.id ≠ row.id :=
  soloTx_query fun _ he => by
    refine ⟨columns_of_within (fun w e he => ?_) he, cards_insertCard he⟩
    unfold insertCard at he
    split at he
    · cases he
    · exact Table.within_insert w e he

theorem Careful.scrubLabels {projectId : ι} :
    Careful (Rpc.query msg (Rpc.scrubLabels x projectId)) :=
  .query_of_within (T := Db.cardLabelsT) (fun _ => ⟨trivial, trivial⟩)
    fun db => Table.within_delete db

/-- The position after the cards of a column, as the statement computes it. -/
theorem top_columnShelf {cards : List (CardRow ι)} : Shelf.top (columnShelf cards t K) =
    (((cards.filter fun c => c.columnId = K ∧ c.tenantId = t).map CardRow.position).max?).getD (-1) +
      1 := by
  unfold Shelf.top columnShelf
  rw [List.map_map]
  rfl

theorem nextPosition_eq {e : Effect (Rec ι) ℤ} (he : nextPosition t K v = some e) :
    e.answer = Shelf.top (columnShelf v.cards t K) ∧ (int4 e.answer).isSome := by
  obtain ⟨n, hn, rfl⟩ := Option.map_eq_some_iff.mp he
  rw [← top_columnShelf] at hn
  have heq := int4_eq_some hn
  exact ⟨heq, by rw [heq, hn]; rfl⟩

theorem soloTx_nextPosition : SoloTx (kanban ι) (query msg (nextPosition t K)) v fun n v' =>
    n = Shelf.top (columnShelf v.cards t K) ∧ (int4 n).isSome ∧ v' = v :=
  soloTx_query fun e he => by
    obtain ⟨htop, hint⟩ := nextPosition_eq he
    rw [silent_nextPosition _ _ he]
    exact ⟨htop, hint, rfl⟩

theorem soloTx_deleteCardRow (hv : Keyed v) :
    SoloTx (kanban ι) (query msg (deleteCardRow t x)) v fun deleted v' =>
      v'.columns = v.columns ∧ (deleted ≠ [] → v'.cards = otherCards v.cards x) :=
  soloTx_query fun _ he => by
    refine ⟨stored_columns.rows_applyAll fun a ha k heq => ?_, cards_deleteCardRow hv he⟩
    obtain rfl := deleteCardRow_some he
    rcases List.mem_append.mp ha with ha | ha
    · obtain ⟨c, -, rfl⟩ := List.mem_map.mp ha
      cases heq
    · obtain ⟨r, hr, rfl⟩ := List.mem_map.mp ha
      obtain rfl : r = .column k := heq
      split at hr
      · cases hr
      · simp [cardChildren] at hr

end Parts

/-! ## The handlers -/

/-- The row of a new card in a column. -/
structure NewRow (now : ℤ) (req : CreateCardRequest) (tenantId : String) (column : ColumnRow ι)
    (cards : List (CardRow ι)) (row : CardRow ι) : Prop where
  columnId_eq : row.columnId = column.id
  fresh : ∀ c ∈ cards, c.id ≠ row.id
  position : row.position = insertedPosition tenantId column.id req.position cards
  fits : req.position = 0 → (int4 row.position).isSome
  completed : row.completedAt = if column.isDone then some now else none

/-- The row of a card that was put in another column. -/
structure PlacedRow (now : ℤ) (card : CardRow ι) (target : ColumnRow ι) (fromIsDone : Bool)
    (row : CardRow ι) : Prop where
  id_eq : row.id = card.id
  columnId_eq : row.columnId = target.id
  completed : row.completedAt =
    completedAfter now (fromIsDone && !target.isDone) target.isDone card.completedAt

/-- The done marker that a call reads for the column that a card comes from: that of the target if
it is the same column. -/
def ReadsDone (columns : List (ColumnRow ι)) (tenantId : String) (columnId : ι)
    (target : ColumnRow ι) (fromIsDone : Bool) : Prop :=
  columnId = target.id ∧ fromIsDone = target.isDone ∨
    fromIsDone = ((columns.filter fun k => k.id = columnId ∧ k.tenantId = tenantId).head?).elim false
      ColumnRow.isDone

section Handlers

variable {codec : IdCodec ι} {pages : ℕ} {ctx : RequestContext} {db v : Db ι}
  {P : Shelves ι → Prop}

/-- The transaction of a new card. -/
theorem solo_insertNewCard {subject t : String} {board : BoardRow ι} {column : ColumnRow ι}
    {req : CreateCardRequest} (hv : Keyed v)
    (hP : ∀ sh : Shelves ι, ∀ row : CardRow ι, sh.columns = v.columns →
      NewRow ctx.now req t column v.cards row →
      Puts t (insertShifts column.id req.position) row v.cards sh.cards → P sh) :
    Solo (kanban ι) (fun v => P v.shelves)
      (insertNewCard codec ctx subject t board column req) .idle v fun cardId tx v' =>
        tx = .idle ∧ P v'.shelves ∧ ∀ c ∈ v'.cards, c.id = cardId → c.boardId = board.id := by
  -- the insertion, where the shifts have left the cards `v₁.cards`
  have hinsert : ∀ {v₁ : Db ι} (cardId : ι) (cardRef : String) (position : ℤ),
      v₁.columns = v.columns → v₁.cards = shiftAll t (insertShifts column.id req.position) v.cards →
      (∀ s ∈ insertShifts column.id req.position, s.Fits t v.cards) →
      position = insertedPosition t column.id req.position v.cards →
      (req.position = 0 → (int4 position).isSome) →
      SoloIn (kanban ι) (fun v => P v.shelves) ((checkMilestone codec t board.projectId
        req.milestoneId).bind fun milestoneId => (query "failed to insert card" (insertCard
          (newCardRow ctx subject t board column req cardId cardRef position milestoneId))).bind
        fun _ => (insertBoardEvent t board.id "CardCreated" (cardCreated codec (newCardRow ctx subject
          t board column req cardId cardRef position milestoneId) req.idempotencyKey)).bind
        fun _ => (commitTx "commit failed").bind fun _ => .pure cardId) v v₁ fun cardId tx v' =>
          tx = .idle ∧ P v'.shelves ∧ ∀ c ∈ v'.cards, c.id = cardId → c.boardId = board.id := by
    intro v₁ cardId cardRef position hcols hcards hfits hpos hint
    refine Careful.checkMilestone.soloTx.bind_soloIn fun milestoneId v₂ h₂ => ?_
    refine soloTx_insertCard.bind_soloIn fun _ v₃ ⟨hcols₃, hperm, hfresh⟩ => ?_
    refine Careful.insertBoardEvent.soloTx.bind_soloIn fun _ v₄ h₄ => ?_
    have hcols₄ : v₄.shelves.columns = v.columns := by
      rw [h₄]
      exact hcols₃.trans ((congrArg Shelves.columns h₂).trans hcols)
    have hcards₂ : v₂.cards = shiftAll t (insertShifts column.id req.position) v.cards :=
      (congrArg Shelves.cards h₂).trans hcards
    have hnew : ∀ c ∈ v.cards, c.id ≠ cardId := forall_ne_insertShifts.mp (hcards₂ ▸ hfresh)
    have hputs : Puts t (insertShifts column.id req.position) (newCardRow ctx subject t board column
        req cardId cardRef position milestoneId) v.cards v₄.shelves.cards := by
      refine ⟨rfl, hfits, ?_⟩
      rw [← hcards₂, h₄]
      exact hperm
    have hdone : P v₄.shelves := hP _ _ hcols₄ ⟨rfl, hnew, hpos, hint, rfl⟩ hputs
    refine soloIn_commitTx_bind hdone (solo_pure ⟨rfl, hdone, fun c hc hid => ?_⟩)
    have hcards₄ : v₄.cards = v₃.cards := congrArg Shelves.cards h₄
    rcases List.mem_cons.mp (hperm.mem_iff.mp (hcards₄ ▸ hc)) with rfl | hother
    · rfl
    · exact absurd hid (of_decide_eq_true (List.mem_filter.mp hother).2)
  unfold insertNewCard
  refine solo_beginTx_bind (Careful.allocateCardRef.soloTx.bind_soloIn fun cardRef v₁ h₁ => ?_)
  refine Careful.newId.soloTx.bind_soloIn fun cardId v₂ h₂ => ?_
  have hcards₂ : v₂.cards = v.cards := congrArg Shelves.cards (h₂.trans h₁)
  have hcols₂ : v₂.columns = v.columns := congrArg Shelves.columns (h₂.trans h₁)
  have hv₂ : Keyed v₂ := by
    unfold Keyed
    rw [hcards₂]
    exact hv
  unfold insertPosition
  unfold insertShifts insertedPosition at hinsert
  by_cases hzero : req.position = 0
  · rw [if_pos hzero] at hinsert ⊢
    rintro ws rfl
    refine solo_stmt_active (fun e he => ?_) ?_
    · obtain ⟨htop, hint⟩ := nextPosition_eq he
      rw [hcards₂] at htop
      rw [silent_nextPosition _ _ he, List.append_nil]
      exact hinsert cardId cardRef _ hcols₂ hcards₂ nofun (htop.trans (if_pos hzero).symm)
        (fun _ => hint) ws rfl
    · -- the transaction is aborted, so that the insertion fails
      refine solo_bind (solo_pure (solo_bind ((Solo.of_only_aborted Tame.checkMilestone).mono ?_)))
      rintro milestoneId tx v' ⟨rfl, rfl⟩
      exact solo_stmt_aborted solo_fail
  · rw [if_neg hzero] at hinsert ⊢
    refine SoloTx.bind_soloIn (B := fun position v₃ => position = req.position ∧
        v₃.cards = Shift.apply ⟨column.id, fun p => req.position ≤ p, 1⟩ t v₂.cards ∧
        Shift.Fits ⟨column.id, fun p => req.position ≤ p, 1⟩ t v₂.cards ∧ v₃.columns = v₂.columns)
      (soloTx_bind ((soloTx_shiftCards hv₂).mono fun _ v₃ h => soloTx_pure ⟨rfl, h.1, h.2.1, h.2.2.2⟩))
      fun position v₃ h => ?_
    obtain ⟨rfl, hcards₃, hfits, hcols₃⟩ := h
    rw [hcards₂] at hcards₃ hfits
    exact hinsert cardId cardRef _ (hcols₃.trans hcols₂) hcards₃ (by simpa using hfits)
      (if_neg hzero).symm fun h0 => absurd h0 hzero

omit [DecidableEq ι] in
theorem not_replayed {q : RequestContext × OrderingCall} {t : String}
    (ht : q.1.auth.bind AuthContext.tenantId = some t) (hnone : keyCard db t q.2.key = none) :
    ¬ Replayed db q := by
  rintro ⟨t', ht', hsome⟩
  rw [← Option.some.inj (ht.symm.trans ht'), hnone] at hsome
  cases hsome

/-- What a call leaves behind that runs alone and succeeds: nothing new if its key was stored, and
else what `P` says. -/
def LeavesBehind (q : RequestContext × OrderingCall) (P : Shelves ι → Prop) (db db' : Db ι) : Prop :=
  Replayed db q ∧ db' = db ∨ ¬ Replayed db q ∧ P db'.shelves

/-- A new card, as the call has put it. -/
theorem solo_createCard_of {req : CreateCardRequest} (hdb : Keyed db)
    (hP : ∀ (t : String) (column : ColumnRow ι) (sh : Shelves ι) (row : CardRow ι),
      ctx.auth.bind AuthContext.tenantId = some t → codec.parse req.columnId = some column.id →
      column ∈ db.columns → column.tenantId = t → sh.columns = db.columns →
      NewRow ctx.now req t column db.cards row →
      Puts t (insertShifts column.id req.position) row db.cards sh.cards → P sh) :
    Solo (kanban ι) (fun v => P v.shelves) (createCard codec ctx req) .idle db
      fun _ _ v => LeavesBehind (ctx, .createCard req) P db v := by
  refine solo_orError_bind fun objectId _ => solo_orError_bind fun boardId _ =>
    solo_orError_bind fun subject _ => solo_orError_bind fun t ht => solo_ensure_bind fun _ =>
    solo_checkIdempotencyCard_bind ?_
  cases hfound : keyCard db t req.idempotencyKey with
  | some existingId =>
      refine solo_mute .fetchFullCard fun _ => .inl ⟨⟨t, ht, ?_⟩, rfl⟩
      rw [OrderingCall.key, hfound]
      rfl
  | none =>
      have hnew : ¬ Replayed db (ctx, .createCard req) := not_replayed ht hfound
      refine solo_fetchOr_bind fun board hboard hb => solo_orError_bind fun colId hcol =>
        solo_fetchOr_bind fun column hcolumn hk => ?_
      obtain ⟨rfl, -, hkt⟩ : column.id = colId ∧ column.boardId = boardId ∧ column.tenantId = t := by
        simpa using hk
      refine solo_bind ((solo_insertNewCard hdb fun sh row hcols hrow hputs =>
        hP t column sh row ht hcol hcolumn hkt hcols hrow hputs).mono ?_)
      rintro cardId tx v' ⟨rfl, hv', -⟩
      refine solo_tame (.bind .tenantClientFor fun _ => .bind .grantWithRetry fun _ =>
        .bind .storeIdempotencyId fun _ => .fetchFullCard) hv' fun _ v'' hv'' => .inr ⟨hnew, ?_⟩
      rw [hv'']
      exact hv'

/-- A shift changes only the position of a card. -/
theorem exists_of_mem_shiftAll {t : String} {shifts : List (Shift ι)} {cards : List (CardRow ι)}
    {c : CardRow ι} (h : c ∈ shiftAll t shifts cards) :
    ∃ c₀ ∈ cards, c = { c₀ with position := c.position } := by
  induction shifts generalizing cards with
  | nil => exact ⟨c, h, rfl⟩
  | cons s shifts ih =>
      obtain ⟨c₁, hc₁, hc⟩ := ih h
      obtain ⟨c₀, hc₀, rfl⟩ := List.mem_map.mp hc₁
      refine ⟨c₀, hc₀, hc.trans ?_⟩
      split <;> rfl

/-- The transaction of a move. -/
theorem solo_placeCard {t : String} {card : CardRow ι} {target : ColumnRow ι} {fromIsDone : Bool}
    {req : MoveCardRequest} (hv : Keyed v) (hcard : card ∈ v.cards)
    (hP : ∀ sh : Shelves ι, ∀ row : CardRow ι, sh.columns = v.columns →
      PlacedRow ctx.now card target fromIsDone row → row.position = req.toPos →
      Puts t (moveShifts card target.id req.toPos) row v.cards sh.cards → P sh) :
    Solo (kanban ι) (fun v => P v.shelves) (placeCard codec ctx t card target fromIsDone req) .idle v
      fun _ tx v' => tx = .idle ∧ P v'.shelves := by
  refine solo_beginTx_bind ((soloTx_shiftForMove hv).bind_soloIn fun _ v₁ h₁ => ?_)
  obtain ⟨hcards₁, hfits, hv₁, hcols₁⟩ : v₁.cards = shiftAll t (moveShifts card target.id req.toPos)
    v.cards ∧ (∀ s ∈ moveShifts card target.id req.toPos, s.Fits t v.cards) ∧ Keyed v₁ ∧
    v₁.columns = v.columns := h₁
  refine (soloTx_updateCardRow hv₁ ?_).bind_soloIn fun row v₂ h₂ => ?_
  · exact fun _ => rfl
  obtain ⟨hcols₂, c, hc, hid, htenant, hrow, hperm⟩ := h₂
  refine Careful.insertBoardEvent.soloTx.bind_soloIn fun _ v₃ h₃ => ?_
  have hcards₃ : v₃.shelves.cards = v₂.cards := by
    rw [h₃]
    rfl
  have hcols₃ : v₃.shelves.columns = v.columns := by
    rw [h₃]
    exact hcols₂.trans hcols₁
  have hrid : row.id = card.id := by
    rw [hrow]
    exact hid
  have hcompleted : c.completedAt = card.completedAt := by
    obtain ⟨c₀, hc₀, heq⟩ := exists_of_mem_shiftAll (hcards₁ ▸ hc)
    have hid₀ : c₀.id = card.id := by
      rw [← hid, heq]
    obtain rfl := hv.eq_of_mem hc₀ hcard hid₀
    rw [heq]
  have hdone : P v₃.shelves := by
    refine hP _ row hcols₃ ⟨hrid, ?_, ?_⟩ ?_ ⟨?_, hfits, ?_⟩
    · rw [hrow]
    · rw [hrow, ← hcompleted]
    · rw [hrow]
      rfl
    · rw [hrow]
      exact htenant
    · rw [hcards₃, ← hcards₁, hrid]
      exact hperm
  refine soloIn_commit (.inr hdone) (solo_pure ⟨rfl, hdone⟩) solo_fail

/-- The done marker of the column that a card comes from. -/
theorem solo_sourceIsDone_bind {E : Db ι → Prop} {t : String} {K : ι} {f : Bool → Handler ι α}
    {Q : α → Tx (Rec ι) → Db ι → Prop}
    (h : Solo (kanban ι) E (f (((v.columns.filter fun k => k.id = K ∧ k.tenantId = t).head?).elim
      false ColumnRow.isDone)) .idle v Q) :
    Solo (kanban ι) E ((sourceIsDone t K).bind f) .idle v Q :=
  solo_bind (solo_fetchOptional_bind (solo_pure h))

/-- A moved card, as the call has put it. -/
theorem solo_moveCard_of {req : MoveCardRequest} (hdb : Keyed db)
    (hP : ∀ (t : String) (card : CardRow ι) (target : ColumnRow ι) (fromIsDone : Bool)
      (sh : Shelves ι) (row : CardRow ι), ctx.auth.bind AuthContext.tenantId = some t →
      ctx.checked.bind codec.parse = some card.id → codec.parse req.toColumnId = some target.id →
      card ∈ db.cards → card.tenantId = t → target ∈ db.columns → target.tenantId = t →
      ReadsDone db.columns t card.columnId target fromIsDone → sh.columns = db.columns →
      PlacedRow ctx.now card target fromIsDone row → row.position = req.toPos →
      Puts t (moveShifts card target.id req.toPos) row db.cards sh.cards → P sh) :
    Solo (kanban ι) (fun v => P v.shelves) (moveCard codec pages ctx req) .idle db
      fun _ _ v => LeavesBehind (ctx, .moveCard req) P db v := by
  refine solo_orError_bind fun objectId hobject => solo_orError_bind fun cardId hcardId =>
    solo_orError_bind fun t ht => solo_orError_bind fun toColId htoCol =>
    solo_checkIdempotencyCard_bind ?_
  cases hfound : keyCard db t req.idempotencyKey with
  | some existingId =>
      refine solo_mute .fetchFullCard fun _ => .inl ⟨⟨t, ht, ?_⟩, rfl⟩
      rw [OrderingCall.key, hfound]
      rfl
  | none =>
      have hnew : ¬ Replayed db (ctx, .moveCard req) := not_replayed ht hfound
      refine solo_fetchOr_bind fun card hcard hc => solo_fetchOr_bind fun target htarget hk => ?_
      obtain ⟨rfl, hct⟩ : card.id = cardId ∧ card.tenantId = t := by simpa using hc
      obtain ⟨rfl, hkt⟩ : target.id = toColId ∧ target.tenantId = t := by simpa using hk
      have hchecked : ctx.checked.bind codec.parse = some card.id := by
        rw [show ctx.checked = some objectId from hobject]
        exact hcardId
      -- the rest is the same for both ways to read the marker
      have hrest : ∀ fromIsDone, ReadsDone db.columns t card.columnId target fromIsDone →
          Solo (kanban ι) (fun v => P v.shelves) ((fetchOr "failed to fetch target board"
            (notFound "target board not found") (selectBoard t target.boardId)).bind fun targetBoard =>
            (ensure (card.projectId = targetBoard.projectId)
              (invalidArgument "cards do not move between projects")).bind fun _ =>
            (placeCard codec ctx t card target fromIsDone req).bind fun _ =>
            if target.boardId ≠ card.boardId then
              (tenantClientFor ctx).bind fun permission =>
              (rehomeParent codec pages permission card.id card.boardId target.boardId).bind fun _ =>
              (storeIdempotencyCard t req.idempotencyKey card.id).bind fun _ =>
              fetchFullCard codec t card.id
            else (storeIdempotencyCard t req.idempotencyKey card.id).bind fun _ =>
              fetchFullCard codec t card.id) .idle db
            fun _ _ v => LeavesBehind (ctx, .moveCard req) P db v := by
        intro fromIsDone hdone
        refine solo_fetchOr_bind fun board _ _ => solo_ensure_bind fun _ => ?_
        refine solo_bind ((solo_placeCard hdb hcard fun sh row hcols hrow hpos hputs =>
          hP t card target fromIsDone sh row ht hchecked htoCol hcard hct htarget hkt hdone hcols hrow hpos
            hputs).mono ?_)
        rintro - tx v' ⟨rfl, hv'⟩
        refine solo_tame (.ite (.bind .tenantClientFor fun _ => .bind .rehomeParent fun _ =>
          .bind .storeIdempotencyId fun _ => .fetchFullCard)
          (.bind .storeIdempotencyId fun _ => .fetchFullCard)) hv' fun _ v'' hv'' => .inr ⟨hnew, ?_⟩
        rw [hv'']
        exact hv'
      dsimp only
      split
      · exact hrest target.isDone (.inl ⟨‹_›, rfl⟩)
      · exact solo_sourceIsDone_bind (hrest _ (.inr rfl))

/-- The transaction of a transfer. -/
theorem solo_relocateCard {t key : String} {card : CardRow ι} {target : ColumnRow ι}
    {projectId : ι} {fromIsDone : Bool} (hv : Keyed v) (hcard : card ∈ v.cards)
    (hP : ∀ sh : Shelves ι, ∀ row : CardRow ι, sh.columns = v.columns →
      PlacedRow ctx.now card target fromIsDone row →
      row.position = Shelf.top (columnShelf v.cards t target.id) → (int4 row.position).isSome →
      Puts t [] row v.cards sh.cards → P sh) :
    Solo (kanban ι) (fun v => P v.shelves)
      (relocateCard codec ctx t card projectId target fromIsDone key) .idle v
      fun _ tx v' => tx = .idle ∧ P v'.shelves := by
  refine solo_beginTx_bind (Careful.allocateCardRef.soloTx.bind_soloIn fun newRef v₁ h₁ => ?_)
  refine soloTx_nextPosition.bind_soloIn fun toPos v₂ ⟨htop, hint, h₂⟩ => ?_
  rw [← h₂] at h₁ htop
  have hcards₂ : v₂.cards = v.cards := congrArg Shelves.cards h₁
  have hv₂ : Keyed v₂ := by
    unfold Keyed
    rw [hcards₂]
    exact hv
  refine (soloTx_updateCardRow hv₂ ?_).bind_soloIn fun row v₃ h₃ => ?_
  · exact fun _ => rfl
  obtain ⟨hcols₃, c, hc, hid, htenant, hrow, hperm⟩ := h₃
  refine Careful.scrubLabels.soloTx.bind_soloIn fun _ v₄ h₄ => ?_
  refine Careful.insertBoardEvent.soloTx.bind_soloIn fun _ v₅ h₅ => ?_
  refine Careful.insertBoardEvent.soloTx.bind_soloIn fun _ v₆ h₆ => ?_
  have hcards₆ : v₆.shelves.cards = v₃.cards := by
    rw [h₆, h₅, h₄]
    rfl
  have hcols₆ : v₆.shelves.columns = v.columns := by
    rw [h₆, h₅, h₄]
    exact hcols₃.trans (congrArg Shelves.columns h₁)
  have hrid : row.id = card.id := by
    rw [hrow]
    exact hid
  obtain rfl := hv.eq_of_mem (hcards₂ ▸ hc) hcard hid
  have hdone : P v₆.shelves := by
    refine hP _ row hcols₆ ⟨hrid, ?_, ?_⟩ ?_ ?_ ⟨?_, nofun, ?_⟩
    · rw [hrow]
    · rw [hrow]
    · rw [hrow, htop, hcards₂]
    · rw [hrow]
      exact hint
    · rw [hrow]
      exact htenant
    · rw [hcards₆, hrid]
      rw [hcards₂] at hperm
      exact hperm
  refine soloIn_commit (.inr hdone) (solo_pure ⟨rfl, hdone⟩) solo_fail

/-- A transferred card, as the call has put it. -/
theorem solo_transferCard_of {req : TransferCardRequest} (hdb : Keyed db)
    (hP : ∀ (t : String) (card : CardRow ι) (target : ColumnRow ι) (fromIsDone : Bool)
      (sh : Shelves ι) (row : CardRow ι), ctx.auth.bind AuthContext.tenantId = some t →
      ctx.checked.bind codec.parse = some card.id → codec.parse req.targetColumnId = some target.id →
      card ∈ db.cards → card.tenantId = t → target ∈ db.columns → target.tenantId = t →
      ReadsDone db.columns t card.columnId target fromIsDone → sh.columns = db.columns →
      PlacedRow ctx.now card target fromIsDone row →
      row.position = Shelf.top (columnShelf db.cards t target.id) → (int4 row.position).isSome →
      Puts t [] row db.cards sh.cards → P sh) :
    Solo (kanban ι) (fun v => P v.shelves) (transferCard codec pages ctx req) .idle db
      fun _ _ v => LeavesBehind (ctx, .transferCard req) P db v := by
  refine solo_orError_bind fun objectId hobject => solo_orError_bind fun cardId hcardId =>
    solo_orError_bind fun t ht => solo_orError_bind fun targetBoardId _ =>
    solo_orError_bind fun targetColId htoCol =>
    solo_checkIdempotencyCard_bind ?_
  cases hfound : keyCard db t req.idempotencyKey with
  | some existingId =>
      refine solo_mute .replayTransfer fun _ => .inl ⟨⟨t, ht, ?_⟩, rfl⟩
      rw [OrderingCall.key, hfound]
      rfl
  | none =>
      have hnew : ¬ Replayed db (ctx, .transferCard req) := not_replayed ht hfound
      refine solo_fetchOr_bind fun card hcard hc => solo_fetchOr_bind fun board _ _ =>
        solo_ensure_bind fun _ => solo_mute_bind .checkTargetBoard fun permission =>
        solo_fetchOr_bind fun target htarget hk => solo_ensure_bind fun _ =>
        solo_sourceIsDone_bind ?_
      obtain ⟨rfl, hct⟩ : card.id = cardId ∧ card.tenantId = t := by simpa using hc
      obtain ⟨rfl, hkt⟩ : target.id = targetColId ∧ target.tenantId = t := by simpa using hk
      have hchecked : ctx.checked.bind codec.parse = some card.id := by
        rw [show ctx.checked = some objectId from hobject]
        exact hcardId
      refine solo_bind ((solo_relocateCard hdb hcard fun sh row hcols hrow hpos hint hputs =>
        hP t card target _ sh row ht hchecked htoCol hcard hct htarget hkt (.inr rfl) hcols hrow hpos hint
          hputs).mono ?_)
      rintro - tx v' ⟨rfl, hv'⟩
      refine solo_tame (.bind .rehomeParent fun _ => .bind .storeIdempotencyId fun _ =>
        .bind .fetchFullCard fun _ => .pure _) hv' fun _ v'' hv'' => .inr ⟨hnew, ?_⟩
      rw [hv'']
      exact hv'

/-- A card is gone. -/
theorem solo_deleteCard_of (hdb : Keyed db)
    (hP : ∀ (cardId : ι) (sh : Shelves ι), ctx.checked.bind codec.parse = some cardId →
      sh.columns = db.columns → sh.cards = otherCards db.cards cardId → P sh) :
    Solo (kanban ι) (fun v => P v.shelves) (deleteCard codec pages ctx) .idle db
      fun _ _ v => LeavesBehind (ctx, .deleteCard) P db v := by
  refine solo_orError_bind fun objectId hobject => solo_orError_bind fun cardId hcardId =>
    solo_orError_bind fun t ht => solo_fetchOr_bind fun cur _ _ => solo_beginTx_bind ?_
  refine (soloTx_deleteCardRow hdb).bind_soloIn fun deleted v₁ ⟨hcols₁, hcards₁⟩ => ?_
  refine soloIn_ensure_bind fun hdeleted => ?_
  refine Careful.insertBoardEvent.soloTx.bind_soloIn fun _ v₂ h₂ => ?_
  have hdone : P v₂.shelves := by
    rw [h₂]
    refine hP cardId _ ?_ hcols₁ (hcards₁ hdeleted)
    rw [show ctx.checked = some objectId from hobject]
    exact hcardId
  refine soloIn_commitTx_bind hdone (solo_tame (.bind .tenantClientFor fun _ =>
    .bind .deleteRelationTuples fun _ => .pure _) hdone fun _ v' hv' => .inr ⟨?_, ?_⟩)
  · exact not_replayed ht rfl
  · rw [hv']
    exact hdone

/-- The call has gone through. -/
def Done (codec : IdCodec ι) (q : RequestContext × OrderingCall) (db : Db ι) (sh : Shelves ι) :
    Prop := Effects codec q db.cards sh.cards

/-- A call that runs alone and succeeds has gone through, unless its key was stored. -/
def Succeeds (codec : IdCodec ι) (q : RequestContext × OrderingCall) (db db' : Db ι) : Prop :=
  Replayed db q ∧ db' = db ∨ ¬ Replayed db q ∧ Done codec q db db'.shelves

/-- A new card that runs alone and succeeds is on its column, unless its key was stored. -/
theorem solo_createCard {req : CreateCardRequest} (hdb : Keyed db) :
    Solo (kanban ι) (fun v => Done codec (ctx, .createCard req) db v.shelves)
      (createCard codec ctx req) .idle db
      fun _ _ v => Succeeds codec (ctx, .createCard req) db v := by
  refine solo_createCard_of hdb fun t column sh row ht hcol _ _ _ hrow hputs => ?_
  rw [← hrow.columnId_eq] at hcol hputs
  exact .put ht (.create req rfl hcol hrow.fresh (hrow.columnId_eq ▸ hrow.position) hrow.fits) hputs

/-- **A call that runs alone** leaves the cards as they are, or does what its request asks for; and
if it succeeds, it has done so, unless its key was stored. -/
theorem solo_orderingHandler {q : RequestContext × OrderingCall} (hdb : Keyed db) :
    Solo (kanban ι) (fun v => Done codec q db v.shelves) (orderingHandler codec pages q) .idle db
      fun _ _ v => Succeeds codec q db v := by
  obtain ⟨ctx, call⟩ := q
  cases call with
  | createCard req => exact solo_bind ((solo_createCard hdb).mono fun _ _ _ h => solo_pure h)
  | moveCard req =>
      refine solo_bind ((solo_moveCard_of hdb fun t card target _ sh row ht hchecked hcol hcard hct _ _ _ _
        hrow hpos hputs => ?_).mono fun _ _ _ h => solo_pure h)
      rw [← hrow.columnId_eq] at hcol hputs
      exact .put ht (.move req rfl hchecked hcol hcard hct hrow.id_eq hpos) hputs
  | transferCard req =>
      refine solo_bind ((solo_transferCard_of hdb fun t card target _ sh row ht hchecked hcol hcard hct _ _
        _ _ hrow hpos hint hputs => ?_).mono fun _ _ _ h => solo_pure h)
      rw [← hrow.columnId_eq] at hcol hpos
      exact .put ht (.transfer req rfl (hrow.id_eq ▸ hchecked) hcol ⟨card, hcard, hrow.id_eq.symm, hct⟩ hpos
        hint) hputs
  | deleteCard =>
      exact solo_deleteCard_of hdb fun cardId sh hchecked _ hcards => .delete rfl hchecked hcards

end Handlers

end Kanban.Rpc
