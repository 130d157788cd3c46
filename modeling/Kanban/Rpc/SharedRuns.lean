import Kanban.Rpc.SharedCalls

/-!
# Runs of calls that share columns

The calls that create, move and transfer cards, from their first look at the column to their commit,
and the runs in which no call commits to a column that another one holds: there the cards of every
column keep distinct positions, and the card of every call that succeeds is there once.

## Main definitions

* `shared_sharingHandler` — how a call goes on.
-/

namespace Kanban.Rpc

open Program Kanban.Store Kanban.Auth
open Kanban.Services (AuthContext ConnectError IdCodec)

variable {ι α β : Type} [DecidableEq ι]

/-! ## CreateCard -/

section CreateCard

variable {codec : IdCodec ι} {ctx : RequestContext} {req : CreateCardRequest} {D : ι → Prop}
  {s : Db ι} {tr : Trace (Rec ι) (Call ι) (Reply ι)} {w : World (Db ι) (Backend ι)}
  {ws : List (Write (Rec ι))} {subject t : String} {board : BoardRow ι} {column : ColumnRow ι}

/-- The insertion of a card, where the shifts have left the cards as it needs them. -/
theorem shared_insertRow {cardId : ι} {cardRef : String} {position : ℤ} {l : List (CardRow ι)}
    (shifts : List (Shift ι))
    (h : (columnHolding codec).Inside (ctx, .createCard req) (· = column.id) s tr w)
    (hp : Pending t (· = column.id) s ws (shiftAll t shifts l)) (hfits : ∀ s ∈ shifts, s.Fits t l)
    (hput : ∀ row : CardRow ι, row.columnId = column.id → row.position = position →
      Puts t shifts row l (row :: otherCards (shiftAll t shifts l) row.id) →
      ∃ i, PutAt row i l (row :: otherCards (shiftAll t shifts l) row.id))
    (hcolumn : ∃ k ∈ s.columns, k.id = column.id ∧ k.tenantId = t) :
    (columnHolding codec).Runs (ctx, .createCard req) ((checkMilestone codec t board.projectId
        req.milestoneId).bind fun milestoneId => (query "failed to insert card" (insertCard
          (newCardRow ctx subject t board column req cardId cardRef position milestoneId))).bind
        fun _ => (insertBoardEvent t board.id "CardCreated" (cardCreated codec (newCardRow ctx subject
          t board column req cardId cardRef position milestoneId) req.idempotencyKey)).bind
        fun _ => (commitTx "commit failed").bind fun _ => .pure cardId) (.active ws) tr w
      fun _ tx _ w' => tx = .idle ∧ Tidy w'.store := by
  refine shared_careful_bind .checkMilestone h fun milestoneId ws₁ tr₁ w₁ _ hws₁ h₁ => ?_
  refine shared_query_bind h₁ fun w₂ e he h₂ => ?_
  refine shared_careful_bind .insertBoardEvent h₂ fun _ ws₃ tr₃ w₃ _ hws₃ h₃ => ?_
  refine shared_commitTx_bind _ h₃ (((hp.beside hws₁).insert h₂ he rfl rfl).beside hws₃) hfits rfl
    (hput _ rfl rfl) ?_ fun w₄ h₄ => Holding.runs_pure ⟨rfl, h₄.sane⟩
  rintro K rfl
  exact hcolumn

/-- The transaction of a new card. -/
theorem shared_insertNewCard (h : (columnHolding codec).Inside (ctx, .createCard req) D s tr w)
    (hcol : codec.parse req.columnId = some column.id)
    (hcolumn : ∃ k ∈ s.columns, k.id = column.id ∧ k.tenantId = t) :
    (columnHolding codec).Runs (ctx, .createCard req)
      (insertNewCard codec ctx subject t board column req) .idle tr w
      fun _ tx _ w' => tx = .idle ∧ Tidy w'.store := by
  unfold insertNewCard
  refine shared_beginTx_bind h fun w₁ h₁ => ?_
  refine shared_allocateCardRef_bind h₁ fun cardRef ws₂ tr₂ w₂ halloc hws₂ h₂ => ?_
  refine shared_careful_bind .newId h₂ fun cardId ws₃ tr₃ w₃ htr₃ hws₃ h₃ => ?_
  rw [List.nil_append]
  have hws : ∀ a ∈ ws₂ ++ ws₃, Beside a := List.forall_mem_append.mpr ⟨hws₂, hws₃⟩
  have hheld : column.id ∈ heldColumns codec (ctx, .createCard req) tr₃ := by
    have halloc₃ : Allocated tr₃ = true := by
      obtain ⟨r, hr, hp⟩ := List.any_eq_true.mp halloc
      exact List.any_eq_true.mpr
        ⟨r, Trace.mem_seen.mpr ((Trace.mem_seen.mp hr).of_suffix htr₃), hp⟩
    simp [heldColumns, uncommitted_iff.mpr h₃.uncommitted, halloc₃, hcol]
  -- from here the call holds the column
  have hin := h₃.enter fun K (hK : K = column.id) => hK ▸ hheld
  have hthere : ∀ {tr' w'}, (columnHolding codec).Inside (ctx, .createCard req) (· = column.id)
      w₃.store tr' w' → ∃ k ∈ w'.store.columns, k.id = column.id ∧ k.tenantId = t := by
    intro tr' w' h'
    rw [h'.grows.columns, h₃.grows.columns]
    exact hcolumn
  unfold insertPosition
  by_cases hzero : req.position = 0
  · rw [if_pos hzero]
    refine Holding.runs_bind (Holding.runs_bind (Holding.runs_stmt hin (fun w₄ e he h₄ => ?_)
      fun w₄ h₄ => ?_))
    · obtain ⟨htop, -⟩ := nextPosition_eq he
      rw [silent_nextPosition _ _ he, List.append_nil]
      have hcards : ((kanban ι).applyAll w₄.store (ws₂ ++ ws₃)).cards = w₄.store.cards :=
        congrArg Shelves.cards (shelves_applyAll hws)
      rw [hcards] at htop
      refine Holding.runs_pure (Holding.runs_pure ?_)
      refine shared_insertRow (l := w₄.store.cards) [] (h₄.enter h₄.held) (.start hws)
        nofun (fun row hK hpos hputs => ⟨_, hputs.atTop h₄.sane.apart ?_⟩) (hthere h₄)
      rw [hpos, hK]
      exact htop
    · -- the transaction is aborted, so that the insertion fails
      refine Holding.runs_pure (Holding.runs_pure (Holding.runs_bind
        ((Holding.Runs.of_only_aborted Tame.checkMilestone h₄).mono ?_)))
      rintro milestoneId tx tr' w' ⟨rfl, h'⟩
      exact Holding.runs_bind (Holding.runs_stmt_aborted h' fun _ _ => Holding.runs_fail)
  · rw [if_neg hzero]
    refine Holding.runs_bind (shared_query_bind hin fun w₄ e he h₄ => Holding.runs_pure ?_)
    obtain ⟨hp, hfits⟩ := (Pending.start hws).shift h₄ he rfl
    refine shared_insertRow (l := w₃.store.cards)
      [⟨column.id, fun p => req.position ≤ p, 1⟩] h₄ hp (by simpa using hfits)
      (fun row hK hpos => ?_) (hthere hin)
    rw [← hpos]
    exact fun hputs => ⟨_, hputs.atPosition h₃.sane.apart hK⟩

/-- The parent tuple, the key and the answer. -/
theorem shared_createCard (h : Tidy w.store) :
    (columnHolding codec).Runs (ctx, .createCard req) (createCard codec ctx req) .idle [] w
      fun card _ _ w' => Present codec card w'.store := by
  have hstart := Holding.Inside.start (H := columnHolding codec) (q := (ctx, .createCard req)) h
  refine shared_orError_bind fun objectId _ => shared_orError_bind fun boardId _ =>
    shared_orError_bind fun subject _ => shared_orError_bind fun t _ => shared_ensure_bind fun _ =>
    shared_mute_bind .checkIdempotencyCard hstart fun found tr₁ w₁ _ h₁ => ?_
  cases found with
  | some existingId => exact shared_fetchFullCard h₁.outside
  | none =>
      refine shared_fetchOr_bind h₁ fun board tr₂ w₂ _ _ _ _ h₂ =>
        shared_orError_bind fun colId hcol =>
        shared_fetchOr_bind h₂ fun column tr₃ w₃ hcolumn hk _ _ h₃ => ?_
      obtain ⟨rfl, -, ht⟩ : column.id = colId ∧ column.boardId = boardId ∧ column.tenantId = t := by
        simpa using hk
      have hcolumn : column ∈ w.store.columns := h₃.grows.columns ▸ hcolumn
      refine Holding.runs_bind ((shared_insertNewCard h₃ hcol ⟨column, hcolumn, rfl, ht⟩).mono ?_)
      rintro cardId tx tr' w' ⟨rfl, hw'⟩
      have hout : (columnHolding codec).Outside w'.store w' := ⟨.refl, hw'⟩
      exact shared_tame_bind .tenantClientFor hout fun _ _ _ h₄ =>
        shared_tame_bind .grantWithRetry h₄ fun _ _ _ h₅ =>
        shared_tame_bind .storeIdempotencyId h₅ fun _ _ _ h₆ => shared_fetchFullCard h₆

end CreateCard

/-! ## MoveCard -/

section MoveCard

variable {codec : IdCodec ι} {pages : ℕ} {ctx : RequestContext} {req : MoveCardRequest} {s : Db ι}
  {tr : Trace (Rec ι) (Call ι) (Reply ι)} {w : World (Db ι) (Backend ι)} {t : String}
  {card : CardRow ι} {target : ColumnRow ι} {fromIsDone : Bool}

/-- The transaction of a move. -/
theorem shared_placeCard (h : (columnHolding codec).Inside (ctx, .moveCard req)
      (fun K => K = card.columnId ∨ K = target.id) s tr w) (hcard : card ∈ s.cards)
    (ht : card.tenantId = t) (hs : CardsApart s.cards)
    (hhoused : ∃ k ∈ s.columns, k.id = card.columnId ∧ k.tenantId = t)
    (hcolumn : ∃ k ∈ s.columns, k.id = target.id ∧ k.tenantId = t) :
    (columnHolding codec).Runs (ctx, .moveCard req)
      (placeCard codec ctx t card target fromIsDone req) .idle tr w
      fun _ tx _ w' => tx = .idle ∧ Tidy w'.store := by
  unfold placeCard
  refine shared_beginTx_bind h fun w₁ h₁ => ?_
  refine shared_shiftForMove_bind h₁ (.start (List.forall_mem_nil _)) (.inl rfl) (.inr rfl)
    fun ws₂ tr₂ w₂ h₂ hp hfits => ?_
  refine shared_fetchOne_bind h₂ fun w₃ e row he hrow h₃ => ?_
  obtain ⟨hp₃, hid, hrt, c, hc⟩ := hp.update h₃ he hrow (fun _ => rfl) (fun _ => rfl)
    fun _ => .inr rfl
  refine shared_careful_bind .insertBoardEvent h₃ fun _ ws₄ tr₄ w₄ _ hws₄ h₄ => ?_
  have hp₄ := hp₃.beside hws₄
  rw [← hid] at hp₄
  have hK : row.columnId = target.id := by rw [hc]
  rw [← Prog.bind_pure (commitTx "commit failed")]
  refine shared_commitTx_bind _ h₄ hp₄ hfits hrt (fun hputs => ?_) ?_
    fun w₅ h₅ => Holding.runs_pure ⟨rfl, h₅.sane⟩
  · rw [← hK] at hputs ⊢
    exact ⟨_, hputs.moved hs hcard hid ht (by rw [hc])⟩
  · rintro K (rfl | rfl)
    · exact hhoused
    · exact hcolumn

theorem shared_moveCard (h : Tidy w.store) :
    (columnHolding codec).Runs (ctx, .moveCard req) (moveCard codec pages ctx req) .idle [] w
      fun card _ _ w' => Present codec card w'.store := by
  have hstart := Holding.Inside.start (H := columnHolding codec) (q := (ctx, .moveCard req)) h
  refine shared_orError_bind fun objectId _ => shared_orError_bind fun cardId _ =>
    shared_orError_bind fun t _ => shared_orError_bind fun toColId htoCol =>
    shared_mute_bind .checkIdempotencyCard hstart fun found tr₁ w₁ _ h₁ => ?_
  cases found with
  | some existingId => exact shared_fetchFullCard h₁.outside
  | none =>
      refine shared_fetchOr_bind h₁ fun card tr₂ w₂ hcard hc hsaw _ h₂ => ?_
      obtain ⟨rfl, ht⟩ : card.id = cardId ∧ card.tenantId = t := by simpa using hc
      -- from here the call holds both columns
      have hheld : ∀ K, K = card.columnId ∨ K = toColId →
          K ∈ heldColumns codec (ctx, .moveCard req) tr₂ := by
        intro K hK
        have hseen : card ∈ Trace.seenBy cardOf tr₂ :=
          List.mem_filterMap.mpr ⟨_, Trace.mem_seen.mpr hsaw, rfl⟩
        rw [heldColumns, if_pos (uncommitted_iff.mpr h₂.uncommitted)]
        refine List.mem_flatMap.mpr ⟨card, hseen, ?_⟩
        rcases hK with rfl | rfl
        · exact List.mem_cons_self
        · exact List.mem_cons_of_mem _ (Option.mem_toList.mpr htoCol)
      refine shared_fetchOr_bind (h₂.enter hheld) fun target tr₃ w₃ htarget hk _ _ h₃ => ?_
      obtain ⟨rfl, hkt⟩ : target.id = toColId ∧ target.tenantId = t := by simpa using hk
      refine shared_mute_fork (.pure _) .sourceIsDone h₃ fun fromIsDone tr₄ w₄ h₄ =>
        shared_fetchOr_bind h₄ fun board tr₅ w₅ _ _ _ _ h₅ => shared_ensure_bind fun _ => ?_
      obtain ⟨k, hk, hkid, hkt'⟩ := h₂.sane.housed card hcard
      refine Holding.runs_bind ((shared_placeCard h₅ hcard ht h₂.sane.apart
        ⟨k, hk, hkid, hkt'.trans ht⟩ ⟨target, h₃.grows.columns ▸ htarget, rfl, hkt⟩).mono ?_)
      rintro - tx tr' w' ⟨rfl, hw'⟩
      have hout : (columnHolding codec).Outside w'.store w' := ⟨.refl, hw'⟩
      split
      · exact shared_tame_bind .tenantClientFor hout fun _ _ _ h₆ =>
          shared_tame_bind .rehomeParent h₆ fun _ _ _ h₇ =>
          shared_tame_bind .storeIdempotencyId h₇ fun _ _ _ h₈ => shared_fetchFullCard h₈
      · exact shared_tame_bind .storeIdempotencyId hout fun _ _ _ h₆ => shared_fetchFullCard h₆

end MoveCard

/-! ## TransferCard -/

section TransferCard

variable {codec : IdCodec ι} {pages : ℕ} {ctx : RequestContext} {req : TransferCardRequest}
  {D : ι → Prop} {s : Db ι} {tr : Trace (Rec ι) (Call ι) (Reply ι)} {w : World (Db ι) (Backend ι)}
  {t : String} {card : CardRow ι} {target : ColumnRow ι} {fromIsDone : Bool}

/-- The transaction of a transfer. -/
theorem shared_relocateCard {projectId : ι}
    (h : (columnHolding codec).Inside (ctx, .transferCard req) D s tr w)
    (hcol : codec.parse req.targetColumnId = some target.id)
    (hcolumn : ∃ k ∈ s.columns, k.id = target.id ∧ k.tenantId = t) :
    (columnHolding codec).Runs (ctx, .transferCard req)
      (relocateCard codec ctx t card projectId target fromIsDone req.idempotencyKey) .idle tr w
      fun _ tx _ w' => tx = .idle ∧ Tidy w'.store := by
  unfold relocateCard
  refine shared_beginTx_bind h fun w₁ h₁ => ?_
  refine shared_allocateCardRef_bind h₁ fun newRef ws₂ tr₂ w₂ halloc hws₂ h₂ => ?_
  rw [List.nil_append]
  -- from here the call holds the column
  have hheld : ∀ K, K = target.id → K ∈ heldColumns codec (ctx, .transferCard req) tr₂ := by
    rintro K rfl
    simp [heldColumns, uncommitted_iff.mpr h₂.uncommitted, halloc, hcol]
  refine shared_query_bind (h₂.enter hheld) fun w₃ e₃ he₃ h₃ => ?_
  obtain ⟨htop, -⟩ := nextPosition_eq he₃
  rw [silent_nextPosition _ _ he₃, List.append_nil]
  rw [show ((kanban ι).applyAll w₃.store ws₂).cards = w₃.store.cards from
    congrArg Shelves.cards (shelves_applyAll hws₂)] at htop
  refine shared_fetchOne_bind (h₃.enter h₃.held) fun w₄ e row he hrow h₄ => ?_
  obtain ⟨hp₄, hid, hrt, c, hc⟩ := (Pending.start hws₂).update h₄ he hrow (fun _ => rfl)
    (fun _ => rfl) fun _ => rfl
  refine shared_careful_bind .scrubLabels h₄ fun _ ws₅ tr₅ w₅ _ hws₅ h₅ => ?_
  refine shared_careful_bind .insertBoardEvent h₅ fun _ ws₆ tr₆ w₆ _ hws₆ h₆ => ?_
  refine shared_careful_bind .insertBoardEvent h₆ fun _ ws₇ tr₇ w₇ _ hws₇ h₇ => ?_
  have hp₇ := ((hp₄.beside hws₅).beside hws₆).beside hws₇
  rw [← hid] at hp₇
  rw [← Prog.bind_pure (commitTx "commit failed")]
  refine shared_commitTx_bind [] h₇ hp₇ nofun hrt
    (fun hputs => ⟨_, hputs.atTop h₃.sane.apart ?_⟩) ?_
    fun w₈ h₈ => Holding.runs_pure ⟨rfl, h₈.sane⟩
  · rw [hc]
    exact htop
  · rintro K rfl
    rw [h₃.grows.columns, h₂.grows.columns]
    exact hcolumn

theorem shared_transferCard (h : Tidy w.store) :
    (columnHolding codec).Runs (ctx, .transferCard req) (transferCard codec pages ctx req) .idle [] w
      fun res _ _ w' => Present codec res.card w'.store := by
  have hstart := Holding.Inside.start (H := columnHolding codec) (q := (ctx, .transferCard req)) h
  refine shared_orError_bind fun objectId _ => shared_orError_bind fun cardId _ =>
    shared_orError_bind fun t _ => shared_orError_bind fun targetBoardId _ =>
    shared_orError_bind fun targetColId hcol =>
    shared_mute_bind .checkIdempotencyCard hstart fun found tr₁ w₁ _ h₁ => ?_
  cases found with
  | some existingId =>
      refine shared_tame_bind (.fetchOptional fun db e he => by cases he; rfl) h₁.outside
        fun _ _ w₂ h₂ => Holding.runs_bind ((shared_fetchFullCard h₂).mono fun card _ _ w₃ h₃ => ?_)
      exact Holding.runs_pure h₃
  | none =>
      refine shared_fetchOr_bind h₁ fun card tr₂ w₂ _ hc _ _ h₂ =>
        shared_fetchOr_bind h₂ fun board tr₃ w₃ _ _ _ _ h₃ => shared_ensure_bind fun _ =>
        shared_mute_bind .checkTargetBoard h₃ fun permission tr₄ w₄ _ h₄ =>
        shared_fetchOr_bind h₄ fun target tr₅ w₅ htarget hk _ _ h₅ => shared_ensure_bind fun _ =>
        shared_mute_bind .sourceIsDone h₅ fun fromIsDone tr₆ w₆ _ h₆ => ?_
      obtain ⟨rfl, hkt⟩ : target.id = targetColId ∧ target.tenantId = t := by simpa using hk
      refine Holding.runs_bind ((shared_relocateCard h₆ hcol
        ⟨target, h₅.grows.columns ▸ htarget, rfl, hkt⟩).mono ?_)
      rintro - tx tr' w' ⟨rfl, hw'⟩
      have hout : (columnHolding codec).Outside w'.store w' := ⟨.refl, hw'⟩
      exact shared_tame_bind .rehomeParent hout fun _ _ _ h₇ =>
        shared_tame_bind .storeIdempotencyId h₇ fun _ _ _ h₈ =>
        Holding.runs_bind ((shared_fetchFullCard h₈).mono fun _ _ _ _ h₉ => Holding.runs_pure h₉)

end TransferCard

/-! ## Undisturbed runs -/

section Runs

variable {codec : IdCodec ι} {pages : ℕ}

variable (pages) in
/-- **How a call goes on** among others that do not disturb it. -/
theorem shared_sharingHandler {q : RequestContext × SharingCall} {w : World (Db ι) (Backend ι)}
    (h : Tidy w.store) :
    (columnHolding codec).Runs q (sharingHandler codec pages q) .idle [] w
      fun card _ _ w' => Present codec card w'.store := by
  obtain ⟨ctx, call⟩ := q
  cases call with
  | createCard req => exact shared_createCard h
  | moveCard req => exact shared_moveCard h
  | transferCard req =>
      exact Holding.runs_bind ((shared_transferCard h).mono fun _ _ _ _ h' => Holding.runs_pure h')

theorem Tidy.of_shelfOf {db : Db ι} (h : Coherent db)
    (hapart : ∀ K, Shelf.Apart (shelfOf db.cards K)) : Tidy db where
  keyed := h.cardKeys
  columnKeys := h.columnKeys
  housed c hc := by
    obtain ⟨⟨k, hk, hid, -, ht⟩, -⟩ := h.placed c hc
    exact ⟨k, hk, hid, ht⟩
  apart := .of_shelfOf hapart

omit [DecidableEq ι] in
theorem Tidy.oneTenant {db : Db ι} [DecidableEq ι] (h : Tidy db) : OneTenant db.cards := by
  intro c hc c' hc' hK
  obtain ⟨k, hk, hid, ht⟩ := h.housed c hc
  obtain ⟨k', hk', hid', ht'⟩ := h.housed c' hc'
  obtain rfl := List.inj_on_of_nodup_map h.columnKeys hk hk' (hid.trans (hK.trans hid'.symm))
  exact ht.symm.trans ht'

/-- A card that is there is there once. -/
theorem Present.once {card : Card} {db : Db ι} (h : Present codec card db) (hdb : Keyed db) :
    ∃ c, (db.cards.filter fun c => codec.toString c.id = card.id) = [c] := by
  obtain ⟨c, hc, hid⟩ := h
  obtain ⟨l₁, l₂, hsplit, hne, -⟩ := exists_otherCards hdb hc
  have hnone : ∀ l : List (CardRow ι), (∀ c' ∈ l, c'.id ≠ c.id) →
      l.filter (fun c' => codec.toString c'.id = card.id) = [] := fun l hl =>
    List.filter_eq_nil_iff.mpr fun c' hc' heq => hl c' hc'
      (codec.toString_injective ((of_decide_eq_true heq).trans hid.symm))
  refine ⟨c, ?_⟩
  rw [hsplit, List.filter_append, List.filter_cons_of_pos (by simp [hid]),
    hnone l₁ fun c' hc' => hne c' (List.mem_append_left _ hc'),
    hnone l₂ fun c' hc' => hne c' (List.mem_append_right _ hc'), List.nil_append]

/-- **Cards of columns that calls share.**  However any number of calls that create, move and
transfer cards are interleaved, and whatever fails or crashes: as long as no call commits to a
column that another one holds, no two cards of a column share a position, and the card of every call
that has succeeded is there exactly once. -/
theorem undisturbed_cards_apart {w : World (Db ι) (Backend ι)}
    {turns : List (Turn (RequestContext × SharingCall) (Move ι))}
    {P : Pool (RequestContext × SharingCall) (Db ι) (Rec ι) (Call ι) (Reply ι) (Backend ι)
      ConnectError Card} (h : Coherent w.store)
    (hapart : ∀ K, Shelf.Apart (shelfOf w.store.cards K))
    (hrun : Machine.ExecWhile (Pool.step (kanban ι) (sharingHandler codec pages))
      (columnHolding codec).Undisturbed (Pool.idle w) turns P) :
    (∀ K, Shelf.Apart (shelfOf P.world.store.cards K)) ∧
      ∀ c ∈ P.calls, ∀ card, c.2.prog.result = some (.ok card) →
        ∃ row, (P.world.store.cards.filter fun r => codec.toString r.id = card.id) = [row] := by
  obtain ⟨htidy, hcalls⟩ := Holding.undisturbed (fun q w => shared_sharingHandler pages)
    hrun rfl (Tidy.of_shelfOf h hapart)
  refine ⟨htidy.apart.shelfOf htidy.oneTenant, fun c hc card hok => ?_⟩
  obtain ⟨w₀, -, hgrows, hm⟩ := hcalls c hc
  obtain ⟨row, hrow, hid⟩ : Present codec card w₀.store := hm.post hok card rfl
  obtain ⟨row', hrow', hid'⟩ := hgrows.cards row hrow
  exact Present.once ⟨row', hrow', (congrArg codec.toString hid').trans hid⟩ htidy.keyed

end Runs

/-- A `CreateCard` at the end of a column, up to the insertion of its row. -/
def inserts (cardId : String) : List (Act (Move String)) :=
  [.ok, .ok, .ok, .ok, .ok, .move (.fresh cardId), .ok, .ok]

/-- The rest of the `CreateCard`. -/
def concludes (event : String) : List (Act (Move String)) :=
  [.ok, .move (.fresh event), .ok, .ok, .ok, .move .done, .move .done] ++ fullCardReads

/-- A `MoveCard` to another column. -/
def relocates (event : String) : List (Act (Move String)) :=
  [.ok, .ok, .ok, .ok, .ok, .ok, .ok, .ok, .ok, .move (.fresh event), .ok, .ok, .ok] ++
    fullCardReads

/-- A card is created in the second column.  Then a card is appended to the first column, and the
other one is moved there. -/
def sharesColumn (acts : List (ℕ × Act (Move String))) :
    List (Turn (RequestContext × SharingCall) (Move String)) :=
  .arrive (annOn "b", .createCard ⟨"l", "Ship", "", 0, none, "", 0, "", 0⟩) ::
    (inserts "c" ++ concludes "e").map (.act 0) ++
    [.arrive (annOn "b", .createCard ⟨"k", "Sail", "", 0, none, "", 0, "", 0⟩),
      .arrive (annOn "c", .moveCard ⟨"k", 1, ""⟩)] ++ acts.map fun a => .act a.1 a.2

/-- Two of three calls share a column, one after the other. -/
theorem undisturbed_cards_apart_turns :
    ∃ P, Machine.ExecWhile (Pool.step (kanban String) (sharingHandler textIds 1))
        (columnHolding textIds).Undisturbed (Pool.idle twoColumns) (sharesColumn
          ((inserts "d" ++ concludes "f").map (1, ·) ++ (relocates "g").map (2, ·))) P ∧
      shelfOf P.world.store.cards "k" = [("c", 0), ("d", 1)] ∧
      ∀ K, Shelf.Apart (shelfOf P.world.store.cards K) := by
  obtain ⟨P, hP, hcards⟩ : ∃ P, Machine.run (Machine.guarded (Pool.step (kanban String)
      (sharingHandler textIds 1)) (columnHolding textIds).Undisturbed) (Pool.idle twoColumns)
        (sharesColumn ((inserts "d" ++ concludes "f").map (1, ·) ++ (relocates "g").map (2, ·))) =
          some P ∧ shelfOf P.world.store.cards "k" = [("c", 0), ("d", 1)] := ⟨_, rfl, by decide⟩
  have hrun := Machine.execWhile_of_run hP
  exact ⟨P, hrun, hcards, (undisturbed_cards_apart ordered_twoColumns.1 ordered_twoColumns.2 hrun).1⟩

/-- The card is moved between the insertion and the commit of the other: all three calls succeed, and
both cards are at the first position of the column. -/
theorem shared_column_not_apart :
    ∃ P, Machine.Exec (Pool.step (kanban String) (sharingHandler textIds 1)) (Pool.idle twoColumns)
        (sharesColumn ((inserts "d").map (1, ·) ++ (relocates "g").map (2, ·) ++
          (concludes "f").map (1, ·))) P ∧
      (P.calls.map fun c => c.2.prog.result.map Except.isOk) = [some true, some true, some true] ∧
      shelfOf P.world.store.cards "k" = [("c", 0), ("d", 0)] ∧
      ¬ Shelf.Apart (shelfOf P.world.store.cards "k") := by
  obtain ⟨P, hP, hdone, hcards, hapart⟩ : ∃ P, Machine.run (Pool.step (kanban String)
      (sharingHandler textIds 1)) (Pool.idle twoColumns) (sharesColumn ((inserts "d").map (1, ·) ++
        (relocates "g").map (2, ·) ++ (concludes "f").map (1, ·))) = some P ∧
      (P.calls.map fun c => c.2.prog.result.map Except.isOk) = [some true, some true, some true] ∧
      shelfOf P.world.store.cards "k" = [("c", 0), ("d", 0)] ∧
      ¬ Shelf.Apart (shelfOf P.world.store.cards "k") := ⟨_, rfl, rfl, by decide, by decide⟩
  exact ⟨P, Machine.exec_of_run hP, hdone, hcards, hapart⟩

end Kanban.Rpc
