import Kanban.Rpc.Listings
import Kanban.Rpc.RevisionChain

/-!
# The cards that a board's calls show

Six calls of CardService are checked on a board, and what they answer are cards.  Each looks itself
whether a card is on the board, apart from the replays: the card of a stored key, and the cards of the
request if it is labels that were changed, are shown from wherever they are.

## Main definitions

* `BoardCall`, `boardHandler` — the calls, with the cards of their answers.
* `ShownOn` — a card that is on the board, if it is anywhere.
* `BoardCall.Confined` — when the cards of the answers are on the board.
-/

namespace Kanban.Rpc

open Program Kanban.Store Kanban.Auth
open Kanban.Services (AuthContext ConnectError IdCodec)

variable {ι α β : Type} [DecidableEq ι]

/-- A call that is checked on a board and answers cards. -/
inductive BoardCall
  | batchGetCards (req : BatchGetCardsRequest)
  | listCardsByBoard (req : ListCardsByBoardRequest)
  | createCard (req : CreateCardRequest)
  | addCardDependency (req : CardDependencyRequest)
  | removeCardDependency (req : CardDependencyRequest)
  | bulkUpdateCardLabels (req : BulkUpdateCardLabelsRequest)
  deriving DecidableEq, Repr

/-- The handler of a call, with the cards of its answer. -/
def boardHandler (codec : IdCodec ι) (before : ι → ι → Bool) (ctx : RequestContext) :
    BoardCall → Handler ι (List Card)
  | .batchGetCards req => batchGetCards codec before ctx req
  | .listCardsByBoard req => (listCardsByBoard codec before ctx req).bind fun r => .pure r.cards
  | .createCard req => (createCard codec ctx req).bind fun c => .pure [c]
  | .addCardDependency req => (addCardDependency codec ctx req).bind fun c => .pure [c]
  | .removeCardDependency req => (removeCardDependency codec ctx req).bind fun c => .pure [c]
  | .bulkUpdateCardLabels req => bulkUpdateCardLabels codec ctx req

/-- The card is on the board, if it is anywhere. -/
def ShownOn (cards : List (CardRow ι)) (board : ι) (t : String) (x : ι) : Prop :=
  ∀ c ∈ cards, c.id = x → c.tenantId = t → c.boardId = board

/-- The card that is stored for the key is on the board. -/
def KeyShownOn (db : Db ι) (board : ι) (t key : String) : Prop :=
  ∀ x ∈ keyCard db t key, ShownOn db.cards board t x

/-- When the cards of the answer are on the board: the replay of a request that gets to its key shows
no card of another board. -/
def BoardCall.Confined (codec : IdCodec ι) (db : Db ι) (board : ι) (t : String) : BoardCall → Prop
  | .batchGetCards _ => True
  | .listCardsByBoard _ => True
  | .createCard req => req.title ≠ "" → KeyShownOn db board t req.idempotencyKey
  | .addCardDependency req =>
      (∃ x y, codec.parse req.cardId = some x ∧ codec.parse req.dependsOnCardId = some y ∧ x ≠ y) →
        KeyShownOn db board t req.idempotencyKey
  | .removeCardDependency req =>
      (∃ x y, codec.parse req.cardId = some x ∧ codec.parse req.dependsOnCardId = some y) →
        KeyShownOn db board t req.idempotencyKey
  | .bulkUpdateCardLabels req => keyCard db t req.idempotencyKey ≠ none →
      ∀ x ∈ req.cardIds.filterMap codec.parse, ShownOn db.cards board t x

/-! ## Where the cards are -/

section Places

variable {cards cards' : List (CardRow ι)} {board : ι} {t : String} {x : ι}

/-- The cards with their boards. -/
def places (cards : List (CardRow ι)) : List (ι × String × ι) :=
  cards.map fun c => (c.id, c.tenantId, c.boardId)

omit [DecidableEq ι]

theorem shownOn_places : ShownOn cards board t x ↔ ∀ p ∈ places cards, p.1 = x → p.2.1 = t → p.2.2 = board := by
  unfold ShownOn places
  rw [List.forall_mem_map]

theorem ShownOn.congr (h : places cards' = places cards) :
    ShownOn cards' board t x ↔ ShownOn cards board t x := by
  rw [shownOn_places, shownOn_places, h]

theorem Keyed.of_places {v v' : Db ι} (hv : Keyed v) (h : places v'.cards = places v.cards) :
    Keyed v' := by
  have hids : ∀ db : Db ι, db.cards.map CardRow.id = (places db.cards).map Prod.fst := fun db => by
    rw [places, List.map_map]
    rfl
  rw [Keyed, hids] at hv ⊢
  rwa [h]

/-- A card that was found on the board is not elsewhere. -/
theorem shownOn_of_mem {v : Db ι} (hv : Keyed v) {c : CardRow ι} (hc : c ∈ v.cards) (hid : c.id = x)
    (hboard : c.boardId = board) : ShownOn v.cards board t x := by
  rintro c' hc' hid' -
  rwa [hv.eq_of_mem hc' hc (hid'.trans hid.symm)]

end Places

/-- A part of a transaction that leaves every card on its board. -/
def Still (p : Handler ι α) : Prop :=
  ∀ v, Keyed v → SoloTx (kanban ι) p v fun _ v' => places v'.cards = places v.cards

namespace Still

variable {codec : IdCodec ι} {t key : String} {x : ι}

theorem bind {p : Handler ι α} {f : α → Handler ι β} (hp : Still p) (hf : ∀ a, Still (f a)) :
    Still (p.bind f) := fun v hv =>
  soloTx_bind ((hp v hv).mono fun a v' hv' => (hf a v' (hv.of_places hv')).mono
    fun _ _ hv'' => hv''.trans hv')

theorem of_careful {p : Handler ι α} (hp : Careful p) : Still p := fun _ _ =>
  hp.soloTx.mono fun _ _ h => congrArg (fun s => places s.cards) h

theorem ensure {p : Prop} [Decidable p] {e : ConnectError} : Still (ensure p e : Handler ι Unit) :=
  of_careful .ensure

theorem insertBoardEvent {boardId : ι} {eventType : String} {payload : Payload} :
    Still (insertBoardEvent t boardId eventType payload) := of_careful .insertBoardEvent

theorem bumpRevision {msg : String} : Still (bumpRevision msg t x) := fun v hv =>
  (soloTx_bumpRevision_cards hv).mono fun _ v' ⟨_, _, hcards⟩ => by
    rw [hcards, places, places, List.map_map]
    refine List.map_congr_left fun c _ => ?_
    dsimp only [Function.comp_apply]
    split <;> rfl

theorem touchTarget {target : CardRow ι} : Still (touchTarget codec t target x key) :=
  bumpRevision.bind fun _ => insertBoardEvent

end Still

/-! ## The calls -/

section Calls

variable {codec : IdCodec ι} {before : ι → ι → Bool} {ctx : RequestContext} {db v : Db ι} {t key : String}
  {board x : ι} {E : Db ι → Prop} {Q : α → Tx (Rec ι) → Db ι → Prop}

/-- The card is shown where it is. -/
theorem solo_fetchFullCard_shown (h : ShownOn v.cards board t x) :
    Solo (kanban ι) E (fetchFullCard codec t x) .idle v fun card tx v' =>
      tx = .idle ∧ v' = v ∧ card.boardId = codec.toString board := by
  refine solo_fetchOr_bind fun c hc hp => solo_hydrateCard.mono ?_
  rintro card tx v' ⟨htx, hv', -, hboard⟩
  obtain ⟨hid, ht⟩ : c.id = x ∧ c.tenantId = t := by simpa using hp
  exact ⟨htx, hv', by rw [hboard, h c hc hid ht]⟩

/-- The card of the call is shown at the end, after the key is stored. -/
theorem solo_stored_shown {p : Handler ι Unit} (hp : Tame p) (h : ShownOn v.cards board t x) :
    Solo (kanban ι) (fun _ => True) (p.bind fun _ => fetchFullCard codec t x) .idle v fun card _ _ =>
      card.boardId = codec.toString board := by
  refine solo_tame_bind (P := fun _ => True) hp trivial fun _ v' hv' => ?_
  have hcards : v'.cards = v.cards := congrArg Shelves.cards hv'
  rw [← hcards] at h
  exact (solo_fetchFullCard_shown h).mono fun _ _ _ hcard => hcard.2.2

/-- A dependency is added to a card of the board. -/
theorem solo_linkCards_shown {y : ι} (hdb : Keyed db) :
    Solo (kanban ι) (fun _ => True) (linkCards codec t board x y key) .idle db fun _ tx v =>
      tx = .idle ∧ ShownOn v.cards board t x := by
  refine solo_beginTx_bind (SoloTx.bind_soloIn (B := fun rows v' => v' = db ∧ ∀ c ∈ rows, c ∈ db.cards)
    (soloTx_query fun e he => ?_) ?_)
  · cases he
    exact ⟨rfl, fun c hc => (List.mem_filter.mp hc).1⟩
  rintro rows v₁ ⟨rfl, hrows⟩
  refine soloIn_ensure_bind fun hsource => ?_
  have hshown : ShownOn v₁.cards board t x := by
    obtain ⟨source, hlast⟩ : ∃ source, (rows.filter (·.id = x)).getLast? = some source :=
      Option.isSome_iff_exists.mp (Option.isSome_of_any hsource)
    rw [hlast] at hsource
    have hmem := List.mem_filter.mp (List.mem_of_getLast? hlast)
    exact shownOn_of_mem hdb (hrows _ hmem.1) (by simpa using hmem.2) (by simpa using hsource)
  refine (soloTx_orError (B := fun _ v' => v' = v₁) fun _ _ => rfl).bind_soloIn ?_
  rintro target v₂ rfl
  have hrest : Still ((query "failed to add card dependency"
      (Db.dependenciesT.insertIgnore ⟨x, y⟩)).bind fun _ =>
      (bumpRevision "failed to bump card revision" t x).bind fun n =>
      (insertBoardEvent t board "CardUpdated" (sourceUpdated codec board x y
        (((rows.filter (·.id = x)).getLast?.map CardRow.revision).getD 0) n key)).bind fun _ =>
      touchTarget codec t target x key) :=
    (Still.of_careful (.query_of_within (T := Db.dependenciesT) (fun _ => ⟨trivial, trivial⟩)
      Table.within_insertIgnore)).bind fun _ => Still.bumpRevision.bind fun _ =>
      Still.insertBoardEvent.bind fun _ => Still.touchTarget
  have hcommit := (hrest v₂ hdb).bind_soloIn (s := v₂) (E := fun _ => True)
    (f := fun _ => commitTx "commit failed") (Q := fun _ tx v => tx = .idle ∧ ShownOn v.cards board t x)
    fun _ v' hv' => soloIn_commit (.inr trivial) (solo_pure ⟨rfl, (ShownOn.congr hv').mpr hshown⟩)
      solo_fail
  simp only [Prog.bind_assoc] at hcommit
  exact hcommit

/-- A dependency is removed from a card of the board. -/
theorem solo_unlinkCards_shown {y : ι} (hdb : Keyed db) :
    Solo (kanban ι) (fun _ => True) (unlinkCards codec t board x y key) .idle db fun _ tx v =>
      tx = .idle ∧ ShownOn v.cards board t x := by
  have hcommit : ∀ v, places v.cards = places db.cards → ShownOn db.cards board t x →
      ∀ p : Handler ι Unit, Still p → SoloIn (kanban ι) (fun _ => True)
        (p.bind fun _ => commitTx "commit failed") db v fun _ tx v =>
          tx = .idle ∧ ShownOn v.cards board t x := by
    intro v hv hshown p hp
    refine (hp v (hdb.of_places hv)).bind_soloIn fun _ v' hv' => ?_
    exact soloIn_commit (.inr trivial)
      (solo_pure ⟨rfl, (ShownOn.congr (hv'.trans hv)).mpr hshown⟩) solo_fail
  refine solo_beginTx_bind ?_
  refine (soloTx_fetchOr (B := fun source v' => v' = db ∧ source ∈ db.cards ∧ source.id = x ∧
    source.boardId = board ∧ source.tenantId = t) fun e source he hsource => ?_).bind_soloIn ?_
  · cases he
    have hmem := List.mem_filter.mp (List.mem_of_head? hsource)
    exact ⟨rfl, hmem.1, by simpa using hmem.2⟩
  rintro source v₁ ⟨rfl, hsource, hid, hboard, -⟩
  have hshown : ShownOn v₁.cards board t x := shownOn_of_mem hdb hsource hid hboard
  refine (soloTx_fetchOr (B := fun _ v' => v' = v₁) fun e target he _ => ?_).bind_soloIn ?_
  · cases he
    rfl
  rintro target v₂ rfl
  refine (Still.of_careful (.query_of_within (T := Db.dependenciesT) (fun _ => ⟨trivial, trivial⟩)
    fun db => Table.within_delete db) v₂ hdb).bind_soloIn fun removed v₃ hv₃ => ?_
  by_cases hremoved : removed ≠ []
  · rw [if_pos hremoved]
    simp only [if_pos hremoved]
    have h := hcommit v₃ hv₃ hshown ((bumpRevision "failed to bump card revision" t x).bind fun n =>
      (insertBoardEvent t board "CardUpdated" (sourceUpdated codec board x y source.revision n
        key)).bind fun _ => touchTarget codec t target x key)
      (Still.bumpRevision.bind fun _ => Still.insertBoardEvent.bind fun _ => Still.touchTarget)
    simp only [Prog.bind_assoc] at h
    exact h
  · rw [if_neg hremoved]
    simp only [if_neg hremoved]
    exact hcommit v₃ hv₃ hshown _ Still.insertBoardEvent

/-- The card of a request, or that of its key. -/
theorem solo_replayOr_shown {change : Handler ι Unit} (hkey : KeyShownOn db board t key)
    (hchange : Solo (kanban ι) (fun _ => True) change .idle db fun _ tx v =>
      tx = .idle ∧ ShownOn v.cards board t x) :
    Solo (kanban ι) (fun _ => True) (replayOr codec t key x change) .idle db fun card _ _ =>
      card.boardId = codec.toString board := by
  refine solo_checkIdempotencyCard_bind ?_
  cases hfound : keyCard db t key with
  | some existingId =>
      exact (solo_fetchFullCard_shown (hkey _ hfound)).mono fun _ _ _ hcard => hcard.2.2
  | none =>
      refine solo_bind (hchange.mono ?_)
      rintro - tx v' ⟨rfl, hshown⟩
      exact solo_stored_shown .storeIdempotencyId hshown

/-! ### Labels -/

/-- The labels of a card of the board are replaced. -/
theorem soloTx_relabelCard_shown {labelIds : List ι} (hv : Keyed v) :
    SoloTx (kanban ι) (relabelCard codec t board labelIds key x) v fun _ v' =>
      places v'.cards = places v.cards ∧ ShownOn v.cards board t x := by
  refine soloTx_bind (soloTx_query fun e he => soloTx_bind (soloTx_ensure fun hne => ?_))
  cases he
  obtain ⟨owned, howned⟩ := List.exists_mem_of_ne_nil _ hne
  obtain ⟨hmem, hid, hboard, -⟩ : owned ∈ v.cards ∧ owned.id = x ∧ owned.boardId = board ∧
      owned.tenantId = t := by simpa using List.mem_filter.mp howned
  have hinsert : ∀ ids : List ι, Careful (insertCardLabels x ids) := by
    intro ids
    induction ids with
    | nil => exact .pure ()
    | cons labelId rest ih =>
        refine .bind (.query fun v e he => ?_) fun _ => ih
        unfold insertCardLabel at he
        split at he
        · cases he
          split
          · exact List.forall_mem_nil _
          · exact List.forall_mem_singleton.mpr trivial
        · cases he
  have hrest : Still ((query "failed to clear card labels"
      (Db.cardLabelsT.delete fun cl => cl.cardId = x)).bind fun _ =>
      (insertCardLabels x labelIds).bind fun _ =>
      (bumpRevision "failed to bump card revision" t x).bind fun n =>
      insertBoardEvent t board "CardUpdated"
        [("card_id", .str (codec.toString x)), ("board_id", .str (codec.toString board)),
          ("new_revision", .num n), ("label_ids", .strs (labelIds.map codec.toString)),
          ("idempotency_key", .str key)]) :=
    (Still.of_careful (.query_of_within (T := Db.cardLabelsT) (fun _ => ⟨trivial, trivial⟩)
      fun db => Table.within_delete db)).bind fun _ => (Still.of_careful (hinsert labelIds)).bind
      fun _ => Still.bumpRevision.bind fun _ => Still.insertBoardEvent
  exact (hrest v hv).mono fun _ v' hv' => ⟨hv', shownOn_of_mem hv hmem hid hboard⟩

theorem soloTx_relabelCards_shown {labelIds ids : List ι} (hv : Keyed v) :
    SoloTx (kanban ι) (relabelCards codec t board labelIds key ids) v fun _ v' =>
      places v'.cards = places v.cards ∧ ∀ x ∈ ids, ShownOn v.cards board t x := by
  induction ids generalizing v with
  | nil => exact soloTx_pure ⟨rfl, List.forall_mem_nil _⟩
  | cons x ids ih =>
      refine soloTx_bind ((soloTx_relabelCard_shown hv).mono fun _ v₁ ⟨hv₁, hx⟩ => ?_)
      refine (ih (hv.of_places hv₁)).mono fun _ v₂ ⟨hv₂, hids⟩ => ⟨hv₂.trans hv₁, ?_⟩
      rw [List.forall_mem_cons]
      exact ⟨hx, fun y hy => (ShownOn.congr hv₁).mp (hids y hy)⟩

theorem solo_fetchCards_shown {ids : List ι} (h : ∀ x ∈ ids, ShownOn v.cards board t x) :
    Solo (kanban ι) E (fetchCards codec t ids) .idle v fun cards _ _ =>
      ∀ card ∈ cards, card.boardId = codec.toString board := by
  induction ids with
  | nil => exact solo_pure (List.forall_mem_nil _)
  | cons x ids ih =>
      rw [List.forall_mem_cons] at h
      refine solo_bind ((solo_fetchFullCard_shown h.1).mono ?_)
      rintro card tx v' ⟨rfl, rfl, hcard⟩
      exact solo_bind ((ih h.2).mono fun cards _ _ hcards =>
        solo_pure (List.forall_mem_cons.mpr ⟨hcard, hcards⟩))

theorem solo_refetchCards_shown {ids : List ι} (h : ∀ x ∈ ids, ShownOn v.cards board t x) :
    Solo (kanban ι) E (refetchCards codec t ids) .idle v fun cards _ _ =>
      ∀ card ∈ cards, card.boardId = codec.toString board := by
  induction ids with
  | nil => exact solo_pure (List.forall_mem_nil _)
  | cons x ids ih =>
      rw [List.forall_mem_cons] at h
      have hrest : ∀ card : Option Card, (∀ c ∈ card, c.boardId = codec.toString board) →
          Solo (kanban ι) E ((refetchCards codec t ids).bind fun cards => .pure (card.toList ++ cards))
            .idle v fun cards _ _ => ∀ card ∈ cards, card.boardId = codec.toString board := by
        intro card hcard
        refine solo_bind (ih h.2 |>.mono fun cards _ _ hcards => solo_pure ?_)
        rw [List.forall_mem_append]
        exact ⟨by simpa using hcard, hcards⟩
      refine solo_bind (solo_bind (solo_stmt_idle (fun e he => ?_) (solo_pure (solo_pure (hrest none (by simp))))))
      cases he
      refine ⟨.inl rfl, solo_pure ?_⟩
      dsimp only [Option.bind_some]
      split
      · rename_i c hc
        obtain ⟨hmem, hp⟩ := List.mem_filter.mp (List.mem_of_head? hc)
        obtain ⟨hid, ht⟩ : c.id = x ∧ c.tenantId = t := by simpa using hp
        refine solo_bind (solo_hydrateCard.mono ?_)
        rintro card tx v' ⟨rfl, rfl, -, hboard⟩
        refine solo_pure (hrest (some card) fun card' hcard' => ?_)
        rw [← Option.some.inj hcard', hboard, h.1 c hmem hid ht]
      · exact solo_pure (hrest none (by simp))

theorem solo_bulkUpdateCardLabels_shown {req : BulkUpdateCardLabelsRequest} (hdb : Keyed db)
    (ht : ctx.auth.bind AuthContext.tenantId = some t)
    (hobject : ctx.checked.bind codec.parse = some board)
    (hkey : keyCard db t req.idempotencyKey ≠ none →
      ∀ x ∈ req.cardIds.filterMap codec.parse, ShownOn db.cards board t x) :
    Solo (kanban ι) (fun _ => True) (bulkUpdateCardLabels codec ctx req) .idle db fun cards _ _ =>
      ∀ card ∈ cards, card.boardId = codec.toString board := by
  refine solo_orError_bind fun objectId hobjectId => solo_orError_bind fun board' hboard =>
    solo_orError_bind fun t' ht' => ?_
  obtain rfl : board = board' := by simpa [hobjectId, hboard] using hobject.symm
  obtain rfl : t = t' := Option.some.inj (ht.symm.trans ht')
  split
  · exact solo_pure (List.forall_mem_nil _)
  · refine solo_checkIdempotencyCard_bind ?_
    cases hfound : keyCard db t req.idempotencyKey with
    | some existingId => exact solo_refetchCards_shown (hkey (by simp [hfound]))
    | none =>
        refine solo_beginTx_bind ((soloTx_relabelCards_shown hdb).bind_soloIn fun _ v ⟨hv, hids⟩ => ?_)
        have hshown : ∀ x ∈ req.cardIds.filterMap codec.parse, ShownOn v.cards board t x :=
          fun x hx => (ShownOn.congr hv).mpr (hids x hx)
        refine soloIn_commitTx_bind trivial ?_
        dsimp only
        split
        · refine solo_tame_bind (P := fun _ => True) .storeIdempotencyId trivial fun _ v' hv' =>
            solo_fetchCards_shown fun x hx => ?_
          have hcards : v'.cards = v.cards := congrArg Shelves.cards hv'
          rw [hcards]
          exact hshown x hx
        · exact solo_fetchCards_shown hshown

/-! ### The other calls -/

theorem solo_createCard_shown {req : CreateCardRequest} (hdb : Keyed db)
    (ht : ctx.auth.bind AuthContext.tenantId = some t)
    (hobject : ctx.checked.bind codec.parse = some board)
    (hkey : req.title ≠ "" → KeyShownOn db board t req.idempotencyKey) :
    Solo (kanban ι) (fun _ => True) (createCard codec ctx req) .idle db fun card _ _ =>
      card.boardId = codec.toString board := by
  refine solo_orError_bind fun objectId hobjectId => solo_orError_bind fun board' hboard =>
    solo_orError_bind fun subject _ => solo_orError_bind fun t' ht' => solo_ensure_bind fun htitle =>
    solo_checkIdempotencyCard_bind ?_
  obtain rfl : board = board' := by simpa [hobjectId, hboard] using hobject.symm
  obtain rfl : t = t' := Option.some.inj (ht.symm.trans ht')
  cases hfound : keyCard db t req.idempotencyKey with
  | some existingId =>
      exact (solo_fetchFullCard_shown (hkey htitle _ hfound)).mono fun _ _ _ hcard => hcard.2.2
  | none =>
      refine solo_fetchOr_bind fun row _ hrow => solo_orError_bind fun colId _ =>
        solo_fetchOr_bind fun column _ _ => ?_
      obtain ⟨rfl, -⟩ : row.id = board ∧ row.tenantId = t := by simpa using hrow
      refine solo_bind ((solo_insertNewCard (P := fun _ => True) hdb fun _ _ _ _ _ => trivial).mono ?_)
      rintro cardId tx v ⟨rfl, -, hshown⟩
      have hstored : Solo (kanban ι) (fun _ => True) (((tenantClientFor ctx).bind fun permission =>
          (grantWithRetry permission permissionTypeCard (codec.toString cardId) "parent"
            (boardSubject codec row.id)).bind fun _ =>
          storeIdempotencyCard t req.idempotencyKey cardId).bind fun _ => fetchFullCard codec t cardId)
          .idle v fun card _ _ => card.boardId = codec.toString row.id :=
        solo_stored_shown (.bind .tenantClientFor fun _ => .bind .grantWithRetry fun _ =>
          .storeIdempotencyId) fun c hc hid _ => hshown c hc hid
      simp only [Prog.bind_assoc] at hstored
      exact hstored

theorem solo_hydrateCards_shown {rows : List (CardRow ι)} (h : ∀ c ∈ rows, c.boardId = board) :
    Solo (kanban ι) E (hydrateCards codec t rows) .idle v fun cards _ _ =>
      ∀ card ∈ cards, card.boardId = codec.toString board := by
  refine solo_hydrateCards.mono ?_
  rintro cards tx v' ⟨-, -, -, hboards⟩ card hcard
  obtain ⟨c, hc, heq⟩ := List.mem_map.mp (hboards ▸ List.mem_map_of_mem hcard :
    card.boardId ∈ rows.map fun c => codec.toString c.boardId)
  rw [← heq, h c hc]

theorem solo_batchGetCards_shown {req : BatchGetCardsRequest}
    (hobject : ctx.checked.bind codec.parse = some board) :
    Solo (kanban ι) E (batchGetCards codec before ctx req) .idle db fun cards _ _ =>
      ∀ card ∈ cards, card.boardId = codec.toString board := by
  refine solo_orError_bind fun objectId hobjectId => solo_orError_bind fun board' hboard =>
    solo_orError_bind fun t _ => ?_
  obtain rfl : board = board' := by simpa [hobjectId, hboard] using hobject.symm
  split
  · exact solo_pure (List.forall_mem_nil _)
  · refine solo_query_read_bind fun e he => ?_
    cases he
    refine ⟨rfl, solo_hydrateCards_shown fun c hc => ?_⟩
    exact (of_decide_eq_true (List.mem_filter.mp ((List.mem_insertionSort _).mp hc)).2).1

theorem solo_listCardsByBoard_shown {req : ListCardsByBoardRequest}
    (hobject : ctx.checked.bind codec.parse = some board) :
    Solo (kanban ι) E ((listCardsByBoard codec before ctx req).bind fun r => .pure r.cards) .idle db
      fun cards _ _ => ∀ card ∈ cards, card.boardId = codec.toString board := by
  refine solo_bind (solo_orError_bind fun objectId hobjectId => solo_orError_bind fun board' hboard =>
    solo_orError_bind fun t _ => solo_parseOptional_bind fun column _ => solo_parseOptional_bind
    fun after _ => solo_query_read_bind fun e he => ?_)
  obtain rfl : board = board' := by simpa [hobjectId, hboard] using hobject.symm
  cases he
  refine ⟨rfl, solo_bind ((solo_hydrateCards_shown fun c hc => ?_).mono fun _ _ _ hcards =>
    solo_pure (solo_pure hcards))⟩
  have hmem := (List.mem_insertionSort _).mp (List.mem_of_mem_take (mem_of_mem_pageOf hc))
  exact (of_decide_eq_true (List.mem_filter.mp hmem).2).1

/-- **The cards of an answer are on the board** if the request is confined. -/
theorem solo_boardHandler_shown {call : BoardCall} (hdb : Keyed db)
    (ht : ctx.auth.bind AuthContext.tenantId = some t)
    (hobject : ctx.checked.bind codec.parse = some board) (hcall : call.Confined codec db board t) :
    Solo (kanban ι) (fun _ => True) (boardHandler codec before ctx call) .idle db fun cards _ _ =>
      ∀ card ∈ cards, card.boardId = codec.toString board := by
  have hone : ∀ {p : Handler ι Card}, Solo (kanban ι) (fun _ => True) p .idle db (fun card _ _ =>
      card.boardId = codec.toString board) → Solo (kanban ι) (fun _ => True) (p.bind fun c => .pure [c])
        .idle db fun cards _ _ => ∀ card ∈ cards, card.boardId = codec.toString board := fun hp =>
    solo_bind (hp.mono fun _ _ _ hcard => solo_pure (List.forall_mem_singleton.mpr hcard))
  cases call with
  | batchGetCards req => exact solo_batchGetCards_shown hobject
  | listCardsByBoard req => exact solo_listCardsByBoard_shown hobject
  | createCard req => exact hone (solo_createCard_shown hdb ht hobject hcall)
  | addCardDependency req =>
      refine hone (solo_bind (solo_orError_bind fun objectId hobjectId => solo_orError_bind
        fun board' hboard => solo_orError_bind fun t' ht' => solo_ensure_bind fun _ => solo_orError_bind
        fun x hx => solo_orError_bind fun y hy => solo_pure (solo_ensure_bind fun hne => ?_)))
      obtain rfl : board = board' := by simpa [hobjectId, hboard] using hobject.symm
      obtain rfl : t = t' := Option.some.inj (ht.symm.trans ht')
      exact solo_replayOr_shown (hcall ⟨x, y, hx, hy, hne⟩) (solo_linkCards_shown hdb)
  | removeCardDependency req =>
      refine hone (solo_bind (solo_orError_bind fun objectId hobjectId => solo_orError_bind
        fun board' hboard => solo_orError_bind fun t' ht' => solo_ensure_bind fun _ => solo_orError_bind
        fun x hx => solo_orError_bind fun y hy => solo_pure ?_))
      obtain rfl : board = board' := by simpa [hobjectId, hboard] using hobject.symm
      obtain rfl : t = t' := Option.some.inj (ht.symm.trans ht')
      exact solo_replayOr_shown (hcall ⟨x, y, hx, hy⟩) (solo_unlinkCards_shown hdb)
  | bulkUpdateCardLabels req => exact solo_bulkUpdateCardLabels_shown hdb ht hobject hcall

end Calls

/-! ## A card that is elsewhere -/

section Elsewhere

variable {codec : IdCodec ι} {before : ι → ι → Bool} {ctx : RequestContext} {t subject key : String}
  {board x : ι} {w : World (Db ι) (Backend ι)} {Q : α → Tx (Rec ι) → World (Db ι) (Backend ι) → Prop}

omit [DecidableEq ι] in
theorem exists_of_not_shownOn {cards : List (CardRow ι)} (h : ¬ ShownOn cards board t x) :
    ∃ c ∈ cards, c.id = x ∧ c.tenantId = t ∧ c.boardId ≠ board := by
  unfold ShownOn at h
  push Not at h
  exact h

/-- The card is shown, although it is elsewhere. -/
theorem sure_fetchFullCard (hdb : Keyed w.store) (h : ¬ ShownOn w.store.cards board t x) :
    Sure (kanban ι) (fetchFullCard codec t x) .idle w fun card _ _ =>
      card.boardId ≠ codec.toString board := by
  obtain ⟨c, hc, hid, ht, hboard⟩ := exists_of_not_shownOn h
  refine sure_fetchOr_bind ⟨c, hc, by simp [hid, ht]⟩ fun c' hc' hp => ?_
  obtain ⟨hid', -⟩ : c'.id = x ∧ c'.tenantId = t := by simpa using hp
  obtain rfl := hdb.eq_of_mem hc hc' (hid.trans hid'.symm)
  rw [← Prog.bind_pure (hydrateCard codec t c)]
  exact sure_hydrateCard_bind fun card hcard heq => hboard (codec.toString_injective (hcard.symm.trans heq))

theorem plain_fetchFullCardOk : (fetchFullCardOk codec t x).Plain := by
  refine .bind ⟨fun v => ⟨_, rfl, rfl⟩, fun _ => trivial⟩ fun rows => ?_
  split
  · exact .bind plain_hydrateCard fun _ => trivial
  · trivial

theorem plain_refetchCards {ids : List ι} : (refetchCards codec t ids).Plain := by
  induction ids with
  | nil => trivial
  | cons x ids ih => exact .bind plain_fetchFullCardOk fun _ => .bind ih fun _ => trivial

/-- A card of the request is shown, although it is elsewhere. -/
theorem sure_refetchCards {ids : List ι} (hdb : Keyed w.store)
    (h : ∃ x ∈ ids, ¬ ShownOn w.store.cards board t x) :
    Sure (kanban ι) (refetchCards codec t ids) .idle w fun cards _ _ =>
      ∃ card ∈ cards, card.boardId ≠ codec.toString board := by
  induction ids with
  | nil =>
      obtain ⟨x, hx, -⟩ := h
      cases hx
  | cons x ids ih =>
      by_cases hx : ShownOn w.store.cards board t x
      · obtain ⟨y, hy, hshown⟩ := h
        have hrest : ∃ y ∈ ids, ¬ ShownOn w.store.cards board t y := by
          rcases List.mem_cons.mp hy with rfl | hy
          · exact absurd hx hshown
          · exact ⟨y, hy, hshown⟩
        refine sure_plain_bind plain_fetchFullCardOk fun card => sure_bind ((ih hrest).mono ?_)
        rintro cards tx w' ⟨other, hother, hboard⟩
        exact ⟨other, List.mem_append_right _ hother, hboard⟩
      · obtain ⟨c, hc, hid, ht, hboard⟩ := exists_of_not_shownOn hx
        have hmem : c ∈ w.store.cards.filter fun c => c.id = x ∧ c.tenantId = t :=
          List.mem_filter.mpr ⟨hc, by simp [hid, ht]⟩
        obtain ⟨c', rest, hrows⟩ := List.exists_cons_of_ne_nil (List.ne_nil_of_mem hmem)
        obtain ⟨hc', hp⟩ := List.mem_filter.mp (hrows ▸ List.mem_cons_self :
          c' ∈ w.store.cards.filter fun c => c.id = x ∧ c.tenantId = t)
        obtain ⟨hid', -⟩ : c'.id = x ∧ c'.tenantId = t := by simpa using hp
        obtain rfl := hdb.eq_of_mem hc hc' (hid.trans hid'.symm)
        refine sure_bind (sure_bind (sure_stmt_idle rfl ?_))
        dsimp only [Sure, Option.bind_some]
        rw [Db.cardsT_rows, hrows]
        refine sure_hydrateCard_bind fun card hcard => ?_
        refine sure_plain_bind plain_refetchCards fun cards => ⟨card, ?_, fun heq => ?_⟩
        · exact List.mem_append_left _ (List.mem_singleton_self card)
        · exact hboard (codec.toString_injective (hcard.symm.trans heq))

/-- **A request that is not confined** can be answered with a card of another board. -/
theorem sure_boardHandler_elsewhere {call : BoardCall} (hdb : Keyed w.store)
    (ht : ctx.auth.bind AuthContext.tenantId = some t)
    (hsubject : ctx.auth.bind AuthContext.subject = some subject)
    (hobject : ctx.checked.bind codec.parse = some board)
    (hcall : ¬ call.Confined codec w.store board t) :
    Sure (kanban ι) (boardHandler codec before ctx call) .idle w fun cards _ _ =>
      ∃ card ∈ cards, card.boardId ≠ codec.toString board := by
  have hone : ∀ {p : Handler ι Card}, Sure (kanban ι) p .idle w (fun card _ _ =>
      card.boardId ≠ codec.toString board) → Sure (kanban ι) (p.bind fun c => .pure [c]) .idle w
        fun cards _ _ => ∃ card ∈ cards, card.boardId ≠ codec.toString board := fun hp =>
    sure_bind (hp.mono fun card _ _ hcard => ⟨card, List.mem_singleton_self card, hcard⟩)
  obtain ⟨objectId, hobjectId, hboard⟩ := Option.bind_eq_some_iff.mp hobject
  have hkey : ∀ {key : String}, ¬ KeyShownOn w.store board t key →
      ∃ x, keyCard w.store t key = some x ∧ ¬ ShownOn w.store.cards board t x := by
    intro key hkey
    unfold KeyShownOn at hkey
    push Not at hkey
    exact hkey
  have hreplay : ∀ {key : String} {x : ι} {change : Handler ι Unit}, ¬ KeyShownOn w.store board t key →
      Sure (kanban ι) (replayOr codec t key x change) .idle w fun card _ _ =>
        card.boardId ≠ codec.toString board := by
    intro key x change hnot
    obtain ⟨y, hfound, hshown⟩ := hkey hnot
    refine sure_checkIdempotencyCard_bind ?_
    rw [hfound]
    exact sure_fetchFullCard hdb hshown
  cases call with
  | batchGetCards req => exact absurd trivial hcall
  | listCardsByBoard req => exact absurd trivial hcall
  | createCard req =>
      obtain ⟨htitle, hnot⟩ := Classical.not_imp.mp hcall
      obtain ⟨y, hfound, hshown⟩ := hkey hnot
      refine hone (sure_orError_bind hobjectId (sure_orError_bind hboard (sure_orError_bind hsubject
        (sure_orError_bind ht (sure_ensure_bind htitle (sure_checkIdempotencyCard_bind ?_))))))
      rw [hfound]
      exact sure_fetchFullCard hdb hshown
  | addCardDependency req =>
      obtain ⟨⟨x, y, hx, hy, hne⟩, hnot⟩ := Classical.not_imp.mp hcall
      have hrequired : req.idempotencyKey ≠ "" := fun hempty => hnot fun z hz => by
        simp [keyCard, hempty] at hz
      exact hone (sure_bind (sure_orError_bind hobjectId (sure_orError_bind hboard (sure_orError_bind ht
        (sure_ensure_bind hrequired (sure_orError_bind hx (sure_orError_bind hy (sure_ensure_bind hne
          (hreplay hnot)))))))))
  | removeCardDependency req =>
      obtain ⟨⟨x, y, hx, hy⟩, hnot⟩ := Classical.not_imp.mp hcall
      have hrequired : req.idempotencyKey ≠ "" := fun hempty => hnot fun z hz => by
        simp [keyCard, hempty] at hz
      exact hone (sure_bind (sure_orError_bind hobjectId (sure_orError_bind hboard (sure_orError_bind ht
        (sure_ensure_bind hrequired (sure_orError_bind hx (sure_orError_bind hy (hreplay hnot))))))))
  | bulkUpdateCardLabels req =>
      obtain ⟨hfound, hnot⟩ := Classical.not_imp.mp hcall
      push Not at hnot
      have hids : req.cardIds ≠ [] := fun hnil => by
        obtain ⟨x, hx, -⟩ := hnot
        simp [hnil] at hx
      refine sure_orError_bind hobjectId (sure_orError_bind hboard (sure_orError_bind ht ?_))
      rw [if_neg hids]
      refine sure_checkIdempotencyCard_bind ?_
      cases hkeyed : keyCard w.store t req.idempotencyKey with
      | none => exact absurd hkeyed hfound
      | some existingId => exact sure_refetchCards hdb hnot

end Elsewhere

/-! ## The answers -/

section Law

variable {codec : IdCodec ι} {before : ι → ι → Bool} {ctx : RequestContext} {t subject : String}
  {board : ι} {w : World (Db ι) (Backend ι)}

/-- **When a board shows only its own cards.**  A call that is checked on a board and runs alone, from
any store and whatever keys are there, answers no card of another board exactly if its request is
confined. -/
theorem board_answers_confined_iff (hdb : Keyed w.store)
    (ht : ctx.auth.bind AuthContext.tenantId = some t)
    (hsubject : ctx.auth.bind AuthContext.subject = some subject)
    (hobject : ctx.checked.bind codec.parse = some board) (call : BoardCall) :
    (∀ acts th w' cards, Machine.Exec (Thread.step (kanban ι))
        (Thread.start (boardHandler codec before ctx call), w) acts (th, w') →
      th.prog.result = some (.ok cards) → ∀ card ∈ cards, card.boardId = codec.toString board) ↔
    call.Confined codec w.store board t := by
  constructor
  · intro hall
    by_contra hcall
    obtain ⟨acts, th, w', cards, -, hrun, hok, card, hcard, hboard⟩ :=
      Sure.completes (p := boardHandler codec before ctx call)
        (sure_boardHandler_elsewhere hdb ht hsubject hobject hcall) []
    exact hboard (hall acts th w' cards hrun (by rw [hok]; rfl) card hcard)
  · intro hcall acts th w' cards hrun hok
    exact ((solo_boardHandler_shown hdb ht hobject hcall).exec hrun).2 cards hok

end Law

/-- A card, and the key that it was created with. -/
def keyedCard (boardId : String) : World (Db String) (Backend String) where
  store := { oneCard.store with
    cards := [⟨"c", "t", "p", boardId, "k", "ROAD-001", "Ship", none, 0, "medium", "medium", none, none,
      false, none, none, "user:ann", 0⟩]
    idempotencyKeys := [⟨"t", "key", some "c", none⟩] }
  ext := Backend.empty

/-- A card is created on the board "b" with the key again. -/
def createsAgain : BoardCall := .createCard ⟨"k", "Ship", "", 0, none, "", 0, "key", 0⟩

/-- The card of the key is on the board. -/
theorem board_answers_confined_iff_keyed : (keyCard (keyedCard "b").store "t" "key").isSome ∧
    ∀ acts th w' cards, Machine.Exec (Thread.step (kanban String)) (Thread.start (boardHandler textIds
        (fun i j => decide (i < j)) (annOn "b") createsAgain), keyedCard "b") acts (th, w') →
      th.prog.result = some (.ok cards) → ∀ card ∈ cards, card.boardId = textIds.toString "b" := by
  refine ⟨by decide, (board_answers_confined_iff (w := keyedCard "b") (t := "t") (by decide) rfl rfl rfl
    createsAgain).mpr fun _ x hx => ?_⟩
  obtain rfl : "c" = x := Option.some.inj hx
  intro c hc _ _
  obtain rfl := List.mem_singleton.mp hc
  rfl

/-- The card of the key is on another board. -/
theorem key_shows_other_board :
    ∃ acts th w' cards, Machine.Exec (Thread.step (kanban String)) (Thread.start (boardHandler textIds
        (fun i j => decide (i < j)) (annOn "b") createsAgain), keyedCard "a") acts (th, w') ∧
      th.prog.result = some (.ok cards) ∧ ∃ card ∈ cards, card.id = "c" ∧ card.title = "Ship" ∧
        card.boardId = "a" := by
  obtain ⟨th, w', cards, hrun, hok, hcard⟩ : ∃ th w' cards, Machine.run (Thread.step (kanban String))
      (Thread.start (boardHandler textIds (fun i j => decide (i < j)) (annOn "b") createsAgain),
        keyedCard "a") (.ok :: fullCardReads) = some (th, w') ∧ th.prog.result = some (.ok cards) ∧
      ∃ card ∈ cards, card.id = "c" ∧ card.title = "Ship" ∧ card.boardId = "a" :=
    ⟨_, _, _, rfl, rfl, by decide⟩
  exact ⟨_, th, w', cards, Machine.exec_of_run hrun, hok, hcard⟩

end Kanban.Rpc
