import Kanban.Rpc.Listings
import Kanban.Rpc.OrderedRuns

/-!
# A card is appended

A CreateCard at position 0 takes the place after the last card of its column.  On a database that
does not fail it goes through if nothing in its request is refused and an `INT` column has that place.

## Main definitions

* `Admitted` — a CreateCard of which only the position can be refused.
* `sure_createCard` — it puts its card at the end of its column.
-/

namespace Kanban.Rpc

open Program Kanban.Store Kanban.Auth
open Kanban.Services (AuthContext ConnectError IdCodec)

variable {ι α : Type} [DecidableEq ι]

/-- The caller is known, the card has a title and its key is new; the board, its project, the column
and the milestone are there.  The reference that the card will get is free, and the ids of the cards
and of the events were issued. -/
structure Admitted (codec : IdCodec ι) (w : World (Db ι) (Backend ι)) (ctx : RequestContext)
    (req : CreateCardRequest) (t : String) (K : ι) (board : BoardRow ι) : Prop where
  tenant : ctx.auth.bind AuthContext.tenantId = some t
  subject : (ctx.auth.bind AuthContext.subject).isSome
  title : req.title ≠ ""
  key : keyCard w.store t req.idempotencyKey = none
  object : ctx.checked.bind codec.parse = some board.id
  stored : board ∈ w.store.boards ∧ board.tenantId = t
  project : ∃ p ∈ w.store.projects, p.id = board.projectId ∧ p.tenantId = t
  column : codec.parse req.columnId = some K ∧ HasColumn w.store K board.id t
  milestone : req.milestoneId = "" ∨ ∃ m ∈ w.store.milestones,
    codec.parse req.milestoneId = some m.id ∧ m.tenantId = t ∧ m.projectId = board.projectId
  ref : ∀ e ∈ nextCardRef t board.projectId w.store, ∀ r ∈ e.answer.head?, ∀ c ∈ w.store.cards,
    ¬ (c.tenantId = t ∧ c.projectId = board.projectId ∧ c.ref = r.1 ++ "-" ++ padSeq r.2)
  cardIds : ∀ c ∈ w.store.cards, c.id ∈ w.ext.issued
  eventIds : ∀ e ∈ w.store.eventLog, e.id ∈ w.ext.issued

section Steps

variable {up : String → Bool} {tx : Tx (Rec ι)} {w : World (Db ι) (Backend ι)} {db : Db ι}
  {codec : IdCodec ι} {t : String} {ws : List (Write (Rec ι))}
  {Q : α → Tx (Rec ι) → World (Db ι) (Backend ι) → Prop}

/-- A grant is answered, and what it says does not matter. -/
theorem sure_grantWithRetry_bind {tenant ns object relation subject : String} {f : Bool → Handler ι α}
    (h : ∀ ok ext, Sure ((kanban ι).limit (clientUp up)) (f ok) tx { w with ext := ext } Q) :
    Sure ((kanban ι).limit (clientUp up))
      ((grantWithRetry tenant ns object relation subject).bind f) tx w Q := by
  refine sure_bind ?_
  have key : ∀ n (w : World (Db ι) (Backend ι)),
      (∀ ok ext, Sure ((kanban ι).limit (clientUp up)) (f ok) tx { w with ext := ext } Q) →
      Sure ((kanban ι).limit (clientUp up)) (grantWithRetry.attempt tenant ns object relation subject n)
        tx w fun ok tx w => Sure ((kanban ι).limit (clientUp up)) (f ok) tx w Q := by
    intro n
    induction n with
    | zero => exact fun w h => h false w.ext
    | succ n ih =>
        intro w h
        refine ⟨⟨.done, _, react_limit.mpr ⟨rfl, rfl⟩⟩, fun m r hr => ?_⟩
        have herror : ∀ (e : BackendError) ext, Sure ((kanban ι).limit (clientUp up))
            (if e.transient then grantWithRetry.attempt tenant ns object relation subject n
              else .pure false) tx { w with ext := ext }
            fun ok tx w => Sure ((kanban ι).limit (clientUp up)) (f ok) tx w Q := by
          intro e ext
          split
          · exact ih { w with ext := ext } h
          · exact h false ext
        obtain ⟨-, hr⟩ := react_limit.mp hr
        cases m with
        | done =>
            cases hr
            exact h true _
        | refuse transient =>
            cases hr
            exact herror ⟨transient⟩ _
        | lose transient =>
            cases hr
            exact herror ⟨transient⟩ _
        | answer g => cases hr
        | page n => cases hr
        | resolved s => cases hr
        | fresh i => cases hr
  exact key maxRetries w h

/-- A key is stored beside the cards. -/
theorem sure_storeIdempotencyCard_bind {key : String} {cardId : ι} {f : Unit → Handler ι α}
    (h : ∀ db, db.cards = w.store.cards →
      Sure ((kanban ι).limit (clientUp up)) (f ()) .idle { w with store := db } Q) :
    Sure ((kanban ι).limit (clientUp up)) ((storeIdempotencyCard t key cardId).bind f) .idle w Q := by
  unfold storeIdempotencyCard storeIdempotencyId
  split
  · exact h w.store rfl
  · refine sure_bind (sure_stmt_idle rfl (h _ ?_))
    dsimp only
    split <;> rfl

/-- The counter of a project that is there is drawn. -/
theorem nextCardRef_some {p : ι} (h : ∃ r ∈ db.projects, r.id = p ∧ r.tenantId = t) :
    ∃ e a r, nextCardRef t p db = some e ∧ e.answer = [a] ∧ e.writes = [.put (.refCounter r)] := by
  obtain ⟨row, hrow, hid⟩ := h
  unfold nextCardRef Table.upsert
  cases hfind : db.projects.find? fun p' => p'.id = p ∧ p'.tenantId = t with
  | none =>
      have hno := List.find?_eq_none.mp hfind row hrow
      exact absurd (decide_eq_true hid) hno
  | some found =>
      dsimp only
      split
      · exact ⟨_, _, _, rfl, rfl, rfl⟩
      · exact ⟨_, _, _, rfl, rfl, rfl⟩

/-- The place after the last card of a column. -/
theorem nextPosition_some {K : ι} (h : (int4 (Shelf.top (columnShelf db.cards t K))).isSome) :
    ∃ e, nextPosition t K db = some e ∧ e.answer = Shelf.top (columnShelf db.cards t K) ∧
      e.writes = [] := by
  obtain ⟨e, he⟩ := Option.isSome_iff_exists.mp (nextPosition_isSome.mpr h)
  refine ⟨e, he, (nextPosition_eq he).1, ?_⟩
  obtain ⟨n, -, rfl⟩ := Option.map_eq_some_iff.mp he
  rfl

/-- A milestone of the project is accepted. -/
theorem sure_checkMilestone_bind {projectId : ι} {milestoneId : String}
    {f : Option ι → Handler ι α}
    (hmilestone : milestoneId = "" ∨ ∃ m ∈ ((kanban ι).applyAll w.store ws).milestones,
      codec.parse milestoneId = some m.id ∧ m.tenantId = t ∧ m.projectId = projectId)
    (h : ∀ mid, Sure ((kanban ι).limit (clientUp up)) (f mid) (.active ws) w Q) :
    Sure ((kanban ι).limit (clientUp up)) ((checkMilestone codec t projectId milestoneId).bind f)
      (.active ws) w Q := by
  unfold checkMilestone
  split
  · exact h none
  · rename_i hne
    obtain ⟨m, hm, hparse, hat⟩ := hmilestone.resolve_left hne
    refine sure_bind (sure_orError_bind hparse (sure_bind (sure_queryTx_bind rfl ?_)))
    have hmem : m ∈ ((kanban ι).applyAll w.store ws).milestones.filter fun m' =>
        m'.id = m.id ∧ m'.tenantId = t ∧ m'.projectId = projectId :=
      List.mem_filter.mpr ⟨hm, decide_eq_true ⟨rfl, hat⟩⟩
    obtain ⟨m₀, rest, hrows⟩ := List.exists_cons_of_ne_nil (List.ne_nil_of_mem hmem)
    have hhead : (((kanban ι).applyAll w.store ws).milestones.filter fun m' =>
        m'.id = m.id ∧ m'.tenantId = t ∧ m'.projectId = projectId).head?.isSome := by
      rw [hrows]
      rfl
    rw [List.append_nil]
    exact sure_ensure_bind hhead (h _)

/-- A card that is there stays there under the writes of an event. -/
theorem Logs.mem_cards {ws' : List (Write (Rec ι))} {c : CardRow ι} (h : Logs ws')
    (hc : c ∈ ((kanban ι).applyAll db ws).cards) : c ∈ ((kanban ι).applyAll db (ws ++ ws')).cards := by
  rw [Semantics.applyAll_append]
  generalize (kanban ι).applyAll db ws = db' at hc ⊢
  induction ws' generalizing db' with
  | nil => exact hc
  | cons a ws' ih =>
      refine ih (fun b hb => h b (List.mem_cons_of_mem _ hb)) _ ?_
      rcases h a List.mem_cons_self with ⟨b, rfl⟩ | ⟨e, rfl⟩ <;> exact hc

end Steps

section Append

variable [Infinite ι] {codec : IdCodec ι} {ctx : RequestContext} {req : CreateCardRequest}
  {up : String → Bool} {w : World (Db ι) (Backend ι)} {t s : String} {K : ι} {board : BoardRow ι}

/-- The card stands at the end of its column. -/
def Appended (db : Db ι) (t : String) (K : ι) (db' : Db ι) : Prop :=
  ∃ c ∈ db'.cards, c.columnId = K ∧ c.tenantId = t ∧
    c.position = Shelf.top (columnShelf db.cards t K)

/-- The transaction of the new card goes through, and the card is there. -/
theorem sure_insertNewCard_bind {column : ColumnRow ι} {f : ι → Handler ι α}
    {Q : α → Tx (Rec ι) → World (Db ι) (Backend ι) → Prop}
    (h : Admitted codec w ctx req t K board) (hcolumn : column.id = K) (hzero : req.position = 0)
    (hroom : (int4 (Shelf.top (columnShelf w.store.cards t K))).isSome)
    (hf : ∀ c db ext, c ∈ db.cards → c.columnId = K → c.tenantId = t →
      c.position = Shelf.top (columnShelf w.store.cards t K) →
      Sure ((kanban ι).limit (clientUp up)) (f c.id) .idle ⟨db, ext⟩ Q) :
    Sure ((kanban ι).limit (clientUp up)) ((insertNewCard codec ctx s t board column req).bind f) .idle
      w Q := by
  subst hcolumn
  obtain ⟨e, a, r, he, hanswer, hwrites⟩ := nextCardRef_some h.project
  obtain ⟨en, hen, hposition, hnone⟩ := nextPosition_some hroom
  unfold insertNewCard
  refine sure_bind (sure_beginTx_bind (sure_bind (sure_queryTx_bind rfl (sure_fetchOneTx_bind he
    (by rw [hanswer]; rfl) ?_))))
  rw [hwrites]
  refine sure_newId_bind fun i hi => ?_
  unfold insertPosition
  rw [if_pos hzero]
  refine sure_bind (sure_attemptTx_bind hen ?_)
  rw [hnone]
  refine sure_checkMilestone_bind (by exact h.milestone) fun mid => ?_
  refine sure_queryTx_bind (e := ⟨(), [], [.put (.card (newCardRow ctx s t board column req i
    (a.1 ++ "-" ++ padSeq a.2) en.answer mid))]⟩) ?_ ?_
  · -- the id was not issued before, and no card has the reference
    have hfree : ¬ (w.store.cards.any fun c =>
        c.tenantId = t ∧ c.projectId = board.projectId ∧ c.ref = a.1 ++ "-" ++ padSeq a.2) = true := by
      intro hany
      obtain ⟨c, hc, hsame⟩ := List.any_eq_true.mp hany
      exact h.ref e he a (by rw [hanswer]; rfl) c hc (of_decide_eq_true hsame)
    have hnew : ¬ (w.store.cards.any fun c => i = c.id) = true := by
      intro hany
      obtain ⟨c, hc, hsame⟩ := List.any_eq_true.mp hany
      exact hi (of_decide_eq_true hsame ▸ h.cardIds c hc)
    exact (if_neg hfree).trans (if_neg hnew)
  · refine sure_insertBoardEvent_bind (fun e' he' => List.mem_cons_of_mem _ (h.eventIds e' he')) ⟨board, h.stored.1, rfl⟩
      fun ws' ext hlogs => ?_
    refine sure_commitTx_bind (hf (newCardRow ctx s t board column req i
      (a.1 ++ "-" ++ padSeq a.2) en.answer mid) _ _ ?_ rfl rfl hposition)
    exact hlogs.mem_cards Table.mem_put_self

/-- **An admitted CreateCard appends its card.** -/
theorem sure_createCard (hcoherent : Coherent w.store) (h : Admitted codec w ctx req t K board)
    (hzero : req.position = 0) (hup : up t = true)
    (hroom : (int4 (Shelf.top (columnShelf w.store.cards t K))).isSome) :
    Sure ((kanban ι).limit (clientUp up)) (createCard codec ctx req) .idle w fun _ _ w' =>
      Appended w.store t K w'.store := by
  obtain ⟨object, hobject, hid⟩ := Option.bind_eq_some_iff.mp h.object
  obtain ⟨s, hs⟩ := Option.isSome_iff_exists.mp h.subject
  obtain ⟨hK, column, hcolumn, hcid, hcboard, hct⟩ := h.column
  refine sure_orError_bind hobject (sure_orError_bind hid (sure_orError_bind hs
    (sure_orError_bind h.tenant (sure_ensure_bind h.title (sure_checkIdempotencyCard_bind ?_)))))
  rw [h.key]
  refine sure_fetchOr_bind ⟨board, h.stored.1, decide_eq_true ⟨rfl, h.stored.2⟩⟩ fun b hb hp => ?_
  obtain rfl : b = board :=
    List.inj_on_of_nodup_map hcoherent.boardKeys hb h.stored.1 (of_decide_eq_true hp).1
  refine sure_orError_bind hK (sure_fetchOr_bind
    ⟨column, hcolumn, decide_eq_true ⟨hcid, hcboard, hct⟩⟩ fun column' _ hp' => ?_)
  refine sure_insertNewCard_bind h (of_decide_eq_true hp').1 hzero hroom
    fun c db ext hc hcol ht hpos => ?_
  refine sure_tenantClientFor_bind h.tenant hup (sure_grantWithRetry_bind fun ok ext =>
    sure_storeIdempotencyCard_bind fun db' hcards => ?_)
  have hc' : c ∈ db'.cards := hcards ▸ hc
  refine sure_fetchOr_bind ⟨c, hc', decide_eq_true ⟨rfl, ht⟩⟩ fun row _ _ => ?_
  refine (Sure.of_plain plain_hydrateCard).mono fun card tx w' ⟨_, hw'⟩ => ?_
  rw [hw']
  exact ⟨c, hc', hcol, ht, hpos⟩

end Append

end Kanban.Rpc
