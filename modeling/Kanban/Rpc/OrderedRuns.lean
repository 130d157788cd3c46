import Kanban.Rpc.OrderedCalls

/-!
# The order of the cards over whole runs

Calls that create, move, transfer and delete cards are executed one after the other, with whatever
positions in their requests.  No two cards of a column ever share a position, and a call keeps the
order of all cards but the one it is about.  Where the call puts that card depends on the gaps of
the column.

## Main definitions

* `shelfOf` — all cards of a column, each at its position.
* `Overflows` — the arithmetic of a call leaves the range of an `INT` column.
* `Room` — a call that puts no card at the last position, and shifts none onto it.
-/

namespace Kanban.Rpc

open Program Kanban.Store Kanban.Auth
open Kanban.Services (AuthContext ConnectError IdCodec)

variable {ι : Type} [DecidableEq ι]

/-! ## All cards of a column -/

/-- The cards of a column, each at its position. -/
def shelfOf (cards : List (CardRow ι)) (columnId : ι) : List (ι × ℤ) :=
  (cards.filter fun c => c.columnId = columnId).map fun c => (c.id, c.position)

/-- The cards of a column are in one tenant. -/
def OneTenant (cards : List (CardRow ι)) : Prop :=
  ∀ c ∈ cards, ∀ c' ∈ cards, c.columnId = c'.columnId → c.tenantId = c'.tenantId

omit [DecidableEq ι] in
theorem Coherent.oneTenant {db : Db ι} (h : Coherent db) : OneTenant db.cards := by
  intro c hc c' hc' hK
  obtain ⟨⟨k, hk, hid, -, ht⟩, -⟩ := h.placed c hc
  obtain ⟨⟨k', hk', hid', -, ht'⟩, -⟩ := h.placed c' hc'
  obtain rfl := List.inj_on_of_nodup_map h.columnKeys hk hk' (hid.trans (hK.trans hid'.symm))
  exact ht.symm.trans ht'

section ShelfOf

variable {cards cards' : List (CardRow ι)} {c : CardRow ι} {t : String} {K x : ι}

theorem mem_shelfOf {a : ι × ℤ} :
    a ∈ shelfOf cards K ↔ ∃ c ∈ cards, c.columnId = K ∧ (c.id, c.position) = a := by
  simp [shelfOf, and_assoc]

/-- The tenant of a column is that of any of its cards. -/
theorem OneTenant.shelfOf_eq (h : OneTenant cards) (hc : c ∈ cards) :
    shelfOf cards c.columnId = columnShelf cards c.tenantId c.columnId := by
  unfold shelfOf columnShelf
  congr 1
  refine List.filter_congr fun c' hc' => decide_eq_decide.mpr ?_
  exact ⟨fun hK => ⟨hK, h c' hc' c hc hK⟩, And.left⟩

theorem columnShelf_sublist : (columnShelf cards t K).Sublist (shelfOf cards K) := by
  refine List.Sublist.map _ ?_
  rw [show cards.filter (fun c => decide (c.columnId = K ∧ c.tenantId = t)) =
    (cards.filter fun c => c.columnId = K).filter fun c => c.tenantId = t by
      rw [List.filter_filter]
      exact List.filter_congr fun c _ => by simp [Bool.and_comm]]
  exact List.filter_sublist

theorem CardsApart.of_shelfOf (h : ∀ K, Shelf.Apart (shelfOf cards K)) : CardsApart cards :=
  fun _ K => (h K).of_sublist columnShelf_sublist

theorem CardsApart.shelfOf (h : CardsApart cards) (ht : OneTenant cards) (K : ι) :
    Shelf.Apart (shelfOf cards K) := by
  cases hshelf : Rpc.shelfOf cards K with
  | nil => exact List.nodup_nil
  | cons a l =>
      obtain ⟨c, hc, rfl, -⟩ := mem_shelfOf.mp (hshelf ▸ List.mem_cons_self (a := a) (l := l))
      rw [← hshelf, ht.shelfOf_eq hc]
      exact h _ _

theorem exists_of_mem_others {a : ι} (h : a ∈ Shelf.order (Shelf.others x (columnShelf cards t K))) :
    ∃ c ∈ cards, c.columnId = K ∧ c.tenantId = t := by
  obtain ⟨p, hp⟩ := Shelf.mem_order.mp h
  obtain ⟨c, hc, hK, ht, -⟩ := mem_columnShelf.mp (List.mem_filter.mp hp).1
  exact ⟨c, hc, hK, ht⟩

/-- What holds of the order of a column in every tenant holds of the order of the column. -/
theorem order_others_shelfOf (ht : OneTenant cards) (ht' : OneTenant cards')
    (h : ∀ t, Shelf.order (Shelf.others x (columnShelf cards' t K)) =
      Shelf.order (Shelf.others x (columnShelf cards t K))) :
    Shelf.order (Shelf.others x (shelfOf cards' K)) =
      Shelf.order (Shelf.others x (shelfOf cards K)) := by
  -- a column with a card is the column of that card's tenant, before and after
  have hsame : ∀ {l l' : List (CardRow ι)}, OneTenant l → OneTenant l' →
      (∀ t, Shelf.order (Shelf.others x (columnShelf l' t K)) =
        Shelf.order (Shelf.others x (columnShelf l t K))) →
      ∀ a ∈ Shelf.order (Shelf.others x (shelfOf l K)), Shelf.order (Shelf.others x (shelfOf l' K)) =
        Shelf.order (Shelf.others x (shelfOf l K)) := by
    intro l l' hl hl' h a ha
    obtain ⟨p, hp⟩ := Shelf.mem_order.mp ha
    obtain ⟨c, hc, rfl, -⟩ := mem_shelfOf.mp (List.mem_filter.mp hp).1
    rw [hl.shelfOf_eq hc] at ha ⊢
    obtain ⟨c', hc', hK, htenant⟩ := exists_of_mem_others ((h c.tenantId).symm ▸ ha)
    rw [← hK, ← htenant, hl'.shelfOf_eq hc', hK, htenant, h]
  cases hl : Shelf.order (Shelf.others x (shelfOf cards K)) with
  | cons a l => rw [hsame ht ht' h a (hl ▸ List.mem_cons_self), hl]
  | nil =>
      cases hl' : Shelf.order (Shelf.others x (shelfOf cards' K)) with
      | nil => rfl
      | cons a l => rw [← hl', ← hl, hsame ht' ht (fun t => (h t).symm) a (hl' ▸ List.mem_cons_self)]

/-- The column in which a card is put is the column of its tenant. -/
theorem PutAt.others_shelfOf {row : CardRow ι} {i : ℕ} (h : PutAt row i cards cards')
    (ht : OneTenant cards) (ht' : OneTenant cards') (hrow : row ∈ cards') :
    Shelf.others row.id (shelfOf cards row.columnId) =
      Shelf.others row.id (columnShelf cards row.tenantId row.columnId) := by
  cases hl : Shelf.others row.id (shelfOf cards row.columnId) with
  | nil => exact (List.sublist_nil.mp (hl ▸ columnShelf_sublist.filter _)).symm
  | cons a l =>
      have ha : a ∈ Shelf.others row.id (shelfOf cards row.columnId) := hl ▸ List.mem_cons_self
      obtain ⟨c, hc, hK, rfl⟩ := mem_shelfOf.mp (List.mem_filter.mp ha).1
      rw [← hK, ht.shelfOf_eq hc, hK] at ha
      -- the card is still in the column, next to the card that was put there
      have hmem : c.id ∈ Shelf.order (Shelf.others row.id
          (columnShelf cards' c.tenantId row.columnId)) := by
        rw [h.others]
        exact Shelf.mem_order.mpr ⟨_, ha⟩
      obtain ⟨c', hc', hK', htenant⟩ := exists_of_mem_others hmem
      rw [← hl, ← hK, ht.shelfOf_eq hc, hK, ← htenant, ht' c' hc' row hrow hK']

theorem PutAt.order_shelfOf {row : CardRow ι} {i : ℕ} (h : PutAt row i cards cards')
    (ht : OneTenant cards) (ht' : OneTenant cards') (hrow : row ∈ cards') :
    Shelf.order (shelfOf cards' row.columnId) =
      (Shelf.order (Shelf.others row.id (shelfOf cards row.columnId))).insertIdx i row.id := by
  rw [ht'.shelfOf_eq hrow, h.here, h.others_shelfOf ht ht' hrow]

end ShelfOf

/-! ## What a call does to the order -/

section Calls

variable {codec : IdCodec ι} {q : RequestContext × OrderingCall} {cards cards' : List (CardRow ι)}
  {t : String} {shifts : List (Shift ι)} {row : CardRow ι}

/-- The card that a call is about: the new one, or the one that it names. -/
def Subject (codec : IdCodec ι) (q : RequestContext × OrderingCall) (cards : List (CardRow ι))
    (x : ι) : Prop :=
  match q.2 with
  | .createCard _ => ∀ c ∈ cards, c.id ≠ x
  | _ => q.1.checked.bind codec.parse = some x

/-- Every call that puts a card puts it in its place. -/
theorem PutsCard.exists_putAt (h : PutsCard codec q t cards shifts row) (hcards : CardsApart cards)
    (hputs : Puts t shifts row cards cards') :
    Subject codec q cards row.id ∧ ∃ i, PutAt row i cards cards' := by
  cases h with
  | create req hq hcolumn hnew hpos hfits =>
      refine ⟨by rw [Subject, hq]; exact hnew, ?_⟩
      unfold insertShifts insertedPosition at *
      split at hputs
      · rw [if_pos ‹_›] at hpos
        exact ⟨_, hputs.atTop hcards hpos⟩
      · rw [if_neg ‹_›] at hpos
        rw [← hpos] at hputs
        exact ⟨_, hputs.atPosition hcards rfl⟩
  | move req hq hobject hcolumn hcard htenant hid hpos =>
      refine ⟨by rw [Subject, hq, hid]; exact hobject, _, hputs.moved hcards hcard hid htenant hpos⟩
  | transfer req hq hobject hcolumn hcard hpos hfits =>
      exact ⟨by rw [Subject, hq]; exact hobject, _, hputs.atTop hcards hpos⟩

/-- The cards stay apart, and all but one keep their order. -/
theorem Effects.order (h : Effects codec q cards cards') (hcards : CardsApart cards) :
    CardsApart cards' ∧ ∃ x, Subject codec q cards x ∧ ∀ t K,
      Shelf.order (Shelf.others x (columnShelf cards' t K)) =
        Shelf.order (Shelf.others x (columnShelf cards t K)) := by
  cases h with
  | put htenant hq hputs =>
      obtain ⟨hsubject, i, hput⟩ := hq.exists_putAt hcards hputs
      exact ⟨hput.apart, _, hsubject, hput.others⟩
  | @delete x hq hobject heq =>
      subst heq
      refine ⟨fun t K => ?_, x, by rw [Subject, hq]; exact hobject, fun t K => ?_⟩
      · rw [columnShelf_otherCards]
        exact Shelf.apart_others (hcards t K)
      · rw [columnShelf_otherCards, Shelf.order_others (Shelf.apart_others (hcards t K))]
        exact List.filter_eq_self.mpr fun a ha => decide_eq_true fun heq =>
          Shelf.not_mem_order_others (heq ▸ ha)

end Calls

/-! ## Arithmetic -/

/-- A position that the call computes is out of the range of an `INT` column: the statement that
computes it fails. -/
inductive Overflows (codec : IdCodec ι) (db : Db ι) (q : RequestContext × OrderingCall) : Prop
  | append {t : String} {K : ι} (req : CreateCardRequest) (hq : q.2 = .createCard req)
      (htenant : q.1.auth.bind AuthContext.tenantId = some t)
      (hcolumn : codec.parse req.columnId = some K) (hpos : req.position = 0)
      (hnone : nextPosition t K db = none)
  | insert {t : String} {K : ι} (req : CreateCardRequest) (hq : q.2 = .createCard req)
      (htenant : q.1.auth.bind AuthContext.tenantId = some t)
      (hcolumn : codec.parse req.columnId = some K) (hpos : req.position ≠ 0)
      (hnone : shiftCards t K (fun p => req.position ≤ p) 1 db = none)
  | move {t : String} {K : ι} {card : CardRow ι} {s : Shift ι} (req : MoveCardRequest)
      (hq : q.2 = .moveCard req) (htenant : q.1.auth.bind AuthContext.tenantId = some t)
      (hobject : q.1.checked.bind codec.parse = some card.id) (hcard : card ∈ db.cards)
      (hcolumn : codec.parse req.toColumnId = some K)
      (hs : s ∈ moveShifts card K req.toPos)
      (hnone : shiftCards t s.columnId s.range s.delta db = none)
  | transfer {t : String} {K : ι} (req : TransferCardRequest) (hq : q.2 = .transferCard req)
      (htenant : q.1.auth.bind AuthContext.tenantId = some t)
      (hcolumn : codec.parse req.targetColumnId = some K) (hnone : nextPosition t K db = none)

section Arithmetic

variable {codec : IdCodec ι} {q : RequestContext × OrderingCall} {db : Db ι} {t : String} {K : ι}
  {cards' : List (CardRow ι)}

theorem nextPosition_isSome :
    (nextPosition t K db).isSome ↔ (int4 (Shelf.top (columnShelf db.cards t K))).isSome := by
  rw [top_columnShelf]
  exact Iff.of_eq (congrArg (· = true) Option.isSome_map)

theorem not_overflows_of_effects (hdb : Keyed db) (h : Effects codec q db.cards cards') :
    ¬ Overflows codec db q := by
  have hfit : ∀ {s : Shift ι} {t : String}, s.Fits t db.cards →
      shiftCards t s.columnId s.range s.delta db ≠ none := fun hs hnone => by
    simpa [hnone] using shiftCards_isSome hs
  cases h with
  | delete hq =>
      intro ho
      cases ho <;> simp_all
  | @put t' shifts row htenant hcall hputs =>
      intro ho
      cases hcall with
      | create req hq hcolumn hnew hpos hfits =>
          cases ho with
          | append req' hq' htenant' hcolumn' hzero hnone =>
              obtain rfl : req = req' := by simpa [hq] using hq'
              obtain rfl : t' = _ := Option.some.inj (htenant.symm.trans htenant')
              obtain rfl := Option.some.inj (hcolumn.symm.trans hcolumn')
              have := hfits hzero
              rw [hpos, insertedPosition, if_pos hzero, ← nextPosition_isSome, hnone] at this
              cases this
          | insert req' hq' htenant' hcolumn' hzero hnone =>
              obtain rfl : req = req' := by simpa [hq] using hq'
              obtain rfl : t' = _ := Option.some.inj (htenant.symm.trans htenant')
              obtain rfl := Option.some.inj (hcolumn.symm.trans hcolumn')
              exact hfit (hputs.fits ⟨row.columnId, fun p => req.position ≤ p, 1⟩
                (by simp [insertShifts, hzero])) hnone
          | move req' hq' => simp [hq] at hq'
          | transfer req' hq' => simp [hq] at hq'
      | move req hq hobject hcolumn hcard hct hid hpos =>
          cases ho with
          | append req' hq' => simp [hq] at hq'
          | insert req' hq' => simp [hq] at hq'
          | move req' hq' htenant' hobject' hcard' hcolumn' hs hnone =>
              obtain rfl : req = req' := by simpa [hq] using hq'
              obtain rfl : t' = _ := Option.some.inj (htenant.symm.trans htenant')
              obtain rfl := Option.some.inj (hcolumn.symm.trans hcolumn')
              obtain rfl := hdb.eq_of_mem hcard hcard' (Option.some.inj (hobject.symm.trans hobject'))
              exact hfit (hputs.fits _ hs) hnone
          | transfer req' hq' => simp [hq] at hq'
      | transfer req hq hobject hcolumn hcard hpos hfits =>
          cases ho with
          | append req' hq' => simp [hq] at hq'
          | insert req' hq' => simp [hq] at hq'
          | move req' hq' => simp [hq] at hq'
          | transfer req' hq' htenant' hcolumn' hnone =>
              obtain rfl : t' = _ := Option.some.inj (htenant.symm.trans htenant')
              obtain rfl : req = req' := by simpa [hq] using hq'
              obtain rfl := Option.some.inj (hcolumn.symm.trans hcolumn')
              rw [hpos, ← nextPosition_isSome, hnone] at hfits
              cases hfits

end Arithmetic

/-! ## Serial runs -/

section Runs

variable {codec : IdCodec ι} {pages : ℕ} {w w' w'' : World (Db ι) (Backend ι)}
  {q : RequestContext × OrderingCall} {acts : List (Act (Move ι))}
  {calls : List ((RequestContext × OrderingCall) × List (Act (Move ι)))}
  {t : Thread (Db ι) (Rec ι) (Call ι) (Reply ι) ConnectError Unit}

theorem along_orderingHandler {v : Db ι} :
    Along (kanban ι) Coherent (orderingHandler codec pages q) .outside v fun _ _ _ => True := by
  have hreply : ∀ {α : Type} {p : Handler ι α},
      Along (kanban ι) Coherent p .outside v (fun _ _ _ => True) →
      Along (kanban ι) Coherent (p.bind fun _ => .pure ()) .outside v fun _ _ _ => True :=
    fun hp => along_bind (hp.mono fun _ _ _ _ => along_pure trivial)
  obtain ⟨ctx, call⟩ := q
  cases call with
  | createCard req => exact hreply along_createCard
  | moveCard req => exact hreply along_moveCard
  | transferCard req => exact hreply along_transferCard
  | deleteCard => exact along_deleteCard

/-- A call that runs alone, from its first step as far as it gets: the store is the one it found,
or the call has gone through. -/
theorem exec_orderingHandler (hdb : Keyed w.store)
    (hrun : Machine.Exec (Thread.step (kanban ι)) (Thread.start (orderingHandler codec pages q), w)
      acts (t, w')) :
    (w'.store = w.store ∨ Effects codec q w.store.cards w'.store.cards) ∧
      (t.prog.result = some (.ok ()) → Replayed w.store q ∧ w'.store = w.store ∨
        ¬ Replayed w.store q ∧ Effects codec q w.store.cards w'.store.cards) := by
  obtain ⟨hstore, hresult⟩ := (solo_orderingHandler hdb).exec hrun
  exact ⟨hstore, hresult ()⟩

/-- Coherent databases whose cards are apart. -/
structure Ordered (db : Db ι) : Prop where
  coherent : Coherent db
  apart : CardsApart db.cards

theorem Coherent.exec (h : Coherent w.store)
    (hrun : Machine.Exec (Thread.step (kanban ι)) (Thread.start (orderingHandler codec pages q), w)
      acts (t, w')) : Coherent w'.store := by
  refine ((along_orderingHandler (q := q) .idle [] w ⟨rfl, h⟩).exec hrun
    (fun _ w => Coherent w.store) h (fun _ _ h => h) ?_).2
  exact fun _ _ _ _ h _ => h

theorem Ordered.exec (h : Ordered w.store)
    (hrun : Machine.Exec (Thread.step (kanban ι)) (Thread.start (orderingHandler codec pages q), w)
      acts (t, w')) : Ordered w'.store := by
  refine ⟨h.coherent.exec hrun, ?_⟩
  rcases (exec_orderingHandler h.coherent.cardKeys hrun).1 with hsame | heffects
  · rw [hsame]
    exact h.apart
  · exact (heffects.order h.apart).1

/-- **Every state of a serial run is ordered.** -/
theorem Ordered.serial (h : Ordered w.store)
    (hrun : Machine.Exec (serialStep (kanban ι) (orderingHandler codec pages)) w calls w') :
    Ordered w'.store := by
  refine hrun.invariant (fun w => Ordered w.store) h ?_
  rintro w ⟨q, acts⟩ w' hw hs
  obtain ⟨⟨t, w''⟩, ht, rfl⟩ := Option.map_eq_some_iff.mp hs
  exact hw.exec (Machine.exec_of_run ht)

theorem Ordered.of_shelfOf {db : Db ι} (h : Coherent db)
    (hapart : ∀ K, Shelf.Apart (shelfOf db.cards K)) : Ordered db := ⟨h, .of_shelfOf hapart⟩

/-- **Order stability.**  In every state of a serial run the positions of each column are distinct;
each call keeps the relative order of all cards of every column but the one that it creates, moves
or deletes; and a call whose arithmetic overflows changes nothing and does not succeed, unless its
key was stored. -/
theorem serial_order_stable (h : Coherent w.store)
    (hapart : ∀ K, Shelf.Apart (shelfOf w.store.cards K))
    (hrun : Machine.Exec (serialStep (kanban ι) (orderingHandler codec pages)) w calls w') :
    (∀ K, Shelf.Apart (shelfOf w'.store.cards K)) ∧
      ∀ q acts t w'', Machine.Exec (Thread.step (kanban ι))
          (Thread.start (orderingHandler codec pages q), w') acts (t, w'') →
        (w''.store.cards = w'.store.cards ∨ ∃ x, Subject codec q w'.store.cards x ∧
          ∀ K, Shelf.order (Shelf.others x (shelfOf w''.store.cards K)) =
            Shelf.order (Shelf.others x (shelfOf w'.store.cards K))) ∧
        (Overflows codec w'.store q → w''.store = w'.store ∧
          (t.prog.result = some (.ok ()) → Replayed w'.store q)) := by
  have hordered : Ordered w'.store := (Ordered.of_shelfOf h hapart).serial hrun
  refine ⟨hordered.apart.shelfOf hordered.coherent.oneTenant, fun q acts t w'' hcall => ?_⟩
  have hordered' : Ordered w''.store := hordered.exec hcall
  obtain ⟨hstore, hresult⟩ := exec_orderingHandler hordered.coherent.cardKeys hcall
  refine ⟨?_, fun hover => ⟨?_, fun hok => ?_⟩⟩
  · rcases hstore with hsame | heffects
    · exact .inl (by rw [hsame])
    · obtain ⟨-, x, hsubject, horder⟩ := heffects.order hordered.apart
      exact .inr ⟨x, hsubject, fun K => order_others_shelfOf hordered.coherent.oneTenant
        hordered'.coherent.oneTenant fun t => horder t K⟩
  · rcases hstore with hsame | heffects
    · exact hsame
    · exact absurd hover (not_overflows_of_effects hordered.coherent.cardKeys heffects)
  · rcases hresult hok with ⟨hreplayed, -⟩ | heffects
    · exact hreplayed
    · exact absurd hover (not_overflows_of_effects hordered.coherent.cardKeys heffects.2)

end Runs

/-- A board with two columns and no cards. -/
def twoColumns : World (Db String) (Backend String) where
  store := { Db.empty with
    projects := [⟨"p", "t", "Roadmap", "ROAD", "ROAD", "", "user:ann"⟩]
    boards := [⟨"b", "t", "p", "Board", "BOARD", "", none, "", 0⟩]
    columns := [⟨"k", "t", "b", "Todo", none, none, 0, false⟩,
      ⟨"l", "t", "b", "Done", none, none, 1, true⟩] }
  ext := Backend.empty

def annOn (objectId : String) : RequestContext :=
  ⟨some ⟨some "t", some "user:ann"⟩, some objectId, 0⟩

/-- The reads of `fetch_full_card`. -/
def fullCardReads : List (Act (Move String)) := [.ok, .ok, .ok, .ok, .ok, .ok, .ok, .ok]

/-- A `CreateCard` without a key, from its first step to its last. -/
def createsCard (columnId : String) (position : ℤ) (cardId event : String) :
    (RequestContext × OrderingCall) × List (Act (Move String)) :=
  ((annOn "b", .createCard ⟨columnId, "Ship", "", 0, none, "", position, "", 0⟩),
    [.ok, .ok, .ok, .ok, .ok, .move (.fresh cardId), .ok, .ok, .ok, .move (.fresh event), .ok, .ok,
      .ok, .move .done, .move .done] ++ fullCardReads)

def deletesCard (cardId event : String) : (RequestContext × OrderingCall) × List (Act (Move String)) :=
  ((annOn cardId, .deleteCard), [.ok, .ok, .ok, .ok, .move (.fresh event), .ok, .ok, .ok,
    .move .done, .move (.page 10), .move .done])

/-- A `MoveCard` within its column that shifts other cards. -/
def reordersCard (cardId columnId : String) (toPosition : ℤ) (event : String) :
    (RequestContext × OrderingCall) × List (Act (Move String)) :=
  ((annOn cardId, .moveCard ⟨columnId, toPosition, ""⟩), [.ok, .ok, .ok, .ok, .ok, .ok, .ok,
    .move (.fresh event), .ok, .ok, .ok] ++ fullCardReads)

theorem ordered_twoColumns : Coherent twoColumns.store ∧
    ∀ K, Shelf.Apart (shelfOf twoColumns.store.cards K) := by
  refine ⟨⟨by decide, by decide, by decide, by simp [twoColumns, Db.empty]⟩, fun K => ?_⟩
  exact List.nodup_nil

theorem serial_order_stable_reordered :
    ∃ w', Machine.Exec (serialStep (kanban String) (orderingHandler textIds 1)) twoColumns
        [createsCard "k" 0 "c" "e", createsCard "k" 7 "d" "f", reordersCard "d" "k" 1 "g"] w' ∧
      shelfOf w'.store.cards "k" = [("c", 1), ("d", 0)] ∧
      ∀ K, Shelf.Apart (shelfOf w'.store.cards K) := by
  obtain ⟨w', hw', hcards⟩ : ∃ w', Machine.run (serialStep (kanban String)
      (orderingHandler textIds 1)) twoColumns [createsCard "k" 0 "c" "e", createsCard "k" 7 "d" "f",
        reordersCard "d" "k" 1 "g"] = some w' ∧ shelfOf w'.store.cards "k" = [("c", 1), ("d", 0)] :=
    ⟨_, rfl, by decide⟩
  have hrun := Machine.exec_of_run hw'
  exact ⟨w', hrun, hcards,
    (serial_order_stable ordered_twoColumns.1 ordered_twoColumns.2 hrun).1⟩

/-! ## Where a move puts its card -/

/-- The card has been inserted among the others at the index that the move asks for. -/
def InsertedAt (toPosition : ℤ) (x columnId : ι) (cards cards' : List (CardRow ι)) : Prop :=
  Shelf.order (shelfOf cards' columnId) =
    (Shelf.order (Shelf.others x (shelfOf cards columnId))).insertIdx
      (min (max (toPosition - 1) 0).toNat (Shelf.others x (shelfOf cards columnId)).length) x

instance {toPosition : ℤ} {x columnId : ι} {cards cards' : List (CardRow ι)} :
    Decidable (InsertedAt toPosition x columnId cards cards') :=
  inferInstanceAs (Decidable (_ = _))

/-- How many of the others are below the position that a move asks for, or up to it when the card
goes up in its own column. -/
def landingIndex (toPos : ℤ) (x columnId : ι) (cards : List (CardRow ι)) : ℕ :=
  Shelf.below (if cards.any fun c => c.id = x ∧ c.columnId = columnId ∧ c.position < toPos then
    toPos + 1 else toPos) (Shelf.others x (shelfOf cards columnId))

section Moves

variable {codec : IdCodec ι} {pages : ℕ} {w w' w'' : World (Db ι) (Backend ι)}
  {ctx : RequestContext} {req : MoveCardRequest} {acts : List (Act (Move ι))} {x K : ι}
  {calls : List ((RequestContext × OrderingCall) × List (Act (Move ι)))}
  {t : Thread (Db ι) (Rec ι) (Call ι) (Reply ι) ConnectError Unit}

/-- **Where a successful move puts its card.**  In every state of a serial run a move is the
insertion that it asks for exactly if the number of other cards below its position is the index,
or, when its key was stored, if the card is there already. -/
theorem move_inserts_iff (h : Coherent w.store)
    (hapart : ∀ K, Shelf.Apart (shelfOf w.store.cards K))
    (hrun : Machine.Exec (serialStep (kanban ι) (orderingHandler codec pages)) w calls w')
    (hcall : Machine.Exec (Thread.step (kanban ι))
      (Thread.start (orderingHandler codec pages (ctx, .moveCard req)), w') acts (t, w''))
    (hok : t.prog.result = some (.ok ())) (hobject : ctx.checked.bind codec.parse = some x)
    (hcolumn : codec.parse req.toColumnId = some K) :
    InsertedAt req.toPosition x K w'.store.cards w''.store.cards ↔
      Replayed w'.store (ctx, .moveCard req) ∧
          InsertedAt req.toPosition x K w'.store.cards w'.store.cards ∨
        ¬ Replayed w'.store (ctx, .moveCard req) ∧ landingIndex req.toPos x K w'.store.cards =
          min req.toPos.toNat (Shelf.others x (shelfOf w'.store.cards K)).length := by
  have hordered : Ordered w'.store := (Ordered.of_shelfOf h hapart).serial hrun
  have hordered' : Ordered w''.store := hordered.exec hcall
  have hpos : max (req.toPosition - 1) 0 = req.toPos := by
    unfold MoveCardRequest.toPos
    split <;> omega
  rcases (exec_orderingHandler hordered.coherent.cardKeys hcall).2 hok with
    ⟨hreplayed, hsame⟩ | ⟨hnew, heffects⟩
  · rw [hsame]
    simp [hreplayed]
  · cases heffects with
    | delete hq => cases hq
    | @put tenantId shifts row htenant hcall hputs =>
        cases hcall with
        | create req' hq => cases hq
        | transfer req' hq => cases hq
        | @move _ card req' hq hobject' hcolumn' hcard hct hid hposition =>
            cases hq
            obtain rfl : card.id = x := Option.some.inj (hobject'.symm.trans hobject)
            obtain rfl : row.columnId = K := Option.some.inj (hcolumn'.symm.trans hcolumn)
            have hput := hputs.moved hordered.apart hcard hid hct hposition
            have hrow : row ∈ w''.store.cards := hputs.cards.mem_iff.mpr List.mem_cons_self
            have hothers := hput.others_shelfOf hordered.coherent.oneTenant
              hordered'.coherent.oneTenant hrow
            have horder := hput.order_shelfOf hordered.coherent.oneTenant
              hordered'.coherent.oneTenant hrow
            -- the card goes up in its column if any row of it does
            have hany : w'.store.cards.any (fun c => decide (c.id = card.id ∧
                c.columnId = row.columnId ∧ c.position < req.toPos)) =
                  decide (card.columnId = row.columnId ∧ card.position < req.toPos) := by
              rw [Bool.eq_iff_iff, List.any_eq_true, decide_eq_true_iff]
              constructor
              · rintro ⟨c, hc, hcond⟩
                have hcond := of_decide_eq_true hcond
                rw [← Keyed.eq_of_mem hordered.coherent.cardKeys hc hcard hcond.1]
                exact hcond.2
              · exact fun hcond => ⟨card, hcard, decide_eq_true ⟨rfl, hcond⟩⟩
            have hindex : moveIndex card row.columnId req.toPos w'.store.cards =
                landingIndex req.toPos card.id row.columnId w'.store.cards := by
              unfold moveIndex landingIndex
              rw [← hid, hothers, hputs.tenant, hct]
              simp only [hid, hany, decide_eq_true_eq]
            rw [InsertedAt, hpos, horder, hindex, ← hid, Shelf.insertIdx_inj
              Shelf.not_mem_order_others]
            · simp [hnew]
            · exact Shelf.below_le
            · rw [Shelf.length_order]
              exact min_le_right _ _

end Moves

/-- Two cards, the second of which is moved to the first place. -/
theorem move_inserts_iff_first :
    ∃ w' t w'', Machine.Exec (serialStep (kanban String) (orderingHandler textIds 1)) twoColumns
        [createsCard "k" 0 "c" "e", createsCard "k" 0 "d" "f"] w' ∧
      Machine.Exec (Thread.step (kanban String)) (Thread.start (orderingHandler textIds 1
        (reordersCard "d" "k" 1 "g").1), w') (reordersCard "d" "k" 1 "g").2 (t, w'') ∧
      InsertedAt 1 "d" "k" w'.store.cards w''.store.cards := by
  obtain ⟨w', t, w'', hw', ht, hok, hindex, hkey⟩ : ∃ w' t w'', Machine.run (serialStep
      (kanban String) (orderingHandler textIds 1)) twoColumns
        [createsCard "k" 0 "c" "e", createsCard "k" 0 "d" "f"] = some w' ∧
      Machine.run (Thread.step (kanban String)) (Thread.start (orderingHandler textIds 1
        (reordersCard "d" "k" 1 "g").1), w') (reordersCard "d" "k" 1 "g").2 = some (t, w'') ∧
      t.prog.result = some (.ok ()) ∧ landingIndex 0 "d" "k" w'.store.cards =
        min 0 (Shelf.others "d" (shelfOf w'.store.cards "k")).length ∧
      keyCard w'.store "t" "" = none := ⟨_, _, _, rfl, rfl, rfl, by decide, rfl⟩
  have hrun := Machine.exec_of_run hw'
  have hcall := Machine.exec_of_run ht
  refine ⟨w', t, w'', hrun, hcall, ?_⟩
  exact (move_inserts_iff ordered_twoColumns.1 ordered_twoColumns.2 hrun hcall hok rfl rfl).mpr
    (.inr ⟨not_replayed rfl hkey, hindex⟩)

/-- After the first of three cards was deleted, the last one is dropped on the place that it has,
the second, and gets the first. -/
theorem move_misses_after_delete :
    ∃ w' t w'', Machine.Exec (serialStep (kanban String) (orderingHandler textIds 1)) twoColumns
        [createsCard "k" 0 "c" "e", createsCard "k" 0 "d" "f", createsCard "k" 0 "x" "g",
          deletesCard "c" "h"] w' ∧
      Machine.Exec (Thread.step (kanban String)) (Thread.start (orderingHandler textIds 1
        (reordersCard "x" "k" 2 "i").1), w') (reordersCard "x" "k" 2 "i").2 (t, w'') ∧
      t.prog.result = some (.ok ()) ∧
      Shelf.order (shelfOf w'.store.cards "k") = ["d", "x"] ∧
      Shelf.order (shelfOf w''.store.cards "k") = ["x", "d"] ∧
      ¬ InsertedAt 2 "x" "k" w'.store.cards w''.store.cards := by
  obtain ⟨w', t, w'', hw', ht, hok, hbefore, hafter, hnot⟩ : ∃ w' t w'', Machine.run (serialStep
      (kanban String) (orderingHandler textIds 1)) twoColumns
        [createsCard "k" 0 "c" "e", createsCard "k" 0 "d" "f", createsCard "k" 0 "x" "g",
          deletesCard "c" "h"] = some w' ∧
      Machine.run (Thread.step (kanban String)) (Thread.start (orderingHandler textIds 1
        (reordersCard "x" "k" 2 "i").1), w') (reordersCard "x" "k" 2 "i").2 = some (t, w'') ∧
      t.prog.result = some (.ok ()) ∧ Shelf.order (shelfOf w'.store.cards "k") = ["d", "x"] ∧
      Shelf.order (shelfOf w''.store.cards "k") = ["x", "d"] ∧
      ¬ InsertedAt 2 "x" "k" w'.store.cards w''.store.cards :=
    ⟨_, _, _, rfl, rfl, rfl, by decide, by decide, by decide⟩
  exact ⟨w', t, w'', Machine.exec_of_run hw', Machine.exec_of_run ht, hok, hbefore, hafter, hnot⟩

end Kanban.Rpc
