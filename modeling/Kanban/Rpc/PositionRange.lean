import Kanban.Rpc.Appending

/-!
# Positions in the range of an `INT` column

A position comes from a client, or it is one more than another position.  A column is poisoned when
one of its cards is at the last position of an `INT` column: the next card cannot be appended, and
no range that holds the last card can move up.

## Main definitions

* `InRange` — no card is at the last position.
* `Room` — a call that puts no card at the last position, and shifts none onto it.
* `serial_in_range` — a run of such calls poisons no column.
-/

namespace Kanban.Rpc

open Program Kanban.Store Kanban.Auth
open Kanban.Services (AuthContext ConnectError IdCodec)

variable {ι : Type} [DecidableEq ι]

/-- The last position of an `INT` column. -/
def lastPosition : ℤ := 2147483647

/-- Every card has a position of an `INT` column, and none has the last one. -/
def InRange (cards : List (CardRow ι)) : Prop :=
  ∀ c ∈ cards, -2147483648 ≤ c.position ∧ c.position < lastPosition

/-- The positions of a request are of the type `i32`. -/
def OrderingCall.Int32 : OrderingCall → Prop
  | .createCard req => -2147483648 ≤ req.position ∧ req.position ≤ lastPosition
  | .moveCard req => -2147483648 ≤ req.toPosition ∧ req.toPosition ≤ lastPosition
  | .transferCard _ => True
  | .deleteCard => True

/-- The cards from a position on stay below the last position when they move up by one. -/
def RoomAbove (position : ℤ) (shelf : List (ι × ℤ)) : Prop :=
  ∀ s ∈ shelf, position ≤ s.2 → s.2 + 1 < lastPosition

/-- The call puts no card at the last position and shifts none onto it. -/
def Room (codec : IdCodec ι) (db : Db ι) (q : RequestContext × OrderingCall) : Prop :=
  ∀ t ∈ q.1.auth.bind AuthContext.tenantId,
    match q.2 with
    | .createCard req => ∀ K ∈ codec.parse req.columnId,
        insertedPosition t K req.position db.cards < lastPosition ∧
          (req.position ≠ 0 → RoomAbove req.position (columnShelf db.cards t K))
    | .moveCard req => ∀ K ∈ codec.parse req.toColumnId, ∀ c ∈ db.cards,
        q.1.checked.bind codec.parse = some c.id → c.columnId ≠ K →
          RoomAbove req.toPos (columnShelf db.cards t K)
    | .transferCard req => ∀ K ∈ codec.parse req.targetColumnId,
        Shelf.top (columnShelf db.cards t K) < lastPosition
    | .deleteCard => True

section Decide

instance {position : ℤ} {shelf : List (ι × ℤ)} : Decidable (RoomAbove position shelf) :=
  inferInstanceAs (Decidable (∀ s ∈ shelf, _))

instance {call : OrderingCall} : Decidable call.Int32 :=
  match call with
  | .createCard _ => inferInstanceAs (Decidable (_ ∧ _))
  | .moveCard _ => inferInstanceAs (Decidable (_ ∧ _))
  | .transferCard _ => .isTrue trivial
  | .deleteCard => .isTrue trivial

instance {codec : IdCodec ι} {db : Db ι} {q : RequestContext × OrderingCall} :
    Decidable (Room codec db q) :=
  match q with
  | (_, .createCard _) => inferInstanceAs (Decidable (∀ t ∈ _, ∀ K ∈ _, _ ∧ _))
  | (_, .moveCard _) => inferInstanceAs (Decidable (∀ t ∈ _, ∀ K ∈ _, ∀ c ∈ db.cards, _ → _ → _))
  | (_, .transferCard _) => inferInstanceAs (Decidable (∀ t ∈ _, ∀ K ∈ _, _ < _))
  | (_, .deleteCard) => inferInstanceAs (Decidable (∀ t ∈ _, True))

end Decide

section Arithmetic

variable {codec : IdCodec ι} {q : RequestContext × OrderingCall} {db : Db ι} {t : String} {K : ι}
  {cards cards' : List (CardRow ι)}

theorem int4_isSome {n : ℤ} : (int4 n).isSome ↔ -2147483648 ≤ n ∧ n ≤ lastPosition := by
  unfold int4 lastPosition
  split
  · exact iff_of_true rfl (by omega)
  · exact iff_of_false nofun (by omega)

/-- The position after the cards of a column that is not poisoned. -/
theorem InRange.top (h : InRange cards) :
    -2147483648 ≤ Shelf.top (columnShelf cards t K) ∧
      Shelf.top (columnShelf cards t K) ≤ lastPosition := by
  unfold Shelf.top lastPosition
  cases hmax : ((columnShelf cards t K).map Prod.snd).max? with
  | none => simp
  | some m =>
      obtain ⟨s, hs, rfl⟩ := List.mem_map.mp (List.max?_mem hmax)
      obtain ⟨c, hc, -, -, rfl⟩ := mem_columnShelf.mp hs
      have hrange := h c hc
      unfold lastPosition at hrange
      simp only [Option.getD_some]
      omega

omit [DecidableEq ι] in
theorem InRange.fits_up (h : InRange cards) {range : ℤ → Bool} :
    Shift.Fits ⟨K, range, 1⟩ t cards := by
  intro c hc _
  have hrange := h c hc
  rw [int4_isSome]
  dsimp only
  omega

omit [DecidableEq ι] in
/-- The cards above a card of the column move down. -/
theorem InRange.fits_down (h : InRange cards) {range : ℤ → Bool} {card : CardRow ι}
    (hcard : card ∈ cards) (hbelow : ∀ p, range p → card.position < p) :
    Shift.Fits ⟨K, range, -1⟩ t cards := by
  intro c hc hin
  have hrange := h c hc
  have hcard := h card hcard
  have hlt := hbelow c.position hin.2.2
  rw [int4_isSome]
  dsimp only
  omega

theorem InRange.moveShifts (h : InRange cards) {card : CardRow ι} {toPos : ℤ} (hcard : card ∈ cards)
    {s : Shift ι} (hs : s ∈ moveShifts card K toPos) : s.Fits t cards := by
  unfold Rpc.moveShifts at hs
  split at hs
  · split at hs
    · cases hs
    · split at hs
      · rw [List.mem_singleton.mp hs]
        exact h.fits_down hcard fun p hp => (of_decide_eq_true hp).1
      · rw [List.mem_singleton.mp hs]
        exact h.fits_up
  · rcases List.mem_cons.mp hs with rfl | hs
    · exact h.fits_down hcard fun p hp => of_decide_eq_true hp
    · rw [List.mem_singleton.mp hs]
      exact h.fits_up

/-- **No arithmetic overflows** where no card is at the last position. -/
theorem InRange.not_overflows (h : InRange db.cards) : ¬ Overflows codec db q := by
  have htop : ∀ t K, nextPosition t K db ≠ none := fun t K hnone => by
    have := nextPosition_isSome.mpr (int4_isSome.mpr (h.top (t := t) (K := K)))
    simp [hnone] at this
  have hshift : ∀ {s : Shift ι} {t : String}, s.Fits t db.cards →
      shiftCards t s.columnId s.range s.delta db ≠ none := fun hs hnone => by
    simpa [hnone] using shiftCards_isSome hs
  intro hover
  cases hover with
  | append req hq htenant hcolumn hpos hnone => exact htop _ _ hnone
  | insert req hq htenant hcolumn hpos hnone => exact hshift (s := ⟨_, _, 1⟩) h.fits_up hnone
  | move req hq htenant hobject hcard hcolumn hs hnone =>
      exact hshift (h.moveShifts hcard hs) hnone
  | transfer req hq htenant hcolumn hnone => exact htop _ _ hnone

/-- The cards after a shift are in range if those that move are. -/
theorem InRange.apply (h : InRange cards) {s : Shift ι} (hfits : s.Fits t cards)
    (hroom : ∀ c ∈ cards, c.columnId = s.columnId → c.tenantId = t → s.range c.position →
      c.position + s.delta < lastPosition) : InRange (s.apply t cards) := by
  intro c' hc'
  obtain ⟨c, hc, rfl⟩ := List.mem_map.mp hc'
  split
  · rename_i hin
    exact ⟨(int4_isSome.mp (hfits c hc hin)).1, hroom c hc hin.1 hin.2.1 hin.2.2⟩
  · exact h c hc

theorem InRange.put (h : InRange cards) {row : CardRow ι} {x : ι}
    (hrow : -2147483648 ≤ row.position ∧ row.position < lastPosition)
    (hperm : cards'.Perm (row :: otherCards cards x)) : InRange cards' := by
  intro c hc
  rcases List.mem_cons.mp (hperm.mem_iff.mp hc) with rfl | hc
  · exact hrow
  · exact h c (List.mem_filter.mp hc).1

/-- A move shifts no card onto the last position if its target column has room. -/
theorem InRange.shiftAll_moveShifts (h : InRange cards) {card : CardRow ι} {toPos : ℤ}
    (hcard : card ∈ cards)
    (hroom : card.columnId ≠ K → RoomAbove toPos (columnShelf cards t K)) :
    InRange (shiftAll t (Rpc.moveShifts card K toPos) cards) := by
  have hdown : ∀ range : ℤ → Bool, (∀ p, range p → card.position < p) →
      InRange (Shift.apply ⟨card.columnId, range, -1⟩ t cards) := fun _ hbelow =>
    h.apply (h.fits_down hcard hbelow) fun c hc _ _ _ => by
      have := h c hc
      dsimp only
      omega
  unfold Rpc.moveShifts
  split
  · split
    · exact h
    · split
      · exact hdown _ fun p hp => (of_decide_eq_true hp).1
      · refine h.apply h.fits_up fun c _ _ _ hp => ?_
        have hp := (of_decide_eq_true hp).2
        have := h card hcard
        dsimp only
        omega
  · rename_i hK
    have h₁ := hdown (fun p => card.position < p) fun p hp => of_decide_eq_true hp
    refine h₁.apply h₁.fits_up fun c hc hcol htenant hp => ?_
    have hmem : (c.id, c.position) ∈ columnShelf cards t K := by
      rw [← columnShelf_shift_of_ne (s := ⟨card.columnId, fun p => card.position < p, -1⟩)
        (t := t) fun hsame : _ ∧ t = t => hK hsame.1]
      exact mem_columnShelf.mpr ⟨c, hc, hcol, htenant, rfl⟩
    exact hroom hK _ hmem (of_decide_eq_true hp)

/-- A call that has room keeps the cards in range. -/
theorem Effects.inRange (h : Effects codec q cards cards') (hcards : InRange cards)
    (hdb : db.cards = cards) (hint : q.2.Int32) (hroom : Room codec db q) : InRange cards' := by
  subst hdb
  obtain ⟨ctx, call⟩ := q
  cases h with
  | delete hq hobject heq =>
      subst heq
      exact fun c hc => hcards c (List.mem_filter.mp hc).1
  | @put t shifts row htenant hcall hputs =>
      have hroom := hroom t htenant
      cases hcall with
      | create req hq hcolumn hnew hpos hfits =>
          subst hq
          obtain ⟨hlast, habove⟩ := hroom _ hcolumn
          rw [← hpos] at hlast
          unfold insertShifts insertedPosition at *
          split at hputs
          · rw [if_pos ‹_›] at hpos
            exact hcards.put ⟨hpos ▸ hcards.top.1, hlast⟩ hputs.cards
          · rename_i hzero
            rw [if_neg hzero] at hpos
            refine InRange.put ?_ ⟨hpos ▸ hint.1, hlast⟩ hputs.cards
            refine hcards.apply hcards.fits_up fun c hc hcol hten hp => ?_
            exact habove hzero _ (mem_columnShelf.mpr ⟨c, hc, hcol, hten, rfl⟩) (of_decide_eq_true hp)
      | @move _ card req hq hobject hcolumn hcard hct hid hpos =>
          subst hq
          have hto : 0 ≤ req.toPos ∧ req.toPos < lastPosition := by
            have := hint.2
            unfold MoveCardRequest.toPos lastPosition at *
            split <;> omega
          refine InRange.put ?_ ⟨by omega, hpos ▸ hto.2⟩ hputs.cards
          exact hcards.shiftAll_moveShifts hcard fun hK => hroom _ hcolumn card hcard hobject hK
      | transfer req hq hobject hcolumn hcard hpos hfits =>
          subst hq
          exact hcards.put ⟨hpos ▸ hcards.top.1, hpos ▸ hroom _ hcolumn⟩ hputs.cards

end Arithmetic

section Runs

variable {codec : IdCodec ι} {pages : ℕ} {w w' : World (Db ι) (Backend ι)}
  {calls : List ((RequestContext × OrderingCall) × List (Act (Move ι)))}

/-- **No poisoned column.**  In a run of calls that put no card at the last position and shift none
onto it, the arithmetic of no call overflows in any state, and a card can be appended to every
column: a CreateCard at position 0 of which nothing else is refused goes through. -/
theorem serial_in_range (hcoherent : Coherent w.store) (h : InRange w.store.cards)
    (hrun : Machine.ExecWhile (serialStep (kanban ι) (orderingHandler codec pages))
      (fun w call => call.1.2.Int32 ∧ Room codec w.store call.1) w calls w') :
    (∀ q, ¬ Overflows codec w'.store q) ∧
      (∀ t K, (nextPosition t K w'.store).isSome) ∧
      (∀ req, (OrderingCall.moveCard req).Int32 → (int4 req.toPos).isSome) ∧
      ∀ up ctx req t K board, Infinite ι → Admitted codec w' ctx req t K board → req.position = 0 →
        up t = true → GoesThrough ((kanban ι).limit (clientUp up)) (createCard codec ctx req) w'
          fun w'' => Appended w'.store t K w''.store := by
  have hrange : Coherent w'.store ∧ InRange w'.store.cards := by
    refine hrun.invariant (fun w => Coherent w.store ∧ InRange w.store.cards) ⟨hcoherent, h⟩ ?_
    rintro w ⟨q, acts⟩ w' ⟨hcoherent, hw⟩ ⟨hint, hroom⟩ hs
    obtain ⟨⟨t, w''⟩, ht, rfl⟩ := Option.map_eq_some_iff.mp hs
    have hcall := Machine.exec_of_run ht
    refine ⟨hcoherent.exec hcall, ?_⟩
    rcases (exec_orderingHandler hcoherent.cardKeys hcall).1 with hsame | heffects
    · dsimp only
      rw [hsame]
      exact hw
    · exact heffects.inRange hw rfl hint hroom
  refine ⟨fun q => hrange.2.not_overflows, fun t K => ?_, fun req hreq => ?_, ?_⟩
  · exact nextPosition_isSome.mpr (int4_isSome.mpr hrange.2.top)
  · rw [int4_isSome]
    obtain ⟨hlow, hhigh⟩ := hreq
    unfold MoveCardRequest.toPos lastPosition at *
    split <;> omega
  · intro up ctx req t K board _ hadmitted hzero hup
    have hroom := int4_isSome.mpr (hrange.2.top (t := t) (K := K))
    exact (sure_createCard hrange.1 hadmitted hzero hup hroom).goesThrough

end Runs

instance {q : RequestContext × OrderingCall} {w : World (Db String) (Backend String)} :
    Decidable (q.2.Int32 ∧ Room textIds w.store q) := instDecidableAnd

/-- Two cards are appended, and one is inserted far away; another can still be appended. -/
theorem serial_in_range_appended :
    ∃ w', Machine.Exec (serialStep (kanban String) (orderingHandler textIds 1)) twoColumns
        [createsCard "k" 0 "c" "e", createsCard "k" 2147483645 "d" "f", createsCard "k" 0 "x" "g"] w' ∧
      shelfOf w'.store.cards "k" = [("c", 0), ("d", 2147483645), ("x", 2147483646)] ∧
      (∀ q, ¬ Overflows textIds w'.store q) ∧
      GoesThrough ((kanban String).limit (clientUp fun _ => true)) (createCard textIds (annOn "b")
        ⟨"k", "Ship", "", 0, none, "", 0, "", 0⟩) w' fun w'' => Appended w'.store "t" "k" w''.store := by
  obtain ⟨w', hw', hcards, hadmitted⟩ : ∃ w', Machine.run (Machine.guarded (serialStep (kanban String)
      (orderingHandler textIds 1)) fun w call => call.1.2.Int32 ∧ Room textIds w.store call.1)
      twoColumns [createsCard "k" 0 "c" "e", createsCard "k" 2147483645 "d" "f",
        createsCard "k" 0 "x" "g"] = some w' ∧
      shelfOf w'.store.cards "k" = [("c", 0), ("d", 2147483645), ("x", 2147483646)] ∧
      ∃ board, Admitted textIds w' (annOn "b") ⟨"k", "Ship", "", 0, none, "", 0, "", 0⟩ "t" "k" board := by
    refine ⟨_, rfl, by decide, ⟨"b", "t", "p", "Board", "BOARD", "", none, "", 3⟩, ?_⟩
    exact {
      tenant := rfl
      subject := rfl
      title := by decide
      key := rfl
      object := rfl
      stored := by decide
      project := by decide
      column := ⟨rfl, _, List.mem_cons_self, rfl, rfl, rfl⟩
      milestone := .inl rfl
      ref := by decide
      cardIds := by decide
      eventIds := by decide }
  obtain ⟨board, hadmitted⟩ := hadmitted
  have hrun := Machine.execWhile_of_run hw'
  have hnone : InRange twoColumns.store.cards := by simp [InRange, twoColumns, Db.empty]
  obtain ⟨hover, -, -, happend⟩ := serial_in_range ordered_twoColumns.1 hnone hrun
  exact ⟨w', hrun.exec, hcards, hover,
    happend (fun _ => true) _ _ _ _ _ inferInstance hadmitted rfl rfl⟩

/-- A card that is created at the last position poisons its column: nothing can be appended to it. -/
theorem append_fails_after_last :
    ∃ w', Machine.Exec (serialStep (kanban String) (orderingHandler textIds 1)) twoColumns
        [createsCard "k" 2147483647 "c" "e"] w' ∧
      (shelfOf w'.store.cards "k").length = 1 ∧ nextPosition "t" "k" w'.store = none ∧
      Overflows textIds w'.store (createsCard "k" 0 "d" "f").1 ∧
      ∀ acts t w'', Machine.Exec (Thread.step (kanban String)) (Thread.start (orderingHandler textIds
        1 (createsCard "k" 0 "d" "f").1), w') acts (t, w'') → t.prog.result ≠ some (.ok ()) := by
  obtain ⟨w', hw', hone, hnext, hkey⟩ : ∃ w', Machine.run (serialStep (kanban String)
      (orderingHandler textIds 1)) twoColumns [createsCard "k" 2147483647 "c" "e"] = some w' ∧
      (shelfOf w'.store.cards "k").length = 1 ∧ nextPosition "t" "k" w'.store = none ∧
      keyCard w'.store "t" "" = none := ⟨_, rfl, by decide, rfl, rfl⟩
  have hrun := Machine.exec_of_run hw'
  have hover : Overflows textIds w'.store (createsCard "k" 0 "d" "f").1 :=
    .append _ rfl rfl rfl rfl hnext
  have hordered := (Ordered.of_shelfOf ordered_twoColumns.1 ordered_twoColumns.2).serial hrun
  refine ⟨w', hrun, hone, hnext, hover, fun acts t w'' hcall hok => ?_⟩
  rcases (exec_orderingHandler hordered.coherent.cardKeys hcall).2 hok with hreplayed | heffects
  · exact not_replayed (t := "t") rfl hkey hreplayed.1
  · exact not_overflows_of_effects hordered.coherent.cardKeys heffects.2 hover

end Kanban.Rpc
