import Kanban.Rpc.Completion

/-!
# The event that a call writes

A call that runs alone appends its events to those that are there.  What it says and what it does are
two tables of one store, so the calls are followed over both: the cards, and the rows of `event_log`.

## Main definitions

* `Story`, `Db.story` — the cards and the events of a store.
* `Says` — a row of `event_log` that says something to a board.
-/

namespace Kanban.Store

/-- What a store holds of the cards and of the events. -/
structure Story (ι : Type) where
  cards : List (CardRow ι)
  events : List (EventRow ι)

def Db.story (db : Db ι) : Story ι := ⟨db.cards, db.eventLog⟩

end Kanban.Store

namespace Kanban.Rpc

open Program Kanban.Store Kanban.Auth
open Kanban.Services (AuthContext ConnectError IdCodec)

variable {ι α β : Type} [DecidableEq ι]

theorem stored_eventLog : Table.Stored (kanban ι) Db.eventLogT where
  inj _ _ h := by cases h; rfl
  put _ _ := rfl
  del _ _ := rfl
  other _ a h := by rcases a with (r | r) <;> cases r <;> first | rfl | exact absurd rfl (h _)

/-- A write of another table than those of the cards and of the events. -/
def Elsewhere (a : Write (Rec ι)) : Prop :=
  match a.record with
  | .card _ => False
  | .event _ => False
  | _ => True

theorem story_applyAll {db : Db ι} {ws : List (Write (Rec ι))} (h : ∀ a ∈ ws, Elsewhere a) :
    ((kanban ι).applyAll db ws).story = db.story := by
  refine congrArg₂ Story.mk (stored_cards.rows_applyAll fun a ha c heq => ?_)
    (stored_eventLog.rows_applyAll fun a ha e heq => ?_)
  · have hne := h a ha
    rw [Elsewhere, heq] at hne
    exact hne
  · have hne := h a ha
    rw [Elsewhere, heq] at hne
    exact hne

omit [DecidableEq ι] in
theorem Quiet.elsewhere {ws : List (Write (Rec ι))} (h : Quiet ws) : ∀ a ∈ ws, Elsewhere a := by
  intro a ha
  obtain ⟨r, rfl⟩ := h a ha
  trivial

/-- The row says `payload` to the board. -/
structure Says (boardId : ι) (eventType : String) (payload : Payload) (e : EventRow ι) : Prop where
  board : e.boardId = some boardId
  type : e.eventType = eventType
  payload : ∃ revision, e.payload = withBoardRevision payload revision

/-- A statement that updates the row of a card. -/
theorem story_updateCardRow {v : Db ι} {t : String} {x : ι} {f : CardRow ι → CardRow ι}
    {e : Effect (Rec ι) (List (CardRow ι))} {row : CardRow ι} (hv : Keyed v)
    (he : updateCardRow t x f v = some e) (hf : ∀ c, (f c).id = c.id)
    (hrow : e.answer.head? = some row) :
    (∃ c ∈ v.cards, c.id = x ∧ c.tenantId = t ∧ row = f c) ∧
      ((kanban ι).applyAll v e.writes).eventLog = v.eventLog ∧
      ((kanban ι).applyAll v e.writes).cards =
        v.cards.map fun c => if c.id = x ∧ c.tenantId = t then f c else c := by
  obtain ⟨c, hc, hid, ht, hrow', -⟩ := cards_updateCardRow hv he hf hrow
  refine ⟨⟨c, hc, hid, ht, hrow'⟩, ?_, ?_⟩
  · refine stored_eventLog.rows_applyAll fun a ha r heq => ?_
    obtain ⟨c', rfl | rfl⟩ := Table.within_update v e he a ha <;> cases heq
  · refine (stored_cards.rows_update same_cards he hf hv).trans (List.map_congr_left fun c _ => ?_)
    simp only [decide_eq_true_eq]

/-! ## In a transaction -/

section Transaction

variable {v : Db ι}

/-- Statements that are about other tables. -/
theorem soloTx_elsewhere {p : Handler ι α} (hp : p.Strict fun ws => ∀ a ∈ ws, Elsewhere a) :
    SoloTx (kanban ι) p v fun _ v' => v'.story = v.story :=
  SoloTx.of_strict (R := fun v v' : Db ι => v'.story = v.story) (fun _ => rfl)
    (fun _ _ _ h h' => h'.trans h) (fun _ _ hws => story_applyAll hws) hp

theorem soloTx_insertBoardEvent {tenantId eventType : String} {boardId : ι} {payload : Payload} :
    SoloTx (kanban ι) (insertBoardEvent tenantId boardId eventType payload) v fun _ v' =>
      v'.cards = v.cards ∧ ∃ e, Says boardId eventType payload e ∧ v'.eventLog = v.eventLog ++ [e] := by
  refine soloTx_bind (soloTx_fetchOne fun e board he _ => ?_)
  have hboards : ((kanban ι).applyAll v e.writes).story = v.story := by
    refine story_applyAll fun a ha => ?_
    obtain ⟨b, rfl | rfl⟩ := Table.within_update v e he a ha
    · trivial
    · trivial
  generalize (kanban ι).applyAll v e.writes = v₁ at hboards
  refine soloTx_bind (soloTx_call fun i => soloTx_pure (soloTx_bind (soloTx_query fun e he => ?_)))
  refine soloTx_query fun e' he' => ?_
  cases he'
  refine ⟨?_, ⟨i, tenantId, some boardId, none, none, eventType,
    withBoardRevision payload board.revision⟩, ⟨rfl, rfl, board.revision, rfl⟩, ?_⟩
  · refine Eq.trans ?_ (congrArg Story.cards hboards)
    change ((kanban ι).applyAll v₁ e.writes).cards = v₁.cards
    refine stored_cards.rows_applyAll fun a ha c heq => ?_
    obtain ⟨r, rfl | rfl⟩ := Table.within_insert v₁ e he a ha <;> cases heq
  · exact (stored_eventLog.rows_insert he).1.trans (congrArg (· ++ _) (congrArg Story.events hboards))

end Transaction

/-! ## Outside of a transaction -/

section Idle

variable {P : Story ι → Prop} {v : Db ι} {Q : α → Tx (Rec ι) → Db ι → Prop}

/-- The row of a card is updated at once. -/
theorem solo_updateCardRow_bind {msg t : String} {err : ConnectError} {x : ι}
    {f : CardRow ι → CardRow ι} {g : CardRow ι → Handler ι α} (hv : Keyed v)
    (hf : ∀ c, (f c).id = c.id)
    (h : ∀ c ∈ v.cards, c.id = x → c.tenantId = t → ∀ v', v'.eventLog = v.eventLog →
      (v'.cards = v.cards.map fun c => if c.id = x ∧ c.tenantId = t then f c else c) →
      Solo (kanban ι) (fun _ => True) (g (f c)) .idle v' Q) :
    Solo (kanban ι) (fun _ => True) ((fetchOr msg err (updateCardRow t x f)).bind g) .idle v Q := by
  refine solo_bind (solo_bind (solo_bind (solo_stmt_idle (fun e he => ⟨.inr trivial, ?_⟩) solo_fail)))
  refine solo_pure (solo_pure ?_)
  cases hrow : e.answer.head? with
  | none => exact solo_fail
  | some row =>
      obtain ⟨⟨c, hc, hid, ht, rfl⟩, hlog, hcards⟩ := story_updateCardRow hv he hf hrow
      exact solo_pure (h c hc hid ht _ hlog hcards)

/-- The last thing that a call does. -/
theorem solo_tame_story {p : Handler ι α} (hp : Tame p) (hv : P v.story)
    (h : ∀ a v', v'.story = v.story → Q a .idle v') :
    Solo (kanban ι) (fun v => P v.story) p .idle v Q := by
  refine (Solo.of_only_idle (R := fun v v' : Db ι => v'.story = v.story) (fun _ => rfl)
    (fun _ _ _ h h' => h'.trans h) (fun v ws hws => story_applyAll hws.elsewhere) hp fun v' hv' => ?_).mono ?_
  · rw [hv']
    exact hv
  · rintro a tx v' ⟨rfl, hv'⟩
    exact h a v' hv'

end Idle

end Kanban.Rpc
